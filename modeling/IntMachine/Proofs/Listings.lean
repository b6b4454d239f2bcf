import IntMachine.Memory.Listing
import IntMachine.Proofs.Separators
import IntMachine.Text.Newline
import Mathlib.Data.List.Intervals
/-!
# What the two listings show

A listing of all cells can be read back: `Memory.readListing?` reads it line by line, each line
on its own, and finds the rows that were written (`readListing?_listing`). One behind the
other, the rows hold what the window on the whole memory holds (`flatMap_table`), and a window
on a part of it holds the cells whose addresses were asked for (`window_eq_filter`), whichever
end of the range lies outside the memory.
-/

namespace IntMachine.Text

/-! ## Lines -/

section Lines

variable {piece rest before : List Char} {done : Array (List Char)} {lines : List (List Char)}

/-- A line feed ends the line under way. -/
theorem linesFrom_append_lf (h : '\n' ∉ piece) :
    linesFrom (piece ++ '\n' :: rest) before done =
      linesFrom rest [] (done.push (before.reverse ++ piece)) := by
  induction piece generalizing before with
  | nil => rw [List.nil_append, linesFrom, if_pos rfl, List.append_nil]
  | cons c piece ih =>
    obtain ⟨hc, hpiece⟩ := not_or.1 (List.mem_cons.not.1 h)
    rw [List.cons_append, linesFrom, if_neg (Ne.symm hc), ih hpiece]
    simp

/-- What is left is the last line, unless it is empty. -/
theorem linesFrom_last (h : '\n' ∉ piece) (hne : before.reverse ++ piece ≠ []) :
    linesFrom piece before done = (done.push (before.reverse ++ piece)).toList := by
  induction piece generalizing before with
  | nil =>
    obtain ⟨c, others, rfl⟩ := List.exists_cons_of_ne_nil (show before ≠ [] by simpa using hne)
    rw [linesFrom, List.append_nil]
    exact List.cons_ne_nil c others
  | cons c piece ih =>
    obtain ⟨hc, hpiece⟩ := not_or.1 (List.mem_cons.not.1 h)
    rw [linesFrom, if_neg (Ne.symm hc), ih hpiece (by simp)]
    simp

theorem linesFrom_intercalate (h : ∀ line ∈ lines, line ≠ [] ∧ '\n' ∉ line) :
    linesFrom (['\n'].intercalate lines) [] done = done.toList ++ lines := by
  induction lines generalizing done with
  | nil => simp [linesFrom]
  | cons line lines ih =>
    obtain ⟨⟨hne, hline⟩, hrest⟩ := List.forall_mem_cons.1 h
    rcases eq_or_ne lines [] with rfl | hmore
    · rw [List.intercalate_singleton, linesFrom_last hline (by simpa using hne)]
      simp
    · rw [List.intercalate_cons_of_ne_nil hmore, List.append_assoc, List.singleton_append,
        linesFrom_append_lf hline, ih hrest]
      simp

/-- **Joined lines are found again**, if none of them is empty. -/
theorem linesOf_intercalate {lines : List String}
    (h : ∀ line ∈ lines, line ≠ "" ∧ '\n' ∉ line.toList) :
    linesOf ("\n".intercalate lines) = lines := by
  have hlines : ∀ line ∈ lines.map String.toList, line ≠ [] ∧ '\n' ∉ line := by
    intro line hline
    obtain ⟨s, hs, rfl⟩ := List.mem_map.1 hline
    exact ⟨by simpa using (h s hs).1, (h s hs).2⟩
  have hcut : linesFrom (['\n'].intercalate (lines.map String.toList)) [] #[] =
      lines.map String.toList := linesFrom_intercalate hlines
  rw [linesOf, String.toList_intercalate, show "\n".toList = ['\n'] from rfl, hcut]
  simp

end Lines

end IntMachine.Text

namespace IntMachine.Memory

open Text

/-! ## Rows and their lines -/

/-- A row of a listing: the address of its first cell, and the cells from there on. -/
structure Row where
  base : Nat
  cells : List Int
  deriving DecidableEq, Repr

variable {m : Memory} {r : Row} {width k : Nat}

namespace Row

/-- The cells of a row with their addresses. -/
def entries (r : Row) : List (Nat × Int) := r.cells.mapIdx fun j v => (r.base + j, v)

/-- The line that shows a row. -/
def text (r : Row) : String := s!"{r.base}: " ++ " ".intercalate (r.cells.map toString)

/-- Reads a line: an address in front of a colon and a blank, and behind them integers with a
blank between each two. -/
def read? (line : String) : Option Row :=
  match splitOn [':', ' '] line.toList with
  | [address, integers] =>
    match (readPlain? address).bind Int.toNat?, (splitOn [' '] integers).mapM readPlain? with
    | some base, some cells => some ⟨base, cells⟩
    | _, _ => none
  | _ => none

/-- The two halves of a line: the address and the integers. -/
def halves (r : Row) : List (List Char) :=
  [(toString (r.base : Int)).toList,
    [' '].intercalate (r.cells.map fun v => (toString v).toList)]

theorem toList_text (r : Row) : r.text.toList = [':', ' '].intercalate r.halves := by
  have haddress : (s!"{r.base}: ").toList = (toString (r.base : Int)).toList ++ [':', ' '] := by
    rw [toList_toString_natCast]
    simp [toString]
  have hintegers : (" ".intercalate (r.cells.map toString)).toList =
      [' '].intercalate (r.cells.map fun v => (toString v).toList) := by
    rw [String.toList_intercalate, List.map_map]
    rfl
  rw [text, halves, List.intercalate_cons_of_ne_nil (List.cons_ne_nil _ _),
    List.intercalate_singleton, String.toList_append, haddress, hintegers]

theorem not_mem_halves {c : Char} (hdigit : ¬ c.isDigit) (hminus : c ≠ '-') (hblank : c ≠ ' ') :
    ∀ half ∈ r.halves, c ∉ half := by
  have hintegers : c ∉ [' '].intercalate (r.cells.map fun v => (toString v).toList) := by
    refine not_mem_intercalate (by simpa using hblank) fun piece hpiece => ?_
    obtain ⟨v, -, rfl⟩ := List.mem_map.1 hpiece
    exact not_mem_toString hdigit hminus v
  intro half hhalf
  rcases List.mem_pair.1 hhalf with rfl | rfl
  · exact not_mem_toString hdigit hminus r.base
  · exact hintegers

/-- **A row is read back from its line.** -/
theorem read?_text (h : r.cells ≠ []) : read? r.text = some r := by
  -- the colon tells the one joint of the halves from the blanks between the integers
  have hline : splitOn [':', ' '] r.text.toList = r.halves := by
    rw [toList_text]
    exact splitOn_intercalate_of_mem (c := ':') (by decide) (List.cons_ne_nil _ _)
      (not_mem_halves (by decide) (by decide) (by decide))
  have hcells : (splitOn [' '] ([' '].intercalate (r.cells.map fun v => (toString v).toList))).mapM
      readPlain? = some r.cells :=
    mapM_splitOn_intercalate (c := ' ') (by decide) h
      (fun v _ => not_mem_toString (by decide) (by decide) v) fun v _ => readPlain?_toString v
  rw [read?, hline, halves]
  simp only [readPlain?_toString, hcells]
  rfl

theorem text_ne_empty (r : Row) : r.text ≠ "" := by
  simp [text]

/-- A row takes one line. -/
theorem lf_not_mem_text (r : Row) : '\n' ∉ r.text.toList := by
  rw [toList_text]
  exact not_mem_intercalate (by decide) (not_mem_halves (by decide) (by decide) (by decide))

end Row

/-- Reads a listing line by line. -/
def readListing? (text : String) : Option (List Row) := (linesOf text).mapM Row.read?

/-- **Rows are read back from their lines**, if each of them has a cell. -/
theorem readListing?_intercalate {rows : List Row} (h : ∀ r ∈ rows, r.cells ≠ []) :
    readListing? ("\n".intercalate (rows.map Row.text)) = some rows := by
  have hlines : ∀ line ∈ rows.map Row.text, line ≠ "" ∧ '\n' ∉ line.toList := by
    intro line hline
    obtain ⟨r, -, rfl⟩ := List.mem_map.1 hline
    exact ⟨r.text_ne_empty, r.lf_not_mem_text⟩
  rw [readListing?, linesOf_intercalate hlines]
  exact mapM_map_of_read fun r hr => Row.read?_text (h r hr)

/-! ## The rows of a listing -/

/-- The row of the given width from an address on. -/
def rowFrom (m : Memory) (width base : Nat) : Row :=
  ⟨base, (m.cells.extract base (base + width)).toList⟩

/-- The rows that a listing shows. -/
def table (m : Memory) (width : Nat) : List Row :=
  (List.range ((m.size + width - 1) / width)).map fun k => m.rowFrom width (k * width)

theorem rows_eq (m : Memory) (width : Nat) : m.rows width = (m.table width).map Row.text := by
  rw [rows, table, List.map_map]
  rfl

theorem length_rowFrom (m : Memory) (width base : Nat) :
    (m.rowFrom width base).cells.length = min width (m.size - base) := by
  simp only [rowFrom, Array.length_toList, Array.size_extract, size]
  omega

/-- There is a row for each multiple of the width that is an address. -/
theorem lt_length_table_iff (hwidth : 0 < width) :
    k < (m.table width).length ↔ k * width < m.size := by
  rw [table, List.length_map, List.length_range, Nat.lt_div_iff_mul_lt hwidth]
  omega

/-- **Each row of a listing begins at its multiple of the width**, which is an address. -/
theorem of_getElem?_table (hwidth : 0 < width) (h : (m.table width)[k]? = some r) :
    r = m.rowFrom width (k * width) ∧ k * width < m.size := by
  have hk : k < (m.table width).length := (List.getElem?_eq_some_iff.1 h).1
  refine ⟨?_, (lt_length_table_iff hwidth).1 hk⟩
  rw [List.getElem?_eq_getElem hk] at h
  simpa [table] using h.symm

theorem ne_nil_of_mem_table (hwidth : 0 < width) (h : r ∈ m.table width) : r.cells ≠ [] := by
  obtain ⟨k, hk⟩ := List.mem_iff_getElem?.1 h
  obtain ⟨rfl, hbase⟩ := of_getElem?_table hwidth hk
  have hlen := m.length_rowFrom width (k * width)
  rw [← List.length_pos_iff]
  omega

/-- **A listing is read back**, and what is found are its rows. -/
theorem readListing?_listing (hwidth : 0 < width) :
    ∃ text, m.listing width = .ok text ∧ readListing? text = some (m.table width) := by
  have hpos : ((width : Nat) : Int) ≠ 0 ∧ ¬ (width : Int) < 0 := by omega
  refine ⟨"\n".intercalate (m.rows width), ?_, ?_⟩
  · rw [listing, if_neg hpos.1, if_neg hpos.2, Int.toNat_natCast]
  · rw [rows_eq]
    exact readListing?_intercalate fun r hr => ne_nil_of_mem_table hwidth hr

/-! ## Rows and windows -/

/-- The whole memory. -/
theorem window_eq_map (m : Memory) : m.window = (List.range m.size).map fun a => (a, m.cell a) := by
  simp [window, List.range_eq_range']

theorem getElem?_window (m : Memory) (a : Nat) :
    m.window[a]? = m.toList[a]?.map fun v => (a, v) := by
  rw [window_eq_map, List.getElem?_map]
  rcases Nat.lt_or_ge a m.size with ha | ha
  · have hcell : m.toList[a]? = some (m.cell a) := by
      simp [toList, cell, Array.getElem?_eq_getElem (show a < m.cells.size from ha)]
    rw [List.getElem?_range ha, hcell]
    rfl
  · have hlen : m.toList.length = m.size := Array.length_toList
    rw [List.getElem?_eq_none (by simpa using ha), List.getElem?_eq_none (by omega)]
    rfl

theorem entries_rowFrom (m : Memory) (width base : Nat) :
    (m.rowFrom width base).entries = (m.window.drop base).take width := by
  refine List.ext_getElem? fun j => ?_
  rw [Row.entries, List.getElem?_mapIdx, rowFrom, Array.toList_extract, List.extract_eq_take_drop,
    Nat.add_sub_cancel_left, List.getElem?_take, List.getElem?_take]
  split
  · rw [List.getElem?_drop, List.getElem?_drop, getElem?_window]
    rfl
  · rfl

/-- Parts of one length, one behind the other. -/
theorem flatMap_take_drop {α : Type*} (xs : List α) (width count : Nat) :
    ((List.range count).flatMap fun k => (xs.drop (k * width)).take width) =
      xs.take (count * width) := by
  induction count with
  | zero => simp
  | succ count ih =>
    rw [List.range_succ, List.flatMap_append, ih, Nat.succ_mul, List.take_add]
    simp

/-- **The rows of a listing hold every cell once**, each at its address. -/
theorem flatMap_table (m : Memory) (hwidth : 0 < width) :
    (m.table width).flatMap Row.entries = m.window := by
  -- one more row would begin behind the memory
  have hend : m.size ≤ (m.table width).length * width := by
    have := (lt_length_table_iff (m := m) (k := (m.table width).length) hwidth).not.1 (lt_irrefl _)
    omega
  calc (m.table width).flatMap Row.entries
      = (List.range (m.table width).length).flatMap fun k =>
          (m.window.drop (k * width)).take width := by
        rw [table, List.flatMap_map, List.length_map, List.length_range]
        simp only [entries_rowFrom]
    _ = m.window.take ((m.table width).length * width) := flatMap_take_drop _ _ _
    _ = m.window := List.take_of_length_le (by simpa [window_eq_map] using hend)

/-- Every address is listed once, and the value beside it is the cell there. -/
theorem unzip_window (m : Memory) :
    m.window.map Prod.fst = List.range m.size ∧ m.window.map Prod.snd = m.toList := by
  constructor
  · rw [window_eq_map, List.map_map]
    exact List.map_id _
  · refine List.ext_getElem? fun a => ?_
    rw [List.getElem?_map, getElem?_window, Option.map_map]
    exact Option.map_id'

/-- The addresses of a range that are within the memory. -/
theorem filter_range_eq_ico (size first stop : Nat) :
    ((List.range size).filter fun a => decide (first ≤ a) && decide (a < stop)) =
      List.Ico first (min stop size) := by
  rw [← List.filter_filter, ← List.Ico.zero_bot, List.Ico.filter_lt, List.Ico.filter_le,
    Nat.zero_max, Nat.min_comm]

/-- **A window shows the cells whose addresses are in its range**, also if the range begins
below zero, ends behind the memory or ends before it begins. -/
theorem window_eq_filter (m : Memory) (start count : Int) :
    m.window start (some count) =
      m.window.filter fun e => start ≤ e.1 ∧ (e.1 : Int) < start + count := by
  have haddress : ((fun e : Nat × Int => decide (start ≤ e.1 ∧ (e.1 : Int) < start + count)) ∘
      fun a => (a, m.cell a)) =
      fun a => decide (start.toNat ≤ a) && decide (a < (start + count).toNat) := by
    -- an address is a natural number, so either end may as well be zero where it is negative
    funext a
    simp
  rw [window_eq_map, List.filter_map, haddress, filter_range_eq_ico]
  rfl

/-- Without a count the range has no end. -/
theorem window_eq_filter_of_no_count (m : Memory) (start : Int) :
    m.window start = m.window.filter fun e => start ≤ e.1 := by
  have haddress : ((fun e : Nat × Int => decide (start ≤ e.1)) ∘ fun a => (a, m.cell a)) =
      fun a => decide (start.toNat ≤ a) := by
    funext a
    simp
  rw [window_eq_map, List.filter_map, haddress, ← List.Ico.zero_bot, List.Ico.filter_le,
    Nat.zero_max]
  rfl

/-- **The two listings agree, and each of them shows every cell once.** The window on the whole
memory goes through all addresses with the cells at them. The text of a listing with rows of
any positive width can be read line by line; the rows found there hold the entries of that
window in the same order, begin at the multiples of the width, and none but the last is shorter.
And the window on any range is the part of the whole with the addresses in the range. -/
theorem listings_agree (m : Memory) :
    (m.window.map Prod.fst = List.range m.size ∧ m.window.map Prod.snd = m.toList) ∧
    (∀ width : Int, 1 ≤ width → ∃ text rows, m.listing width = .ok text ∧
      readListing? text = some rows ∧ rows.flatMap Row.entries = m.window ∧
      ∀ (k : Nat) (r : Row), rows[k]? = some r →
        (r.base : Int) = k * width ∧ 0 < r.cells.length ∧ (r.cells.length : Int) ≤ width ∧
        (k + 1 < rows.length → (r.cells.length : Int) = width)) ∧
    (∀ start count : Int, m.window start (some count) =
      m.window.filter fun e => start ≤ e.1 ∧ (e.1 : Int) < start + count) ∧
    ∀ start : Int, m.window start = m.window.filter fun e => start ≤ e.1 := by
  refine ⟨m.unzip_window, fun width hone => ?_, m.window_eq_filter, m.window_eq_filter_of_no_count⟩
  obtain ⟨width, rfl⟩ := Int.eq_ofNat_of_zero_le (Int.le_of_lt hone)
  have hwidth : 0 < width := by omega
  obtain ⟨text, htext, hread⟩ := m.readListing?_listing hwidth
  refine ⟨text, m.table width, htext, hread, m.flatMap_table hwidth, fun k r hr => ?_⟩
  obtain ⟨rfl, hbase⟩ := of_getElem?_table hwidth hr
  have hlen := m.length_rowFrom width (k * width)
  refine ⟨by simp [rowFrom], by omega, by omega, fun hnext => ?_⟩
  have hmore := (lt_length_table_iff hwidth).1 hnext
  rw [Nat.succ_mul] at hmore
  omega

/-- Five cells in rows of two, the last of them short; and two ranges that lie partly or wholly
outside. -/
theorem five_cells_in_three_rows :
    let m := Memory.ofList [104, -5, 99, 0, 7]
    m.listing 2 = .ok "0: 104 -5\n2: 99 0\n4: 7" ∧
      readListing? "0: 104 -5\n2: 99 0\n4: 7" = some [⟨0, [104, -5]⟩, ⟨2, [99, 0]⟩, ⟨4, [7]⟩] ∧
      [(0, 104), (1, -5), (2, 99), (3, 0), (4, 7)] = m.window ∧
      m.window.filter (fun e => -3 ≤ (e.1 : Int) ∧ (e.1 : Int) < -3 + 5) = [(0, 104), (1, -5)] ∧
      m.window.filter (fun e => 3 ≤ (e.1 : Int) ∧ (e.1 : Int) < 3 + -2) = [] := by
  intro m
  obtain ⟨-, hlisting, hwindow, -⟩ := listings_agree m
  obtain ⟨text, rows, htext, hread, hentries, -⟩ := hlisting 2 (by decide)
  have hshown : m.listing 2 = .ok "0: 104 -5\n2: 99 0\n4: 7" := by decide +kernel
  have hfound : readListing? "0: 104 -5\n2: 99 0\n4: 7" =
      some [⟨0, [104, -5]⟩, ⟨2, [99, 0]⟩, ⟨4, [7]⟩] := by decide +kernel
  obtain rfl : text = "0: 104 -5\n2: 99 0\n4: 7" := Except.ok.inj (htext.symm.trans hshown)
  obtain rfl := Option.some.inj (hread.symm.trans hfound)
  exact ⟨htext, hread, hentries, (hwindow (-3) 5).symm.trans (by decide +kernel),
    (hwindow 3 (-2)).symm.trans (by decide +kernel)⟩

end IntMachine.Memory
