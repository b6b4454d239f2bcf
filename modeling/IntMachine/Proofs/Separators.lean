import IntMachine.Proofs.Grammar
import Mathlib.Algebra.Group.Int.Defs
/-!
# Programs between other separators

Cells may be written between any separator that holds a character which no
integer text has. The separator may also hold digits, signs and blanks, and so
seem to begin inside an integer; but its first foreign character shows where it
stands (`not_isPrefix_append`), so a text is cut at its joins and nowhere else
(`splitOn_intercalate`).
-/

namespace IntMachine.Text

/-! ## Cutting at the joins -/

section Joins

variable {p : Char → Bool} {sep piece rest before text : List Char} {done : Array (List Char)}
variable {pieces : List (List Char)}

theorem splitOnFrom_skip (skipped rest piece : List Char) (done : Array (List Char)) :
    splitOnFrom sep (skipped ++ rest) skipped.length piece done =
      splitOnFrom sep rest 0 piece done := by
  induction skipped with
  | nil => rfl
  | cons c skipped ih => rw [List.cons_append, List.length_cons, splitOnFrom, ih]

/-- A separator ends the piece under way. -/
theorem splitOnFrom_sep (hsep : sep ≠ []) :
    splitOnFrom sep (sep ++ rest) 0 before done =
      splitOnFrom sep rest 0 [] (done.push before.reverse) := by
  obtain ⟨c, others, rfl⟩ := List.exists_cons_of_ne_nil hsep
  have hprefix : (c :: others).isPrefixOf (c :: (others ++ rest)) = true :=
    List.isPrefixOf_iff_prefix.2 (List.prefix_append (c :: others) rest)
  rw [List.cons_append, splitOnFrom, if_pos hprefix]
  exact splitOnFrom_skip others rest [] _

theorem splitOnFrom_cons (c : Char) (h : ¬ sep <+: c :: rest) :
    splitOnFrom sep (c :: rest) 0 before done = splitOnFrom sep rest 0 (c :: before) done := by
  rw [splitOnFrom, if_neg fun hprefix => h (List.isPrefixOf_iff_prefix.1 hprefix)]

/-- Where a separator stands, the first foreign character is as far off as it is in the
separator. -/
theorem findIdx_of_isPrefix (hsep : ∃ c ∈ sep, p c) (h : sep <+: text) :
    text.findIdx p = sep.findIdx p := by
  obtain ⟨rest, rfl⟩ := h
  rw [List.findIdx_append, if_pos (List.findIdx_lt_length.2 hsep)]

/-- **No separator begins inside a piece**: in front of a separator the first foreign
character is farther off than it is in the separator. -/
theorem not_isPrefix_append (hsep : ∃ c ∈ sep, p c) (hpiece : ∀ c ∈ piece, ¬ p c)
    (hne : piece ≠ []) (rest : List Char) : ¬ sep <+: piece ++ (sep ++ rest) := by
  intro h
  have hplain : ¬ piece.findIdx p < piece.length := by
    rw [List.findIdx_lt_length]
    rintro ⟨c, hc, hp⟩
    exact hpiece c hc hp
  have hoff := findIdx_of_isPrefix hsep h
  rw [List.findIdx_append, if_neg hplain,
    findIdx_of_isPrefix hsep (List.prefix_append sep rest)] at hoff
  have := List.length_pos_of_ne_nil hne
  omega

theorem not_isPrefix_of_plain (hsep : ∃ c ∈ sep, p c) (hpiece : ∀ c ∈ piece, ¬ p c) :
    ¬ sep <+: piece := by
  obtain ⟨c, hc, hp⟩ := hsep
  exact fun h => hpiece c (h.subset hc) hp

/-- A piece is cut off at the separator behind it. -/
theorem splitOnFrom_append_sep (hsep : ∃ c ∈ sep, p c) (hpiece : ∀ c ∈ piece, ¬ p c) :
    splitOnFrom sep (piece ++ (sep ++ rest)) 0 before done =
      splitOnFrom sep rest 0 [] (done.push (before.reverse ++ piece)) := by
  induction piece generalizing before with
  | nil =>
    obtain ⟨c, hc, -⟩ := hsep
    rw [List.nil_append, splitOnFrom_sep (List.ne_nil_of_mem hc), List.append_nil]
  | cons c piece ih =>
    have hinside := not_isPrefix_append hsep hpiece (List.cons_ne_nil c piece) rest
    rw [List.cons_append] at hinside ⊢
    rw [splitOnFrom_cons c hinside, ih fun d hd => hpiece d (List.mem_cons_of_mem c hd)]
    simp

/-- The last piece is all that is left. -/
theorem splitOnFrom_plain (hsep : ∃ c ∈ sep, p c) (hpiece : ∀ c ∈ piece, ¬ p c) :
    splitOnFrom sep piece 0 before done = (done.push (before.reverse ++ piece)).toList := by
  induction piece generalizing before with
  | nil => rw [splitOnFrom, List.append_nil]
  | cons c piece ih =>
    rw [splitOnFrom_cons c (not_isPrefix_of_plain hsep hpiece),
      ih fun d hd => hpiece d (List.mem_cons_of_mem c hd)]
    simp

theorem splitOnFrom_intercalate (hsep : ∃ c ∈ sep, p c) (hne : pieces ≠ [])
    (hpieces : ∀ piece ∈ pieces, ∀ c ∈ piece, ¬ p c) :
    splitOnFrom sep (sep.intercalate pieces) 0 [] done = done.toList ++ pieces := by
  induction pieces generalizing done with
  | nil => exact absurd rfl hne
  | cons piece pieces ih =>
    obtain ⟨hpiece, hrest⟩ := List.forall_mem_cons.1 hpieces
    rcases eq_or_ne pieces [] with rfl | hmore
    · rw [List.intercalate_singleton, splitOnFrom_plain hsep hpiece]
      simp
    · rw [List.intercalate_cons_of_ne_nil hmore, List.append_assoc,
        splitOnFrom_append_sep hsep hpiece, ih hmore hrest]
      simp

/-- **A text is cut at its joins.** Pieces joined by a separator are found again if the
separator holds a character that no piece has. -/
theorem splitOn_intercalate (hsep : ∃ c ∈ sep, p c) (hne : pieces ≠ [])
    (hpieces : ∀ piece ∈ pieces, ∀ c ∈ piece, ¬ p c) :
    splitOn sep (sep.intercalate pieces) = pieces :=
  splitOnFrom_intercalate hsep hne hpieces

/-- A joined text has the ends of its first and of its last piece. -/
theorem bare_intercalate (hne : pieces ≠ []) (hpieces : ∀ piece ∈ pieces, piece ≠ [] ∧ Bare piece) :
    sep.intercalate pieces ≠ [] ∧ Bare (sep.intercalate pieces) := by
  induction pieces with
  | nil => exact absurd rfl hne
  | cons piece pieces ih =>
    obtain ⟨⟨hpiece, hfirst, hlast⟩, hrest⟩ := List.forall_mem_cons.1 hpieces
    rcases eq_or_ne pieces [] with rfl | hmore
    · rw [List.intercalate_singleton]
      exact ⟨hpiece, hfirst, hlast⟩
    · obtain ⟨htail, -, hend⟩ := ih hmore hrest
      rw [List.intercalate_cons_of_ne_nil hmore, List.append_assoc]
      refine ⟨List.append_ne_nil_of_left_ne_nil hpiece _, fun c hc => ?_, fun c hc => ?_⟩
      · rw [List.head?_append_of_ne_nil _ hpiece] at hc
        exact hfirst c hc
      · rw [← List.append_assoc, List.getLast?_append_of_ne_nil _ htail] at hc
        exact hend c hc

/-- One character that the separator has and no piece is enough. -/
theorem splitOn_intercalate_of_mem {c : Char} (hsep : c ∈ sep) (hne : pieces ≠ [])
    (hpieces : ∀ piece ∈ pieces, c ∉ piece) : splitOn sep (sep.intercalate pieces) = pieces := by
  refine splitOn_intercalate (p := (· == c)) ⟨c, hsep, by simp⟩ hne fun piece hpiece d hd => ?_
  rw [beq_iff_eq]
  rintro rfl
  exact hpieces piece hpiece hd

theorem not_mem_intercalate {c : Char} (hsep : c ∉ sep) (hpieces : ∀ piece ∈ pieces, c ∉ piece) :
    c ∉ sep.intercalate pieces := by
  induction pieces with
  | nil => simp
  | cons piece pieces ih =>
    obtain ⟨hpiece, hrest⟩ := List.forall_mem_cons.1 hpieces
    rcases eq_or_ne pieces [] with rfl | hmore
    · rwa [List.intercalate_singleton]
    · rw [List.intercalate_cons_of_ne_nil hmore, List.mem_append, List.mem_append]
      exact not_or.2 ⟨not_or.2 ⟨hpiece, hsep⟩, ih hrest⟩

/-! Whatever can be read back from its own text can be read back from joined texts. -/

variable {α β : Type*} {xs : List α}

theorem mapM_map_of_read {write : α → β} {read? : β → Option α}
    (hread : ∀ x ∈ xs, read? (write x) = some x) : (xs.map write).mapM read? = some xs := by
  induction xs with
  | nil => rfl
  | cons x xs ih =>
    obtain ⟨hx, hxs⟩ := List.forall_mem_cons.1 hread
    rw [List.map_cons, List.mapM_cons, hx, ih hxs]
    rfl

theorem mapM_splitOn_intercalate {write : α → List Char} {read? : List Char → Option α} {c : Char}
    (hsep : c ∈ sep) (hne : xs ≠ []) (hplain : ∀ x ∈ xs, c ∉ write x)
    (hread : ∀ x ∈ xs, read? (write x) = some x) :
    (splitOn sep (sep.intercalate (xs.map write))).mapM read? = some xs := by
  rw [splitOn_intercalate_of_mem hsep (by simpa using hne) (List.forall_mem_map.2 hplain),
    mapM_map_of_read hread]

end Joins

/-! ## Integers between separators -/

/-- A character that no integer text has. -/
def isForeign (c : Char) : Bool := !c.isDigit && c ≠ '+' && c ≠ '-'

theorem not_isForeign_of_restyled {token s : List Char} (h : Restyled token s) :
    ∀ c ∈ s, ¬ isForeign c := by
  intro c hc
  rcases h.mem hc with rfl | rfl | hdigit
  · decide
  · decide
  · simp [isForeign, hdigit]

end IntMachine.Text

namespace IntMachine.Program

open Text

variable {sep : String} {cells : Program}

theorem inRange_iff {v : Int} : inRange v ↔ -2 ^ 63 ≤ v ∧ v < 2 ^ 63 := by
  simp [inRange]

theorem parse_of_foreign (hsep : ∃ c ∈ sep.toList, isForeign c) (text : String) :
    parse text (.text sep) = parseTokens (splitOn sep.toList (trim text.toList)) 0 #[] := by
  have hempty : sep.isEmpty = false := by
    obtain ⟨c, hc, -⟩ := hsep
    rw [String.isEmpty_eq_false_iff]
    rintro rfl
    simp at hc
  rw [parse, Separator.pieces, hempty]
  rfl

/-- **Reading inverts writing, whatever the separator.** Cells of 64 bits, signed, in
decimal and joined by a separator that has at least one character besides digits and
signs are read back with that separator. With commas the joined text is the canonical
one. -/
theorem parse_joined (sep : String) (cells : Program)
    (hsep : ∃ c ∈ sep.toList, ¬ c.isDigit ∧ c ≠ '+' ∧ c ≠ '-') (hcells : cells ≠ [])
    (hrange : ∀ v ∈ cells, -2 ^ 63 ≤ v ∧ v < 2 ^ 63) :
    parse (sep.intercalate (cells.map toString)) (.text sep) = .ok cells ∧
      (sep = "," → sep.intercalate (cells.map toString) = render cells) := by
  refine ⟨?_, fun h => by rw [h, render]⟩
  have hforeign : ∃ c ∈ sep.toList, isForeign c := by
    obtain ⟨c, hc, hdigit, hplus, hminus⟩ := hsep
    exact ⟨c, hc, by simp [isForeign, hdigit, hplus, hminus]⟩
  -- the pieces that were joined
  set tokens := cells.map fun v => (toString v).toList with htokens
  have hne : tokens ≠ [] := by simpa [htokens] using hcells
  have hrestyled : ∀ token ∈ tokens, Restyled token token := by
    intro token htoken
    obtain ⟨v, -, rfl⟩ := List.mem_map.1 htoken
    exact restyled_toString v
  have htext : (sep.intercalate (cells.map toString)).toList = sep.toList.intercalate tokens := by
    rw [String.toList_intercalate, List.map_map]
    rfl
  have hbare : trim (sep.toList.intercalate tokens) = sep.toList.intercalate tokens :=
    (bare_intercalate hne fun token htoken => ⟨(hrestyled token htoken).ne_nil,
      bare_of_no_blank (not_blank_of_restyled (hrestyled token htoken))⟩).2.trim_eq
  rw [parse_of_foreign hforeign, htext, hbare, splitOn_intercalate hforeign hne fun token htoken =>
    not_isForeign_of_restyled (hrestyled token htoken)]
  have hread : List.Forall₂ (fun piece v => parseToken (trim piece) = .ok v) tokens cells := by
    rw [htokens, List.forall₂_map_left_iff, List.forall₂_same]
    intro v hv
    rw [trim_of_no_blank (not_blank_of_restyled (restyled_toString v)), parseToken_eq_ok_iff]
    exact ⟨inRange_iff.2 (hrange v hv), restyled_toString v⟩
  simpa using parseTokens_of_forall₂ hread 0 #[]

/-- A separator that begins with an integer and ends with one, around a blank: the text
is cut around the blanks, and the integers on both sides keep their digits. -/
theorem cells_between_lookalikes :
    (∃ c ∈ "-1 1".toList, ¬ c.isDigit ∧ c ≠ '+' ∧ c ≠ '-') ∧
      parse "-9223372036854775808-1 1-1-1 117" (.text "-1 1") =
        .ok [-9223372036854775808, -1, 17] ∧
      ",".intercalate ([3, -4].map toString) = render [3, -4] := by
  have hsep : ∃ c ∈ "-1 1".toList, ¬ c.isDigit ∧ c ≠ '+' ∧ c ≠ '-' := ⟨' ', by decide, by decide⟩
  have htext : "-1 1".intercalate (([-9223372036854775808, -1, 17] : Program).map toString) =
      "-9223372036854775808-1 1-1-1 117" := by decide +kernel
  refine ⟨hsep, ?_, (parse_joined "," [3, -4] ⟨',', by decide, by decide⟩ (by decide)
    (by decide)).2 rfl⟩
  rw [← htext]
  exact (parse_joined "-1 1" _ hsep (by decide) (by decide)).1

end IntMachine.Program
