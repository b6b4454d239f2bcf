import IntMachine.Proofs.LineEnds
import IntMachine.Proofs.Separators
import IntMachine.Runner.Command
import Mathlib.Algebra.Group.Nat.Defs
/-!
# Integers that are too long

A command neither reads nor writes an integer of more than `Text.digitLimit`
digits. Here it is told at which token of a program file it breaks off
(`longTokenIn?_eq_some_iff`) and which lines it does not write
(`isWritable_eq_false_iff`). What stands between the integers on a line holds no
digits, so a line is too long exactly if one of its integers is.
-/

namespace IntMachine.Text

variable {a b s ds : List Char} {c : Char} {n : Nat} {v : Int}

/-! ## Digits in a row -/

/-- A text with more than `digitLimit` digits in a row. -/
def HasLong (s : List Char) : Prop :=
  ∃ ds, ds <:+: s ∧ (∀ c ∈ ds, c.isDigit) ∧ digitLimit < ds.length

/-- What stands in a text without a character of it stands on one side of that
character. -/
theorem infix_append_cons (hc : c ∉ ds) (h : ds <:+: a ++ c :: b) : ds <:+: a ∨ ds <:+: b := by
  obtain ⟨left, right, h⟩ := h
  obtain ⟨rest, rfl, -⟩ | ⟨rest, hleft, hright⟩ := List.append_eq_append_iff.1 h
  · exact .inl ⟨left, rest, rfl⟩
  · cases rest with
    | nil => exact .inl ⟨left, [], by simpa using hleft⟩
    | cons d rest =>
      obtain ⟨rfl, rfl⟩ := List.cons.inj hright
      -- the character stands to the left of `ds`, as it is not in it
      obtain ⟨rest', -, rfl⟩ | ⟨rest', -, hrest⟩ := List.append_eq_append_iff.1 hleft
      · exact (hc (by simp)).elim
      · cases rest' with
        | nil =>
          obtain rfl : c :: rest = ds := hrest
          exact (hc List.mem_cons_self).elim
        | cons d' rest' =>
          obtain ⟨-, rfl⟩ := List.cons.inj hrest
          exact .inr ⟨rest', right, rfl⟩

theorem hasLong_append_cons (hc : ¬ c.isDigit) :
    HasLong (a ++ c :: b) ↔ HasLong a ∨ HasLong b := by
  constructor
  · rintro ⟨ds, hinfix, hds, hlong⟩
    obtain h | h := infix_append_cons (fun hmem => hc (hds c hmem)) hinfix
    · exact .inl ⟨ds, h, hds, hlong⟩
    · exact .inr ⟨ds, h, hds, hlong⟩
  · rintro (⟨ds, hinfix, hlong⟩ | ⟨ds, hinfix, hlong⟩)
    · exact ⟨ds, hinfix.trans (List.prefix_append a _).isInfix, hlong⟩
    · exact ⟨ds, hinfix.trans ⟨a ++ [c], [], by simp⟩, hlong⟩

theorem hasLong_of_digits (hds : ∀ c ∈ ds, c.isDigit) : HasLong ds ↔ digitLimit < ds.length := by
  constructor
  · rintro ⟨es, hinfix, -, hlong⟩
    exact Nat.lt_of_lt_of_le hlong hinfix.length_le
  · exact fun h => ⟨ds, List.infix_refl ds, hds, h⟩

theorem not_hasLong_nil : ¬ HasLong [] := by
  rw [hasLong_of_digits (by simp)]
  exact Nat.not_lt_zero _

/-- Texts with a text without digits between them. -/
theorem hasLong_append (hs : s.any Char.isDigit = false) (hne : s ≠ []) :
    HasLong (a ++ s ++ b) ↔ HasLong a ∨ HasLong b := by
  induction s generalizing a with
  | nil => exact absurd rfl hne
  | cons c rest ih =>
    rw [List.any_cons, Bool.or_eq_false_iff] at hs
    rw [List.append_assoc, List.cons_append, hasLong_append_cons (by simp [hs.1])]
    cases rest with
    | nil => rfl
    | cons d rest =>
      have hrest := ih (a := []) hs.2 (by simp)
      rw [List.nil_append] at hrest
      rw [hrest, or_iff_right not_hasLong_nil]

/-- What is counted before the text goes on in it. -/
theorem holdsLong_iff (hds : ∀ c ∈ ds, c.isDigit) :
    holdsLong s ds.length = true ↔ HasLong (ds ++ s) := by
  induction s generalizing ds with
  | nil => rw [holdsLong, decide_eq_true_iff, List.append_nil, hasLong_of_digits hds]
  | cons c rest ih =>
    by_cases hc : c.isDigit
    · have hmore : ∀ x ∈ ds ++ [c], x.isDigit := by
        simpa [or_imp, forall_and] using ⟨hds, hc⟩
      rw [holdsLong, if_pos hc, List.append_cons, ← ih hmore, List.length_append,
        List.length_singleton]
    · have hrest : holdsLong rest 0 = true ↔ HasLong rest := @ih [] (by simp)
      rw [holdsLong, if_neg hc, Bool.or_eq_true, decide_eq_true_iff, hasLong_append_cons hc,
        hasLong_of_digits hds, hrest]

/-- **A text is scanned for digits in a row.** -/
theorem holdsLong_eq_true_iff : holdsLong s 0 = true ↔ HasLong s :=
  @holdsLong_iff s [] (by simp)

theorem hasLong_toDigits : HasLong (Nat.toDigits 10 n) ↔ 10 ^ digitLimit ≤ n := by
  have hlength := Nat.length_toDigits_le_iff (n := n) (b := 10) (k := digitLimit)
    (by decide) (by decide)
  rw [hasLong_of_digits (isDigits_toDigits n).2, ← Nat.not_le, hlength, Nat.not_lt]

/-- **An integer is too long to be written** if its magnitude has more than
`digitLimit` digits. -/
theorem hasLong_toString : HasLong (toString v).toList ↔ 10 ^ digitLimit ≤ v.natAbs := by
  rcases toList_toString_cases v with ⟨n, rfl, h⟩ | ⟨n, -, rfl, h⟩
  · rw [h, hasLong_toDigits, Int.natAbs_natCast]
  · have hsign := hasLong_append_cons (a := []) (b := Nat.toDigits 10 n) (c := '-') (by decide)
    rw [List.nil_append] at hsign
    rw [h, hsign, or_iff_right not_hasLong_nil, hasLong_toDigits, Int.natAbs_neg,
      Int.natAbs_natCast]

end IntMachine.Text

namespace IntMachine.Program

variable {piece : List Char} {pieces : List (List Char)} {n : Nat} {opened : Opened}

/-! ## Tokens that are too long to be read -/

/-- A token that is read as a cell, its digits being no more than can be read. -/
structure Legible (token : List Char) : Prop where
  short : digitCount token ≤ Text.digitLimit
  cell : ∃ v, parseToken token = .ok v

/-- An integer token of `n` digits, which are more than can be read. -/
structure TooLong (n : Nat) (token : List Char) : Prop where
  integer : ∃ v, Text.readPlain? token = some v
  count : digitCount token = n
  long : Text.digitLimit < n

/-- Reading breaks off at a token that is too long, behind cells. -/
def BreaksOff (n : Nat) (pieces : List (List Char)) : Prop :=
  ∃ before piece after, pieces = before ++ piece :: after ∧
    (∀ p ∈ before, Legible (Text.trim p)) ∧ TooLong n (Text.trim piece)

theorem breaksOff_cons : BreaksOff n (piece :: pieces) ↔
    TooLong n (Text.trim piece) ∨ Legible (Text.trim piece) ∧ BreaksOff n pieces := by
  constructor
  · rintro ⟨before, long, after, heq, hbefore, hlong⟩
    cases before with
    | nil =>
      obtain ⟨rfl, -⟩ := List.cons.inj heq
      exact .inl hlong
    | cons p before =>
      obtain ⟨rfl, rfl⟩ := List.cons.inj heq
      rw [List.forall_mem_cons] at hbefore
      exact .inr ⟨hbefore.1, before, long, after, rfl, hbefore.2, hlong⟩
  · rintro (hlong | ⟨hpiece, before, long, after, rfl, hbefore, hlong⟩)
    · exact ⟨[], piece, pieces, rfl, by simp, hlong⟩
    · exact ⟨piece :: before, long, after, rfl, List.forall_mem_cons.2 ⟨hpiece, hbefore⟩, hlong⟩

theorem not_legible (h : Text.readPlain? piece = none) : ¬ Legible piece := by
  rintro ⟨-, v, hv⟩
  rw [parseToken, h] at hv
  cases hv

theorem legible_iff {v : Int} (h : Text.readPlain? piece = some v) :
    Legible piece ↔ ¬ Text.digitLimit < digitCount piece ∧ inRange v := by
  have hcell : (∃ v, parseToken piece = .ok v) ↔ inRange v := by
    rw [parseToken, h]
    by_cases hv : inRange v <;> simp [hv]
  rw [Nat.not_lt, ← hcell]
  exact ⟨fun h => ⟨h.short, h.cell⟩, fun h => ⟨h.1, h.2⟩⟩

theorem not_tooLong (h : Text.readPlain? piece = none) : ¬ TooLong n piece := by
  rintro ⟨⟨v, hv⟩, -⟩
  cases h.symm.trans hv

theorem tooLong_iff {v : Int} (h : Text.readPlain? piece = some v) :
    TooLong n piece ↔ Text.digitLimit < digitCount piece ∧ digitCount piece = n := by
  constructor
  · rintro ⟨-, rfl, hlong⟩
    exact ⟨hlong, rfl⟩
  · rintro ⟨hlong, rfl⟩
    exact ⟨⟨v, h⟩, rfl, hlong⟩

theorem longToken?_cons : longToken? (piece :: pieces) = some n ↔
    TooLong n (Text.trim piece) ∨ Legible (Text.trim piece) ∧ longToken? pieces = some n := by
  rw [longToken?]
  cases hread : Text.readPlain? (Text.trim piece) with
  | none => simp [not_tooLong hread, not_legible hread]
  | some v =>
    rw [tooLong_iff hread, legible_iff hread]
    by_cases hlong : Text.digitLimit < digitCount (Text.trim piece)
    · simp [hlong]
    · by_cases hv : inRange v <;> simp [hlong, hv]

theorem longToken?_eq_some_iff : longToken? pieces = some n ↔ BreaksOff n pieces := by
  induction pieces with
  | nil => simp [longToken?, BreaksOff]
  | cons piece pieces ih => rw [longToken?_cons, breaksOff_cons, ih]

/-- Reading an opened file breaks off at a token of `n` digits. -/
def BreaksOffIn (n : Nat) (opened : Opened) : Prop :=
  ∃ bytes text, opened = .ok bytes ∧ textOfBytes bytes = .ok text ∧
    BreaksOff n (Text.splitOn [','] (Text.trim text.toList))

/-- **Where reading a file breaks off**: at the first of its tokens that is too
long, if all tokens before it are cells. -/
theorem longTokenIn?_eq_some_iff : longTokenIn? opened = some n ↔ BreaksOffIn n opened := by
  have hpieces : ∀ text : List Char,
      Separator.comma.pieces text = .ok (Text.splitOn [','] (Text.trim text)) := fun _ => rfl
  cases opened with
  | error e => simp [longTokenIn?, BreaksOffIn, Except.toOption]
  | ok bytes =>
    cases htext : textOfBytes bytes with
    | error e => simp [longTokenIn?, BreaksOffIn, Except.toOption, htext]
    | ok text =>
      simp [longTokenIn?, BreaksOffIn, Except.toOption, htext, hpieces, longToken?_eq_some_iff]

/-- So it does in a file of nothing but digits, whether or not they are zeros. -/
theorem breaksOffIn_of_digits {ds : List Char} (hds : Text.IsDigits ds)
    (hlong : Text.digitLimit < ds.length) :
    BreaksOffIn ds.length (.ok (String.ofList ds).toUTF8.data.toList) := by
  have hplain : ∀ c, ¬ c.isDigit → c ∉ ds := fun c hc hmem => hc (hds.2 c hmem)
  have hbare : Text.trim ds = ds :=
    Text.trim_of_no_blank (not_blank_of_restyled (.unsigned 0 hds))
  have htext : textOfBytes (String.ofList ds).toUTF8.data.toList = .ok (String.ofList ds) := by
    rw [textOfBytes, Text.Utf8.decode_toUTF8, String.toList_ofList, Except.map,
      Text.unifyLines_eq, Text.withLF_of_not_mem (hplain '\r' (by decide))]
  have hpiece : Text.splitOn [','] ds = [ds] := by
    have hcomma : ∀ piece ∈ [ds], ',' ∉ piece := by simpa using hplain ',' (by decide)
    have hjoined : Text.splitOn [','] ([','].intercalate [ds]) = [ds] :=
      Text.splitOn_intercalate_of_mem (by simp) (by simp) hcomma
    rwa [List.intercalate_singleton] at hjoined
  refine ⟨_, _, rfl, htext, [], ds, [], ?_, by simp, ?_⟩
  · rw [String.toList_ofList, hbare, hpiece]
    rfl
  · rw [hbare]
    have hsign := Text.splitSign_of_isDigits hds
    exact ⟨⟨_, Text.readPlain?_eq_some_iff_isDigits.2 ⟨by rwa [hsign], rfl⟩⟩,
      by rw [digitCount, hsign], hlong⟩

theorem breaksOffIn_ones (hn : Text.digitLimit < n) :
    BreaksOffIn n (.ok (String.ofList (List.replicate n '1')).toUTF8.data.toList) := by
  have hlength : (List.replicate n '1').length = n := List.length_replicate
  have hds : Text.IsDigits (List.replicate n '1') := by
    refine ⟨List.ne_nil_of_length_pos (by omega), fun c hc => ?_⟩
    rw [List.eq_of_mem_replicate hc]
    rfl
  simpa only [hlength] using breaksOffIn_of_digits hds (by omega)

end IntMachine.Program

namespace IntMachine.Runner

open Text (digitLimit HasLong)

variable {line : Line} {steps : Nat} {pc : Int}

/-! ## Lines that are too long to be written -/

/-- **Lines that cannot be written**, since an integer on them is too long. -/
inductive Unwritable : Line → Prop
  | value {v : Int} : 10 ^ digitLimit ≤ v.natAbs → Unwritable (.value v)
  | limitReached {steps : Nat} {pc : Int} :
      10 ^ digitLimit ≤ steps ∨ 10 ^ digitLimit ≤ pc.natAbs → Unwritable (.limitReached steps pc)
  | listing {text : String} : HasLong text.toList → Unwritable (.listing text)
  | alarm {r : Record} : HasLong r.text.toList → Unwritable (.alarm r)
  | record {r : Record} : r.level = .error → HasLong r.line.toList → Unwritable (.record r)

theorem hasLong_append_newline (s : String) : HasLong (s ++ "\n").toList ↔ HasLong s.toList := by
  have hend := Text.hasLong_append (a := s.toList) (b := []) (s := ['\n']) (by decide) (by simp)
  rw [List.append_nil, or_iff_left Text.not_hasLong_nil] at hend
  rw [String.toList_append]
  exact hend

/-- What stands before, between and behind the two integers holds no digits. -/
theorem hasLong_limitReached : HasLong (Line.limitReached steps pc).text.toList ↔
    10 ^ digitLimit ≤ steps ∨ 10 ^ digitLimit ≤ pc.natAbs := by
  have htext : (Line.limitReached steps pc).text =
      "Stopped after " ++ toString (steps : Int) ++ " steps (pc=" ++ toString pc ++ ")\n" := rfl
  have hbefore := fun b => Text.hasLong_append (a := []) (b := b) (s := "Stopped after ".toList)
    (by decide) (by decide)
  have hbetween := fun a b => Text.hasLong_append (a := a) (b := b) (s := " steps (pc=".toList)
    (by decide) (by decide)
  have hbehind := fun a => Text.hasLong_append (a := a) (b := []) (s := ")\n".toList)
    (by decide) (by decide)
  simp only [List.nil_append, List.append_nil, Text.not_hasLong_nil, false_or, or_false]
    at hbefore hbehind
  rw [htext, String.toList_append, hbehind, String.toList_append, String.toList_append, hbetween,
    String.toList_append, hbefore, Text.hasLong_toString, Text.hasLong_toString,
    Int.natAbs_natCast]

theorem not_holdsLong_eq_false_iff (text : String) :
    (!Text.holdsLong text.toList 0) = false ↔ HasLong text.toList := by
  rw [Bool.not_eq_false', Text.holdsLong_eq_true_iff]

/-- **Which lines are not written.** -/
theorem isWritable_eq_false_iff : line.isWritable = false ↔ Unwritable line := by
  cases line with
  | value v =>
    have htext : (Line.value v).text = toString v ++ "\n" := rfl
    rw [Line.isWritable, not_holdsLong_eq_false_iff, htext, hasLong_append_newline,
      Text.hasLong_toString]
    exact ⟨.value, fun | .value h => h⟩
  | limitReached steps pc =>
    rw [Line.isWritable, not_holdsLong_eq_false_iff, hasLong_limitReached]
    exact ⟨.limitReached, fun | .limitReached h => h⟩
  | listing text =>
    have htext : (Line.listing text).text = text ++ "\n" := rfl
    rw [Line.isWritable, not_holdsLong_eq_false_iff, htext, hasLong_append_newline]
    exact ⟨.listing, fun | .listing h => h⟩
  | alarm r =>
    have htext : (Line.alarm r).text = r.text ++ "\n" := rfl
    rw [Line.isWritable, not_holdsLong_eq_false_iff, htext, hasLong_append_newline]
    exact ⟨.alarm, fun | .alarm h => h⟩
  | record r =>
    have htext : (Line.record r).text = r.line ++ "\n" := rfl
    rw [Line.isWritable, Bool.or_eq_false_iff, not_holdsLong_eq_false_iff, htext,
      hasLong_append_newline, decide_eq_false_iff_not, not_not]
    exact ⟨fun h => .record h.1 h.2, fun | .record hlevel h => ⟨hlevel, h⟩⟩
  | prompt | notInteger _ | failure _ | interrupted => exact ⟨nofun, nofun⟩

/-- Everything is written, or everything up to a line that cannot be. -/
theorem written_cases (t : Transcript) :
    (t.written = t ∧ ∀ line ∈ t, ¬ Unwritable line) ∨
    ∃ before line after, t = before ++ line :: after ∧ t.written = before ∧
      (∀ line ∈ before, ¬ Unwritable line) ∧ Unwritable line := by
  induction t with
  | nil => exact .inl ⟨rfl, by simp⟩
  | cons line rest ih =>
    cases hline : line.isWritable with
    | false =>
      have hnone : Transcript.written (line :: rest) = [] := by
        rw [Transcript.written, List.takeWhile_cons, hline]
        rfl
      exact .inr ⟨[], line, rest, rfl, hnone, by simp, isWritable_eq_false_iff.1 hline⟩
    | true =>
      have hmore : Transcript.written (line :: rest) = line :: Transcript.written rest := by
        rw [Transcript.written, List.takeWhile_cons, hline]
        rfl
      have hwritable : ¬ Unwritable line := by
        rw [← isWritable_eq_false_iff, hline]
        decide
      rw [hmore]
      obtain ⟨hwritten, hrest⟩ | ⟨before, last, after, rfl, hwritten, hbefore, hlast⟩ := ih
      · rw [hwritten]
        exact .inl ⟨rfl, List.forall_mem_cons.2 ⟨hwritable, hrest⟩⟩
      · rw [hwritten]
        exact .inr ⟨line :: before, last, after, rfl, rfl,
          List.forall_mem_cons.2 ⟨hwritable, hbefore⟩, hlast⟩

end IntMachine.Runner
