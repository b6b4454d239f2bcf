import IntMachine.Text.Blank
import IntMachine.Text.Split
import Mathlib.Data.List.Forall2
import Mathlib.Data.List.TakeWhile
/-!
# Pieces of a line

What taking blanks off the ends of a text does, and what cutting it at commas
does. The two get along: blanks around a line go to its first and its last
piece, and so make no difference once the pieces lose their blanks too
(`map_trim_splitOn`).
-/

namespace IntMachine.Text

variable {s left right : List Char} {c : Char}

/-! ## Blanks at the ends -/

/-- Blanks and nothing else. -/
def AllBlank (s : List Char) : Prop := ∀ c ∈ s, isBlank c

theorem trim_append_left (h : AllBlank left) : trim (left ++ s) = trim s := by
  rw [trim, trimWhere, List.dropWhile_append_of_pos h]
  rfl

theorem trim_cons (h : isBlank c) : trim (c :: s) = trim s :=
  trim_append_left (List.forall_mem_singleton.2 h)

theorem trim_append_right (h : AllBlank right) : trim (s ++ right) = trim s := by
  have hreverse : AllBlank right.reverse := fun c hc => h c (List.mem_reverse.1 hc)
  rw [trim, trim, trimWhere, trimWhere, List.dropWhile_append]
  split
  · next hempty =>
    rw [List.isEmpty_iff.1 hempty, List.dropWhile_eq_nil_iff.2 h]
  · rw [List.reverse_append, List.dropWhile_append_of_pos hreverse]

/-- A text is what is left of it between blanks. -/
theorem exists_blanks (s : List Char) :
    ∃ left right, AllBlank left ∧ AllBlank right ∧ s = left ++ trim s ++ right := by
  refine ⟨s.takeWhile isBlank, ((s.dropWhile isBlank).reverse.takeWhile isBlank).reverse,
    fun c hc => List.mem_takeWhile_imp hc,
    fun c hc => List.mem_takeWhile_imp (List.mem_reverse.1 hc), ?_⟩
  rw [trim, trimWhere, List.append_assoc, ← List.reverse_append,
    List.takeWhile_append_dropWhile, List.reverse_reverse, List.takeWhile_append_dropWhile]

@[simp] theorem trim_trim : trim (trim s) = trim s := by
  obtain ⟨left, right, hleft, hright, hs⟩ := exists_blanks s
  calc trim (trim s) = trim (left ++ trim s ++ right) := by
        rw [trim_append_right hright, trim_append_left hleft]
    _ = trim s := by rw [← hs]

/-- No blank at either end. -/
def Bare (s : List Char) : Prop :=
  (∀ c ∈ s.head?, ¬ isBlank c) ∧ ∀ c ∈ s.getLast?, ¬ isBlank c

/-- A text without blanks at its ends keeps all it has. -/
theorem Bare.trim_eq (h : Bare s) : trim s = s := by
  obtain ⟨left, right, hleft, hright, hs⟩ := exists_blanks s
  have hleft_nil : left = [] := by
    cases left with
    | nil => rfl
    | cons c left => exact absurd (hleft c (by simp)) (h.1 c (by rw [hs]; simp))
  have hright_nil : right = [] := by
    rcases List.eq_nil_or_concat right with rfl | ⟨front, c, rfl⟩
    · rfl
    · exact absurd (hright c (by simp)) (h.2 c (by rw [hs]; simp))
  rw [hleft_nil, hright_nil] at hs
  simpa using hs.symm

theorem length_trim_le (s : List Char) : (trim s).length ≤ s.length := by
  obtain ⟨left, right, -, -, hs⟩ := exists_blanks s
  have hlen := congrArg List.length hs
  simp only [List.length_append] at hlen
  omega

/-- Nothing more can be taken off a text that has lost its blanks. -/
theorem bare_trim (s : List Char) : Bare (trim s) := by
  constructor
  · intro c hc hblank
    obtain ⟨rest, hs⟩ := List.head?_eq_some_iff.1 hc
    have hagain : trim rest = c :: rest := by rw [← trim_cons hblank, ← hs, trim_trim]
    have hlen := length_trim_le rest
    rw [hagain, List.length_cons] at hlen
    omega
  · intro c hc hblank
    obtain ⟨front, hs⟩ := List.getLast?_eq_some_iff.1 hc
    have hagain : trim front = front ++ [c] := by
      rw [← trim_append_right (List.forall_mem_singleton.2 hblank), ← hs, trim_trim]
    have hlen := length_trim_le front
    rw [hagain, List.length_append, List.length_singleton] at hlen
    omega

theorem bare_of_no_blank (h : ∀ c ∈ s, ¬ isBlank c) : Bare s :=
  ⟨fun c hc => h c (List.mem_of_mem_head? hc), fun c hc => h c (List.mem_of_mem_getLast? hc)⟩

theorem trim_of_no_blank (h : ∀ c ∈ s, ¬ isBlank c) : trim s = s := (bare_of_no_blank h).trim_eq

/-! ## Pieces between commas -/

theorem splitOn_comma_cons : (',' :: s).splitOn ',' = [] :: s.splitOn ',' := by
  simp [List.splitOn, List.splitOnP_cons_eq_if_modifyHead]

theorem splitOn_cons_of_ne (h : c ≠ ',') :
    (c :: s).splitOn ',' = (s.splitOn ',').modifyHead (c :: ·) := by
  simp [List.splitOn, List.splitOnP_cons_eq_if_modifyHead, h]

/-- A separator of one character leaves nothing to skip. -/
theorem splitOnFrom_comma (piece : List Char) (done : Array (List Char)) :
    splitOnFrom [','] s 0 piece done =
      done.toList ++ (s.splitOn ',').modifyHead (piece.reverse ++ ·) := by
  induction s generalizing piece done with
  | nil => simp [splitOnFrom]
  | cons c s ih =>
    rw [splitOnFrom]
    by_cases hc : c = ','
    · subst hc
      rw [splitOn_comma_cons, if_pos (by simp)]
      change splitOnFrom [','] s 0 [] _ = _
      rw [ih]
      cases s.splitOn ',' <;> simp
    · rw [splitOn_cons_of_ne hc, if_neg (by simp [Ne.symm hc]), ih]
      cases s.splitOn ',' <;> simp

theorem splitOn_comma : splitOn [','] s = s.splitOn ',' := by
  rw [splitOn, splitOnFrom_comma]
  cases s.splitOn ',' <;> rfl

/-- No piece holds a comma. -/
theorem comma_not_mem_of_mem_splitOn {piece : List Char} (h : piece ∈ s.splitOn ',') :
    ',' ∉ piece := by
  induction s generalizing piece with
  | nil =>
    obtain rfl : piece = [] := by simpa using h
    simp
  | cons c s ih =>
    rcases eq_or_ne c ',' with rfl | hc
    · rw [splitOn_comma_cons, List.mem_cons] at h
      rcases h with rfl | h
      · simp
      · exact ih h
    · rw [splitOn_cons_of_ne hc] at h
      cases hpieces : s.splitOn ',' with
      | nil => simp [hpieces] at h
      | cons first others =>
        rw [hpieces, List.modifyHead_cons, List.mem_cons] at h
        rcases h with rfl | h
        · simp [hc.symm, ih (hpieces ▸ List.mem_cons_self)]
        · exact ih (hpieces ▸ List.mem_cons_of_mem first h)

theorem ne_comma_of_isBlank (h : isBlank c) : c ≠ ',' := by
  rintro rfl
  exact absurd h (by decide)

/-- Blanks in front of a text go to its first piece. -/
theorem map_trim_splitOn_left (h : AllBlank left) :
    ((left ++ s).splitOn ',').map trim = (s.splitOn ',').map trim := by
  induction left with
  | nil => rfl
  | cons c left ih =>
    obtain ⟨hc, hleft⟩ := List.forall_mem_cons.1 h
    rw [List.cons_append, splitOn_cons_of_ne (ne_comma_of_isBlank hc), ← ih hleft]
    cases (left ++ s).splitOn ',' with
    | nil => rfl
    | cons piece rest => exact congrArg (· :: rest.map trim) (trim_cons hc)

/-- A text with blanks behind it. -/
def Extends (p q : List Char) : Prop := ∃ blanks, AllBlank blanks ∧ p = q ++ blanks

theorem Extends.cons {p q : List Char} (h : Extends p q) (c : Char) :
    Extends (c :: p) (c :: q) := by
  obtain ⟨blanks, hblanks, rfl⟩ := h
  exact ⟨blanks, hblanks, rfl⟩

/-- Blanks behind a text go to its last piece. -/
theorem extends_splitOn (h : AllBlank right) :
    List.Forall₂ Extends ((s ++ right).splitOn ',') (s.splitOn ',') := by
  induction s with
  | nil =>
    have hcomma : ∀ c ∈ right, (c == ',') = false := by
      intro c hc
      simpa using ne_comma_of_isBlank (h c hc)
    rw [List.nil_append, List.splitOn, List.splitOnP_eq_singleton hcomma]
    exact .cons ⟨right, h, rfl⟩ .nil
  | cons c s ih =>
    rcases eq_or_ne c ',' with rfl | hc
    · rw [List.cons_append, splitOn_comma_cons, splitOn_comma_cons]
      exact .cons ⟨[], by simp [AllBlank], rfl⟩ ih
    · rw [List.cons_append, splitOn_cons_of_ne hc, splitOn_cons_of_ne hc]
      generalize (s ++ right).splitOn ',' = ps, s.splitOn ',' = qs at ih
      cases ih with
      | nil => exact .nil
      | cons hfirst hrest => exact .cons (hfirst.cons c) hrest

theorem map_trim_splitOn_right (h : AllBlank right) :
    ((s ++ right).splitOn ',').map trim = (s.splitOn ',').map trim := by
  have hpieces := extends_splitOn (s := s) h
  generalize (s ++ right).splitOn ',' = ps, s.splitOn ',' = qs at hpieces
  induction hpieces with
  | nil => rfl
  | cons hfirst _ ih =>
    obtain ⟨blanks, hblanks, rfl⟩ := hfirst
    rw [List.map_cons, List.map_cons, trim_append_right hblanks, ih]

/-- **Blanks around a line do not change its pieces**, but for blanks at their
ends. -/
theorem map_trim_splitOn (hleft : AllBlank left) (hright : AllBlank right) :
    ((left ++ s ++ right).splitOn ',').map trim = (s.splitOn ',').map trim := by
  rw [map_trim_splitOn_right hright, map_trim_splitOn_left hleft]

theorem map_trim_splitOn_trim : ((trim s).splitOn ',').map trim = (s.splitOn ',').map trim := by
  obtain ⟨left, right, hleft, hright, hs⟩ := exists_blanks s
  calc ((trim s).splitOn ',').map trim = ((left ++ trim s ++ right).splitOn ',').map trim :=
        (map_trim_splitOn hleft hright).symm
    _ = (s.splitOn ',').map trim := by rw [← hs]

end IntMachine.Text
