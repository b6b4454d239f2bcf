import IntMachine.Program.Basic
import IntMachine.Proofs.Decimal
import IntMachine.Proofs.Pieces
/-!
# The grammar of program text

Which texts are read as a program. `Decorates` says what may be done to a
canonical text, the one that `render` writes, without changing the program:
blanks around the line and around its integers, signs and leading zeros.
Reading accepts the decorated canonical texts of cells in range, and of every
other text it names the first piece that is not an integer in range
(`parse_accepts_decorated_programs`).
-/

namespace IntMachine.Program

open Text

variable {s token piece : List Char} {pieces : List (List Char)} {c : Char} {v : Int}
variable {cells : Program} {text : String} {fault : Fault}

/-! ## Decorations -/

/-- A piece of a line that stands for a canonical integer text: the same integer
in another style, between blanks. -/
def Decorated (token piece : List Char) : Prop :=
  ∃ left styled right, AllBlank left ∧ Restyled token styled ∧ AllBlank right ∧
    piece = left ++ styled ++ right

/-- A text that stands for a canonical one: what is between its commas is
decorated, and so is the line. -/
def Decorates (canonical text : String) : Prop :=
  ∃ tokens pieces left right, canonical.toList = [','].intercalate tokens ∧
    List.Forall₂ Decorated tokens pieces ∧ AllBlank left ∧ AllBlank right ∧
    text.toList = left ++ [','].intercalate pieces ++ right

/-- A piece that stands for an integer in range. -/
def IsToken (piece : List Char) : Prop :=
  ∃ v, inRange v ∧ Decorated (toString v).toList piece

theorem not_blank_of_isDigit (h : c.isDigit) : ¬ isBlank c := by
  have hrange := toNat_of_isDigit h
  simp [isBlank]
  omega

theorem not_blank_of_restyled (h : Restyled token s) : ∀ c ∈ s, ¬ isBlank c := by
  intro c hc
  rcases h.mem hc with rfl | rfl | hdigit
  · decide
  · decide
  · exact not_blank_of_isDigit hdigit

theorem comma_not_mem_of_restyled (h : Restyled token s) : ',' ∉ s := by
  intro hc
  rcases h.mem hc with h | h | h
  all_goals exact absurd h (by decide)

theorem decorated_iff : Decorated token piece ↔ Restyled token (trim piece) := by
  constructor
  · rintro ⟨left, styled, right, hleft, hstyled, hright, rfl⟩
    rw [trim_append_right hright, trim_append_left hleft,
      trim_of_no_blank (not_blank_of_restyled hstyled)]
    exact hstyled
  · intro h
    obtain ⟨left, right, hleft, hright, hpiece⟩ := exists_blanks piece
    exact ⟨left, trim piece, right, hleft, h, hright, hpiece⟩

/-! ## Tokens -/

theorem parseToken_eq_ok_iff :
    parseToken s = .ok v ↔ inRange v ∧ Restyled (toString v).toList s := by
  rw [← readPlain?_eq_some_iff, parseToken]
  cases readPlain? s with
  | none => simp
  | some w =>
    simp only [Option.some.injEq]
    constructor
    · intro h
      split at h
      · next hw => exact (Except.ok.inj h) ▸ ⟨hw, rfl⟩
      · cases h
    · rintro ⟨hv, rfl⟩
      rw [if_pos hv]

/-- A token out of range is told from what is not an integer. -/
theorem eq_outOfRange_iff (h : parseToken s = .error fault) :
    fault = .outOfRange ↔ ∃ v : Int, Restyled (toString v).toList s := by
  simp only [← readPlain?_eq_some_iff]
  rw [parseToken] at h
  cases hread : readPlain? s with
  | none =>
    obtain rfl : .notInteger = fault := by simpa [hread] using h
    simp
  | some w =>
    simp only [hread] at h
    split at h
    · cases h
    · obtain rfl := Except.error.inj h
      simp

theorem parseTokens_cons_of_ok (h : parseToken (trim piece) = .ok v) (index : Nat)
    (done : Array Int) :
    parseTokens (piece :: pieces) index done = parseTokens pieces (index + 1) (done.push v) := by
  rw [parseTokens]
  simp only [h]

/-- The tokens of a line, read one after the other. -/
theorem parseTokens_of_forall₂ {rest : Program}
    (h : List.Forall₂ (fun piece v => parseToken (trim piece) = .ok v) pieces rest)
    (index : Nat) (done : Array Int) :
    parseTokens pieces index done = .ok (done.toList ++ rest) := by
  induction h generalizing index done with
  | nil => simp [parseTokens]
  | cons hpiece _ ih =>
    rw [parseTokens_cons_of_ok hpiece, ih]
    simp

/-- A line is read as cells, or its first bad token is reported. -/
theorem exists_cells_or_badToken (pieces : List (List Char)) (index : Nat) (done : Array Int) :
    (∃ rest, List.Forall₂ (fun piece v => parseToken (trim piece) = .ok v) pieces rest) ∨
      ∃ k piece fault, pieces[k]? = some piece ∧ parseToken (trim piece) = .error fault ∧
        (∀ q ∈ pieces.take k, ∃ v, parseToken (trim q) = .ok v) ∧
        parseTokens pieces index done =
          .error (.badToken (String.ofList (trim piece)) (index + k) fault) := by
  induction pieces generalizing index done with
  | nil => exact .inl ⟨[], .nil⟩
  | cons piece pieces ih =>
    cases hpiece : parseToken (trim piece) with
    | error fault =>
      exact .inr ⟨0, piece, fault, rfl, hpiece, by simp, by simp [parseTokens, hpiece]⟩
    | ok v =>
      rcases ih (index + 1) (done.push v) with
        ⟨rest, hrest⟩ | ⟨k, q, fault, hq, hfault, htake, hrun⟩
      · exact .inl ⟨v :: rest, .cons hpiece hrest⟩
      · refine .inr ⟨k + 1, q, fault, hq, hfault, ?_, ?_⟩
        · rw [List.take_succ_cons, List.forall_mem_cons]
          exact ⟨⟨v, hpiece⟩, htake⟩
        · rw [parseTokens_cons_of_ok hpiece, hrun, Nat.add_assoc, Nat.add_comm 1 k]

/-! ## Programs -/

/-- Blanks at the ends of a line are taken off twice, so once is enough. -/
theorem parseTokens_map_trim (index : Nat) (done : Array Int) :
    parseTokens (pieces.map trim) index done = parseTokens pieces index done := by
  induction pieces generalizing index done with
  | nil => rfl
  | cons piece pieces ih => simp only [List.map_cons, parseTokens, trim_trim, ih]

theorem parse_eq : parse text = parseTokens (text.toList.splitOn ',') 0 #[] := by
  have hpieces : Separator.comma.pieces text.toList = .ok ((trim text.toList).splitOn ',') :=
    congrArg Except.ok splitOn_comma
  rw [parse, hpieces]
  change parseTokens _ 0 #[] = _
  rw [← parseTokens_map_trim, map_trim_splitOn_trim, parseTokens_map_trim]

theorem parse_eq_ok_iff : parse text = .ok cells ↔
    List.Forall₂ (fun token v => parseToken token = .ok v) ((text.toList.splitOn ',').map trim)
      cells := by
  rw [List.forall₂_map_left_iff, parse_eq]
  constructor
  · intro h
    rcases exists_cells_or_badToken (text.toList.splitOn ',') 0 #[] with
      ⟨rest, hrest⟩ | ⟨_, _, _, _, _, _, hrun⟩
    · rw [parseTokens_of_forall₂ hrest] at h
      obtain rfl := Except.ok.inj h
      simpa using hrest
    · rw [hrun] at h
      cases h
  · intro h
    simpa using parseTokens_of_forall₂ h 0 #[]

theorem toList_render :
    (render cells).toList = [','].intercalate (cells.map fun v => (toString v).toList) := by
  rw [render, String.toList_intercalate, List.map_map]
  rfl

theorem isToken_iff : IsToken piece ↔ ∃ v, parseToken (trim piece) = .ok v := by
  simp only [IsToken, decorated_iff, parseToken_eq_ok_iff]

/-- What is read as cells decorates their canonical text. -/
theorem decorates_of_parse (h : parse text = .ok cells) : Decorates (render cells) text := by
  rw [parse_eq_ok_iff, List.forall₂_map_left_iff] at h
  refine ⟨cells.map fun v => (toString v).toList, text.toList.splitOn ',', [], [], toList_render,
    ?_, by simp [AllBlank], by simp [AllBlank], by simp [List.intercalate_splitOn]⟩
  rw [List.forall₂_map_left_iff]
  exact (h.imp fun piece v hv => decorated_iff.2 (parseToken_eq_ok_iff.1 hv).2).flip

/-- Commas stand between pieces only. -/
theorem comma_not_mem_of_decorated {tokens : List (List Char)}
    (h : List.Forall₂ Decorated tokens pieces) :
    (∀ token ∈ tokens, ',' ∉ token) ∧ ∀ piece ∈ pieces, ',' ∉ piece := by
  induction h with
  | nil => simp
  | cons hpiece _ ih =>
    obtain ⟨left, styled, right, hleft, hstyled, hright, rfl⟩ := hpiece
    have htoken := comma_not_mem_of_restyled hstyled.refl
    have hblank : ∀ s, AllBlank s → ',' ∉ s := fun s hs hc => ne_comma_of_isBlank (hs _ hc) rfl
    refine ⟨List.forall_mem_cons.2 ⟨htoken, ih.1⟩, List.forall_mem_cons.2 ⟨?_, ih.2⟩⟩
    simp [hblank left hleft, hblank right hright, comma_not_mem_of_restyled hstyled]

/-- A canonical text is made of canonical integer texts in one way only. -/
theorem tokens_of_render {tokens : List (List Char)} (hcells : cells ≠ [])
    (h : (render cells).toList = [','].intercalate tokens)
    (hcomma : ∀ token ∈ tokens, ',' ∉ token) :
    tokens = cells.map fun v => (toString v).toList := by
  have hcanonical : (cells.map fun v => (toString v).toList) =
      ((render cells).toList).splitOn ',' := by
    rw [toList_render, List.splitOn_intercalate]
    · intro token htoken
      obtain ⟨v, -, rfl⟩ := List.mem_map.1 htoken
      exact comma_not_mem_of_restyled (restyled_toString v)
    · simpa using hcells
  rw [h] at hcanonical
  rcases eq_or_ne tokens [] with rfl | hne
  · have hnil : [] ∈ cells.map fun v => (toString v).toList := by
      rw [hcanonical]
      exact List.mem_singleton_self []
    obtain ⟨v, -, hv⟩ := List.mem_map.1 hnil
    exact absurd hv (restyled_toString v).ne_nil
  · rw [hcanonical, List.splitOn_intercalate ',' hcomma hne]

/-- What decorates the canonical text of cells in range is read as them. -/
theorem parse_of_decorates (hcells : cells ≠ []) (hrange : ∀ v ∈ cells, inRange v)
    (h : Decorates (render cells) text) : parse text = .ok cells := by
  obtain ⟨tokens, pieces, left, right, hcanonical, hpieces, hleft, hright, htext⟩ := h
  obtain ⟨htokens, hcomma⟩ := comma_not_mem_of_decorated hpieces
  obtain rfl := tokens_of_render hcells hcanonical htokens
  rw [List.forall₂_map_left_iff] at hpieces
  have hne : pieces ≠ [] := by
    rintro rfl
    cases hpieces
    exact hcells rfl
  rw [parse_eq_ok_iff, htext, map_trim_splitOn hleft hright,
    List.splitOn_intercalate ',' hcomma hne, List.forall₂_map_left_iff]
  refine ((List.forall₂_and_left _ _).2 ⟨hrange, hpieces⟩).flip.imp fun piece v hv => ?_
  exact parseToken_eq_ok_iff.2 ⟨hv.1, decorated_iff.1 hv.2⟩

/-- A canonical text decorates itself. -/
theorem decorates_render (cells : Program) : Decorates (render cells) (render cells) := by
  refine ⟨_, cells.map fun v => (toString v).toList, [], [], toList_render,
    List.forall₂_same.2 fun token htoken => ?_, by simp [AllBlank], by simp [AllBlank],
    by simp [toList_render]⟩
  obtain ⟨v, -, rfl⟩ := List.mem_map.1 htoken
  exact ⟨[], (toString v).toList, [], by simp [AllBlank], restyled_toString v, by simp [AllBlank],
    by simp⟩

/-- What is read is a program that can be read again: it has cells, in range. -/
theorem ne_nil_and_inRange_of_parse (h : parse text = .ok cells) :
    cells ≠ [] ∧ ∀ v ∈ cells, inRange v := by
  rw [parse_eq_ok_iff] at h
  constructor
  · rintro rfl
    simp at h
  · have hboth : List.Forall₂ (fun v token => inRange v ∧ Restyled (toString v).toList token) cells
        ((text.toList.splitOn ',').map trim) :=
      (h.imp fun token v hv => parseToken_eq_ok_iff.1 hv).flip
    exact ((List.forall₂_and_left _ _).1 hboth).1

/-- **Reading accepts the decorated canonical texts and no others.** A text is
read as cells if and only if there are cells, all in range, and the text
decorates their canonical text. Any other text is refused for its first piece
that is not an integer in range, with the piece without its blanks and its
position. What was read is written as a canonical text, which is read and
written as itself. -/
theorem parse_accepts_decorated_programs (text : String) :
    (∀ cells, parse text = .ok cells ↔
      cells ≠ [] ∧ (∀ v ∈ cells, inRange v) ∧ Decorates (render cells) text) ∧
    ((∀ cells, parse text ≠ .ok cells) → ∃ index piece fault,
      (text.toList.splitOn ',')[index]? = some piece ∧ ¬ IsToken piece ∧
      (∀ earlier ∈ (text.toList.splitOn ',').take index, IsToken earlier) ∧
      (fault = .outOfRange ↔ ∃ v : Int, Decorated (toString v).toList piece) ∧
      parse text = .error (.badToken (String.ofList (trim piece)) index fault)) ∧
    ∀ cells, parse text = .ok cells →
      parse (render cells) = parse text ∧
        (parse (render cells)).map render = .ok (render cells) := by
  refine ⟨fun cells => ⟨fun h => ?_, fun h => ?_⟩, fun h => ?_, fun cells h => ?_⟩
  · obtain ⟨hcells, hrange⟩ := ne_nil_and_inRange_of_parse h
    exact ⟨hcells, hrange, decorates_of_parse h⟩
  · exact parse_of_decorates h.1 h.2.1 h.2.2
  · rcases exists_cells_or_badToken (text.toList.splitOn ',') 0 #[] with
      ⟨rest, hrest⟩ | ⟨index, piece, fault, hpiece, hfault, htake, hrun⟩
    · exact absurd (parse_eq.trans (parseTokens_of_forall₂ hrest 0 #[])) (h _)
    · refine ⟨index, piece, fault, hpiece, ?_, fun q hq => isToken_iff.2 (htake q hq), ?_, ?_⟩
      · rw [isToken_iff, hfault]
        simp
      · simp only [decorated_iff]
        exact eq_outOfRange_iff hfault
      · rw [parse_eq, hrun, Nat.zero_add]
  · obtain ⟨hcells, hrange⟩ := ne_nil_and_inRange_of_parse h
    have hagain := parse_of_decorates hcells hrange (decorates_render cells)
    exact ⟨hagain.trans h.symm, by rw [hagain]; rfl⟩

/-- Blanks, a plus sign, a minus sign before zero and leading zeros are
accepted; of a line with two bad tokens the first is reported. -/
theorem parse_of_a_decorated_text :
    (parse " +007,\t-0 ,12\n" = .ok [7, 0, 12] ∧
      parse (render [7, 0, 12]) = parse " +007,\t-0 ,12\n") ∧
    (∀ cells, parse "1, +-2 ,9223372036854775808" ≠ .ok cells) ∧
    ∃ index piece fault,
      ("1, +-2 ,9223372036854775808".toList.splitOn ',')[index]? = some piece ∧ ¬ IsToken piece ∧
      parse "1, +-2 ,9223372036854775808" =
        .error (.badToken (String.ofList (trim piece)) index fault) := by
  have haccepted : parse " +007,\t-0 ,12\n" = .ok [7, 0, 12] := by decide +kernel
  have hrefused : ∀ cells, parse "1, +-2 ,9223372036854775808" ≠ .ok cells := by
    have hrun : parse "1, +-2 ,9223372036854775808" = .error (.badToken "+-2" 1 .notInteger) := by
      decide +kernel
    simp [hrun]
  obtain ⟨-, -, hagain⟩ := parse_accepts_decorated_programs " +007,\t-0 ,12\n"
  obtain ⟨-, hbad, -⟩ := parse_accepts_decorated_programs "1, +-2 ,9223372036854775808"
  obtain ⟨index, piece, fault, hpiece, htoken, -, -, hrun⟩ := hbad hrefused
  exact ⟨⟨haccepted, (hagain [7, 0, 12] haccepted).1⟩, hrefused,
    index, piece, fault, hpiece, htoken, hrun⟩

end IntMachine.Program
