import IntMachine.Program.Load
import IntMachine.Proofs.Separators
import IntMachine.Proofs.Utf8
/-!
# Programs from files and from text

A text that is read from a file has its line ends unified: `withLF` says it in one
pattern for each line end. Line ends are blanks and hold no comma, so unifying them
gets along with taking blanks off (`trim_withLF`) and with cutting at commas
(`splitOn_withLF`), and what is left of a line end inside a token makes it no
integer either way. So a file gives what its text gives, but for the line ends in
the token of an error (`file_agrees_with_text`).
-/

namespace IntMachine.Text

variable {s t : List Char} {c : Char} {pieces : List (List Char)}

/-! ## Unified line ends -/

/-- The text with LF in place of each CR LF and of each CR without LF. -/
def withLF : List Char → List Char
  | [] => []
  | '\r' :: '\n' :: s => '\n' :: withLF s
  | '\r' :: s => '\n' :: withLF s
  | c :: s => c :: withLF s

@[simp] theorem withLF_nil : withLF [] = [] := by rw [withLF]

theorem withLF_crlf : withLF ('\r' :: '\n' :: s) = '\n' :: withLF s := by rw [withLF]

theorem withLF_cr (h : s.head? ≠ some '\n') : withLF ('\r' :: s) = '\n' :: withLF s := by
  rw [withLF]
  rintro rest rfl
  exact h rfl

theorem withLF_cons (h : c ≠ '\r') : withLF (c :: s) = c :: withLF s := by
  rw [withLF]
  · rintro - rfl
    exact absurd rfl h
  · rintro rfl
    exact absurd rfl h

/-- A walk over the text unifies the line ends, whether it is behind a CR or not. -/
theorem unifyLinesFrom_eq (s : List Char) (done : Array Char) :
    unifyLinesFrom s false done = done.toList ++ withLF s ∧
      unifyLinesFrom s true (done.push '\n') = done.toList ++ withLF ('\r' :: s) := by
  induction s generalizing done with
  | nil =>
    rw [withLF_cr (by simp)]
    simp [unifyLinesFrom]
  | cons c s ih =>
    rcases eq_or_ne c '\r' with rfl | hcr
    · refine ⟨?_, ?_⟩
      · rw [unifyLinesFrom, if_pos rfl, (ih done).2]
      · rw [unifyLinesFrom, if_pos rfl, (ih (done.push '\n')).2,
          withLF_cr (s := '\r' :: s) (by simp)]
        simp
    refine ⟨?_, ?_⟩
    · rw [unifyLinesFrom, if_neg hcr, if_neg (by simp), (ih (done.push c)).1, withLF_cons hcr]
      simp
    · rw [unifyLinesFrom, if_neg hcr]
      rcases eq_or_ne c '\n' with rfl | hlf
      · rw [if_pos ⟨rfl, rfl⟩, (ih (done.push '\n')).1, withLF_crlf]
        simp
      · rw [if_neg fun h => hlf h.1, (ih ((done.push '\n').push c)).1,
          withLF_cr (by simpa using hlf), withLF_cons hcr]
        simp

theorem unifyLines_eq (s : List Char) : unifyLines s = withLF s := (unifyLinesFrom_eq s #[]).1

theorem mem_of_mem_withLF (h : c ∈ withLF s) : c ∈ s ∨ c = '\n' := by
  fun_induction withLF s with
  | case1 => cases h
  | case2 s ih | case3 s _ ih =>
    rcases List.mem_cons.1 h with rfl | h
    · exact .inr rfl
    · exact (ih h).imp_left fun h => by simp [h]
  | case4 d s _ _ ih =>
    rcases List.mem_cons.1 h with rfl | h
    · exact .inl List.mem_cons_self
    · exact (ih h).imp_left (List.mem_cons_of_mem d)

/-- The cut between two texts takes a CR from its LF. -/
def Severs (s t : List Char) : Prop := s.getLast? = some '\r' ∧ t.head? = some '\n'

theorem Severs.cons (h : Severs s t) (c : Char) : Severs (c :: s) t :=
  ⟨by simp [List.getLast?_cons, h.1], h.2⟩

/-- **The line ends of a text are those of its parts**, unless the cut severs one. -/
theorem withLF_append (h : ¬ Severs s t) : withLF (s ++ t) = withLF s ++ withLF t := by
  fun_induction withLF s with
  | case1 => rfl
  | case2 s ih =>
    rw [List.cons_append, List.cons_append, withLF_crlf,
      ih fun hs => h ((hs.cons '\n').cons '\r'), List.cons_append]
  | case3 s hlf ih =>
    have hhead : (s ++ t).head? ≠ some '\n' := by
      cases s with
      | nil => exact fun ht => h ⟨rfl, ht⟩
      | cons c s =>
        rintro ⟨⟩
        exact hlf s rfl
    rw [List.cons_append, withLF_cr hhead, ih fun hs => h (hs.cons '\r'), List.cons_append]
  | case4 c s _ hcr ih =>
    have hcr : c ≠ '\r' := hcr
    rw [List.cons_append, withLF_cons hcr, ih fun hs => h (hs.cons c), List.cons_append]

theorem withLF_of_not_mem (h : '\r' ∉ s) : withLF s = s := by
  induction s with
  | nil => exact withLF_nil
  | cons c s ih =>
    obtain ⟨hc, hs⟩ := List.ne_and_not_mem_of_not_mem_cons h
    rw [withLF_cons hc.symm, ih hs]

theorem lf_mem_withLF (h : '\r' ∈ s) : '\n' ∈ withLF s := by
  fun_induction withLF s with
  | case1 => cases h
  | case2 | case3 => exact List.mem_cons_self
  | case4 c s _ hcr ih =>
    rcases List.mem_cons.1 h with rfl | h
    · exact absurd rfl hcr
    · exact List.mem_cons_of_mem c (ih h)

/-! ## Blanks and commas -/

theorem AllBlank.withLF (h : AllBlank s) : AllBlank (withLF s) := by
  intro c hc
  rcases mem_of_mem_withLF hc with hc | rfl
  · exact h c hc
  · decide

theorem Bare.not_severs (h : Bare s) : ¬ Severs s t := by
  rintro ⟨hlast, -⟩
  exact h.2 '\r' hlast (by decide)

theorem Bare.not_severs_left (h : Bare t) : ¬ Severs s t := by
  rintro ⟨-, hfirst⟩
  exact h.1 '\n' hfirst (by decide)

theorem withLF_cons_of_not_blank (h : ¬ isBlank c) : withLF (c :: s) = c :: withLF s := by
  refine withLF_cons ?_
  rintro rfl
  exact h (by decide)

/-- A text without blanks at its ends has no line end there. -/
theorem Bare.withLF (h : Bare s) : Bare (withLF s) := by
  constructor
  · intro c hc
    cases s with
    | nil => simp at hc
    | cons d s =>
      have hd : ¬ isBlank d := h.1 d rfl
      rw [withLF_cons_of_not_blank hd] at hc
      obtain rfl : d = c := by simpa using hc
      exact hd
  · intro c hc
    rcases List.eq_nil_or_concat s with rfl | ⟨front, d, rfl⟩
    · simp at hc
    · have hd : ¬ isBlank d := h.2 d (by simp)
      have hfront : ¬ Severs front [d] := by
        rintro ⟨-, hlf⟩
        obtain rfl : d = '\n' := by simpa using hlf
        exact hd (by decide)
      rw [List.concat_eq_append, withLF_append hfront, withLF_cons_of_not_blank hd] at hc
      obtain rfl : d = c := by simpa using hc
      exact hd

/-- **Unifying line ends and taking blanks off get along.** -/
theorem trim_withLF (s : List Char) : trim (withLF s) = withLF (trim s) := by
  obtain ⟨left, right, hleft, hright, hs⟩ := exists_blanks s
  have hbare := bare_trim s
  rcases eq_or_ne (trim s) [] with hnil | hne
  · have hblank : AllBlank s := by
      rw [hs, hnil, List.append_nil]
      exact List.forall_mem_append.2 ⟨hleft, hright⟩
    have := trim_append_right (s := []) hblank.withLF
    rw [hnil, withLF_nil]
    simpa using this
  · have hcut : ¬ Severs (left ++ trim s) right := by
      rintro ⟨hlast, hfirst⟩
      rw [List.getLast?_append_of_ne_nil _ hne] at hlast
      exact hbare.not_severs ⟨hlast, hfirst⟩
    calc trim (withLF s) = trim (withLF (left ++ trim s ++ right)) := by rw [← hs]
      _ = trim (withLF left ++ withLF (trim s) ++ withLF right) := by
        rw [withLF_append hcut, withLF_append hbare.not_severs_left]
      _ = trim (withLF (trim s)) := by
        rw [trim_append_right hright.withLF, trim_append_left hleft.withLF]
      _ = withLF (trim s) := hbare.withLF.trim_eq

theorem withLF_intercalate (pieces : List (List Char)) :
    withLF ([','].intercalate pieces) = [','].intercalate (pieces.map withLF) := by
  induction pieces with
  | nil => rfl
  | cons piece pieces ih =>
    rcases eq_or_ne pieces [] with rfl | hmore
    · simp
    · have hpiece : ¬ Severs piece ([','] ++ [','].intercalate pieces) := by
        rintro ⟨-, hlf⟩
        cases hlf
      rw [List.map_cons, List.intercalate_cons_of_ne_nil hmore,
        List.intercalate_cons_of_ne_nil (by simpa using hmore), List.append_assoc,
        withLF_append hpiece, ← ih, List.singleton_append, withLF_cons (by decide)]
      simp

/-- **Unifying line ends and cutting at commas get along.** -/
theorem splitOn_withLF (s : List Char) :
    (withLF s).splitOn ',' = (s.splitOn ',').map withLF := by
  have hcomma : ∀ piece ∈ (s.splitOn ',').map withLF, ',' ∉ piece := by
    intro piece hpiece hmem
    obtain ⟨before, hbefore, rfl⟩ := List.mem_map.1 hpiece
    rcases mem_of_mem_withLF hmem with hmem | hlf
    · exact comma_not_mem_of_mem_splitOn hbefore hmem
    · exact absurd hlf (by decide)
  calc (withLF s).splitOn ',' = (withLF ([','].intercalate (s.splitOn ','))).splitOn ',' := by
        rw [List.intercalate_splitOn]
    _ = ([','].intercalate ((s.splitOn ',').map withLF)).splitOn ',' := by rw [withLF_intercalate]
    _ = (s.splitOn ',').map withLF := List.splitOn_intercalate ',' hcomma (by simp)

end IntMachine.Text

namespace IntMachine.Program

open Text

variable {s : List Char} {c : Char} {text : String}

/-! ## Tokens -/

/-- A token with a foreign character is no integer. -/
theorem parseToken_of_foreign (hc : c ∈ s) (hforeign : isForeign c) :
    parseToken s = .error .notInteger := by
  have hread : readPlain? s = none := by
    rw [Option.eq_none_iff_forall_ne_some]
    intro v hv
    exact not_isForeign_of_restyled (readPlain?_eq_some_iff.1 hv) c hc hforeign
  rw [parseToken, hread]

/-- A line end inside a token makes it no integer, unified or not. -/
theorem parseToken_withLF (s : List Char) : parseToken (withLF s) = parseToken s := by
  by_cases hcr : '\r' ∈ s
  · rw [parseToken_of_foreign hcr (by decide),
      parseToken_of_foreign (lf_mem_withLF hcr) (by decide)]
  · rw [withLF_of_not_mem hcr]

/-- The same error about another token. -/
def ParseError.onToken (f : List Char → List Char) : ParseError → ParseError
  | .emptySeparator => .emptySeparator
  | .badToken token index fault => .badToken (String.ofList (f token.toList)) index fault

theorem parseTokens_map_withLF (pieces : List (List Char)) (index : Nat) (done : Array Int) :
    parseTokens (pieces.map withLF) index done =
      (parseTokens pieces index done).mapError (.onToken withLF) := by
  induction pieces generalizing index done with
  | nil => rfl
  | cons piece pieces ih =>
    rw [List.map_cons, parseTokens, parseTokens, trim_withLF, parseToken_withLF]
    cases parseToken (trim piece) with
    | error fault => simp [Except.mapError, ParseError.onToken]
    | ok v => exact ih (index + 1) (done.push v)

/-! ## Programs -/

/-- Unified line ends show in the token of an error only. -/
theorem parse_withLF (text : String) :
    parse (String.ofList (withLF text.toList)) = (parse text).mapError (.onToken withLF) := by
  rw [parse_eq, parse_eq, String.toList_ofList, splitOn_withLF, parseTokens_map_withLF]

/-- A file in UTF-8 holds its text with unified line ends. -/
theorem ofBytes_toUTF8 (text : String) :
    ofBytes text.toUTF8.data.toList =
      (parse (String.ofList (withLF text.toList))).mapError .malformed := by
  have htext : textOfBytes text.toUTF8.data.toList = .ok (String.ofList (withLF text.toList)) := by
    rw [textOfBytes, Utf8.decode_toUTF8, Except.map, unifyLines_eq]
  rw [ofBytes, htext]

/-- Reading with commas gives cells or names a bad token. -/
theorem parse_cases (text : String) : (∃ cells, parse text = .ok cells) ∨
    ∃ token index fault, parse text = .error (.badToken token index fault) := by
  rw [parse_eq]
  rcases exists_cells_or_badToken (text.toList.splitOn ',') 0 #[] with
    ⟨rest, hrest⟩ | ⟨_, _, _, _, _, _, hrun⟩
  · exact .inl ⟨_, parseTokens_of_forall₂ hrest 0 #[]⟩
  · exact .inr ⟨_, _, _, hrun⟩

/-- **Loading from a file agrees with loading from text.** A file that holds a text in UTF-8
gives the cells that the text gives. If the text gives none, the file gives none either,
for the same fault at the same position, and the token it names is that of the text with
LF in place of each CR LF and of each CR without LF. -/
theorem file_agrees_with_text (text : String) :
    (∃ cells, parse text = .ok cells ∧ ofFile (.ok text.toUTF8.data.toList) = .ok cells) ∨
      ∃ token index fault, parse text = .error (.badToken token index fault) ∧
        ofFile (.ok text.toUTF8.data.toList) =
          .error (.malformed (.badToken (String.ofList (withLF token.toList)) index fault)) := by
  have hfile : ofFile (.ok text.toUTF8.data.toList) =
      ((parse text).mapError (.onToken withLF)).mapError .malformed := by
    rw [ofFile, ofBytes_toUTF8, parse_withLF]
  rcases parse_cases text with ⟨cells, hcells⟩ | ⟨token, index, fault, herror⟩
  · exact .inl ⟨cells, hcells, by rw [hfile, hcells]; rfl⟩
  · exact .inr ⟨token, index, fault, herror, by rw [hfile, herror]; rfl⟩

example : ofFile (.ok "1,\r\n2\r\n3\r".toUTF8.data.toList) =
    .error (.malformed (.badToken "2\n3" 1 .notInteger)) := by decide +kernel

end IntMachine.Program
