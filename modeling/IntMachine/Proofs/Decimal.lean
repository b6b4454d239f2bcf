import IntMachine.Text.Integer
import Mathlib.Data.List.Induction
/-!
# Integers and their decimal texts

Every integer has one canonical decimal text, the one `toString` writes. A text
reads as an integer (`Text.readPlain?`) when it is that canonical text with
leading zeros and a sign that do not change the number: `Restyled` says which
texts these are, and `readPlain?_eq_some_iff` that they are all.
-/

namespace IntMachine.Text

variable {c : Char} {ds s token : List Char} {k n : Nat} {v : Int}

/-- A run of digits that is not empty. -/
def IsDigits (ds : List Char) : Prop := ds ≠ [] ∧ ∀ c ∈ ds, c.isDigit

/-- Another style for a canonical integer text: leading zeros are put before the
digits, a plus sign before a number without a sign, or a minus sign before
zero. -/
inductive Restyled : (token s : List Char) → Prop
  | unsigned {ds : List Char} (k : Nat) : IsDigits ds → Restyled ds (List.replicate k '0' ++ ds)
  | plus {ds : List Char} (k : Nat) :
    IsDigits ds → Restyled ds ('+' :: (List.replicate k '0' ++ ds))
  | minusZero (k : Nat) : Restyled ['0'] ('-' :: (List.replicate k '0' ++ ['0']))
  | negative {ds : List Char} (k : Nat) :
    IsDigits ds → Restyled ('-' :: ds) ('-' :: (List.replicate k '0' ++ ds))

/-! ## Digits -/

theorem isDigits_toDigits (n : Nat) : IsDigits (Nat.toDigits 10 n) :=
  ⟨Nat.toDigits_ne_nil, fun _ hc => Nat.isDigit_of_mem_toDigits (by decide) (by decide) hc⟩

theorem IsDigits.zeros_append (h : IsDigits ds) (k : Nat) :
    IsDigits (List.replicate k '0' ++ ds) := by
  refine ⟨by simp [h.1], fun c hc => ?_⟩
  rcases List.mem_append.1 hc with hzero | hdigit
  · rw [List.eq_of_mem_replicate hzero]
    rfl
  · exact h.2 c hdigit

theorem toNat_of_isDigit (h : c.isDigit) : 48 ≤ c.toNat ∧ c.toNat < 58 := by
  simp only [Char.isDigit, Bool.and_eq_true, decide_eq_true_eq, ge_iff_le,
    UInt32.le_iff_toNat_le] at h
  exact ⟨h.1, Nat.lt_succ_of_le h.2⟩

theorem lt_ten_of_isDigit (h : c.isDigit) : c.toNat - '0'.toNat < 10 := by
  obtain ⟨hlow, hhigh⟩ := toNat_of_isDigit h
  change c.toNat - 48 < 10
  omega

theorem digitChar_of_isDigit (h : c.isDigit) : (c.toNat - '0'.toNat).digitChar = c := by
  have hdigit : ∀ d < 10, Nat.digitChar d = Char.ofNat (48 + d) := by decide
  obtain ⟨hlow, -⟩ := toNat_of_isDigit h
  rw [hdigit _ (lt_ten_of_isDigit h)]
  calc Char.ofNat (48 + (c.toNat - 48)) = Char.ofNat c.toNat := by rw [Nat.add_sub_cancel' hlow]
    _ = c := Char.ofNat_toNat c

theorem toDigits_of_isDigit (h : c.isDigit) : Nat.toDigits 10 (c.toNat - '0'.toNat) = [c] := by
  have hlt : c.toNat - '0'.toNat < 10 := lt_ten_of_isDigit h
  rw [Nat.toDigits_of_lt_base hlt, digitChar_of_isDigit h]

/-- One more digit at the end. -/
theorem ofDigitChars_concat : Nat.ofDigitChars 10 (ds ++ [c]) 0 =
    10 * Nat.ofDigitChars 10 ds 0 + (c.toNat - '0'.toNat) := by
  rw [Nat.ofDigitChars_append, Nat.ofDigitChars_cons, Nat.ofDigitChars_nil]

/-- Leading zeros do not change a number. -/
theorem ofDigitChars_zeros_append :
    Nat.ofDigitChars 10 (List.replicate k '0' ++ ds) 0 = Nat.ofDigitChars 10 ds 0 := by
  induction k with
  | zero => rfl
  | succ k ih =>
    rw [List.replicate_succ, List.cons_append, Nat.ofDigitChars_cons]
    exact ih

/-- **Digits are the canonical digits of their number, after zeros.** By
induction on the last digit: it follows the canonical digits of the number
before it, or takes their place if that number is zero. -/
theorem IsDigits.exists_zeros (h : IsDigits ds) :
    ∃ k, ds = List.replicate k '0' ++ Nat.toDigits 10 (Nat.ofDigitChars 10 ds 0) := by
  obtain ⟨hne, hdigits⟩ := h
  induction ds using List.reverseRecOn with
  | nil => exact absurd rfl hne
  | append_singleton front c ih =>
    have hc : c.isDigit := hdigits c (by simp)
    have hlast := toDigits_of_isDigit hc
    rw [ofDigitChars_concat]
    rcases eq_or_ne front [] with rfl | hfront
    · exact ⟨0, by simpa using hlast.symm⟩
    · obtain ⟨k, hk⟩ := ih hfront fun x hx => hdigits x (by simp [hx])
      rcases Nat.eq_zero_or_pos (Nat.ofDigitChars 10 front 0) with hzero | hpos
      · -- the digits before are zeros, one of them the canonical text of zero
        refine ⟨k + 1, ?_⟩
        rw [hzero, Nat.mul_zero, Nat.zero_add, hlast, hk, hzero, List.replicate_succ']
        rfl
      · refine ⟨k, ?_⟩
        rw [← Nat.toDigits_append_toDigits (by decide) hpos (lt_ten_of_isDigit hc), hlast,
          ← List.append_assoc, ← hk]

/-! ## Canonical texts -/

theorem toList_toString_natCast (n : Nat) : (toString (n : Int)).toList = Nat.toDigits 10 n := by
  rw [Int.toString_eq_repr, Int.repr_eq_if, if_pos (Int.natCast_nonneg n), Int.toNat_natCast,
    Nat.toList_repr]

theorem toList_toString_neg (hn : 0 < n) :
    (toString (-(n : Int))).toList = '-' :: Nat.toDigits 10 n := by
  have hneg : ¬ 0 ≤ -(n : Int) := by omega
  rw [Int.toString_eq_repr, Int.repr_eq_if, if_neg hneg, Int.neg_neg, Int.toNat_natCast,
    String.toList_append, Nat.toList_repr]
  rfl

/-- A canonical text is digits, behind a minus sign if the integer is
negative. -/
theorem toList_toString_cases (v : Int) :
    (∃ n : Nat, v = n ∧ (toString v).toList = Nat.toDigits 10 n) ∨
      ∃ n : Nat, 0 < n ∧ v = -n ∧ (toString v).toList = '-' :: Nat.toDigits 10 n := by
  rcases Int.lt_or_le v 0 with hneg | hpos
  · obtain ⟨n, rfl⟩ : ∃ n : Nat, v = -n := ⟨v.natAbs, by omega⟩
    exact .inr ⟨n, by omega, rfl, toList_toString_neg (by omega)⟩
  · obtain ⟨n, rfl⟩ := Int.eq_ofNat_of_zero_le hpos
    exact .inl ⟨n, rfl, toList_toString_natCast n⟩

theorem not_isDigits_minus : ¬ IsDigits ('-' :: ds) := by
  intro h
  exact absurd (h.2 '-' List.mem_cons_self) (by decide)

/-! ## What reads as an integer -/

theorem splitSign_cases (s : List Char) :
    (∃ ds, s = '+' :: ds ∧ splitSign s = (false, ds)) ∨
      (∃ ds, s = '-' :: ds ∧ splitSign s = (true, ds)) ∨ splitSign s = (false, s) := by
  unfold splitSign
  split
  · exact .inl ⟨_, rfl, rfl⟩
  · exact .inr (.inl ⟨_, rfl, rfl⟩)
  · exact .inr (.inr rfl)

theorem splitSign_of_isDigits (h : IsDigits ds) : splitSign ds = (false, ds) := by
  rcases splitSign_cases ds with ⟨_, rfl, -⟩ | ⟨_, rfl, -⟩ | hs
  · exact absurd (h.2 '+' List.mem_cons_self) (by decide)
  · exact absurd h not_isDigits_minus
  · exact hs

/-- What reads as an integer: digits, behind a sign if there is one. -/
theorem readPlain?_eq_some_iff_isDigits :
    readPlain? s = some v ↔ IsDigits (splitSign s).2 ∧
      signed (splitSign s).1 (Nat.ofDigitChars 10 (splitSign s).2 0) = v := by
  rw [readPlain?]
  simp only [List.all_eq_true]
  split
  · next h => simp only [Option.some.injEq, show IsDigits (splitSign s).2 from h, true_and]
  · next h => simp only [reduceCtorEq, show ¬ IsDigits (splitSign s).2 from h, false_and]

/-- A text that reads as an integer restyles the canonical text of that
integer. -/
theorem restyled_of_readPlain? (h : readPlain? s = some v) : Restyled (toString v).toList s := by
  obtain ⟨hdigits, rfl⟩ := readPlain?_eq_some_iff_isDigits.1 h
  obtain ⟨k, hk⟩ := hdigits.exists_zeros
  rcases splitSign_cases s with ⟨ds, rfl, hs⟩ | ⟨ds, rfl, hs⟩ | hs
  all_goals simp only [hs] at hk ⊢
  · generalize Nat.ofDigitChars 10 ds 0 = n at hk ⊢
    subst hk
    rw [signed, if_neg (by decide), toList_toString_natCast]
    exact .plus k (isDigits_toDigits n)
  · generalize Nat.ofDigitChars 10 ds 0 = n at hk ⊢
    subst hk
    rw [signed, if_pos rfl]
    rcases Nat.eq_zero_or_pos n with rfl | hpos
    · exact .minusZero k
    · rw [toList_toString_neg hpos]
      exact .negative k (isDigits_toDigits n)
  · generalize Nat.ofDigitChars 10 s 0 = n at hk ⊢
    subst hk
    rw [signed, if_neg (by decide), toList_toString_natCast]
    exact .unsigned k (isDigits_toDigits n)

/-- A text that restyles the canonical text of an integer reads as it. -/
theorem readPlain?_of_restyled (h : Restyled (toString v).toList s) : readPlain? s = some v := by
  rw [readPlain?_eq_some_iff_isDigits]
  rcases toList_toString_cases v with ⟨n, rfl, htext⟩ | ⟨n, hn, rfl, htext⟩
  all_goals rw [htext] at h
  · generalize htoken : Nat.toDigits 10 n = token at h
    have hvalue : Nat.ofDigitChars 10 token 0 = n := htoken ▸ Nat.ofDigitChars_ten_toDigits
    cases h with
    | unsigned k hds =>
      rw [splitSign_of_isDigits (hds.zeros_append k)]
      exact ⟨hds.zeros_append k, by simp [signed, ofDigitChars_zeros_append, hvalue]⟩
    | plus k hds =>
      exact ⟨hds.zeros_append k, by simp [splitSign, signed, ofDigitChars_zeros_append, hvalue]⟩
    | minusZero k =>
      have hzero : n = 0 := hvalue.symm
      subst hzero
      exact ⟨(isDigits_toDigits 0).zeros_append k, by
        simp [splitSign, signed, ofDigitChars_zeros_append, hvalue]⟩
    | negative k hds => exact absurd (htoken ▸ isDigits_toDigits n) not_isDigits_minus
  · generalize htoken : '-' :: Nat.toDigits 10 n = token at h
    cases h with
    | unsigned k hds => exact absurd (htoken ▸ hds) not_isDigits_minus
    | plus k hds => exact absurd (htoken ▸ hds) not_isDigits_minus
    | minusZero k => simp at htoken
    | negative k hds =>
      obtain rfl := (List.cons_inj_right _).1 htoken
      exact ⟨hds.zeros_append k, by
        simp only [splitSign, signed, if_true, ofDigitChars_zeros_append,
          Nat.ofDigitChars_ten_toDigits]⟩

/-- **The texts that read as an integer** are those that restyle its canonical
text. -/
theorem readPlain?_eq_some_iff : readPlain? s = some v ↔ Restyled (toString v).toList s :=
  ⟨restyled_of_readPlain?, readPlain?_of_restyled⟩

/-! ## What a style is made of -/

/-- A style is a sign, if any, and digits. -/
theorem Restyled.exists_sign (h : Restyled token s) :
    ∃ sign ds, (∀ c ∈ sign, c = '+' ∨ c = '-') ∧ IsDigits ds ∧ s = sign ++ ds := by
  cases h with
  | unsigned k hds => exact ⟨[], _, by simp, hds.zeros_append k, rfl⟩
  | plus k hds => exact ⟨['+'], _, by simp, hds.zeros_append k, rfl⟩
  | minusZero k => exact ⟨['-'], _, by simp, (isDigits_toDigits 0).zeros_append k, rfl⟩
  | negative k hds => exact ⟨['-'], _, by simp, hds.zeros_append k, rfl⟩

theorem Restyled.mem (h : Restyled token s) (hc : c ∈ s) : c = '+' ∨ c = '-' ∨ c.isDigit := by
  obtain ⟨sign, ds, hsign, hds, rfl⟩ := h.exists_sign
  rcases List.mem_append.1 hc with hc | hc
  · exact (hsign c hc).imp_right .inl
  · exact .inr (.inr (hds.2 c hc))

/-- A canonical text is one of its own styles. -/
theorem Restyled.refl (h : Restyled token s) : Restyled token token := by
  cases h with
  | unsigned k hds => exact .unsigned 0 hds
  | plus k hds => exact .unsigned 0 hds
  | minusZero k => exact .unsigned 0 (isDigits_toDigits 0)
  | negative k hds => exact .negative 0 hds

theorem Restyled.ne_nil (h : Restyled token s) : token ≠ [] := by
  cases h with
  | unsigned k hds => exact hds.1
  | plus k hds => exact hds.1
  | minusZero k => simp
  | negative k hds => simp

/-- A canonical text is a style of itself. -/
theorem restyled_toString (v : Int) : Restyled (toString v).toList (toString v).toList := by
  rcases toList_toString_cases v with ⟨n, -, htext⟩ | ⟨n, -, -, htext⟩
  all_goals rw [htext]
  · exact .unsigned 0 (isDigits_toDigits n)
  · exact .negative 0 (isDigits_toDigits n)

/-- A canonical text reads as the integer it was written for. -/
theorem readPlain?_toString (v : Int) : readPlain? (toString v).toList = some v :=
  readPlain?_of_restyled (restyled_toString v)

/-- A character that is no digit and no minus sign stands in no canonical text. -/
theorem not_mem_toString (hdigit : ¬ c.isDigit) (hminus : c ≠ '-') (v : Int) :
    c ∉ (toString v).toList := by
  intro hc
  rcases toList_toString_cases v with ⟨n, -, htext⟩ | ⟨n, -, -, htext⟩
  all_goals rw [htext] at hc
  · exact hdigit ((isDigits_toDigits n).2 c hc)
  · rcases List.mem_cons.1 hc with rfl | hc
    · exact hminus rfl
    · exact hdigit ((isDigits_toDigits n).2 c hc)

end IntMachine.Text
