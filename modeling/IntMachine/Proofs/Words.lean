import IntMachine.Instruction.Decode
import Mathlib.Algebra.Ring.Int.Defs
import Mathlib.Algebra.Ring.Nat
/-!
# Instruction words

What splitting a word means in decimal digits: the low two digits are the
operation's number, the digit above them is the mode of the first operand, and
so on upward, with nothing but zeros above the last operand. So a word splits
into the parts it is made of (`partsOfWord_eq_ok_iff_wordOfParts`), and one that
does not split is refused for the first thing wrong with it (`WordFault`).
-/

namespace IntMachine

theorem Mode.digit_injective {m n : Mode} (h : m.digit = n.digit) : m = n := by
  cases m <;> cases n <;> first | rfl | cases h

theorem Opcode.number_injective {op op' : Opcode} (h : op.number = op'.number) : op = op' := by
  have := Opcode.ofNumber?_number op
  rw [h, Opcode.ofNumber?_number op'] at this
  exact (Option.some.inj this).symm

/-! ## One digit, and one word -/

/-- The first mode stands for the lowest digit, and the others for the digits above it. -/
theorem modesOfDigits_succ_eq_ok_iff {count digits : Nat} {modes : List Mode} {rest : Nat} :
    modesOfDigits (count + 1) digits = .ok (modes, rest) ↔
      ∃ first others, modes = first :: others ∧ first.digit = digits % 10 ∧
        modesOfDigits count (digits / 10) = .ok (others, rest) := by
  rw [modesOfDigits]
  constructor
  · intro h
    cases hfirst : Mode.ofDigit? (digits % 10) with
    | none => simp [hfirst] at h
    | some first =>
      cases hothers : modesOfDigits count (digits / 10) with
      | error fault => simp [hfirst, hothers] at h
      | ok parts =>
        obtain ⟨others, above⟩ := parts
        obtain ⟨rfl, rfl⟩ := by simpa [hfirst, hothers] using h
        exact ⟨first, others, rfl, Mode.ofDigit?_eq_some_iff.1 hfirst, rfl⟩
  · rintro ⟨first, others, rfl, hfirst, hothers⟩
    simp [Mode.ofDigit?_eq_some_iff.2 hfirst, hothers]

theorem partsOfWord_of_neg {word : Int} (h : word < 0) :
    partsOfWord word = .error (.unknownOpcode word) := if_pos h

/-- The low two digits name the operation, and the digits above them are the modes of its
operands and nothing else. -/
theorem partsOfWord_natCast_eq_ok_iff {n : Nat} {op : Opcode} {modes : List Mode} :
    partsOfWord n = .ok (op, modes) ↔
      op.number = n % 100 ∧ modesOfDigits op.layout.length (n / 100) = .ok (modes, 0) := by
  rw [partsOfWord, if_neg (Int.not_lt.2 (Int.natCast_nonneg n)), Int.toNat_natCast]
  constructor
  · intro h
    cases hop : Opcode.ofNumber? (n % 100) with
    | none => simp [hop] at h
    | some op' =>
      cases hmodes : modesOfDigits op'.layout.length (n / 100) with
      | error fault => simp [hop, hmodes] at h
      | ok parts =>
        obtain ⟨modes', rest⟩ := parts
        simp only [hop, hmodes] at h
        split at h
        · rename_i hzero
          obtain ⟨rfl, rfl⟩ := by simpa using h
          exact ⟨Opcode.number_of_ofNumber? hop, by rw [hmodes, hzero]⟩
        · cases h
  · rintro ⟨hnumber, hmodes⟩
    simp [Opcode.ofNumber?_eq_some_iff.2 hnumber, hmodes]

/-! ## Words digit by digit -/

/-- The digits above the lowest are those of the number without it. -/
theorem div_pow_succ (digits k : Nat) : digits / 10 ^ (k + 1) = digits / 10 / 10 ^ k := by
  rw [Nat.pow_succ, Nat.mul_comm, Nat.div_div_eq_div_mul]

/-- **The digits of the modes.** The modes read off a number are as many as
asked for, each stands for the digit at its place, and what is left over is the
number without those digits. -/
theorem modesOfDigits_eq_ok_iff {count digits : Nat} {modes : List Mode} {rest : Nat} :
    modesOfDigits count digits = .ok (modes, rest) ↔
      modes.length = count ∧ rest = digits / 10 ^ count ∧
        ∀ k mode, modes[k]? = some mode → mode.digit = digits / 10 ^ k % 10 := by
  induction count generalizing digits modes rest with
  | zero =>
    rw [modesOfDigits, List.length_eq_zero_iff]
    constructor
    · intro h
      obtain ⟨rfl, rfl⟩ := by simpa using h
      simp
    · rintro ⟨rfl, rfl, -⟩
      simp
  | succ count ih =>
    rw [modesOfDigits_succ_eq_ok_iff]
    constructor
    · rintro ⟨first, others, rfl, hfirst, hothers⟩
      obtain ⟨hlen, hrest, hdigits⟩ := ih.1 hothers
      refine ⟨by simp [hlen], by rw [div_pow_succ, hrest], ?_⟩
      intro k mode hk
      cases k with
      | zero =>
        obtain rfl : first = mode := by simpa using hk
        simpa using hfirst
      | succ k => rw [div_pow_succ]; exact hdigits k mode (by simpa using hk)
    · rintro ⟨hlen, hrest, hdigits⟩
      obtain ⟨first, others, rfl⟩ := List.exists_cons_of_length_eq_add_one hlen
      refine ⟨first, others, rfl, by simpa using hdigits 0 first (by simp), ?_⟩
      refine ih.2 ⟨by simpa using hlen, by rw [hrest, div_pow_succ], fun k mode hk => ?_⟩
      rw [← div_pow_succ]
      exact hdigits (k + 1) mode (by simpa using hk)

/-- The digits of a word from the hundreds up. -/
theorem natCast_div_pow_add_two (n k : Nat) :
    (n : Int) / 10 ^ (k + 2) = (n / 100 / 10 ^ k : Nat) := by
  rw [Nat.div_div_eq_div_mul, Nat.mul_comm, ← Nat.pow_add 10 k 2]
  norm_cast

/-- **The parts of a word, digit by digit.** -/
theorem partsOfWord_eq_ok_iff {word : Int} {op : Opcode} {modes : List Mode} :
    partsOfWord word = .ok (op, modes) ↔
      0 ≤ word ∧ word % 100 = op.number ∧ word / 10 ^ (op.layout.length + 2) = 0 ∧
        modes.length = op.layout.length ∧
          ∀ k mode, modes[k]? = some mode → (mode.digit : Int) = word / 10 ^ (k + 2) % 10 := by
  rcases Int.lt_or_le word 0 with hneg | hnonneg
  · simp only [partsOfWord_of_neg hneg, reduceCtorEq, false_iff]
    rintro ⟨h, -⟩
    omega
  obtain ⟨n, rfl⟩ := Int.eq_ofNat_of_zero_le hnonneg
  rw [partsOfWord_natCast_eq_ok_iff, modesOfDigits_eq_ok_iff]
  simp only [natCast_div_pow_add_two]
  constructor
  · rintro ⟨hnumber, hlen, hzero, hdigits⟩
    refine ⟨hnonneg, by omega, by rw [← hzero]; rfl, hlen, fun k mode hk => ?_⟩
    rw [hdigits k mode hk]
    norm_cast
  · rintro ⟨-, hnumber, hzero, hlen, hdigits⟩
    refine ⟨by omega, hlen, by exact_mod_cast hzero.symm, fun k mode hk => ?_⟩
    exact_mod_cast hdigits k mode hk

/-! ## Words as numbers -/

/-- **The modes as a number.** What is left over, with the digits of the modes written
behind it, is the number that the modes were read off. -/
theorem modesOfDigits_eq_ok_iff_foldr {count digits : Nat} {modes : List Mode} {rest : Nat} :
    modesOfDigits count digits = .ok (modes, rest) ↔
      modes.length = count ∧
        modes.foldr (fun mode above => mode.digit + 10 * above) rest = digits := by
  induction count generalizing digits modes with
  | zero =>
    rw [modesOfDigits, List.length_eq_zero_iff]
    constructor
    · intro h
      obtain ⟨rfl, rfl⟩ := by simpa using h
      exact ⟨rfl, rfl⟩
    · rintro ⟨rfl, rfl⟩
      rfl
  | succ count ih =>
    rw [modesOfDigits_succ_eq_ok_iff]
    constructor
    · rintro ⟨first, others, rfl, hfirst, hothers⟩
      obtain ⟨hlen, hnumber⟩ := ih.1 hothers
      refine ⟨by rw [List.length_cons, hlen], ?_⟩
      rw [List.foldr_cons, hnumber]
      omega
    · rintro ⟨hlen, hdigits⟩
      obtain ⟨first, others, rfl⟩ := List.exists_cons_of_length_eq_add_one hlen
      rw [List.foldr_cons] at hdigits
      have hlt := first.digit_lt
      exact ⟨first, others, rfl, by omega, ih.2 ⟨by simpa using hlen, by omega⟩⟩

/-- **A word splits into the parts that it is made of**, and into no others. -/
theorem partsOfWord_eq_ok_iff_wordOfParts {word : Int} {op : Opcode} {modes : List Mode} :
    partsOfWord word = .ok (op, modes) ↔
      modes.length = op.layout.length ∧ word = wordOfParts op modes := by
  rcases Int.lt_or_le word 0 with hneg | hnonneg
  · simp only [partsOfWord_of_neg hneg, reduceCtorEq, false_iff]
    rintro ⟨-, h⟩
    omega
  obtain ⟨n, rfl⟩ := Int.eq_ofNat_of_zero_le hnonneg
  have hlt := op.number_lt
  rw [partsOfWord_natCast_eq_ok_iff, modesOfDigits_eq_ok_iff_foldr, wordOfParts]
  constructor
  · rintro ⟨hnumber, hlen, hdigits⟩
    exact ⟨hlen, by omega⟩
  · rintro ⟨hlen, hword⟩
    exact ⟨by omega, hlen, by omega⟩

/-! ## Words that are no instruction words -/

theorem Mode.digit_le (m : Mode) : m.digit ≤ 2 := by cases m <;> decide

theorem Mode.ofDigit?_eq_none_iff {n : Nat} : Mode.ofDigit? n = none ↔ 2 < n := by
  match n with
  | 0 | 1 | 2 => simp [Mode.ofDigit?]
  | n + 3 => simp [Mode.ofDigit?]

theorem Opcode.ofNumber?_eq_none_iff {n : Nat} :
    Opcode.ofNumber? n = none ↔ ∀ op : Opcode, op.number ≠ n := by
  constructor
  · rintro h op rfl
    rw [Opcode.ofNumber?_number] at h
    cases h
  · intro h
    cases hop : Opcode.ofNumber? n with
    | none => rfl
    | some op => exact absurd (Opcode.number_of_ofNumber? hop) (h op)

/-- The fault names the lowest of some digits that is no mode. -/
def LowestUnknownMode (count digits : Nat) (fault : DecodeFault) : Prop :=
  ∃ k < count, (∀ j < k, digits / 10 ^ j % 10 ≤ 2) ∧ 2 < digits / 10 ^ k % 10 ∧
    fault = .unknownMode (digits / 10 ^ k % 10)

theorem lowestUnknownMode_succ_of_lt {count digits : Nat} {fault : DecodeFault}
    (h : 2 < digits % 10) :
    LowestUnknownMode (count + 1) digits fault ↔ fault = .unknownMode (digits % 10) := by
  constructor
  · rintro ⟨k, -, hbefore, -, rfl⟩
    cases k with
    | zero => simp
    | succ k =>
      have hfirst : digits / 10 ^ 0 % 10 ≤ 2 := hbefore 0 (by omega)
      rw [Nat.pow_zero, Nat.div_one] at hfirst
      omega
  · rintro rfl
    exact ⟨0, by omega, by simp, by simpa using h, by simp⟩

theorem lowestUnknownMode_succ_of_le {count digits : Nat} {fault : DecodeFault}
    (h : digits % 10 ≤ 2) :
    LowestUnknownMode (count + 1) digits fault ↔ LowestUnknownMode count (digits / 10) fault := by
  constructor
  · rintro ⟨k, hk, hbefore, hdigit, rfl⟩
    cases k with
    | zero =>
      rw [Nat.pow_zero, Nat.div_one] at hdigit
      omega
    | succ k =>
      refine ⟨k, by omega, fun j hj => ?_, by rwa [← div_pow_succ], by rw [div_pow_succ]⟩
      rw [← div_pow_succ]
      exact hbefore (j + 1) (by omega)
  · rintro ⟨k, hk, hbefore, hdigit, rfl⟩
    refine ⟨k + 1, by omega, fun j hj => ?_, by rwa [div_pow_succ], by rw [div_pow_succ]⟩
    cases j with
    | zero => simpa using h
    | succ j => rw [div_pow_succ]; exact hbefore j (by omega)

/-- **The lowest digit that is no mode** is the one reported. -/
theorem modesOfDigits_eq_error_iff {count digits : Nat} {fault : DecodeFault} :
    modesOfDigits count digits = .error fault ↔ LowestUnknownMode count digits fault := by
  induction count generalizing digits with
  | zero => simp [modesOfDigits, LowestUnknownMode]
  | succ count ih =>
    rw [modesOfDigits]
    cases hm : Mode.ofDigit? (digits % 10) with
    | none =>
      rw [lowestUnknownMode_succ_of_lt (Mode.ofDigit?_eq_none_iff.1 hm)]
      simp [eq_comm]
    | some first =>
      have hfirst : digits % 10 ≤ 2 := Mode.ofDigit?_eq_some_iff.1 hm ▸ first.digit_le
      rw [lowestUnknownMode_succ_of_le hfirst, ← ih]
      cases modesOfDigits count (digits / 10) <;> simp

/-- **What is wrong with a word**: it is negative, its low two digits are no operation's
number, one of the digits for the modes is none, and of these the lowest is named, or there
are digits above those for the modes. -/
inductive WordFault (word : Int) : DecodeFault → Prop
  | sign : word < 0 → WordFault word (.unknownOpcode word)
  | opcode : 0 ≤ word → (∀ op : Opcode, (op.number : Int) ≠ word % 100) →
      WordFault word (.unknownOpcode (word % 100))
  | mode {op : Opcode} {k digit : Nat} :
      0 ≤ word → (op.number : Int) = word % 100 → k < op.layout.length →
      (∀ j < k, word / 10 ^ (j + 2) % 10 ≤ 2) → digit = word / 10 ^ (k + 2) % 10 → 2 < digit →
      WordFault word (.unknownMode digit)
  | excess {op : Opcode} :
      0 ≤ word → (op.number : Int) = word % 100 →
      (∀ j < op.layout.length, word / 10 ^ (j + 2) % 10 ≤ 2) →
      word / 10 ^ (op.layout.length + 2) ≠ 0 →
      WordFault word (.excessDigits op)

/-- The operation of a word is the one whose number is its low two digits. -/
theorem ofNumber?_mod_eq_some_iff {n : Nat} {op : Opcode} :
    Opcode.ofNumber? (n % 100) = some op ↔ (op.number : Int) = (n : Int) % 100 := by
  rw [Opcode.ofNumber?_eq_some_iff]
  omega

theorem wordFault_of_partsOfWord {word : Int} {fault : DecodeFault}
    (h : partsOfWord word = .error fault) : WordFault word fault := by
  rcases Int.lt_or_le word 0 with hneg | hnonneg
  · rw [partsOfWord_of_neg hneg] at h
    obtain rfl := Except.error.inj h
    exact .sign hneg
  obtain ⟨n, rfl⟩ := Int.eq_ofNat_of_zero_le hnonneg
  simp only [partsOfWord, if_neg (Int.not_lt.2 hnonneg), Int.toNat_natCast] at h
  cases hop : Opcode.ofNumber? (n % 100) with
  | none =>
    obtain rfl := by simpa [hop] using h
    exact .opcode hnonneg fun op heq => Opcode.ofNumber?_eq_none_iff.1 hop op (by omega)
  | some op =>
    have hnumber := ofNumber?_mod_eq_some_iff.1 hop
    cases hr : modesOfDigits op.layout.length (n / 100) with
    | error fault' =>
      obtain rfl := by simpa [hop, hr] using h
      obtain ⟨k, hk, hbefore, hdigit, rfl⟩ := modesOfDigits_eq_error_iff.1 hr
      refine .mode hnonneg hnumber hk (fun j hj => ?_) ?_ hdigit
      · rw [natCast_div_pow_add_two]
        exact_mod_cast hbefore j hj
      · rw [natCast_div_pow_add_two]
        norm_cast
    | ok parts =>
      obtain ⟨modes, rest⟩ := parts
      simp only [hop, hr] at h
      split at h
      · cases h
      · rename_i hrest
        obtain rfl := by simpa using h
        obtain ⟨hlen, rfl, hdigits⟩ := modesOfDigits_eq_ok_iff.1 hr
        refine .excess hnonneg hnumber (fun j hj => ?_) ?_
        · have hmode := hdigits j _ (List.getElem?_eq_getElem (by omega))
          have hj : j < modes.length := by omega
          have hvalid := modes[j].digit_le
          rw [natCast_div_pow_add_two]
          omega
        · rw [natCast_div_pow_add_two]
          exact_mod_cast hrest

theorem partsOfWord_of_wordFault {word : Int} {fault : DecodeFault} (h : WordFault word fault) :
    partsOfWord word = .error fault := by
  rcases Int.lt_or_le word 0 with hneg | hnonneg
  · cases h with
    | sign => exact partsOfWord_of_neg hneg
    | opcode h | mode h | excess h => omega
  obtain ⟨n, rfl⟩ := Int.eq_ofNat_of_zero_le hnonneg
  simp only [partsOfWord, if_neg (Int.not_lt.2 hnonneg), Int.toNat_natCast]
  cases h with
  | sign h => omega
  | opcode _ hnone =>
    have hop : Opcode.ofNumber? (n % 100) = none :=
      Opcode.ofNumber?_eq_none_iff.2 fun op heq => hnone op (by omega)
    simp [hop]
  | @mode op k digit _ hnumber hk hbefore hdigit hlt =>
    have hop := ofNumber?_mod_eq_some_iff.2 hnumber
    have hr : modesOfDigits op.layout.length (n / 100) = .error (.unknownMode digit) := by
      simp only [natCast_div_pow_add_two] at hbefore hdigit
      obtain rfl : digit = n / 100 / 10 ^ k % 10 := by exact_mod_cast hdigit
      exact modesOfDigits_eq_error_iff.2
        ⟨k, hk, fun j hj => by exact_mod_cast hbefore j hj, hlt, rfl⟩
    simp [hop, hr]
  | @excess op _ hnumber hdigits habove =>
    have hop := ofNumber?_mod_eq_some_iff.2 hnumber
    simp only [natCast_div_pow_add_two] at hdigits habove
    cases hr : modesOfDigits op.layout.length (n / 100) with
    | error fault' =>
      -- every digit is a mode, so the modes cannot fail
      obtain ⟨k, hk, -, hlt, -⟩ := modesOfDigits_eq_error_iff.1 hr
      have := hdigits k hk
      omega
    | ok parts =>
      obtain ⟨-, hrest, -⟩ := modesOfDigits_eq_ok_iff.1 hr
      have hne : parts.2 ≠ 0 := by rw [hrest]; exact_mod_cast habove
      simp [hop, hr, hne]

/-- **A word that does not split is refused for what is wrong with it.** -/
theorem partsOfWord_eq_error_iff {word : Int} {fault : DecodeFault} :
    partsOfWord word = .error fault ↔ WordFault word fault :=
  ⟨wordFault_of_partsOfWord, partsOfWord_of_wordFault⟩

end IntMachine
