import IntMachine.Proofs.Words
import Mathlib.Algebra.BigOperators.Fin
import Mathlib.Tactic.Ring
/-!
# Encoding instruction words

An operation and a mode for each of its operands are written as one number: two
digits for the operation, and above them a digit for each mode, the first mode
the lowest. Splitting a word is the inverse of this, and a word that nothing is
written as is refused either for its operation or for its modes
(`splitting_inverts_encoding`).
-/

namespace IntMachine

variable {word : Int} {op : Opcode} {modes : List Mode} {above : Nat} {fault : DecodeFault}

/-! ## Modes as a number -/

/-- The modes as a decimal number, the first of them the lowest digit. -/
def numberOfModes (modes : List Mode) : Nat :=
  ∑ i : Fin modes.length, modes[i].digit * 10 ^ (i : Nat)

@[simp] theorem numberOfModes_nil : numberOfModes [] = 0 := rfl

theorem numberOfModes_cons (mode : Mode) (modes : List Mode) :
    numberOfModes (mode :: modes) = mode.digit + 10 * numberOfModes modes := by
  simp only [numberOfModes, List.length_cons, Fin.sum_univ_succ, Finset.mul_sum]
  congr 1
  · exact Nat.mul_one _
  · exact Finset.sum_congr rfl fun i _ => by
      simp only [Fin.getElem_fin, Fin.val_succ, List.getElem_cons_succ]
      ring

/-- Digits above the modes are written in front of them. -/
theorem foldr_digit (modes : List Mode) (above : Nat) :
    modes.foldr (fun mode rest => mode.digit + 10 * rest) above =
      numberOfModes modes + 10 ^ modes.length * above := by
  induction modes with
  | nil => simp
  | cons mode modes ih =>
    rw [List.foldr_cons, ih, numberOfModes_cons, List.length_cons]
    ring

theorem wordOfParts_eq (op : Opcode) (modes : List Mode) :
    wordOfParts op modes = op.number + 100 * numberOfModes modes := by
  rw [wordOfParts, foldr_digit, Nat.mul_zero, Nat.add_zero]

/-! ## Words that are made of parts -/

/-- **A word splits into the parts it is written from**, and into no others. -/
theorem partsOfWord_eq_ok_iff_number :
    partsOfWord word = .ok (op, modes) ↔
      modes.length = op.layout.length ∧ word = op.number + 100 * numberOfModes modes := by
  rw [partsOfWord_eq_ok_iff_wordOfParts, wordOfParts_eq]
  norm_cast

/-- Digits above those of the modes are refused, however many there are. -/
theorem partsOfWord_of_digits_above (hlen : modes.length = op.layout.length) (habove : 0 < above) :
    partsOfWord (op.number + 100 * (numberOfModes modes + 10 ^ modes.length * above) : Nat) =
      .error (.excessDigits op) := by
  have hlt := op.number_lt
  rw [partsOfWord, if_neg (Int.not_lt.2 (Int.natCast_nonneg _))]
  simp only [Int.toNat_natCast, ← foldr_digit]
  generalize hdigits : modes.foldr (fun mode rest => mode.digit + 10 * rest) above = digits
  have hop : Opcode.ofNumber? ((op.number + 100 * digits) % 100) = some op :=
    Opcode.ofNumber?_eq_some_iff.2 (by omega)
  have hdiv : (op.number + 100 * digits) / 100 = digits := by omega
  have hmodes : modesOfDigits op.layout.length digits = .ok (modes, above) :=
    modesOfDigits_eq_ok_iff_foldr.2 ⟨hlen, hdigits⟩
  simp only [hop, hdiv, hmodes, if_neg habove.ne']

/-! ## Words that are not -/

/-- A fault of the modes, in a word or in the use of an operand. -/
inductive DecodeFault.OfModes : DecodeFault → Prop
  | unknownMode (digit : Nat) : OfModes (.unknownMode digit)
  | excessDigits (op : Opcode) : OfModes (.excessDigits op)
  | immediateWrite (position : Nat) : OfModes (.immediateWrite position)

/-- **Refused for the operation**: the word is negative, or its low two digits are no
operation's number. -/
theorem partsOfWord_eq_unknownOpcode_iff {n : Int} :
    partsOfWord word = .error (.unknownOpcode n) ↔
      (word < 0 ∧ n = word) ∨
        (0 ≤ word ∧ (∀ op : Opcode, (op.number : Int) ≠ word % 100) ∧ n = word % 100) := by
  rw [partsOfWord_eq_error_iff]
  constructor
  · intro h
    cases h with
    | sign hneg => exact .inl ⟨hneg, rfl⟩
    | opcode hnonneg hnone => exact .inr ⟨hnonneg, hnone, rfl⟩
  · rintro (⟨hneg, rfl⟩ | ⟨hnonneg, hnone, rfl⟩)
    · exact .sign hneg
    · exact .opcode hnonneg hnone

/-- **Refused for the modes**: the low two digits are an operation's number, but the word
is not written from any modes of its operands. -/
theorem exists_ofModes_iff :
    (∃ fault : DecodeFault, fault.OfModes ∧ partsOfWord word = .error fault) ↔
      0 ≤ word ∧ (∃ op : Opcode, (op.number : Int) = word % 100) ∧
        ∀ (op : Opcode) (modes : List Mode), modes.length = op.layout.length →
          word ≠ op.number + 100 * numberOfModes modes := by
  constructor
  · rintro ⟨fault, hmodes, hword⟩
    have hrefused : ∀ (op : Opcode) (modes : List Mode), modes.length = op.layout.length →
        word ≠ op.number + 100 * numberOfModes modes := by
      intro op modes hlen heq
      rw [partsOfWord_eq_ok_iff_number.2 ⟨hlen, heq⟩] at hword
      cases hword
    cases partsOfWord_eq_error_iff.1 hword with
    | sign | opcode => cases hmodes
    | mode hnonneg hnumber => exact ⟨hnonneg, ⟨_, hnumber⟩, hrefused⟩
    | excess hnonneg hnumber => exact ⟨hnonneg, ⟨_, hnumber⟩, hrefused⟩
  · rintro ⟨hnonneg, ⟨op, hnumber⟩, hrefused⟩
    cases hword : partsOfWord word with
    | ok parts =>
      obtain ⟨hlen, heq⟩ := partsOfWord_eq_ok_iff_number.1 hword
      exact absurd heq (hrefused _ _ hlen)
    | error fault =>
      refine ⟨fault, ?_, rfl⟩
      cases partsOfWord_eq_error_iff.1 hword with
      | sign hneg => omega
      | opcode _ hnone => exact absurd hnumber (hnone op)
      | mode => exact .unknownMode _
      | excess => exact .excessDigits _

/-- **Splitting a word is the exact inverse of encoding it.** What an operation and a mode
for each of its operands are written as splits into them; a word splits only if it is
written so, so that no two words have the same parts. Every other word is refused: for its
operation if it is negative or its low two digits are no operation's number, and for its
modes in all other cases, also if any digits stand above good ones. -/
theorem splitting_inverts_encoding :
    (∀ (op : Opcode) (modes : List Mode), modes.length = op.layout.length →
      partsOfWord (op.number + 100 * numberOfModes modes) = .ok (op, modes)) ∧
    (∀ (word : Int) (op : Opcode) (modes : List Mode), partsOfWord word = .ok (op, modes) ↔
      modes.length = op.layout.length ∧ word = op.number + 100 * numberOfModes modes) ∧
    (∀ (word word' : Int) (parts : Opcode × List Mode),
      partsOfWord word = .ok parts → partsOfWord word' = .ok parts → word = word') ∧
    (∀ word n : Int, partsOfWord word = .error (.unknownOpcode n) ↔
      (word < 0 ∧ n = word) ∨
        (0 ≤ word ∧ (∀ op : Opcode, (op.number : Int) ≠ word % 100) ∧ n = word % 100)) ∧
    (∀ word : Int, (∃ fault : DecodeFault, fault.OfModes ∧ partsOfWord word = .error fault) ↔
      0 ≤ word ∧ (∃ op : Opcode, (op.number : Int) = word % 100) ∧
        ∀ (op : Opcode) (modes : List Mode), modes.length = op.layout.length →
          word ≠ op.number + 100 * numberOfModes modes) ∧
    ∀ (op : Opcode) (modes : List Mode) (above : Nat), modes.length = op.layout.length →
      0 < above →
      partsOfWord (op.number + 100 * (numberOfModes modes + 10 ^ modes.length * above) : Nat) =
        .error (.excessDigits op) := by
  refine ⟨fun op modes hlen => partsOfWord_eq_ok_iff_number.2 ⟨hlen, rfl⟩,
    fun word op modes => partsOfWord_eq_ok_iff_number, fun word word' parts h h' => ?_,
    fun word n => partsOfWord_eq_unknownOpcode_iff, fun word => exists_ofModes_iff,
    fun op modes above hlen habove => partsOfWord_of_digits_above hlen habove⟩
  exact (partsOfWord_eq_ok_iff_number.1 h).2.trans (partsOfWord_eq_ok_iff_number.1 h').2.symm

/-- A comparison with two immediate operands and a relative target is the word 21107; the
same digits below others are refused. -/
theorem a_comparison_is_encoded_once :
    partsOfWord 21107 = .ok (.lessThan, [.immediate, .immediate, .relative]) ∧
      (∀ word, partsOfWord word = .ok (.lessThan, [.immediate, .immediate, .relative]) →
        word = 21107) ∧
      partsOfWord 9000021107 = .error (.excessDigits .lessThan) := by
  obtain ⟨hencoded, -, honce, -, -, habove⟩ := splitting_inverts_encoding
  have hparts : partsOfWord 21107 = .ok (.lessThan, [.immediate, .immediate, .relative]) :=
    hencoded .lessThan [.immediate, .immediate, .relative] rfl
  exact ⟨hparts, fun word hword => honce word 21107 _ hword hparts,
    habove .lessThan [.immediate, .immediate, .relative] 90000 rfl (by decide)⟩

end IntMachine
