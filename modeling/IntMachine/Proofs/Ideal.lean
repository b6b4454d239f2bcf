import IntMachine.Program.Basic
import IntMachine.Proofs.Operands
import Mathlib.Logic.Function.Basic
import Mathlib.Tactic.IntervalCases
/-!
# The ideal machine

The machine as the instruction set describes it, with nothing of how it is
built: memory is a function from addresses to integers, and there is one rule
for each operation (`Ideal.Rule`). Words are read as decimal numbers, their low
two digits the operation's number and the digits above them the modes of its
operands. A state that has not halted and that no rule leaves is blocked on
input (`Ideal.Blocked`) or at an ill-formed instruction (`Ideal.IllFormed`).
-/

namespace IntMachine

structure Ideal where
  cells : Nat → Int
  pc : Int
  base : Int
  /-- The values still to be read, in order. -/
  input : List Int
  /-- The values written, in order. -/
  output : List Int
  halted : Bool

namespace Ideal

/-- The state in which a program starts: zero outside the program. -/
def start (program : Program) (input : List Int) : Ideal where
  cells a := program.getD a 0
  pc := 0
  base := 0
  input := input
  output := []
  halted := false

variable (s : Ideal)

/-- The word at an offset from the program counter. -/
def word (k : Nat) : Int := s.cells (s.pc.toNat + k)

/-- The mode of the operand at a position, counted from one: the hundreds of
the instruction word for the first, the thousands for the second. -/
def digit (k : Nat) : Int := s.word 0 / 10 ^ (k + 1) % 10

/-- The instruction word selects the operation with this number and this many
operands. -/
structure Selects (number : Int) (count : Nat) : Prop where
  counter : 0 ≤ s.pc
  sign : 0 ≤ s.word 0
  number : s.word 0 % 100 = number
  above : s.word 0 / 10 ^ (count + 2) = 0

/-- The operand at a position names an address. -/
inductive Names (k : Nat) : Nat → Prop
  | position {a : Nat} : s.digit k = 0 → s.word k = a → Names k a
  | relative {a : Nat} : s.digit k = 2 → s.word k + s.base = a → Names k a

/-- The operand at a position has a value. -/
inductive Reads (k : Nat) : Int → Prop
  | immediate : s.digit k = 1 → Reads k (s.word k)
  | cell {a : Nat} : s.Names k a → Reads k (s.cells a)

/-- **The rules**, one for each operation. -/
inductive Rule : Ideal → Prop
  | add {a b : Int} {c : Nat} :
      s.Selects 1 3 → s.Reads 1 a → s.Reads 2 b → s.Names 3 c →
      Rule { s with cells := Function.update s.cells c (a + b), pc := s.pc + 4 }
  | multiply {a b : Int} {c : Nat} :
      s.Selects 2 3 → s.Reads 1 a → s.Reads 2 b → s.Names 3 c →
      Rule { s with cells := Function.update s.cells c (a * b), pc := s.pc + 4 }
  | input {v : Int} {rest : List Int} {c : Nat} :
      s.Selects 3 1 → s.Names 1 c → s.input = v :: rest →
      Rule { s with cells := Function.update s.cells c v, input := rest, pc := s.pc + 2 }
  | output {a : Int} :
      s.Selects 4 1 → s.Reads 1 a →
      Rule { s with output := s.output ++ [a], pc := s.pc + 2 }
  | jumpIfTrue {a b : Int} :
      s.Selects 5 2 → s.Reads 1 a → s.Reads 2 b →
      Rule { s with pc := if a ≠ 0 then b else s.pc + 3 }
  | jumpIfFalse {a b : Int} :
      s.Selects 6 2 → s.Reads 1 a → s.Reads 2 b →
      Rule { s with pc := if a = 0 then b else s.pc + 3 }
  | lessThan {a b : Int} {c : Nat} :
      s.Selects 7 3 → s.Reads 1 a → s.Reads 2 b → s.Names 3 c →
      Rule { s with cells := Function.update s.cells c (if a < b then 1 else 0), pc := s.pc + 4 }
  | equals {a b : Int} {c : Nat} :
      s.Selects 8 3 → s.Reads 1 a → s.Reads 2 b → s.Names 3 c →
      Rule { s with cells := Function.update s.cells c (if a = b then 1 else 0), pc := s.pc + 4 }
  | adjustRelativeBase {a : Int} :
      s.Selects 9 1 → s.Reads 1 a →
      Rule { s with base := s.base + a, pc := s.pc + 2 }
  | halt :
      s.Selects 99 0 →
      Rule { s with halted := true, pc := s.pc + 1 }

/-- A transition: a rule applied to a state that has not halted. -/
def Transition (s s' : Ideal) : Prop := s.halted = false ∧ s.Rule s'

/-- A number of transitions. -/
inductive Transitions : Nat → Ideal → Ideal → Prop
  | zero (s : Ideal) : Transitions 0 s s
  | succ {k : Nat} {s s' s'' : Ideal} :
      s.Transition s' → Transitions k s' s'' → Transitions (k + 1) s s''

/-- An input instruction has nothing to read. -/
def Blocked : Prop :=
  s.halted = false ∧ s.Selects 3 1 ∧ (∃ c, s.Names 1 c) ∧ s.input = []

/-- The operations: their numbers, how many operands they have, and whether the
last of them is written. -/
inductive Shape : Int → Nat → Bool → Prop
  | add : Shape 1 3 true
  | multiply : Shape 2 3 true
  | input : Shape 3 1 true
  | output : Shape 4 1 false
  | jumpIfTrue : Shape 5 2 false
  | jumpIfFalse : Shape 6 2 false
  | lessThan : Shape 7 3 true
  | equals : Shape 8 3 true
  | adjustRelativeBase : Shape 9 1 false
  | halt : Shape 99 0 false

/-- **Ill-formed instructions**: a negative counter, a word that is none of the
operations with modes for its operands, or an operand at a negative address. -/
inductive IllFormed : Prop
  | counter : s.pc < 0 → IllFormed
  | sign : s.word 0 < 0 → IllFormed
  | opcode : (∀ count writes, ¬ Shape (s.word 0 % 100) count writes) → IllFormed
  | excess {count : Nat} {writes : Bool} :
      Shape (s.word 0 % 100) count writes → s.word 0 / 10 ^ (count + 2) ≠ 0 → IllFormed
  | mode {count : Nat} {writes : Bool} {k : Nat} :
      Shape (s.word 0 % 100) count writes → 1 ≤ k → k ≤ count → 2 < s.digit k → IllFormed
  | immediateTarget {count : Nat} :
      Shape (s.word 0 % 100) count true → s.digit count = 1 → IllFormed
  | position {count : Nat} {writes : Bool} {k : Nat} :
      Shape (s.word 0 % 100) count writes → 1 ≤ k → k ≤ count →
      s.digit k = 0 → s.word k < 0 → IllFormed
  | relative {count : Nat} {writes : Bool} {k : Nat} :
      Shape (s.word 0 % 100) count writes → 1 ≤ k → k ≤ count →
      s.digit k = 2 → s.word k + s.base < 0 → IllFormed

/-! ## Well-formed instructions, operand by operand -/

variable {s} {k : Nat} {role : Role} {roles : List Role} {v : Int} {vs : List Int}

/-- The operand at a position, as its role has it: a value, or the address of a
target. -/
def Operand (s : Ideal) (k : Nat) : Role → Int → Prop
  | .read, v => s.Reads k v
  | .write, v => ∃ c : Nat, s.Names k c ∧ v = c

/-- The operands from a position on. -/
inductive Operands (s : Ideal) : Nat → List Role → List Int → Prop
  | nil (k : Nat) : Operands s k [] []
  | cons {k : Nat} {role : Role} {roles : List Role} {v : Int} {vs : List Int} :
      s.Operand k role v → Operands s (k + 1) roles vs → Operands s k (role :: roles) (v :: vs)

theorem digit_nonneg : 0 ≤ s.digit k := Int.emod_nonneg _ (by decide)

/-- **When there is an operand**: its mode is one of three, a target is not
immediate, and no address is negative. -/
theorem exists_operand_iff :
    (∃ v, s.Operand k role v) ↔
      s.digit k ≤ 2 ∧ (role = .write → s.digit k ≠ 1) ∧
        (s.digit k = 0 → 0 ≤ s.word k) ∧ (s.digit k = 2 → 0 ≤ s.word k + s.base) := by
  have hnames : (∃ a, s.Names k a) ↔
      (s.digit k = 0 ∧ 0 ≤ s.word k) ∨ (s.digit k = 2 ∧ 0 ≤ s.word k + s.base) := by
    constructor
    · rintro ⟨a, ⟨hd, ha⟩ | ⟨hd, ha⟩⟩
      · exact .inl ⟨hd, by omega⟩
      · exact .inr ⟨hd, by omega⟩
    · rintro (⟨hd, ha⟩ | ⟨hd, ha⟩)
      · exact ⟨_, .position hd (Int.toNat_of_nonneg ha).symm⟩
      · exact ⟨_, .relative hd (Int.toNat_of_nonneg ha).symm⟩
  have hdigit := digit_nonneg (s := s) (k := k)
  cases role with
  | write =>
    have : (∃ v, s.Operand k .write v) ↔ ∃ a, s.Names k a :=
      ⟨fun ⟨_, a, ha, _⟩ => ⟨a, ha⟩, fun ⟨a, ha⟩ => ⟨a, a, ha, rfl⟩⟩
    rw [this, hnames]
    simp only [forall_const]
    omega
  | read =>
    have : (∃ v, s.Operand k .read v) ↔ s.digit k = 1 ∨ ∃ a, s.Names k a := by
      constructor
      · rintro ⟨v, hd | ha⟩
        · exact .inl hd
        · exact .inr ⟨_, ha⟩
      · rintro (hd | ⟨a, ha⟩)
        · exact ⟨_, .immediate hd⟩
        · exact ⟨_, .cell ha⟩
    rw [this, hnames]
    simp only [reduceCtorEq, false_implies, true_and]
    omega

/-- Operands are there when each of them is. -/
theorem exists_operands_iff :
    (∃ vs, s.Operands k roles vs) ↔
      ∀ j role, roles[j]? = some role → ∃ v, s.Operand (k + j) role v := by
  induction roles generalizing k with
  | nil => simpa using ⟨[], Operands.nil k⟩
  | cons first roles ih =>
    constructor
    · rintro ⟨_, _ | ⟨hfirst, hrest⟩⟩ j role hj
      cases j with
      | zero =>
        obtain rfl : first = role := by simpa using hj
        exact ⟨_, hfirst⟩
      | succ j =>
        have := ih.1 ⟨_, hrest⟩ j role (by simpa using hj)
        rwa [Nat.add_right_comm, Nat.add_assoc] at this
    · intro h
      obtain ⟨v, hv⟩ := h 0 first rfl
      obtain ⟨vs, hvs⟩ := ih.2 fun j role hj => by
        rw [Nat.add_right_comm, Nat.add_assoc]
        exact h (j + 1) role (by simpa using hj)
      exact ⟨v :: vs, .cons hv hvs⟩

/-- The shapes are those of the operations. -/
theorem shape_iff {number : Int} {count : Nat} {writes : Bool} :
    Shape number count writes ↔
      ∃ op : Opcode, (op.number : Int) = number ∧ op.layout.length = count ∧
        (op.layout.getLast? == some .write) = writes := by
  constructor
  · rintro (_ | _)
    exacts [⟨.add, rfl, rfl, rfl⟩, ⟨.multiply, rfl, rfl, rfl⟩, ⟨.input, rfl, rfl, rfl⟩,
      ⟨.output, rfl, rfl, rfl⟩, ⟨.jumpIfTrue, rfl, rfl, rfl⟩, ⟨.jumpIfFalse, rfl, rfl, rfl⟩,
      ⟨.lessThan, rfl, rfl, rfl⟩, ⟨.equals, rfl, rfl, rfl⟩,
      ⟨.adjustRelativeBase, rfl, rfl, rfl⟩, ⟨.halt, rfl, rfl, rfl⟩]
  · rintro ⟨op, rfl, rfl, rfl⟩
    cases op
    exacts [.add, .multiply, .input, .output, .jumpIfTrue, .jumpIfFalse, .lessThan, .equals,
      .adjustRelativeBase, .halt]

/-- Only the last operand of an operation is ever written. -/
theorem layout_getElem?_eq_write {op : Opcode} {j : Nat} (h : op.layout[j]? = some .write) :
    j + 1 = op.layout.length ∧ (op.layout.getLast? == some .write) = true := by
  have hj : j < op.layout.length := (List.getElem?_eq_some_iff.1 h).1
  cases op <;> simp only [Opcode.layout, List.length_cons, List.length_nil] at h hj ⊢ <;>
    interval_cases j <;> simp_all

/-- The operation selected, from the shape of its number. -/
theorem shape_of_selects {op : Opcode} {count : Nat} {writes : Bool}
    (hsel : s.Selects op.number op.layout.length)
    (h : Shape (s.word 0 % 100) count writes) :
    op.layout.length = count ∧ (op.layout.getLast? == some .write) = writes := by
  obtain ⟨op', hnumber, hcount, hwrites⟩ := shape_iff.1 h
  obtain rfl : op' = op := Opcode.number_injective (by
    have := hsel.number
    omega)
  exact ⟨hcount, hwrites⟩

theorem Selects.shape {op : Opcode} (h : s.Selects op.number op.layout.length) :
    Shape (s.word 0 % 100) op.layout.length (op.layout.getLast? == some .write) :=
  shape_iff.2 ⟨op, h.number.symm, rfl, rfl⟩

/-- The operands, counted from one. -/
theorem Operands.exists_operand (h : s.Operands 1 roles vs) (h1 : 1 ≤ k) (hk : k ≤ roles.length) :
    ∃ role, roles[k - 1]? = some role ∧ ∃ v, s.Operand k role v := by
  have hlt : k - 1 < roles.length := by omega
  have hoperand := exists_operands_iff.1 ⟨vs, h⟩ (k - 1) _ (List.getElem?_eq_getElem hlt)
  rw [Nat.add_sub_cancel' h1] at hoperand
  exact ⟨_, List.getElem?_eq_getElem hlt, hoperand⟩

/-- An ill-formed instruction that selects an operation has no operands for it. -/
theorem IllFormed.not_operands {op : Opcode} (h : s.IllFormed)
    (hsel : s.Selects op.number op.layout.length) : ¬ s.Operands 1 op.layout vs := by
  intro hvs
  cases h with
  | counter h => exact absurd hsel.counter (by omega)
  | sign h => exact absurd hsel.sign (by omega)
  | opcode h => exact h _ _ hsel.shape
  | excess hshape h =>
    obtain ⟨rfl, -⟩ := shape_of_selects hsel hshape
    exact h hsel.above
  | mode hshape h1 hk h =>
    obtain ⟨rfl, -⟩ := shape_of_selects hsel hshape
    obtain ⟨role, -, hv⟩ := hvs.exists_operand h1 hk
    have := (exists_operand_iff.1 hv).1
    omega
  | immediateTarget hshape h =>
    obtain ⟨rfl, hwrites⟩ := shape_of_selects hsel hshape
    have hlast : op.layout[op.layout.length - 1]? = some .write := by
      rw [← List.getLast?_eq_getElem?]
      simpa using hwrites
    have hpos := (List.getElem?_eq_some_iff.1 hlast).1
    obtain ⟨role, hrole, hv⟩ := hvs.exists_operand (by omega) le_rfl
    obtain rfl : role = .write := by simpa [hlast, eq_comm] using hrole
    exact (exists_operand_iff.1 hv).2.1 rfl h
  | position hshape h1 hk hd h =>
    obtain ⟨rfl, -⟩ := shape_of_selects hsel hshape
    obtain ⟨role, -, hv⟩ := hvs.exists_operand h1 hk
    have := (exists_operand_iff.1 hv).2.2.1 hd
    omega
  | relative hshape h1 hk hd h =>
    obtain ⟨rfl, -⟩ := shape_of_selects hsel hshape
    obtain ⟨role, -, hv⟩ := hvs.exists_operand h1 hk
    have := (exists_operand_iff.1 hv).2.2.2 hd
    omega

/-- If nothing is wrong with the word, it selects an operation. -/
theorem exists_selects_of_not_illFormed (h : ¬ s.IllFormed) :
    ∃ op : Opcode, s.Selects op.number op.layout.length := by
  obtain ⟨count, writes, hshape⟩ : ∃ count writes, Shape (s.word 0 % 100) count writes := by
    by_contra hnone
    exact h (.opcode fun count writes hshape => hnone ⟨count, writes, hshape⟩)
  obtain ⟨op, hnumber, rfl, rfl⟩ := shape_iff.1 hshape
  exact ⟨op,
    { counter := by by_contra hc; exact h (.counter (by omega))
      sign := by by_contra hc; exact h (.sign (by omega))
      number := hnumber.symm
      above := by by_contra hc; exact h (.excess hshape hc) }⟩

/-- If nothing is wrong with the operands of an operation, they are there. -/
theorem exists_operands_of_not_illFormed {op : Opcode} (h : ¬ s.IllFormed)
    (hsel : s.Selects op.number op.layout.length) : ∃ vs, s.Operands 1 op.layout vs := by
  have hshape := hsel.shape
  rw [exists_operands_iff]
  intro j role hj
  have hlen : j < op.layout.length := (List.getElem?_eq_some_iff.1 hj).1
  rw [exists_operand_iff]
  refine ⟨?_, ?_, ?_, ?_⟩
  · by_contra hd
    exact h (.mode hshape (by omega) (by omega) (not_le.1 hd))
  · rintro rfl hd
    obtain ⟨hlast, hwrites⟩ := layout_getElem?_eq_write hj
    rw [hwrites, ← hlast, Nat.add_comm] at hshape
    exact h (.immediateTarget hshape hd)
  · intro hd
    by_contra hneg
    exact h (.position hshape (by omega) (by omega) hd (not_le.1 hneg))
  · intro hd
    by_contra hneg
    exact h (.relative hshape (by omega) (by omega) hd (not_le.1 hneg))

/-- **Ill-formed is what is neither selected nor resolved.** -/
theorem illFormed_iff :
    s.IllFormed ↔
      ¬ ∃ op : Opcode, ∃ vs, s.Selects op.number op.layout.length ∧ s.Operands 1 op.layout vs := by
  constructor
  · rintro hill ⟨op, vs, hsel, hvs⟩
    exact hill.not_operands hsel hvs
  · intro h
    by_contra hill
    obtain ⟨op, hsel⟩ := exists_selects_of_not_illFormed hill
    obtain ⟨vs, hvs⟩ := exists_operands_of_not_illFormed hill hsel
    exact h ⟨op, vs, hsel, hvs⟩

/-- **Every operation has its rule**, as long as an input instruction has
something to read. -/
theorem exists_rule {op : Opcode} (hsel : s.Selects op.number op.layout.length)
    (hvs : s.Operands 1 op.layout vs) (hinput : op = .input → s.input ≠ []) :
    ∃ s', s.Rule s' := by
  cases op with
  | add =>
    obtain _ | ⟨ha, _ | ⟨hb, _ | ⟨⟨c, hc, rfl⟩, -⟩⟩⟩ := hvs
    exact ⟨_, .add hsel ha hb hc⟩
  | multiply =>
    obtain _ | ⟨ha, _ | ⟨hb, _ | ⟨⟨c, hc, rfl⟩, -⟩⟩⟩ := hvs
    exact ⟨_, .multiply hsel ha hb hc⟩
  | input =>
    obtain _ | ⟨⟨c, hc, rfl⟩, -⟩ := hvs
    obtain ⟨v, rest, hin⟩ := List.exists_cons_of_ne_nil (hinput rfl)
    exact ⟨_, .input hsel hc hin⟩
  | output =>
    obtain _ | ⟨ha, -⟩ := hvs
    exact ⟨_, .output hsel ha⟩
  | jumpIfTrue =>
    obtain _ | ⟨ha, _ | ⟨hb, -⟩⟩ := hvs
    exact ⟨_, .jumpIfTrue hsel ha hb⟩
  | jumpIfFalse =>
    obtain _ | ⟨ha, _ | ⟨hb, -⟩⟩ := hvs
    exact ⟨_, .jumpIfFalse hsel ha hb⟩
  | lessThan =>
    obtain _ | ⟨ha, _ | ⟨hb, _ | ⟨⟨c, hc, rfl⟩, -⟩⟩⟩ := hvs
    exact ⟨_, .lessThan hsel ha hb hc⟩
  | equals =>
    obtain _ | ⟨ha, _ | ⟨hb, _ | ⟨⟨c, hc, rfl⟩, -⟩⟩⟩ := hvs
    exact ⟨_, .equals hsel ha hb hc⟩
  | adjustRelativeBase =>
    obtain _ | ⟨ha, -⟩ := hvs
    exact ⟨_, .adjustRelativeBase hsel ha⟩
  | halt => exact ⟨_, .halt hsel⟩

/-- Blocked is selecting input with a target and nothing to read. -/
theorem blocked_iff :
    s.Blocked ↔ s.halted = false ∧ s.input = [] ∧
      ∃ vs, s.Selects Opcode.input.number Opcode.input.layout.length ∧
        s.Operands 1 Opcode.input.layout vs := by
  constructor
  · rintro ⟨hrun, hsel, ⟨c, hc⟩, hnil⟩
    exact ⟨hrun, hnil, [(c : Int)], hsel, .cons ⟨c, hc, rfl⟩ (.nil _)⟩
  · rintro ⟨hrun, hnil, vs, hsel, hvs⟩
    obtain _ | ⟨⟨c, hc, rfl⟩, -⟩ := hvs
    exact ⟨hrun, hsel, ⟨c, hc⟩, hnil⟩

end Ideal

end IntMachine
