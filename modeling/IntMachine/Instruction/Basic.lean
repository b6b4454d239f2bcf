/-!
# The instruction set

The ten operations, how each of them uses its operands, and the instruction: an
operation with its operands resolved. A read operand is resolved to a value, a
write operand to the address that is written.
-/

namespace IntMachine

inductive Opcode where
  | add
  | multiply
  | input
  | output
  | jumpIfTrue
  | jumpIfFalse
  | lessThan
  | equals
  | adjustRelativeBase
  | halt
  deriving DecidableEq, Repr

/-- How an instruction uses an operand. -/
inductive Role where
  | read
  | write
  deriving DecidableEq, Repr

/-- How an operand word is turned into an operand. -/
inductive Mode where
  | position
  | immediate
  | relative
  deriving DecidableEq, Repr

namespace Opcode

/-- Every operation, by ascending number. -/
def all : List Opcode :=
  [.add, .multiply, .input, .output, .jumpIfTrue, .jumpIfFalse, .lessThan, .equals,
    .adjustRelativeBase, .halt]

/-- The number that selects the operation: the low two digits of a word. -/
def number : Opcode → Nat
  | .add => 1
  | .multiply => 2
  | .input => 3
  | .output => 4
  | .jumpIfTrue => 5
  | .jumpIfFalse => 6
  | .lessThan => 7
  | .equals => 8
  | .adjustRelativeBase => 9
  | .halt => 99

/-- The operation a number selects. -/
def ofNumber? (n : Nat) : Option Opcode := all.find? (·.number = n)

/-- The operands in order. -/
def layout : Opcode → List Role
  | .add | .multiply | .lessThan | .equals => [.read, .read, .write]
  | .jumpIfTrue | .jumpIfFalse => [.read, .read]
  | .input => [.write]
  | .output | .adjustRelativeBase => [.read]
  | .halt => []

/-- How many words an instruction with this operation occupies. -/
def length (op : Opcode) : Nat := 1 + op.layout.length

/-- The name of the operation in messages. -/
def name : Opcode → String
  | .add => "ADD"
  | .multiply => "MULTIPLY"
  | .input => "INPUT"
  | .output => "OUTPUT"
  | .jumpIfTrue => "JUMP_IF_TRUE"
  | .jumpIfFalse => "JUMP_IF_FALSE"
  | .lessThan => "LESS_THAN"
  | .equals => "EQUALS"
  | .adjustRelativeBase => "ADJUST_RELATIVE_BASE"
  | .halt => "HALT"

@[simp] theorem ofNumber?_number (op : Opcode) : ofNumber? op.number = some op := by
  cases op <;> rfl

theorem number_of_ofNumber? {n : Nat} {op : Opcode} (h : ofNumber? n = some op) :
    op.number = n := by
  simpa using List.find?_some h

/-- A number selects an operation exactly if it is that operation's. -/
theorem ofNumber?_eq_some_iff {n : Nat} {op : Opcode} : ofNumber? n = some op ↔ op.number = n :=
  ⟨number_of_ofNumber?, fun h => h ▸ ofNumber?_number op⟩

theorem number_lt (op : Opcode) : op.number < 100 := by cases op <;> decide

end Opcode

namespace Mode

/-- The digit that stands for the mode in a word. -/
def digit : Mode → Nat
  | .position => 0
  | .immediate => 1
  | .relative => 2

/-- The mode a digit stands for. -/
def ofDigit? : Nat → Option Mode
  | 0 => some .position
  | 1 => some .immediate
  | 2 => some .relative
  | _ => none

@[simp] theorem ofDigit?_digit (m : Mode) : ofDigit? m.digit = some m := by cases m <;> rfl

/-- A digit stands for a mode exactly if it is that mode's. -/
theorem ofDigit?_eq_some_iff {n : Nat} {m : Mode} : ofDigit? n = some m ↔ m.digit = n := by
  refine ⟨fun h => ?_, fun h => h ▸ ofDigit?_digit m⟩
  match n, h with
  | 0, rfl | 1, rfl | 2, rfl => rfl

theorem digit_lt (m : Mode) : m.digit < 10 := by cases m <;> decide

end Mode

/-- An operation with its operands resolved. `reads` lists every address the
instruction reads when it is executed: its own words, then the sources of its
position and relative read operands. -/
structure Instruction where
  opcode : Opcode
  operands : List Int
  address : Int
  /-- The word the instruction was decoded from. -/
  word : Int
  modes : List Mode := []
  reads : List Int := []
  deriving DecidableEq, Repr

namespace Instruction

/-- How many words the instruction occupies. -/
def length (i : Instruction) : Nat := 1 + i.operands.length

/-- The address of the word behind the instruction. -/
def next (i : Instruction) : Int := i.address + i.length

/-- The last operand: where instructions that store a result store it. -/
def target? (i : Instruction) : Option Int := i.operands.getLast?

end Instruction

end IntMachine
