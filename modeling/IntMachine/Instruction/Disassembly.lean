import IntMachine.Instruction.Basic
/-!
# Disassembly

The one-line text of an instruction: a mnemonic and its operands, a write
operand in brackets.
-/

namespace IntMachine

def Opcode.mnemonic : Opcode → String
  | .add => "ADD"
  | .multiply => "MUL"
  | .input => "IN"
  | .output => "OUT"
  | .jumpIfTrue => "JNZ"
  | .jumpIfFalse => "JZ"
  | .lessThan => "LT"
  | .equals => "EQ"
  | .adjustRelativeBase => "ARB"
  | .halt => "HALT"

namespace Instruction

/-- The text of one operand. -/
def operandText : Role → Int → String
  | .read, v => toString v
  | .write, a => s!"[{a}]"

/-- The text of an instruction. Operands are paired with the operation's
layout up to the end of the shorter. -/
def disassemble (i : Instruction) : String :=
  let parts := List.zipWith operandText i.opcode.layout i.operands
  if parts.isEmpty then i.opcode.mnemonic
  else i.opcode.mnemonic ++ " " ++ ", ".intercalate parts

end Instruction

end IntMachine
