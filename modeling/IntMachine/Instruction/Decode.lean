import IntMachine.Instruction.Basic
import IntMachine.Memory.Basic
/-!
# Decoding

From a word to an operation and its modes (`partsOfWord`), and from a program
counter to an instruction (`decodeAt`). Decoding sees memory through a view, a
function from addresses to values, so that it depends on nothing else; it
reports the first fault in the order program counter, word, operands from left
to right.
-/

namespace IntMachine

/-- What makes an instruction ill-formed. -/
inductive DecodeFault where
  | unknownOpcode (opcode : Int)
  /-- A mode digit that stands for no mode. -/
  | unknownMode (digit : Nat)
  /-- Digits above those of the operation's operands. -/
  | excessDigits (opcode : Opcode)
  /-- The operand at this position, counted from one, is written but
  immediate. -/
  | immediateWrite (position : Nat)
  | negativeCounter
  | negativeAddress (address : Int)
  deriving DecidableEq, Repr

def DecodeFault.message : DecodeFault → String
  | .unknownOpcode opcode => s!"Unknown opcode {opcode}"
  | .unknownMode digit => s!"Unrecognized address mode {digit}"
  | .excessDigits opcode => s!"Mode digits beyond operand count for {opcode.name}"
  | .immediateWrite position => s!"Immediate mode on write operand {position}"
  | .negativeCounter => "Negative program counter"
  | .negativeAddress address => s!"Negative address {address}"

/-- A fault with the program counter and the word it was found at. -/
structure DecodeFailure where
  fault : DecodeFault
  pc : Int
  word : Int
  deriving DecidableEq, Repr

def DecodeFailure.message (e : DecodeFailure) : String :=
  s!"{e.fault.message} (pc={e.pc}, word={e.word})"

/-! ## Words -/

/-- The modes of the given number of operands, from the low digit up, and the
digits above them. -/
def modesOfDigits : (count digits : Nat) → Except DecodeFault (List Mode × Nat)
  | 0, digits => .ok ([], digits)
  | count + 1, digits =>
    match Mode.ofDigit? (digits % 10) with
    | none => .error (.unknownMode (digits % 10))
    | some mode =>
      match modesOfDigits count (digits / 10) with
      | .error fault => .error fault
      | .ok (modes, rest) => .ok (mode :: modes, rest)

/-- The operation and the operand modes a word stands for. -/
def partsOfWord (word : Int) : Except DecodeFault (Opcode × List Mode) :=
  if word < 0 then .error (.unknownOpcode word)
  else
    let n := word.toNat
    match Opcode.ofNumber? (n % 100) with
    | none => .error (.unknownOpcode (n % 100 : Nat))
    | some op =>
      match modesOfDigits op.layout.length (n / 100) with
      | .error fault => .error fault
      | .ok (modes, rest) => if rest = 0 then .ok (op, modes) else .error (.excessDigits op)

/-- The word that `partsOfWord` splits into these parts. -/
def wordOfParts (op : Opcode) (modes : List Mode) : Nat :=
  op.number + 100 * modes.foldr (fun mode rest => mode.digit + 10 * rest) 0

/-! ## Instructions -/

/-- A view of memory: the value at every address from zero on. -/
abbrev View := Nat → Int

/-- A resolved operand, with the address its value was read from if it was
read. -/
structure Operand where
  value : Int
  source : Option Int := none
  deriving DecidableEq, Repr

/-- The address an operand word names in position or relative mode. -/
def effectiveAddress (base : Int) (mode : Mode) (raw : Int) : Except DecodeFault Nat :=
  let address := if mode = .relative then raw + base else raw
  if address < 0 then .error (.negativeAddress address) else .ok address.toNat

/-- Resolves the operand at a position. -/
def resolve (view : View) (base : Int) (position : Nat) (role : Role) (mode : Mode)
    (raw : Int) : Except DecodeFault Operand :=
  match role, mode with
  | .write, .immediate => .error (.immediateWrite position)
  | .read, .immediate => .ok ⟨raw, none⟩
  | .write, mode => (effectiveAddress base mode raw).map fun a => ⟨a, none⟩
  | .read, mode => (effectiveAddress base mode raw).map fun a => ⟨view a, some a⟩

/-- Resolves the operands from the given position on, left to right. -/
def resolveAll (view : View) (base : Int) (pc : Nat) :
    (position : Nat) → List Role → List Mode → Except DecodeFault (List Operand)
  | position, role :: roles, mode :: modes =>
    match resolve view base position role mode (view (pc + position)) with
    | .error fault => .error fault
    | .ok operand =>
      match resolveAll view base pc (position + 1) roles modes with
      | .error fault => .error fault
      | .ok operands => .ok (operand :: operands)
  | _, _, _ => .ok []

/-- The addresses of the words of an instruction. -/
def ownWords (pc length : Nat) : List Int := (List.range' pc length).map Int.ofNat

/-- The instruction at a program counter, as far as its faults go. -/
def decodeWord (view : View) (base : Int) (pc : Nat) : Except DecodeFault Instruction :=
  match partsOfWord (view pc) with
  | .error fault => .error fault
  | .ok (op, modes) =>
    match resolveAll view base pc 1 op.layout modes with
    | .error fault => .error fault
    | .ok operands => .ok {
        opcode := op
        operands := operands.map (·.value)
        address := pc
        word := view pc
        modes := modes
        reads := ownWords pc op.length ++ operands.filterMap (·.source) }

/-- The instruction at a program counter. -/
def decodeAt (view : View) (base : Int) (pc : Int) : Except DecodeFailure Instruction :=
  if pc < 0 then .error ⟨.negativeCounter, pc, 0⟩
  else (decodeWord view base pc.toNat).mapError (⟨·, pc, view pc.toNat⟩)

/-- The instruction that a memory holds at a program counter. -/
def Memory.decode (m : Memory) (pc : Int) (base : Int := 0) : Except DecodeFailure Instruction :=
  decodeAt m.cell base pc

end IntMachine
