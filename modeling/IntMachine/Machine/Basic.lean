import IntMachine.Channel
import IntMachine.Journal
import IntMachine.Program.Basic
/-!
# The machine

A machine is a memory with a program counter, a relative base, an input and an
output channel, and a state of activity. This file holds the type, what can go
wrong on it, and the calls that do not execute anything.
-/

namespace IntMachine

/-- What a machine is doing. A halted machine has executed a halt instruction;
a failed one has met an ill-formed instruction. -/
inductive Activity where
  | running
  | awaitingInput
  | halted
  | failed (cause : DecodeFailure)
  deriving DecidableEq, Repr

namespace Activity

def name : Activity → String
  | .running => "running"
  | .awaitingInput => "awaiting_input"
  | .halted => "halted"
  | .failed _ => "error"

/-- Why nothing more can be executed. -/
def reason? : Activity → Option String
  | .running | .awaitingInput => none
  | .halted => some "HALT instruction executed"
  | .failed cause => some cause.message

end Activity

/-- Why a call on a machine was refused. -/
inductive MachineError where
  /-- The machine failed earlier. -/
  | stopped (cause : DecodeFailure)
  /-- The machine halted earlier. -/
  | alreadyHalted
  /-- The instruction at this address needs input and none is pending. -/
  | inputRequired (address : Int)
  /-- A run that was to have all its input beforehand needs more. -/
  | inputExhausted (address : Int)
  | decode (error : DecodeFailure)
  | invalidAddress (error : InvalidAddress)
  /-- An instruction has another number of operands than its operation. -/
  | operandCount (expected given : Nat)
  /-- An instruction lacks the one operand its operation needs. -/
  | noOperand
  deriving DecidableEq, Repr

def MachineError.message : MachineError → String
  | .stopped cause => s!"CPU stopped after error: {cause.message}"
  | .alreadyHalted => "Machine already halted; no further instructions can run"
  | .inputRequired address => s!"Input required at pc={address}"
  | .inputExhausted address => s!"Input required at pc={address} but no input was provided"
  | .decode error => error.message
  | .invalidAddress error => error.message
  | .operandCount expected given =>
    if given < expected then
      s!"not enough values to unpack (expected {expected}, got {given})"
    else s!"too many values to unpack (expected {expected})"
  | .noOperand => "tuple index out of range"

structure Machine where
  memory : Memory := {}
  pc : Int := 0
  base : Int := 0
  activity : Activity := .running
  input : Channel := .empty
  output : Channel := .empty
  /-- How many instructions have been executed. -/
  executed : Nat := 0
  deriving DecidableEq, Repr

namespace Machine

instance : Inhabited Machine := ⟨{}⟩

/-- A machine about to start a program, with values pending on its input. -/
def load (program : Program) (input : List Int := []) : Machine :=
  { memory := .ofList program, input := Channel.empty.sendAll input }

def isHalted (m : Machine) : Bool := m.activity = .halted

/-- Puts values behind the pending input. -/
def feed (m : Machine) (vs : List Int) : Machine := { m with input := m.input.sendAll vs }

/-- Puts values in place of the pending input. -/
def replaceInput (m : Machine) (vs : List Int) : Machine := { m with input := m.input.resend vs }

/-- The output since the last collection. -/
def collectOutput (m : Machine) : List Int × Machine :=
  let (vs, output) := m.output.drain
  (vs, { m with output })

end Machine

end IntMachine
