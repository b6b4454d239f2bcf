import IntMachine.Instruction.Decode
import IntMachine.Instruction.Disassembly
/-!
# What happened during a call

Calls on a machine return three things: a result or a refusal, the state they
leave, which may have moved even when the call was refused, and the events on
the way. The journal of a session is made from the events: `Event.record?`
gives the line of each, with the level at which it is reported.
-/

namespace IntMachine

inductive Event where
  /-- An instruction was performed with this relative base. -/
  | performed (instruction : Instruction) (base : Int)
  | decodeFailed (error : DecodeFailure)
  /-- A run stopped before the instruction at this address. -/
  | breakpointHit (address : Int)
  /-- A stage of a feedback loop halted after this many full rounds. -/
  | stageHalted (stage rounds : Nat)
  deriving DecidableEq, Repr

/-- The result of a call, the state after it, and the events in order. -/
structure Outcome (State Error Result : Type) where
  result : Except Error Result
  after : State
  events : Array Event := #[]

/-- How much an event matters. -/
inductive Level where
  | debug
  | info
  | error
  deriving DecidableEq, Repr

def Level.name : Level → String
  | .debug => "DEBUG"
  | .info => "INFO"
  | .error => "ERROR"

/-- One line of the journal, with the part of the machine it comes from. -/
structure Record where
  level : Level
  origin : String
  text : String
  deriving DecidableEq, Repr

/-- The line as it is printed in full. -/
def Record.line (r : Record) : String := s!"{r.level.name} {r.origin}: {r.text}"

/-- The journal line of an event. Performed instructions are recorded only
when tracing. -/
def Event.record? (tracing : Bool) : Event → Option Record
  | .performed i base =>
    if tracing then some ⟨.debug, "intcode.cpu", s!"{i.address}: {i.disassemble} (rb={base})"⟩
    else none
  | .decodeFailed e => some ⟨.error, "intcode.cpu", s!"Decode failed: {e.message}"⟩
  | .breakpointHit address =>
    some ⟨.info, "intcode.virtual_machine", s!"Breakpoint hit at {address}"⟩
  | .stageHalted stage rounds =>
    some ⟨.debug, "intcode.pipeline", s!"Stage {stage} halted after {rounds} rounds"⟩

/-- The journal of a sequence of events. -/
def journal (tracing : Bool) (events : Array Event) : List Record :=
  events.toList.filterMap (Event.record? tracing)

end IntMachine
