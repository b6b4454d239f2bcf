import IntMachine.Machine.Breakpoint
import IntMachine.Memory.Listing
import IntMachine.Program.Load
/-!
# Sessions

A session is a machine together with what outlives the machine: the program it
was started from, the breakpoints, the limit for runs that name none, and
whether its journal traces instructions. Loading a program or resetting puts a
fresh machine in place of the old one and keeps the rest; a load that fails
leaves the session as it was.
-/

namespace IntMachine

structure Session where
  program : Program := []
  /-- The limit for runs that name none. -/
  limit : StepLimit := none
  tracing : Bool := false
  machine : Machine := {}
  /-- The addresses to stop before, in ascending order, each once. -/
  breakpoints : List Int := []
  deriving DecidableEq, Repr

/-- Why a session could not load a program. -/
inductive LoadError where
  | file (name : String) (cause : Program.FileError)
  | text (cause : Program.ParseError)
  deriving DecidableEq, Repr

namespace LoadError

/-- Whether the failure is the session's to report. A name that no path can
have and a file that is not text at all are the business of whoever asked. -/
def isReported : LoadError → Bool
  | .file _ (.notUtf8 _) | .file _ (.cannotOpen .nulInName) => false
  | _ => true

def message (e : LoadError) : String :=
  match e with
  | .file name cause =>
    if e.isReported then s!"Failed to load program '{name}': {cause.message}" else cause.message
  | .text cause => s!"Failed to load program: {cause.message}"

end LoadError

namespace Session

instance : Inhabited Session := ⟨{}⟩

/-- A session about to start a program. -/
def start (program : Program := []) (limit : StepLimit := none) (tracing : Bool := false) :
    Session :=
  { program, limit, tracing, machine := .load program }

/-- A fresh machine for the program. -/
def reset (s : Session) : Session := { s with machine := .load s.program }

/-- The session with another program, about to start it. -/
def withProgram (s : Session) (program : Program) : Session := reset { s with program }

/-- Loads the program that opening the named file gave. -/
def loadFile (s : Session) (name : String) (opened : Program.Opened) : Except LoadError Session :=
  match Program.ofFile opened with
  | .ok program => .ok (s.withProgram program)
  | .error e => .error (.file name e)

/-- Loads a program from text. -/
def loadText (s : Session) (text : String) : Except LoadError Session :=
  match Program.parse text with
  | .ok program => .ok (s.withProgram program)
  | .error e => .error (.text e)

/-- Performs a call on the machine. -/
def onMachine {Result : Type} (s : Session) (call : Machine.Call Result) :
    Outcome Session MachineError Result :=
  let { result, after, events } := call s.machine
  { result, after := { s with machine := after }, events }

def step (s : Session) : Outcome Session MachineError Instruction := s.onMachine Machine.step

/-- Runs until the machine halts, fails, waits for input, or comes to a
breakpoint or to the limit: the given one, or else the session's. -/
def run (fuel : Nat) (limit : StepLimit := none) (s : Session) :
    Option (Outcome Session MachineError RunEnd) :=
  (s.machine.runGuarded fuel s.breakpoints (limit <|> s.limit)).map
    fun { result, after, events } => { result, after := { s with machine := after }, events }

/-- The well-formed instruction at an address, or at the program counter. -/
def instructionAt? (s : Session) (address : Option Int := none) : Option Instruction :=
  (s.machine.memory.decode (address.getD s.machine.pc) s.machine.base).toOption

def feed (s : Session) (vs : List Int) : Session :=
  { s with machine := s.machine.feed vs }

def replaceInput (s : Session) (vs : List Int) : Session :=
  { s with machine := s.machine.replaceInput vs }

/-- The output since the last collection. -/
def collectOutput (s : Session) : List Int × Session :=
  let (vs, machine) := s.machine.collectOutput
  (vs, { s with machine })

/-- The value at an address. -/
def readMemory (s : Session) (a : Int) : Except InvalidAddress Int := s.machine.memory.peek a

/-- Stores a value at an address. -/
def writeMemory (s : Session) (a v : Int) : Except InvalidAddress Session :=
  (s.machine.memory.write a v).map fun memory => { s with machine := { s.machine with memory } }

/-- The cells from `start` on, `count` of them or as many as there are. -/
def window (s : Session) (start : Int := 0) (count : Option Int := some 16) : List (Nat × Int) :=
  s.machine.memory.window start count

end Session

end IntMachine
