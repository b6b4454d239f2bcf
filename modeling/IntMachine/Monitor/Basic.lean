import IntMachine.Monitor.Entry
import IntMachine.Monitor.Verb
import IntMachine.Text.Integer
/-!
# The monitor

A monitor holds a session, once a program is loaded, and obeys commands on it.
`obey` performs one command and `hear` one line. The monitor itself remembers
which part of memory was shown last and which line came last.
-/

namespace IntMachine

structure Monitor where
  session : Option Session := none
  /-- The part of memory to show when none is named. -/
  start : Int := 0
  count : Int := 20
  /-- The line that an empty line repeats; empty if there is none. -/
  last : String := ""
  deriving DecidableEq, Repr

namespace Monitor

instance : Inhabited Monitor := ⟨{}⟩

/-- What the monitor answers: entries to show, plain text, the events on the
way, and whether to stop. A load that the session does not report breaks the
monitor off. -/
structure Answer where
  entries : List Entry := []
  text : String := ""
  events : Array Event := #[]
  stop : Bool := false
  crash : Option LoadError := none

/-- An answer and the monitor after it. -/
abbrev Reply := Answer × Monitor

/-- Opens a file by its name. -/
abbrev Opener := String → Program.Opened

/-- Shows entries and changes nothing. -/
def say (m : Monitor) (entries : List Entry) : Reply := ({ entries }, m)

/-- Shows entries after the session has become another. -/
def become (m : Monitor) (session : Session) (entries : List Entry) : Reply :=
  ({ entries }, { m with session := some session })

/-- The typed integer, if the text is one. -/
def integer? (text : String) : Option Int := Text.readLoose? text.toList

/-- The blank-free runs of an argument. -/
def parts (argument : String) : List String := (Text.words argument.toList).map String.ofList

/-- The machine at a glance. -/
def statusOf (s : Session) : Entry :=
  .status {
    activity := s.machine.activity
    pc := s.machine.pc
    base := s.machine.base
    executed := s.machine.executed
    pending := s.machine.input.pending
    next := s.instructionAt? }

/-- Collects new output: the entry that shows it, if there is any. -/
def collect (s : Session) : List Entry × Session :=
  let (values, s) := s.collectOutput
  (if values = [] then [] else [.newOutput values], s)

/-- Ends a command that executed instructions: shows new output and status. -/
def conclude (m : Monitor) (s : Session) (entries : List Entry) (events : Array Event) : Reply :=
  let (fresh, s) := collect s
  ({ entries := entries ++ fresh ++ [statusOf s], events }, { m with session := some s })

/-- Loads a program into a new session. -/
def load (opener : Opener) (m : Monitor) (argument : String) : Reply :=
  if argument = "" then m.say [.noFileName]
  else
    let name := String.ofList (Text.trim argument.toList)
    match Session.start.loadFile name (opener name) with
    | .ok s => m.become s [.loaded name s.program.length, statusOf s]
    | .error e =>
      if e.isReported then m.say [.loadFailed e.message] else ({ crash := some e }, m)

def reset (m : Monitor) (s : Session) : Reply :=
  let s := s.reset
  m.become s [.wasReset, statusOf s]

/-- Runs the machine. A run that is refused shows neither output nor status. -/
def run (fuel : Nat) (m : Monitor) (s : Session) (argument : String) : Option Reply :=
  let go (limit : StepLimit) : Option Reply :=
    (s.run fuel limit).map fun { result, after, events } =>
      match result with
      | .ok r => m.conclude after [.ran r after.machine.pc] events
      | .error e =>
        ({ entries := [.runFailed e], events }, { m with session := some after })
  if argument = "" then go none
  else match integer? argument with
    | none => some (m.say [.badCount])
    | some n => go (some n)

/-- Executes up to `count` instructions, showing each, after the given entries
and events. -/
def stepMany : (count : Nat) → Session → Array Entry → Array Event →
    Session × Array Entry × Array Event
  | 0, s, entries, events => (s, entries, events)
  | count + 1, s, entries, events =>
    let { result, after, events := new } := s.step
    match result with
    | .ok i => stepMany count after (entries.push (.executed i)) (events ++ new)
    | .error e => (after, entries.push (.stepFailed e), events ++ new)

/-- Executes instructions, one unless a count is given. -/
def step (m : Monitor) (s : Session) (argument : String) : Reply :=
  match if argument = "" then some 1 else integer? argument with
  | none => m.say [.badCount]
  | some n =>
    let (s, entries, events) := stepMany n.toNat s #[] #[]
    m.conclude s entries.toList events

/-- Queues the integers of the argument, which commas or blanks separate. -/
def input (m : Monitor) (s : Session) (argument : String) : Reply :=
  let spaced := argument.toList.map fun c => if c = ',' then ' ' else c
  match (Text.words spaced).mapM Text.readLoose? with
  | none => m.say [.badInput]
  | some values => m.become (s.feed values) [.queued values.length]

/-- Sets a breakpoint, or lists all if no address is given. -/
def breakAt (m : Monitor) (s : Session) (argument : String) : Reply :=
  if argument = "" then
    m.say (if s.breakpoints = [] then [.noBreakpoints] else s.breakpoints.map .breakpoint)
  else match integer? argument with
    | none => m.say [.badAddress]
    | some a => m.become (s.addBreakpoint a) [.breakpointSet a]

def dropBreakpoint (m : Monitor) (s : Session) (argument : String) : Reply :=
  match integer? argument with
  | none => m.say [.noAddress]
  | some a => m.become (s.dropBreakpoint a) [.breakpointCleared a]

/-- The memory cells of a part of memory. -/
def cellsOf (s : Session) (start count : Int) : List Cell :=
  (s.window start (some count)).map fun (a, v) => {
    address := a
    value := v
    instruction := s.instructionAt? (some a)
    isNext := s.machine.pc = a
    isBreakpoint := (a : Int) ∈ s.breakpoints }

/-- Shows a part of memory. What is not named is as it was the last time. -/
def memory (m : Monitor) (s : Session) (argument : String) : Reply :=
  let show' (start count : Int) : Reply :=
    ({ entries := [.cells start (cellsOf s start count)] }, { m with start, count })
  match parts argument with
  | [] => show' m.start m.count
  | [start] =>
    match integer? start with
    | some start => show' start m.count
    | none => m.say [.badRange]
  | start :: count :: _ =>
    match integer? start, integer? count with
    | some start, some count => show' start count
    | _, _ => m.say [.badRange]

/-- Why a text is no integer, in at most two hundred characters of it. -/
def notInteger (text : String) : String :=
  "invalid literal for int() with base 10: " ++
    String.ofList ((Text.quoteChars text.toList).take 200)

/-- Stores a value in a memory cell. -/
def assign (m : Monitor) (s : Session) (argument : String) : Reply :=
  match parts argument with
  | [address, value] =>
    match integer? address, integer? value with
    | none, _ => m.say [.assignmentFailed (notInteger address)]
    | _, none => m.say [.assignmentFailed (notInteger value)]
    | some a, some v =>
      match s.writeMemory a v with
      | .ok s => m.become s [.assigned a v]
      | .error e => m.say [.assignmentFailed e.message]
  | _ => m.say [.badAssignment]

/-- Says goodbye and stops. -/
def leave (m : Monitor) : Reply := ({ entries := [.goodbye], stop := true }, m)

/-- Performs a command. All but loading, leaving and help need a program. -/
def obey (fuel : Nat) (opener : Opener) (m : Monitor) (verb : Verb) (argument : String) :
    Option Reply :=
  let withProgram (f : Session → Option Reply) : Option Reply :=
    match m.session with
    | none => some (m.say [.noProgram])
    | some s => f s
  match verb with
  | .load => some (m.load opener argument)
  | .quit | .exit | .endOfInput => some m.leave
  | .help => some ({ text := helpText argument }, m)
  | .reset => withProgram fun s => some (m.reset s)
  | .run => withProgram fun s => m.run fuel s argument
  | .step => withProgram fun s => some (m.step s argument)
  | .input => withProgram fun s => some (m.input s argument)
  | .break => withProgram fun s => some (m.breakAt s argument)
  | .delete => withProgram fun s => some (m.dropBreakpoint s argument)
  | .clear => withProgram fun s => some (m.become s.dropBreakpoints [.breakpointsCleared])
  | .status => withProgram fun s => some (m.say [statusOf s])
  | .output => withProgram fun s => some (m.say [.output s.machine.output.sent.toList])
  | .memory => withProgram fun s => some (m.memory s argument)
  | .set => withProgram fun s => some (m.assign s argument)

/-- What the monitor says to a line that is no command. -/
def unknownText (line : String) : String := s!"*** Unknown syntax: {line}\n"

/-- Performs a line that is not blank. -/
def hearLine (fuel : Nat) (opener : Opener) (m : Monitor) : Parsed → Option Reply
  | .blank => some ({}, m)
  | .outside line => some ({ text := unknownText line }, m)
  | .command line verb argument =>
    let m := { m with last := if line = Verb.endOfInput.word then "" else line }
    match verb with
    | some verb => m.obey fuel opener verb argument
    | none => some ({ text := unknownText line }, m)

/-- A line taken apart. A blank line stands for the last line that was not
blank. -/
def parseLine (m : Monitor) (line : String) : Parsed :=
  match parse line with
  | .blank => parse m.last
  | parsed => parsed

/-- Performs a line. -/
def hear (fuel : Nat) (opener : Opener) (m : Monitor) (line : String) : Option Reply :=
  m.hearLine fuel opener (m.parseLine line)

/-- The name of the file that a line asks for, if it asks for one. -/
def fileNeeded? (m : Monitor) (line : String) : Option String :=
  match m.parseLine line with
  | .command _ (some .load) argument => if argument = "" then none else some argument
  | _ => none

end Monitor

end IntMachine
