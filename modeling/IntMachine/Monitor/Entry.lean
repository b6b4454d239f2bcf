import IntMachine.Session.Breakpoints
/-!
# What the monitor shows

The monitor answers commands with entries: each says what happened, and
`Entry.display` gives the form in which it is shown: a line of text, a panel or
a table. Text comes in spans with styles, which `Styled.markup` writes as tags
and `Styled.plain` leaves out.
-/

namespace IntMachine.Monitor

/-- Text in one style, or in none. -/
structure Span where
  style : Option String
  text : String
  deriving DecidableEq, Repr

abbrev Styled := List Span

namespace Styled

/-- The text with a tag before and behind each span that has a style. -/
def markup (t : Styled) : String :=
  String.join <| t.map fun span =>
    match span.style with
    | none => span.text
    | some style => s!"[{style}]{span.text}[/{style}]"

/-- The text alone. -/
def plain (t : Styled) : String := String.join (t.map (·.text))

end Styled

/-- Text without style. -/
def bare (text : String) : Styled := [⟨none, text⟩]

/-- Text in a style. -/
def styled (style text : String) : Styled := [⟨some style, text⟩]

/-- A shown form. -/
inductive Display where
  | line (text : Styled)
  | panel (body : Styled) (title border : String)
  | table (title : String) (columns : List (String × String)) (rows : List (List String))
  deriving DecidableEq, Repr

/-- The machine at a glance. -/
structure Status where
  activity : Activity
  pc : Int
  base : Int
  executed : Nat
  pending : List Int
  /-- The instruction to come, if it is well-formed. -/
  next : Option Instruction
  deriving DecidableEq, Repr

/-- One memory cell, seen as a value and as an instruction. -/
structure Cell where
  address : Nat
  value : Int
  instruction : Option Instruction
  isNext : Bool
  isBreakpoint : Bool
  deriving DecidableEq, Repr

inductive Entry where
  | noProgram
  | noFileName
  | loadFailed (reason : String)
  | loaded (name : String) (size : Nat)
  | wasReset
  | badCount
  | runFailed (error : MachineError)
  /-- A run stopped, with the program counter there. -/
  | ran (result : RunEnd) (pc : Int)
  | executed (instruction : Instruction)
  | stepFailed (error : MachineError)
  | badInput
  | queued (count : Nat)
  | badAddress
  | breakpointSet (address : Int)
  | noAddress
  | breakpointCleared (address : Int)
  | breakpointsCleared
  | noBreakpoints
  | breakpoint (address : Int)
  /-- Everything output so far. -/
  | output (values : List Int)
  /-- What was output since the last such entry. -/
  | newOutput (values : List Int)
  | badRange
  | badAssignment
  | assignmentFailed (reason : String)
  | assigned (address value : Int)
  | status (status : Status)
  | cells (start : Int) (cells : List Cell)
  | goodbye
  deriving DecidableEq, Repr

/-- Integers with commas between them. -/
def commaList (vs : List Int) : String := ", ".intercalate (vs.map toString)

/-- Text set to the right in a column. -/
def alignRight (width : Nat) (text : String) : String :=
  String.ofList (List.replicate (width - text.length) ' ') ++ text

/-- How a run is reported. -/
def runText (result : RunEnd) (pc : Int) : Styled :=
  match result.stop with
  | .halted => styled "green" "Program halted"
  | .alreadyHalted => styled "yellow" "Program already halted"
  | .awaitingInput => styled "yellow" "Waiting for input (use 'input <values>')"
  | .stepLimit => styled "yellow" s!"Stopped after {result.steps} steps"
  | .breakpoint => styled "yellow" s!"Breakpoint at {pc}"
  | .output _ => bare result.stop.name

/-- The lines of the status panel, each with a name and a value. -/
def Status.fields (s : Status) : List (String × String) :=
  [("CPU State", s.activity.name),
    ("PC", toString s.pc),
    ("Relative Base", toString s.base),
    ("Instructions", toString s.executed),
    ("Pending Input", s!"[{commaList s.pending}]"),
    ("Next", s.next.elim "(invalid)" (·.disassemble))] ++
  s.activity.reason?.toList.map fun reason => ("Halt Reason", reason)

/-- The body of the status panel. -/
def Status.body (s : Status) : Styled :=
  (s.fields.map fun (name, value) => styled "bold" s!"{name}:" ++ bare s!" {value}").intersperse
    (bare "\n") |>.flatten

/-- A row of the memory table. -/
def Cell.row (c : Cell) : List String :=
  let markers := [">>>"].filter (fun _ => c.isNext) ++ ["*"].filter (fun _ => c.isBreakpoint)
  [toString c.address, toString c.value, c.instruction.elim "" (·.disassemble),
    " ".intercalate markers]

/-- The lines of a display on a terminal without styles. -/
def Display.lines : Display → List String
  | .line text => [text.plain]
  | .panel body title _ => [s!"-- {title}", body.plain]
  | .table title columns rows =>
    s!"-- {title}" :: "\t".intercalate (columns.map (·.1)) :: rows.map ("\t".intercalate ·)

/-- The form in which an entry is shown. -/
def Entry.display : Entry → Display
  | .noProgram => .line (styled "red" "No program loaded")
  | .noFileName => .line (styled "red" "Error: Please specify a filename")
  | .loadFailed reason => .line (styled "red" s!"Error loading program: {reason}")
  | .loaded name size => .line (styled "green" s!"Program loaded: {name} ({size} words)")
  | .wasReset => .line (styled "green" "Virtual machine reset")
  | .badCount => .line (styled "red" "Invalid step count")
  | .runFailed error => .line (styled "red" s!"Execution error: {error.message}")
  | .ran result pc => .line (runText result pc)
  | .executed i => .line (bare s!"{alignRight 6 (toString i.address)}: {i.disassemble}")
  | .stepFailed error => .line (styled "red" error.message)
  | .badInput => .line (styled "red" "Input values must be integers")
  | .queued count => .line (styled "green" s!"Queued {count} value(s)")
  | .badAddress => .line (styled "red" "Invalid address")
  | .breakpointSet a => .line (styled "green" s!"Breakpoint set at {a}")
  | .noAddress => .line (styled "red" "Please specify breakpoint address")
  | .breakpointCleared a => .line (styled "yellow" s!"Breakpoint cleared at {a}")
  | .breakpointsCleared => .line (styled "yellow" "All breakpoints cleared")
  | .noBreakpoints => .line (styled "yellow" "No breakpoints set")
  | .breakpoint a => .line (bare s!"  {a}")
  | .output vs => .line (if vs = [] then styled "dim" "(no output)" else bare (commaList vs))
  | .newOutput vs => .line (styled "bold" "Output:" ++ bare s!" {commaList vs}")
  | .badRange => .line (styled "red" "Invalid address or count")
  | .badAssignment => .line (styled "red" "Usage: set <address> <value>")
  | .assignmentFailed reason => .line (styled "red" s!"Error: {reason}")
  | .assigned a v => .line (styled "green" s!"Memory[{a}] = {v}")
  | .status s => .panel s.body "VM Status" "green"
  | .cells start shown =>
    .table s!"Memory ({start})"
      [("Address", "cyan"), ("Value", "yellow"), ("Decoded", "green"), ("PC", "red")]
      (shown.map Cell.row)
  | .goodbye => .line (styled "blue" "Goodbye!")

end IntMachine.Monitor
