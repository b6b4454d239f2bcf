import IntMachine.Runner.Settings
import IntMachine.Runner.Transcript
import IntMachine.Text.Newline
/-!
# Running a program for a user

The runner as a dialogue: `begin` prints something and either ends or asks for
a line, and `hear` takes the line and goes on in the same way. `converse` plays
the dialogue to its end on given lines. What comes behind the last line is
either nothing more or an interrupt.

A dialogue reads tokens and says integers of any length; where the runner breaks
off at one that is too long is decided when it runs as a command.
-/

namespace IntMachine.Runner

/-- Why the runner broke off without an exit code. -/
inductive Crash where
  | load (error : LoadError)
  /-- A token of the program file has too many digits to be read. -/
  | tokenTooLong (digits : Nat)
  /-- An integer has too many digits to be written. -/
  | numberTooLong
  /-- A run was refused for a reason that the runner does not report. -/
  | machine (error : MachineError)
  /-- Memory was to be listed and could not be. -/
  | listing (error : Memory.ListingError)
  /-- A line was asked for and there was none. -/
  | endOfInput
  deriving DecidableEq, Repr

/-- What is said of an integer that is too long. -/
def limitExceeded (detail : String) : String :=
  s!"Exceeds the limit ({Text.digitLimit} digits) for integer string conversion{detail}; " ++
    "use sys.set_int_max_str_digits() to increase the limit"

def Crash.message : Crash → String
  | .load error => error.message
  | .tokenTooLong digits => limitExceeded s!": value has {digits} digits"
  | .numberTooLong => limitExceeded ""
  | .machine error => error.message
  | .listing error => error.message
  | .endOfInput => "EOF when reading a line"

/-- How the dialogue goes on. -/
inductive Turn where
  /-- The program waits for a value. -/
  | ask (session : Session)
  /-- The runner ends with an exit code, the session standing as it does. -/
  | done (code : Nat) (session : Option Session)
  | crash (error : Crash)

/-- What was printed, and how the dialogue goes on. -/
abbrev Said := Transcript × Turn

/-- Lines before those already said. -/
def Said.after (before : Transcript) (said : Said) : Said := (before ++ said.1, said.2)

/-- Ends after a run that gave a result: says whether it came to its limit and
lists memory if that was asked for. -/
def finish (settings : Settings) (session : Session) (result : RunEnd) : Said :=
  let limit := if result.stop = .stepLimit then
    [.limitReached result.steps session.machine.pc] else []
  Said.after limit <|
    if settings.dump then
      match session.machine.memory.listing with
      | .ok text => ([.listing text], .done 0 session)
      | .error e => ([], .crash (.listing e))
    else ([], .done 0 session)

/-- Ends after a run that was refused. Missing input and ill-formed instructions
are reported; any other refusal breaks the runner off. -/
def fail (session : Session) (error : MachineError) : Said :=
  match error with
  | .inputRequired _ | .inputExhausted _ =>
    let hint := " (supply values with --input or use --mode interactive)"
    ([.failure (error.message ++ hint)], .done 1 session)
  | .decode e => ([.failure e.message], .done 1 session)
  | .stopped _ | .alreadyHalted | .invalidAddress _ | .operandCount _ _ | .noOperand =>
    ([], .crash (.machine error))

/-- Runs the program on, and prints what happened and, unless the run was
refused, the values it has output. -/
def proceed (fuel : Nat) (settings : Settings) (mode : RunMode) (session : Session) :
    Option Said :=
  match session.machine.run fuel mode session.limit with
  | none => none
  | some { result, after, events } =>
    let session := { session with machine := after }
    some <| Said.after (report settings.debug events) <|
      match result with
      | .error e => fail session e
      | .ok result =>
        let (values, session) := session.collectOutput
        Said.after (values.map .value) <|
          if result.stop = .awaitingInput then ([.prompt], .ask session)
          else finish settings session result

/-- Starts: loads the program from what opening its file gave, and runs it. -/
def begin (fuel : Nat) (settings : Settings) (opened : Program.Opened) : Option Said :=
  let fresh := Session.start [] settings.limit settings.debug
  match fresh.loadFile (Path.normalName settings.file) opened with
  | .error e =>
    some (if e.isReported then ([.failure e.message], .done 1 none) else ([], .crash (.load e)))
  | .ok session =>
    let mode := match settings.mode with
      | .halt => .toHalt
      | .interactive => .toInput
    proceed fuel settings mode (session.replaceInput settings.input)

/-- Takes the answer to a prompt. An answer that is no integer is asked for
again. -/
def hear (fuel : Nat) (settings : Settings) (session : Session) (line : String) : Option Said :=
  let answer := Text.trim line.toList
  match Text.readLoose? answer with
  | none => some ([.notInteger (String.ofList answer), .prompt], .ask session)
  | some v => proceed fuel settings .toInput (session.feed [v])

/-- What comes behind the last line. An interrupt is one that comes while a line
is waited for; an interrupt during a run, which loses the output of that run,
is outside the model. -/
inductive Ending where
  | endOfInput
  | interrupt
  deriving DecidableEq, Repr

/-- Ends a dialogue in which a line is asked for and none comes. -/
def hangUp (session : Session) : Ending → Said
  | .endOfInput => ([], .crash .endOfInput)
  | .interrupt => ([.interrupted], .done 1 session)

/-- Plays the dialogue to its end on the given lines. -/
def converse (fuel : Nat) (settings : Settings) (ending : Ending) :
    List String → Said → Option Said
  | line :: rest, (printed, .ask session) =>
    match hear fuel settings session line with
    | none => none
    | some said => converse fuel settings ending rest (Said.after printed said)
  | [], (printed, .ask session) => some (Said.after printed (hangUp session ending))
  | _, said => some said

/-- A whole run on the given input. -/
def play (fuel : Nat) (settings : Settings) (opened : Program.Opened) (stdin : String)
    (ending : Ending) : Option Said :=
  match begin fuel settings opened with
  | none => none
  | some said => converse fuel settings ending (Text.linesOf stdin) said

end IntMachine.Runner
