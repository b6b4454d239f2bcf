import IntMachine.Monitor.Basic
import IntMachine.Runner.Command
/-!
# The monitor as a command

From arguments, files and standard input to the text on both streams, the
entries shown, and the exit code. The monitor prompts for each line and stops
when it is told to; when no line comes it is told so.
-/

namespace IntMachine.Monitor

open CommandLine

structure Settings where
  /-- The program file to load at the start, if one is named. -/
  file : String := ""
  deriving DecidableEq, Repr

def usage : String := "usage: intcode-debug [-h] [program]\n"

def help : String := "\n".intercalate [
  usage,
  "Intcode Debugger - step through Intcode programs",
  "",
  "positional arguments:",
  "  program     Program file to load",
  "",
  "options:",
  "  -h, --help  show this help message and exit",
  ""]

/-- What the monitor may be given. -/
def grammar : Grammar Settings where
  command := "intcode-debug"
  usage := usage
  help := help
  options := [⟨["-h", "--help"], .help⟩]
  operand := "program"
  operandRequired := false
  setOperand _ name := { file := name }

/-- What the monitor prints before the first prompt. -/
def greeting : String :=
  "Intcode Interactive Debugger\nType 'help' or '?' for commands.\n\n"

def prompt : String := "(intcode) "

def farewell : String := "\nInterrupted by user\n"

/-- What has been printed and shown. -/
structure Screen where
  out : String := ""
  err : String := ""
  entries : List Entry := []

/-- The screen after an answer. -/
def Screen.add (screen : Screen) (a : Answer) : Screen where
  out := screen.out ++ a.text
  err := screen.err ++ Runner.Transcript.text (Runner.report false a.events) .err
  entries := screen.entries ++ a.entries

def Screen.print (screen : Screen) (text : String) : Screen :=
  { screen with out := screen.out ++ text }

/-- A screen at the end, with the exit code or why the monitor broke off. -/
abbrev Ended := Screen × Except LoadError Nat

/-- Serves the lines, and then the end of input or an interrupt. -/
def serve (fuel : Nat) (opener : Opener) (ending : Runner.Ending) :
    List String → Monitor → Screen → Option Ended
  | [], m, screen =>
    let screen := screen.print prompt
    match ending with
    | .interrupt => some (screen.print farewell, .ok 1)
    | .endOfInput =>
      (m.hear fuel opener Verb.endOfInput.word).map fun (answer, _) => (screen.add answer, .ok 0)
  | line :: rest, m, screen =>
    match m.hear fuel opener line with
    | none => none
    | some (answer, m) =>
      let screen := (screen.print prompt).add answer
      match answer.crash with
      | some e => some (screen, .error e)
      | none => if answer.stop then some (screen, .ok 0) else serve fuel opener ending rest m screen

/-- A whole session at the monitor. -/
def converse (fuel : Nat) (opener : Opener) (settings : Settings) (stdin : String)
    (ending : Runner.Ending) : Option Ended :=
  let (answer, m) := if settings.file = "" then ({}, {}) else load opener {} settings.file
  let screen := Screen.add {} answer
  match answer.crash with
  | some e => some (screen, .error e)
  | none => serve fuel opener ending (Text.linesOf stdin) m (screen.print greeting)

/-- Runs the command: the report, and the entries shown. -/
def command (fuel : Nat) (arguments : List String) (files : Files) (stdin : String)
    (ending : Runner.Ending) : Option (Runner.Report LoadError × List Entry) :=
  match grammar.read {} arguments with
  | .error refusal => some (Runner.refuse grammar refusal, [])
  | .ok settings =>
    (converse fuel files.read settings stdin ending).map fun (screen, exit) =>
      (⟨screen.out, screen.err, exit⟩, screen.entries)

end IntMachine.Monitor
