import IntMachine.CommandLine.Reader
import IntMachine.Text.Integer
/-!
# The arguments of the runner

The runner takes a program file and runs it: to its end on input given
beforehand, or asking for input when the program needs it.
-/

namespace IntMachine.Runner

open CommandLine

/-- Where input comes from. -/
inductive Mode where
  /-- All of it is given beforehand. -/
  | halt
  /-- It is asked for when it is needed. -/
  | interactive
  deriving DecidableEq, Repr

structure Settings where
  /-- The name of the program file. -/
  file : String := ""
  input : List Int := []
  mode : Mode := .halt
  limit : Option Int := none
  /-- Whether to list memory at the end. -/
  dump : Bool := false
  /-- Whether to print the whole journal. -/
  debug : Bool := false
  deriving DecidableEq, Repr

/-- Reads a value that has to be an integer. -/
def integer (text : String) : Except String Int :=
  match Text.readLoose? text.toList with
  | some v => .ok v
  | none => .error s!"invalid int value: {Text.quoted text}"

/-- Reads several values that have to be integers. -/
def integers : List String → Except String (List Int)
  | [] => .ok []
  | text :: rest =>
    match integer text with
    | .error e => .error e
    | .ok v => (integers rest).map (v :: ·)

/-- Reads the name of a mode. -/
def mode (text : String) : Except String Mode :=
  if text = "halt" then .ok .halt
  else if text = "interactive" then .ok .interactive
  else .error s!"invalid choice: {Text.quoted text} (choose from 'halt', 'interactive')"

def usage : String := "\n".intercalate [
  "usage: intcode-vm [-h] [--input [INPUT ...]] [--mode \x7bhalt,interactive\x7d]",
  "                  [--max-steps MAX_STEPS] [--dump] [--debug]",
  "                  program",
  ""]

def help : String := "\n".intercalate [
  usage,
  "Intcode Virtual Machine",
  "",
  "positional arguments:",
  "  program               Program file (comma-separated integers)",
  "",
  "options:",
  "  -h, --help            show this help message and exit",
  "  --input [INPUT ...], -i [INPUT ...]",
  "                        Input values to preload",
  "  --mode \x7bhalt,interactive\x7d",
  "                        Run to halt with preloaded input, or prompt for input",
  "  --max-steps MAX_STEPS",
  "                        Stop after this many instructions",
  "  --dump                Print a memory dump when done",
  "  --debug               Enable debug logging and tracing",
  ""]

/-- What the runner may be given. -/
def grammar : Grammar Settings where
  command := "intcode-vm"
  usage := usage
  help := help
  options := [
    ⟨["-h", "--help"], .help⟩,
    ⟨["--input", "-i"], .several fun s texts =>
      (integers texts).map fun input => { s with input }⟩,
    ⟨["--mode"], .one fun s text => (Runner.mode text).map fun mode => { s with mode }⟩,
    ⟨["--max-steps"], .one fun s text => (integer text).map fun n => { s with limit := some n }⟩,
    ⟨["--dump"], .switch fun s => { s with dump := true }⟩,
    ⟨["--debug"], .switch fun s => { s with debug := true }⟩]
  operand := "program"
  operandRequired := true
  setOperand s name := { s with file := name }

end IntMachine.Runner
