import IntMachine.Text.Blank
/-!
# The commands of the monitor

The words that a command line of the monitor may start with, their help texts,
and how a line is taken apart into a word and an argument.
-/

namespace IntMachine.Monitor

inductive Verb where
  | load
  | reset
  | run
  | step
  | input
  | «break»
  | delete
  | clear
  | status
  | output
  | memory
  | set
  | quit
  | exit
  | endOfInput
  | help
  deriving DecidableEq, Repr

namespace Verb

def all : List Verb :=
  [.load, .reset, .run, .step, .input, .break, .delete, .clear, .status, .output, .memory, .set,
    .quit, .exit, .endOfInput, .help]

/-- The word for the command. -/
def word : Verb → String
  | .load => "load"
  | .reset => "reset"
  | .run => "run"
  | .step => "step"
  | .input => "input"
  | .break => "break"
  | .delete => "delete"
  | .clear => "clear"
  | .status => "status"
  | .output => "output"
  | .memory => "memory"
  | .set => "set"
  | .quit => "quit"
  | .exit => "exit"
  | .endOfInput => "EOF"
  | .help => "help"

/-- The command with a word. -/
def ofWord? (word : String) : Option Verb := all.find? (·.word = word)

/-- What the command does, for all that are meant to be typed. -/
def description? : Verb → Option String
  | .load => some "Load a program file: load <filename>"
  | .reset => some "Reset the machine to the loaded program: reset"
  | .run => some "Run until halt, input needed, or breakpoint: run [max_steps]"
  | .step => some "Execute instruction(s): step [count]"
  | .input => some "Queue input values: input <v1> [v2 ...]"
  | .break => some "Set breakpoint or list them: break [address]"
  | .delete => some "Delete breakpoint: delete <address>"
  | .clear => some "Clear all breakpoints: clear"
  | .status => some "Show VM status: status"
  | .output => some "Show the full output log: output"
  | .memory => some "Show memory: memory [address] [count]"
  | .set => some "Set a memory cell: set <address> <value>"
  | .quit => some "Quit the debugger: quit"
  | .exit => some "Exit the debugger: exit"
  | .endOfInput => none
  | .help => some "List available commands with \"help\" or detailed help with \"help cmd\"."

end Verb

/-- The list of commands. -/
def helpListing : String := "\n".intercalate [
  "",
  "Documented commands (type help <topic>):",
  "========================================",
  "break  delete  help   load    output  reset  set     step",
  "clear  exit    input  memory  quit    run    status",
  "",
  "Undocumented commands:",
  "======================",
  "EOF",
  "",
  ""]

/-- The help on a command, or the list of commands if none is named. -/
def helpText (topic : String) : String :=
  if topic = "" then helpListing
  else match (Verb.ofWord? topic).bind Verb.description? with
    | some text => s!"{text}\n"
    | none => s!"*** No help on {topic}\n"

/-- The characters that a command word is made of. -/
def isWordChar (c : Char) : Bool := c.isAlphanum || c = '_'

/-- A command line taken apart. A line with a word, known or not, is the one
that an empty line repeats. -/
inductive Parsed where
  | blank
  /-- A call of another program, which the monitor does not make. -/
  | outside (line : String)
  /-- The line as it is remembered, the command if its word is one, and the
  argument. -/
  | command (line : String) (verb : Option Verb) (argument : String)
  deriving DecidableEq, Repr

/-- Takes a line apart. A question mark at the start stands for `help`. -/
def parse (line : String) : Parsed :=
  match Text.trim line.toList with
  | [] => .blank
  | '!' :: rest => .outside (String.ofList ('!' :: rest))
  | c :: rest =>
    let chars := if c = '?' then "help ".toList ++ rest else c :: rest
    let word := chars.takeWhile isWordChar
    let argument := Text.trim (chars.dropWhile isWordChar)
    .command (String.ofList chars) (Verb.ofWord? (String.ofList word)) (String.ofList argument)

end IntMachine.Monitor
