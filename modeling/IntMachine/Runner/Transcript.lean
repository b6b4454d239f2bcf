import IntMachine.Session.Basic
import IntMachine.Text.Integer
/-!
# What the runner prints

A transcript lists what the runner prints, each line as what it is: an output
value, a prompt, a listing, a journal record, a complaint. The text on either
stream is read off it.
-/

namespace IntMachine.Runner

/-- Standard output and standard error. -/
inductive Stream where
  | out
  | err
  deriving DecidableEq, Repr

inductive Line where
  /-- A value that the program output. -/
  | value (v : Int)
  | prompt
  /-- All of memory at the end. -/
  | listing (text : String)
  /-- A journal record in full. -/
  | record (r : Record)
  /-- A journal record without its origin. -/
  | alarm (r : Record)
  /-- The answer to a prompt was no integer. -/
  | notInteger (answer : String)
  /-- The run came to its limit. -/
  | limitReached (steps : Nat) (pc : Int)
  | failure (message : String)
  | interrupted
  deriving DecidableEq, Repr

namespace Line

def stream : Line → Stream
  | .value _ | .prompt | .listing _ => .out
  | _ => .err

/-- The characters printed. Only the prompt leaves its line open. -/
def text : Line → String
  | .value v => s!"{v}\n"
  | .prompt => "Input: "
  | .listing text => s!"{text}\n"
  | .record r => s!"{r.line}\n"
  | .alarm r => s!"{r.text}\n"
  | .notInteger answer => s!"Not an integer: {Text.quoted answer}\n"
  | .limitReached steps pc => s!"Stopped after {steps} steps (pc={pc})\n"
  | .failure message => s!"Error: {message}\n"
  | .interrupted => "\nInterrupted by user\n"

/-- Whether a line can be written: its integers have no more than
`Text.digitLimit` digits. Digits in a file's or a user's text that is quoted are
no integer, and a failure of a run repeats what the journal has said or names a
cell of memory. What the journal writes in place of a record below the errors
that it cannot write is outside the model. -/
def isWritable (line : Line) : Bool :=
  match line with
  | .value _ | .listing _ | .limitReached _ _ | .alarm _ => !Text.holdsLong line.text.toList 0
  | .record r => r.level ≠ .error || !Text.holdsLong line.text.toList 0
  | .prompt | .notInteger _ | .failure _ | .interrupted => true

/-- The output value on a line, if it is one. -/
def value? : Line → Option Int
  | .value v => some v
  | _ => none

end Line

abbrev Transcript := List Line

namespace Transcript

/-- All that is printed on a stream. -/
def text (t : Transcript) (s : Stream) : String :=
  String.join ((t.filter (·.stream = s)).map Line.text)

/-- The output values printed. -/
def values (t : Transcript) : List Int := t.filterMap Line.value?

@[simp] theorem values_append (t u : Transcript) :
    values (t ++ u) = values t ++ values u := List.filterMap_append ..

end Transcript

/-- The lines that report events: in debug mode the whole journal, else only
its errors. -/
def report (debug : Bool) (events : Array Event) : Transcript :=
  if debug then (journal true events).map .record
  else ((journal false events).filter (·.level = .error)).map .alarm

end IntMachine.Runner
