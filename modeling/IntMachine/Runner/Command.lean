import IntMachine.Runner.Dialogue
/-!
# The runner as a command

From arguments, files and standard input, which is text, to the text on both
streams and the exit code. What a dialogue says is written line by line. The
command breaks off where an integer has more digits than it can read or write:
at a token of the program file, before anything is run, or at the first line
that holds such an integer.
-/

namespace IntMachine.Runner

/-- What a command leaves: the text on both streams, and its exit code or why
it broke off. -/
structure Report (Error : Type) where
  out : String
  err : String
  exit : Except Error Nat

/-- The report of a command that its arguments kept from starting. -/
def refuse {σ Error : Type} (g : CommandLine.Grammar σ) : CommandLine.Refusal → Report Error
  | .help => ⟨g.help, "", .ok 0⟩
  | .usage e => ⟨"", g.complaint e, .ok 2⟩

/-- How a dialogue ended. A dialogue that still asks has not. -/
def Turn.exit? : Turn → Option (Except Crash Nat)
  | .ask _ => none
  | .done code _ => some (.ok code)
  | .crash e => some (.error e)

/-- The lines up to the first one that cannot be written. -/
def Transcript.written (t : Transcript) : Transcript := t.takeWhile Line.isWritable

/-- The report of a dialogue. -/
def Said.report? (said : Said) : Option (Report Crash) :=
  let written := said.1.written
  let exit? := if written = said.1 then said.2.exit? else some (.error .numberTooLong)
  exit?.map fun exit => ⟨written.text .out, written.text .err, exit⟩

/-- Runs the command. -/
def command (fuel : Nat) (arguments : List String) (files : Files) (stdin : String)
    (ending : Ending) : Option (Report Crash) :=
  match grammar.read {} arguments with
  | .error refusal => some (refuse grammar refusal)
  | .ok settings =>
    let opened := files.read (Path.normalName settings.file)
    match Program.longTokenIn? opened with
    | some digits => some ⟨"", "", .error (.tokenTooLong digits)⟩
    | none =>
      match play fuel settings opened stdin ending with
      | none => none
      | some said => said.report?

end IntMachine.Runner
