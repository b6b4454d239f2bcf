import IntMachine.Monitor.Command
/-!
# The commands on a terminal

`debug` as first argument starts the monitor, anything else the runner. This
layer opens files, reads lines and prints; what is read and printed is decided
elsewhere.
-/

namespace IntMachine.Terminal

/-- More looks at a machine than any run that ends can take. -/
def fuel : Nat := 1000000000000000000

/-- Why a file could not be opened. -/
def openError (name : String) : IO.Error → OpenError
  | .noFileOrDirectory .. => .notFound name
  | .inappropriateType _ 21 _ => .isDirectory name
  | .inappropriateType .. => .notDirectory name
  | .invalidArgument _ _ "name too long" => .nameTooLong name
  | e => .refused name e.toString

/-- Opens a file. -/
def openFile (name : String) : IO Program.Opened := do
  if name.contains '\x00' then return .error .nulInName
  try
    return .ok (← IO.FS.readBinFile name).toList
  catch e => return .error (openError name e)

/-- Reads a line without its end; nothing if there is none. -/
def readLine : IO (Option String) := do
  let line ← (← IO.getStdin).getLine
  return (Text.linesOf line).head?

def print (text : String) : IO Unit := do
  let out ← IO.getStdout
  out.putStr text
  out.flush

def complain (text : String) : IO Unit := do (← IO.getStderr).putStr text

/-- Says that a run used up its fuel. -/
def giveUp : IO UInt32 := do
  complain "The run does not end.\n"
  return 1

/-- Prints what a command says that its arguments kept from starting. -/
def refuse {σ : Type} (g : CommandLine.Grammar σ) (refusal : CommandLine.Refusal) : IO UInt32 := do
  let report : Runner.Report Empty := Runner.refuse g refusal
  print report.out
  complain report.err
  match report.exit with
  | .ok code => return code.toUInt32

/-- Says why the runner broke off. -/
def breakOff (e : Runner.Crash) : IO UInt32 := do
  complain s!"{e.message}\n"
  return 1

/-- Plays a dialogue of the runner. -/
partial def converse (settings : Runner.Settings) : Option Runner.Said → IO UInt32
  | none => giveUp
  | some (printed, turn) => do
    for line in printed.written do
      match line.stream with
      | .out => print line.text
      | .err => complain line.text
    if printed.written ≠ printed then return ← breakOff .numberTooLong
    match turn with
    | .done code _ => return code.toUInt32
    | .crash e => breakOff e
    | .ask session =>
      match ← readLine with
      | some line => converse settings (Runner.hear fuel settings session line)
      | none => converse settings (some (Runner.hangUp session .endOfInput))

/-- The runner. -/
def runner (arguments : List String) : IO UInt32 := do
  match Runner.grammar.read {} arguments with
  | .error refusal => refuse Runner.grammar refusal
  | .ok settings =>
    let opened ← openFile (Path.normalName settings.file)
    match Program.longTokenIn? opened with
    | some digits => breakOff (.tokenTooLong digits)
    | none => converse settings (Runner.begin fuel settings opened)

/-- Shows an answer of the monitor. -/
def showAnswer (answer : Monitor.Answer) : IO Unit := do
  print answer.text
  for line in Runner.report false answer.events do
    complain line.text
  for entry in answer.entries do
    for line in entry.display.lines do
      print s!"{line}\n"

/-- Serves lines until the monitor is told to stop. -/
partial def serve (m : Monitor) : IO UInt32 := do
  print Monitor.prompt
  let line := (← readLine).getD Monitor.Verb.endOfInput.word
  let opened ← match m.fileNeeded? line with
    | some name => openFile name
    | none => pure (.error (.notFound ""))
  match m.hear fuel (fun _ => opened) line with
  | none => giveUp
  | some (answer, m) =>
    showAnswer answer
    match answer.crash with
    | some e => do
      complain s!"{e.message}\n"
      return 1
    | none => if answer.stop then return 0 else serve m

/-- The monitor. -/
def monitor (arguments : List String) : IO UInt32 := do
  match Monitor.grammar.read {} arguments with
  | .error refusal => refuse Monitor.grammar refusal
  | .ok settings =>
    let name := String.ofList (Text.trim settings.file.toList)
    let (answer, m) ← if settings.file = "" then pure ({}, {}) else do
      let opened ← openFile name
      pure (Monitor.load (fun _ => opened) {} settings.file)
    showAnswer answer
    match answer.crash with
    | some e => do
      complain s!"{e.message}\n"
      return 1
    | none => do
      print Monitor.greeting
      serve m

end IntMachine.Terminal

def main : List String → IO UInt32
  | "debug" :: arguments => IntMachine.Terminal.monitor arguments
  | arguments => IntMachine.Terminal.runner arguments
