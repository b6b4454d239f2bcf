import IntMachine.Machine.Basic
/-!
# Executing one instruction

`fetch` decodes the instruction at the program counter and `perform` applies
an instruction; `advance` does both, unless the instruction asks for input that
is not there. Every way to run a machine is made of `advance`. `perform` also
takes instructions that no memory holds, so it checks addresses and operands
itself.
-/

namespace IntMachine.Machine

/-- A call on a machine that gives a `Result`. -/
abbrev Call (Result : Type) := Machine → Outcome Machine MachineError Result

/-- The instruction at the program counter. An ill-formed one makes the
machine fail. -/
def fetch : Call Instruction := fun m =>
  match m.memory.decode m.pc m.base with
  | .ok i => { result := .ok i, after := m }
  | .error e =>
    { result := .error (.decode e), after := { m with activity := .failed e },
      events := #[.decodeFailed e] }

/-- Stores a value where an instruction says, and gives the next address. -/
def store (m : Machine) (i : Instruction) (target value : Int) :
    Except MachineError Int × Machine :=
  match Memory.index target with
  | .error e => (.error (.invalidAddress e), m)
  | .ok n => (.ok i.next, { m with memory := m.memory.put n value })

/-- The effect of an instruction once its reads are done, and the address of
the instruction to follow. -/
def execute (m : Machine) (i : Instruction) : Except MachineError Int × Machine :=
  match i.opcode, i.operands with
  | .add, [a, b, c] => m.store i c (a + b)
  | .multiply, [a, b, c] => m.store i c (a * b)
  | .lessThan, [a, b, c] => m.store i c (if a < b then 1 else 0)
  | .equals, [a, b, c] => m.store i c (if a = b then 1 else 0)
  | .jumpIfTrue, [a, b] => (.ok (if a ≠ 0 then b else i.next), m)
  | .jumpIfFalse, [a, b] => (.ok (if a = 0 then b else i.next), m)
  | .input, operands =>
    match m.input.receive? with
    | none => (.error (.inputRequired i.address), m)
    | some (v, input) =>
      match operands.getLast? with
      | none => (.error .noOperand, m)
      | some c => store { m with input } i c v
  | .output, a :: _ => (.ok i.next, { m with output := m.output.send a })
  | .adjustRelativeBase, a :: _ => (.ok i.next, { m with base := m.base + a })
  | .halt, _ => (.ok i.next, { m with activity := .halted })
  | .output, [] | .adjustRelativeBase, [] => (.error .noOperand, m)
  | op, operands => (.error (.operandCount op.layout.length operands.length), m)

/-- Applies an instruction: performs its reads, then its effect. The result is
the address of the instruction to follow; the program counter stays. -/
def perform (i : Instruction) : Call Int := fun m =>
  let events := #[.performed i m.base]
  let (invalid, memory) := m.memory.touch i.reads
  let m := { m with memory }
  match invalid with
  | some e => { result := .error (.invalidAddress e), after := m, events }
  | none =>
    let (result, m) := m.execute i
    { result, after := m, events }

/-- Fetches the instruction at the program counter and performs it, leaving
the program counter where it is. -/
def fetchAndPerform : Call Int := fun m =>
  let fetched := m.fetch
  match fetched.result with
  | .error e => { fetched with result := .error e }
  | .ok i => perform i fetched.after

/-- Whether an instruction has to wait for input. -/
def starves (m : Machine) (i : Instruction) : Bool := i.opcode = .input && m.input.isDrained

/-- Executes the instruction at the program counter and gives it back, or gives
nothing and waits if the instruction needs input that is not there. -/
def advance : Call (Option Instruction) := fun m =>
  let fetched := m.fetch
  match fetched.result with
  | .error e => { fetched with result := .error e }
  | .ok i =>
    let m := fetched.after
    if m.starves i then { result := .ok none, after := { m with activity := .awaitingInput } }
    else
      let done := perform i { m with activity := .running }
      match done.result with
      | .error e => { done with result := .error e }
      | .ok pc =>
        { result := .ok (some i),
          after := { done.after with pc, executed := done.after.executed + 1 },
          events := done.events }

/-- Why a machine cannot be asked to execute anything. -/
def obstacle? (m : Machine) : Option MachineError :=
  match m.activity with
  | .failed cause => some (.stopped cause)
  | .halted => some .alreadyHalted
  | .running | .awaitingInput => none

/-- Executes exactly one instruction and gives it back. -/
def step : Call Instruction := fun m =>
  match m.obstacle? with
  | some e => { result := .error e, after := m }
  | none =>
    let tried := m.advance
    match tried.result with
    | .ok (some i) => { tried with result := .ok i }
    | .ok none => { tried with result := .error (.inputRequired m.pc) }
    | .error e => { tried with result := .error e }

end IntMachine.Machine
