import IntMachine.Machine.Step
/-!
# Running a machine

A run executes instructions until the machine halts, fails, waits for input,
produces output in a run that stops on output, or has executed as many
instructions as the run may. Control comes back between two instructions, so
every run can be continued. A run that would never stop has no outcome: `run`
takes an amount of fuel, one unit for each look at the machine, and gives
nothing if that does not suffice.
-/

namespace IntMachine

/-- Where a run stops, apart from halting and failing. -/
inductive RunMode where
  /-- Run to the end: input missing on the way is an error. -/
  | toHalt
  /-- Stop where input is missing. -/
  | toInput
  /-- Stop where input is missing, and after each output. -/
  | toOutput
  deriving DecidableEq, Repr

/-- Why a run stopped. -/
inductive Stop where
  | halted
  /-- The machine had halted before the run. -/
  | alreadyHalted
  | awaitingInput
  | output (value : Int)
  | stepLimit
  | breakpoint
  deriving DecidableEq, Repr

namespace Stop

def name : Stop → String
  | .halted => "halted"
  | .alreadyHalted => "already_halted"
  | .awaitingInput => "awaiting_input"
  | .output _ => "output"
  | .stepLimit => "step_limit"
  | .breakpoint => "breakpoint"

def isHalted : Stop → Bool
  | .halted | .alreadyHalted => true
  | _ => false

/-- The value whose output stopped the run. -/
def value? : Stop → Option Int
  | .output v => some v
  | _ => none

end Stop

/-- Why a run stopped, and how many instructions it executed. -/
structure RunEnd where
  stop : Stop
  steps : Nat
  deriving DecidableEq, Repr

/-- The largest number of instructions a run may execute. A negative limit
admits as many as zero does: none. -/
abbrev StepLimit := Option Int

/-- Whether a run that has executed `steps` instructions may execute no more. -/
def StepLimit.reached (limit : StepLimit) (steps : Nat) : Bool :=
  match limit with
  | none => false
  | some n => n ≤ steps

namespace Machine

/-- What a run makes of an executed instruction: the stop, if it stops there. -/
def stopAfter? (mode : RunMode) (m : Machine) (i : Instruction) : Option Stop :=
  if m.isHalted then some .halted
  else if mode = .toOutput ∧ i.opcode = .output then some (.output (i.operands.headD 0))
  else none

/-- What a run makes of missing input. -/
def starved (mode : RunMode) (m : Machine) (steps : Nat) : Except MachineError RunEnd :=
  if mode = .toHalt then .error (.inputExhausted m.pc) else .ok ⟨.awaitingInput, steps⟩

/-- Runs on, after `steps` instructions and the given events. -/
def runOn (mode : RunMode) (limit : StepLimit) :
    (fuel steps : Nat) → Array Event → Machine → Option (Outcome Machine MachineError RunEnd)
  | 0, _, _, _ => none
  | fuel + 1, steps, events, m =>
    if limit.reached steps then some { result := .ok ⟨.stepLimit, steps⟩, after := m, events }
    else
      let tried := m.advance
      let events := events ++ tried.events
      match tried.result with
      | .error e => some { result := .error e, after := tried.after, events }
      | .ok none => some { result := starved mode tried.after steps, after := tried.after, events }
      | .ok (some i) =>
        match stopAfter? mode tried.after i with
        | some stop => some { result := .ok ⟨stop, steps + 1⟩, after := tried.after, events }
        | none => runOn mode limit fuel (steps + 1) events tried.after

/-- Runs the machine. -/
def run (fuel : Nat) (mode : RunMode) (limit : StepLimit := none) (m : Machine) :
    Option (Outcome Machine MachineError RunEnd) :=
  match m.activity with
  | .failed cause => some { result := .error (.stopped cause), after := m }
  | .halted => some { result := .ok ⟨.alreadyHalted, 0⟩, after := m }
  | .running | .awaitingInput => runOn mode limit fuel 0 #[] { m with activity := .running }

/-- Runs to an output up to `count` times, each time within the limit, and
collects the values; `values` and `events` are those of the runs before. -/
def runOutputsOn (fuel : Nat) (limit : StepLimit) :
    (count : Nat) → Array Int → Array Event → Machine →
      Option (Outcome Machine MachineError (List Int))
  | 0, values, events, m => some { result := .ok values.toList, after := m, events }
  | count + 1, values, events, m =>
    match m.run fuel .toOutput limit with
    | none => none
    | some ran =>
      let events := events ++ ran.events
      match ran.result with
      | .error e => some { result := .error e, after := ran.after, events }
      | .ok ⟨.output v, _⟩ => runOutputsOn fuel limit count (values.push v) events ran.after
      | .ok _ => some { result := .ok values.toList, after := ran.after, events }

/-- Runs until `count` values have been output, and gives them back; fewer if
the machine stops for another reason before. -/
def runOutputs (fuel : Nat) (count : Nat) (limit : StepLimit := none) (m : Machine) :
    Option (Outcome Machine MachineError (List Int)) :=
  runOutputsOn fuel limit count #[] #[] m

end Machine

/-- Runs a program from its start to its end on the given input: the machine
at the end, or why there is none. -/
def Program.execute (fuel : Nat) (program : Program) (input : List Int := []) :
    Option (Except MachineError Machine) :=
  ((Machine.load program input).run fuel .toHalt).map fun ran => ran.result.map fun _ => ran.after

end IntMachine
