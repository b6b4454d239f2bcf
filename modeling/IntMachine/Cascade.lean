import IntMachine.Machine.Run
/-!
# Cascades

A cascade is a row of machines, the stages, that run copies of one program,
each started with a setting of its own as first input. A signal is passed
through it in one of two ways: once through all stages, each run to its end
(`passOnce`), or round and round, each stage run to its next output, until a
stage halts (`feedBack`).
-/

namespace IntMachine

structure Cascade where
  stages : Array Machine
  deriving DecidableEq, Repr

/-- Why a cascade gave no value. -/
inductive CascadeError where
  | noStages
  | stage (error : MachineError)
  /-- The stage halted and had never output anything. -/
  | silent (stage : Nat)
  /-- The stage stopped for this reason where an output was due. -/
  | stalled (stage : Nat) (stop : Stop)
  /-- A stage halted before the last stage had output anything. -/
  | haltedAtOnce
  deriving DecidableEq, Repr

def CascadeError.message : CascadeError → String
  | .noStages => "Pipeline needs at least one stage"
  | .stage error => error.message
  | .silent k => s!"Stage {k} halted without output"
  | .stalled k stop => s!"Stage {k} stopped with {stop.name} and no output"
  | .haltedAtOnce => "Feedback loop halted before any output"

namespace Cascade

/-- One stage for each setting. -/
def build (program : Program) (settings : List Int) : Except CascadeError Cascade :=
  if settings = [] then .error .noStages
  else .ok ⟨(settings.map fun setting => Machine.load program [setting]).toArray⟩

/-- Runs a stage on one more input value. -/
def runStage (fuel : Nat) (mode : RunMode) (c : Cascade) (k : Nat) (signal : Int) :
    Option (Outcome Cascade MachineError RunEnd) :=
  match c.stages[k]? with
  | none => none
  | some stage =>
    ((stage.feed [signal]).run fuel mode).map fun { result, after, events } =>
      { result, after := ⟨c.stages.setIfInBounds k after⟩, events }

/-- The last value that a stage has output. -/
def lastOutput? (c : Cascade) (k : Nat) : Option Int :=
  c.stages[k]?.bind fun stage => stage.output.sent.back?

/-- Passes a signal through the last `count` stages. -/
def passOn (fuel : Nat) :
    (count : Nat) → (signal : Int) → Array Event → Cascade →
      Option (Outcome Cascade CascadeError Int)
  | 0, signal, events, c => some { result := .ok signal, after := c, events }
  | count + 1, signal, events, c =>
    let k := c.stages.size - (count + 1)
    match c.runStage fuel .toHalt k signal with
    | none => none
    | some ran =>
      let events := events ++ ran.events
      match ran.result with
      | .error e => some { result := .error (.stage e), after := ran.after, events }
      | .ok _ =>
        match ran.after.lastOutput? k with
        | none => some { result := .error (.silent k), after := ran.after, events }
        | some signal => passOn fuel count signal events ran.after

/-- Passes a signal once through every stage, each run to its end on what the
one before output last. -/
def passOnce (fuel : Nat) (signal : Int := 0) (c : Cascade) :
    Option (Outcome Cascade CascadeError Int) :=
  passOn fuel c.stages.size signal #[] c

/-- Feeds a signal to stage `k` in round `rounds`, and what it outputs to the
stage behind it, or from the last stage back to the first. `last` is the last
output of the last stage. Each stage that is run costs one unit of fuel. -/
def feedOn (runFuel : Nat) :
    (fuel k rounds : Nat) → (last : Option Int) → (signal : Int) → Array Event → Cascade →
      Option (Outcome Cascade CascadeError Int)
  | 0, _, _, _, _, _, _ => none
  | fuel + 1, k, rounds, last, signal, events, c =>
    match c.runStage runFuel .toOutput k signal with
    | none => none
    | some ran =>
      let events := events ++ ran.events
      match ran.result with
      | .error e => some { result := .error (.stage e), after := ran.after, events }
      | .ok ⟨.output value, _⟩ =>
        if k + 1 = c.stages.size then
          feedOn runFuel fuel 0 (rounds + 1) (some value) value events ran.after
        else feedOn runFuel fuel (k + 1) rounds last value events ran.after
      | .ok ⟨stop, _⟩ =>
        if stop.isHalted then
          some { result := last.elim (.error .haltedAtOnce) .ok, after := ran.after,
                 events := events.push (.stageHalted k rounds) }
        else some { result := .error (.stalled k stop), after := ran.after, events }

/-- Passes a signal round and round until a stage halts, and gives the last
output of the last stage. -/
def feedBack (fuel : Nat) (signal : Int := 0) (c : Cascade) :
    Option (Outcome Cascade CascadeError Int) :=
  feedOn fuel fuel 0 0 none signal #[] c

end Cascade

/-- Passes a signal once through a fresh cascade. -/
def Program.passOnce (fuel : Nat) (program : Program) (settings : List Int) (signal : Int := 0) :
    Option (Except CascadeError Int) :=
  match Cascade.build program settings with
  | .error e => some (.error e)
  | .ok c => (c.passOnce fuel signal).map (·.result)

/-- Passes a signal round and round through a fresh cascade. -/
def Program.feedBack (fuel : Nat) (program : Program) (settings : List Int) (signal : Int := 0) :
    Option (Except CascadeError Int) :=
  match Cascade.build program settings with
  | .error e => some (.error e)
  | .ok c => (c.feedBack fuel signal).map (·.result)

end IntMachine
