import IntMachine.Memory.Listing
import IntMachine.Proofs.Requests
/-!
# Operations in any order

All that can be done with a machine from outside. Besides being asked to execute
something, it can have its instruction fetched, its input changed, its output
collected, its memory written or listed, and itself copied. What the operations
that execute nothing can change is said once (`Operation.perform_of_still`,
`Operation.perform_of_write`), as is what they do to the two channels
(`Operation.perform_of_ne_ask`). What all of them keep holds all along
(`handle_preserves`), what a log amounts to is shown by induction on it
(`handle_induction`), and what instructions keep every request keeps
(`perform_preserves`).
-/

namespace IntMachine.Machine

/-- What can be done with a machine from outside. -/
inductive Operation where
  | ask (request : Request)
  | fetch
  | feed (values : List Int)
  | replaceInput (values : List Int)
  | collectOutput
  /-- Stores a value in memory, past all instructions. -/
  | write (address value : Int)
  | window (start : Int) (count : Option Int)
  | listing (width : Int)
  | copy
  deriving DecidableEq, Repr

/-- What an operation that was not refused gives back. -/
inductive Answer where
  | nothing
  | response (response : Response)
  | instruction (i : Instruction)
  | values (vs : List Int)
  | cells (cells : List (Nat × Int))
  | text (text : String)
  | machine (m : Machine)
  deriving DecidableEq, Repr

/-- Why an operation was refused. -/
inductive OperationError where
  | machine (error : MachineError)
  | address (error : InvalidAddress)
  | listing (error : Memory.ListingError)
  deriving DecidableEq, Repr

namespace Operation

/-- Does one thing with a machine; each run in it takes its own share of the
fuel. -/
def perform (fuel : Nat) :
    Operation → Machine → Option (Outcome Machine OperationError Answer)
  | .ask request, m =>
    (request.perform fuel m).map fun { result, after, events } =>
      { result := (result.map .response).mapError .machine, after, events }
  | .fetch, m =>
    let { result, after, events } := m.fetch
    some { result := (result.map .instruction).mapError .machine, after, events }
  | .feed vs, m => some { result := .ok .nothing, after := m.feed vs }
  | .replaceInput vs, m => some { result := .ok .nothing, after := m.replaceInput vs }
  | .collectOutput, m =>
    let (vs, after) := m.collectOutput
    some { result := .ok (.values vs), after }
  | .write address value, m =>
    match m.memory.write address value with
    | .error e => some { result := .error (.address e), after := m }
    | .ok memory => some { result := .ok .nothing, after := { m with memory } }
  | .window start count, m =>
    some { result := .ok (.cells (m.memory.window start count)), after := m }
  | .listing width, m =>
    some { result := ((m.memory.listing width).map .text).mapError .listing, after := m }
  | .copy, m => some { result := .ok (.machine m), after := m }

/-- Whether an operation is there to change memory. -/
def isWrite : Operation → Bool
  | .write _ _ => true
  | _ => false

/-- Whether an operation looks at no instruction and leaves memory alone. -/
def isStill : Operation → Bool
  | .ask _ | .fetch | .write _ _ => false
  | _ => true

end Operation

/-- An operation that came to an end, with the machine it was done with. -/
structure Handling where
  operation : Operation
  before : Machine
  outcome : Outcome Machine OperationError Answer

/-- Does one thing after the other, whether or not it is refused. -/
def handle (fuel : Nat) : List Operation → Machine → Option (List Handling × Machine)
  | [], m => some ([], m)
  | op :: ops, m =>
    match op.perform fuel m with
    | none => none
    | some out =>
      (handle fuel ops out.after).map fun (log, last) => (⟨op, m, out⟩ :: log, last)

variable {fuel : Nat} {m c last : Machine} {op : Operation} {ops : List Operation}
variable {out : Outcome Machine OperationError Answer} {log : List Handling}

/-! ## One operation -/

/-- What a machine is doing once its instruction has been fetched. -/
def fetchedActivity (m : Machine) : Activity :=
  match m.memory.decode m.pc m.base with
  | .ok _ => m.activity
  | .error e => .failed e

/-- **What a fetch leaves.** Only what the machine is doing can change, and only
where there is no instruction. -/
theorem fetch_after (m : Machine) : m.fetch.after = { m with activity := m.fetchedActivity } := by
  rw [fetch, fetchedActivity]
  cases m.memory.decode m.pc m.base <;> rfl

theorem Operation.perform_fetch (fuel : Nat) (m : Machine) :
    ∃ out, Operation.fetch.perform fuel m = some out ∧
      out.after = { m with activity := m.fetchedActivity } :=
  ⟨_, rfl, m.fetch_after⟩

/-- An operation that executes nothing and writes nothing can move the input and
the position in the output. -/
theorem Operation.perform_of_still (fuel : Nat) (m : Machine) (h : op.isStill = true) :
    ∃ out input output, op.perform fuel m = some out ∧ output.sent = m.output.sent ∧
      out.after = { m with input, output } := by
  cases op with
  | ask _ | fetch | write _ _ => cases h
  | feed _ | replaceInput _ | window _ _ | listing _ | copy =>
    exact ⟨_, _, m.output, rfl, rfl, rfl⟩
  | collectOutput => exact ⟨_, m.input, m.output.drain.2, rfl, rfl, rfl⟩

theorem Operation.perform_of_write (fuel : Nat) (m : Machine) (h : op.isWrite = true) :
    ∃ out memory, op.perform fuel m = some out ∧ out.after = { m with memory } := by
  cases op with
  | write a v =>
    rw [Operation.perform]
    cases m.memory.write a v with
    | error e => exact ⟨_, _, rfl, rfl⟩
    | ok memory => exact ⟨_, memory, rfl, rfl⟩
  | _ => cases h

/-- **The kinds of operations.** -/
theorem Operation.kinds (op : Operation) :
    (∃ r, op = .ask r) ∨ op = .fetch ∨ op.isWrite = true ∨ op.isStill = true := by
  cases op <;> simp [isWrite, isStill]

/-- A request among the operations is answered as it is by itself. -/
theorem Operation.perform_ask {r : Request} {ran : Outcome Machine MachineError Response}
    (h : r.perform fuel m = some ran) :
    (Operation.ask r).perform fuel m =
      some { result := (ran.result.map .response).mapError .machine, after := ran.after,
             events := ran.events } := by
  rw [Operation.perform, h]
  rfl

/-- What an operation that is no request does to the input. -/
def Operation.onInput : Operation → Channel → Channel
  | .feed vs, c => c.sendAll vs
  | .replaceInput vs, c => c.resend vs
  | _, c => c

/-- What an operation that is no request does to the output. -/
def Operation.onOutput : Operation → Channel → Channel
  | .collectOutput, c => c.drain.2
  | _, c => c

/-- **Only a request executes anything**; any other operation does to the two channels
what it is there for. -/
theorem Operation.perform_of_ne_ask (hop : ∀ r, op ≠ .ask r)
    (h : op.perform fuel m = some out) :
    instructionsOf out.events = [] ∧ out.after.input = op.onInput m.input ∧
      out.after.output = op.onOutput m.output := by
  cases op with
  | ask r => exact absurd rfl (hop r)
  | fetch =>
    obtain rfl := Option.some.inj h
    cases m.memory.decode m.pc m.base <;> exact ⟨rfl, rfl, rfl⟩
  | write a v =>
    rw [Operation.perform] at h
    cases hmemory : m.memory.write a v with
    | error e | ok memory =>
      simp only [hmemory] at h
      obtain rfl := Option.some.inj h
      exact ⟨rfl, rfl, rfl⟩
  | collectOutput | feed _ | replaceInput _ | window _ _ | listing _ | copy =>
    obtain rfl := Option.some.inj h
    exact ⟨rfl, rfl, rfl⟩

/-! ## Operations one after the other -/

theorem handle_cons_eq_some_iff :
    handle fuel (op :: ops) m = some (log, last) ↔
      ∃ out rest, op.perform fuel m = some out ∧ handle fuel ops out.after = some (rest, last) ∧
        log = ⟨op, m, out⟩ :: rest := by
  rw [handle]
  constructor
  · intro h
    cases hout : op.perform fuel m with
    | none => simp [hout] at h
    | some out =>
      simp only [hout] at h
      obtain ⟨⟨rest, last'⟩, hrest, hlog⟩ := Option.map_eq_some_iff.1 h
      obtain ⟨rfl, rfl⟩ := Prod.mk.inj hlog
      exact ⟨out, rest, rfl, hrest, rfl⟩
  · rintro ⟨out, rest, hout, hrest, rfl⟩
    simp only [hout, hrest, Option.map_some]

/-- **Invariants of operations.** What each of the operations keeps holds all
along. -/
theorem handle_preserves {P : Machine → Prop}
    (hP : ∀ op ∈ ops, ∀ c out, P c → op.perform fuel c = some out → P out.after) (hm : P m)
    (h : handle fuel ops m = some (log, last)) :
    log.map (·.operation) = ops ∧ P last ∧
      ∀ x ∈ log, P x.before ∧ x.operation.perform fuel x.before = some x.outcome ∧
        P x.outcome.after := by
  induction ops generalizing m log with
  | nil =>
    obtain ⟨rfl, rfl⟩ : [] = log ∧ m = last := by simpa [handle] using h
    exact ⟨rfl, hm, by simp⟩
  | cons op ops ih =>
    obtain ⟨out, rest, hout, hrest, rfl⟩ := handle_cons_eq_some_iff.1 h
    have hafter : P out.after := hP op List.mem_cons_self m out hm hout
    obtain ⟨hoperations, hlast, hall⟩ :=
      ih (fun o ho => hP o (List.mem_cons_of_mem op ho)) hafter hrest
    refine ⟨by simp [hoperations], hlast, fun x hx => ?_⟩
    rcases List.mem_cons.1 hx with rfl | hx
    · exact ⟨hm, hout, hafter⟩
    · exact hall x hx

/-- **What a log amounts to**, by induction on the operations, from the last of them
back. -/
theorem handle_induction {P : Machine → List Handling → Prop} (hnil : P last [])
    (hcons : ∀ op c out log, op.perform fuel c = some out → P out.after log →
      P c (⟨op, c, out⟩ :: log))
    (h : handle fuel ops m = some (log, last)) : P m log := by
  induction ops generalizing m log with
  | nil =>
    obtain ⟨rfl, rfl⟩ : [] = log ∧ m = last := by simpa [handle] using h
    exact hnil
  | cons op ops ih =>
    obtain ⟨out, rest, hout, hrest, rfl⟩ := handle_cons_eq_some_iff.1 h
    exact hcons op m out rest hout (ih hrest)

/-- **Operations come to an end** where an invariant makes each of them do so. -/
theorem handle_ends {P : Machine → Prop}
    (hP : ∀ op ∈ ops, ∀ c, P c → ∃ out, op.perform fuel c = some out ∧ P out.after) (hm : P m) :
    ∃ log last, handle fuel ops m = some (log, last) ∧ log.map (·.operation) = ops ∧ P last ∧
      ∀ x ∈ log, P x.before ∧ x.operation.perform fuel x.before = some x.outcome ∧
        P x.outcome.after := by
  have hends : ∃ log last, handle fuel ops m = some (log, last) := by
    induction ops generalizing m with
    | nil => exact ⟨[], m, rfl⟩
    | cons op ops ih =>
      obtain ⟨out, hout, hafter⟩ := hP op List.mem_cons_self m hm
      obtain ⟨log, last, hrest⟩ := ih (fun o ho => hP o (List.mem_cons_of_mem op ho)) hafter
      exact ⟨_, last, handle_cons_eq_some_iff.2 ⟨out, log, hout, hrest, rfl⟩⟩
  obtain ⟨log, last, hlog⟩ := hends
  refine ⟨log, last, hlog, handle_preserves (fun op hop c out hc hout => ?_) hm hlog⟩
  obtain ⟨out', hout', hafter⟩ := hP op hop c hc
  obtain rfl : out' = out := by simpa [hout'] using hout
  exact hafter

/-! ## Invariants -/

section Invariants

variable {P : Machine → Prop}
variable (hresume : ∀ m, m.Active → P m → P { m with activity := .running })
variable (hadvance : ∀ m, m.Active → P m → P m.advance.after)
include hadvance

theorem runOn_preserves {mode : RunMode} {limit : StepLimit} {steps : Nat} {events : Array Event}
    {ran : Outcome Machine MachineError RunEnd} (hm : m.activity = .running) (hP : P m)
    (h : runOn mode limit fuel steps events m = some ran) : P ran.after := by
  induction fuel generalizing steps events m with
  | zero => cases h
  | succ fuel ih =>
    have hnext : P m.advance.after := hadvance m (active_of_running hm) hP
    rcases runOn_cases h with ⟨-, rfl⟩ | ⟨-, ⟨e, -, rfl⟩ | ⟨-, rfl⟩ | ⟨i, stop, -, -, rfl⟩ |
      ⟨i, hadv, hstop, hrest⟩⟩
    · exact hP
    · exact hnext
    · exact hnext
    · exact hnext
    · exact ih (running_of_stopAfter?_eq_none hadv hstop) hnext hrest

include hresume

theorem run_preserves {mode : RunMode} {limit : StepLimit}
    {ran : Outcome Machine MachineError RunEnd} (hP : P m) (h : m.run fuel mode limit = some ran) :
    P ran.after := by
  by_cases hm : m.Active
  · rw [run_of_active hm] at h
    exact runOn_preserves hadvance rfl (hresume m hm hP) h
  · obtain ⟨ran', hran', hafter, -⟩ : ∃ out, m.run fuel mode limit = some out ∧ out.after = m ∧
        instructionsOf out.events = [] := run_of_not_active hm
    rw [hran'] at h
    obtain rfl := Option.some.inj h
    rwa [hafter]

theorem runOutputsOn_preserves {limit : StepLimit} {count : Nat} {values : Array Int}
    {events : Array Event} {ran : Outcome Machine MachineError (List Int)} (hP : P m)
    (h : runOutputsOn fuel limit count values events m = some ran) : P ran.after := by
  induction count generalizing values events m with
  | zero =>
    obtain rfl := by simpa [runOutputsOn] using h
    exact hP
  | succ count ih =>
    rw [runOutputsOn] at h
    cases hfirst : m.run fuel .toOutput limit with
    | none => simp [hfirst] at h
    | some first =>
      have hnext : P first.after := run_preserves hresume hadvance hP hfirst
      simp only [hfirst] at h
      split at h
      · obtain rfl := Option.some.inj h
        exact hnext
      · exact ih hnext h
      · obtain rfl := Option.some.inj h
        exact hnext

/-- **What instructions keep, requests keep.** An invariant that does not mind an
active machine being set running, and that `advance` keeps, is kept by every
request. -/
theorem perform_preserves {r : Request} {ran : Outcome Machine MachineError Response} (hP : P m)
    (h : r.perform fuel m = some ran) : P ran.after := by
  cases r with
  | step =>
    obtain rfl := Option.some.inj h
    by_cases hm : m.Active
    · rw [step_after_of_active hm]
      exact hadvance m hm hP
    · rwa [step_after_of_not_active hm]
  | run mode limit =>
    obtain ⟨first, hfirst, rfl⟩ := Option.map_eq_some_iff.1 h
    exact run_preserves hresume hadvance hP hfirst
  | outputs count limit =>
    obtain ⟨first, hfirst, rfl⟩ := Option.map_eq_some_iff.1 h
    exact runOutputsOn_preserves hresume hadvance hP hfirst

end Invariants

end IntMachine.Machine
