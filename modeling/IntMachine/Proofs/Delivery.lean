import IntMachine.Proofs.Endings
import IntMachine.Proofs.History
import IntMachine.Proofs.Operations
/-!
# Output is delivered once

Output is handed over in three ways: a run to an output reports one value, a request
for several gives a list, and a collection gives all that is pending. They can be mixed
in any order, with anything else between them. What an operation sends and what it
collects is said once (`Handling.Done.output_cases`), so that over a whole session the
lists collected make up the received part of the log. A request for outputs is a sequence of
runs to an output (`Collects`), and stops early only for the reasons `CutShort` lists.
-/

namespace IntMachine.Machine

variable {fuel count : Nat} {limit : StepLimit} {m c last : Machine} {vs : List Int}
variable {ops : List Operation} {log : List Handling} {x : Handling}

/-! ## What an operation sends and collects -/

/-- The values that the output instructions executed during an operation have sent. -/
def Handling.emitted (x : Handling) : List Int :=
  (instructionsOf x.outcome.events).filterMap Instruction.output?

/-- The values that an operation has collected. -/
def Handling.collected (x : Handling) : List Int :=
  match x.operation, x.outcome.result with
  | .collectOutput, .ok (.values vs) => vs
  | _, _ => []

/-- The operation is one that was done. -/
def Handling.Done (fuel : Nat) (x : Handling) : Prop :=
  x.operation.perform fuel x.before = some x.outcome

/-- The outcome of an operation is that of the request in it. -/
structure Relays (ran : Outcome Machine MachineError Response)
    (out : Outcome Machine OperationError Answer) : Prop where
  after : out.after = ran.after
  events : out.events = ran.events
  ok_iff : ∀ r, out.result = .ok (.response r) ↔ ran.result = .ok r
  error : ∀ e, out.result = .error e → ∃ e', ran.result = .error e'

/-- A request is answered as it is by itself. -/
theorem Handling.Done.exists_perform {r : Request} (hx : x.Done fuel)
    (hop : x.operation = .ask r) :
    ∃ ran, r.perform fuel x.before = some ran ∧ Relays ran x.outcome := by
  rw [Done, hop, Operation.perform] at hx
  obtain ⟨⟨result, after, events⟩, hran, hout⟩ := Option.map_eq_some_iff.1 hx
  refine ⟨_, hran, ?_⟩
  rw [← hout]
  cases result with
  | error e => exact ⟨rfl, rfl, fun r => by simp [Except.map, Except.mapError], fun _ _ => ⟨e, rfl⟩⟩
  | ok response =>
    exact ⟨rfl, rfl, fun r => by simp [Except.map, Except.mapError],
      fun e he => by simp [Except.map, Except.mapError] at he⟩

/-- A request executes what steps would execute. -/
theorem Handling.Done.follows {r : Request} (hx : x.Done fuel) (hop : x.operation = .ask r) :
    x.before.Follows (instructionsOf x.outcome.events) x.outcome.after := by
  obtain ⟨ran, hran, hrelays⟩ := hx.exists_perform hop
  rw [hrelays.after, hrelays.events]
  exact (perform_follows hran).1

/-- **What an operation does to the output.** A collection collects what is pending; any
other operation collects nothing and sends what its instructions send. -/
theorem Handling.Done.output_cases (hx : x.Done fuel) :
    (x.emitted = [] ∧ x.collected = x.before.output.pending ∧
      x.outcome.after.output = x.before.output.drain.2) ∨
    (x.collected = [] ∧ x.outcome.after.output = x.before.output.sendAll x.emitted) := by
  obtain ⟨op, before, out⟩ := x
  have hout : op.perform fuel before = some out := hx
  cases op with
  | ask r => exact .inr ⟨rfl, (hx.follows rfl).output⟩
  | collectOutput =>
    obtain rfl := Option.some.inj hout
    exact .inl ⟨rfl, rfl, rfl⟩
  | fetch | write _ _ | feed _ | replaceInput _ | window _ _ | listing _ | copy =>
    obtain ⟨hsilent, -, hafter⟩ := Operation.perform_of_ne_ask (by simp) hout
    refine .inr ⟨rfl, ?_⟩
    rw [emitted, hsilent, List.filterMap_nil, Channel.sendAll_nil]
    exact hafter

/-- **The log only grows at its end**, by what is sent. -/
theorem Handling.Done.sent_eq (hx : x.Done fuel) :
    x.outcome.after.output.sent.toList = x.before.output.sent.toList ++ x.emitted := by
  rcases hx.output_cases with ⟨hnone, -, hafter⟩ | ⟨-, hafter⟩
  · rw [hafter, hnone, List.append_nil]
    rfl
  · rw [hafter, Channel.sent_sendAll, Array.toList_append]

/-- **The received part of the log grows by what is collected.** -/
theorem Handling.Done.received_eq (hx : x.Done fuel) :
    x.outcome.after.output.received = x.before.output.received ++ x.collected := by
  rcases hx.output_cases with ⟨-, hall, hafter⟩ | ⟨hnone, hafter⟩
  · rw [hafter, hall, Channel.received_drain, Channel.received_append_pending]
  · rw [hafter, hnone, Channel.received_sendAll, List.append_nil]

/-- What is known to have been sent is what the instructions have sent. -/
theorem Handling.Done.emitted_eq (hx : x.Done fuel)
    (h : x.outcome.after.output = x.before.output.sendAll vs) : x.emitted = vs := by
  have hsent := hx.sent_eq
  rw [h, Channel.sent_sendAll, Array.toList_append] at hsent
  exact (List.append_cancel_left hsent).symm

/-! ## Runs to an output -/

/-- Runs to an output, made one after the other, end each in the next of these
values. -/
inductive Collects (fuel : Nat) (limit : StepLimit) : Machine → List Int → Machine → Prop
  | nil (m : Machine) : Collects fuel limit m [] m
  | cons {m c : Machine} {v : Int} {n : Nat} {vs : List Int}
      {ran : Outcome Machine MachineError RunEnd} :
      m.run fuel .toOutput limit = some ran → ran.result = .ok ⟨.output v, n⟩ →
      Collects fuel limit ran.after vs c → Collects fuel limit m (v :: vs) c

theorem Collects.output (h : Collects fuel limit m vs c) : c.output = m.output.sendAll vs := by
  induction h with
  | nil m => exact m.output.sendAll_nil.symm
  | cons hran hresult _ ih =>
    have hsent := run_toOutput_sends hran
    rw [hresult] at hsent
    rw [ih, hsent, Channel.sendAll_cons]
    rfl

/-- **Why a run to an output ends without one**: it has come to a halt, had come to it
before, lacks input, or has executed all that it may. -/
inductive CutShort (limit : StepLimit) (m : Machine) (ran : Outcome Machine MachineError RunEnd) :
    Prop
  | halted {n : Nat} : ran.result = .ok ⟨.halted, n⟩ → ran.after.isHalted = true →
      CutShort limit m ran
  | alreadyHalted : ran.result = .ok ⟨.alreadyHalted, 0⟩ → m.isHalted = true → ran.after = m →
      CutShort limit m ran
  | starved {n : Nat} : ran.result = .ok ⟨.awaitingInput, n⟩ → ran.after.Starved →
      CutShort limit m ran
  | limited {n : Nat} : ran.result = .ok ⟨.stepLimit, n⟩ → limit.reached n = true →
      ran.after.activity = .running → CutShort limit m ran

/-- A run to an output that is not refused ends in a value or is cut short. -/
theorem run_toOutput_ends {ran : Outcome Machine MachineError RunEnd} {stop : RunEnd}
    (h : m.run fuel .toOutput limit = some ran) (hresult : ran.result = .ok stop) :
    (∃ v, stop.stop = .output v) ∨ CutShort limit m ran := by
  cases hm : m.activity with
  | running | awaitingInput =>
    cases run_ended (by simp [Active, hm]) h with
    | cut hr hreached hrunning => exact .inr (.limited hr hreached hrunning)
    | refused hr => cases hr.symm.trans hresult
    | exhausted hmode => cases hmode
    | suspended _ hr hstarved => exact .inr (.starved hr hstarved)
    | halted hr hhalted => exact .inr (.halted hr (by simp [isHalted, hhalted]))
    | @output v n _ hr _ =>
      obtain rfl := Except.ok.inj (hr.symm.trans hresult)
      exact .inl ⟨v, rfl⟩
  | halted =>
    rw [run, hm] at h
    obtain rfl := Option.some.inj h
    exact .inr (.alreadyHalted rfl (by simp [isHalted, hm]) rfl)
  | failed cause =>
    rw [run, hm] at h
    obtain rfl := Option.some.inj h
    cases hresult

/-- A run that is cut short has sent nothing to report. -/
theorem CutShort.reported?_eq_none {ran : Outcome Machine MachineError RunEnd}
    (h : CutShort limit m ran) : reported? ran.result = none := by
  cases h with
  | halted hr | alreadyHalted hr | starved hr | limited hr => rw [hr]; rfl

/-- **A request for outputs is a sequence of runs to an output**, one for each value, and
one more that is cut short where there are fewer values than asked for. -/
theorem runOutputsOn_collects {values : Array Int} {events : Array Event}
    {out : Outcome Machine MachineError (List Int)}
    (h : runOutputsOn fuel limit count values events m = some out) (hresult : out.result = .ok vs) :
    ∃ more c, vs = values.toList ++ more ∧ more.length ≤ count ∧ Collects fuel limit m more c ∧
      (more.length = count ∧ out.after = c ∨
        ∃ ran, c.run fuel .toOutput limit = some ran ∧ CutShort limit c ran ∧
          out.after = ran.after) := by
  induction count generalizing values events m with
  | zero =>
    obtain rfl := by simpa [runOutputsOn] using h
    obtain rfl := Except.ok.inj hresult
    exact ⟨[], m, by simp, Nat.le_refl _, .nil m, .inl ⟨rfl, rfl⟩⟩
  | succ count ih =>
    rw [runOutputsOn] at h
    cases hran : m.run fuel .toOutput limit with
    | none => simp [hran] at h
    | some ran =>
      simp only [hran] at h
      split at h
      · obtain rfl := Option.some.inj h
        cases hresult
      · rename_i v n hstop
        obtain ⟨more, c, hvs, hlength, hcollects, hend⟩ := ih h
        refine ⟨v :: more, c, by simp [hvs], by simpa using hlength, .cons hran hstop hcollects, ?_⟩
        simpa using hend
      · rename_i stop hnone hstop
        obtain rfl := Option.some.inj h
        obtain rfl := Except.ok.inj hresult
        -- the run is not refused and ends in no value, so it is the one cut short
        refine ⟨[], m, by simp, Nat.zero_le _, .nil m, .inr ⟨ran, hran, ?_, rfl⟩⟩
        refine (run_toOutput_ends hran hstop).resolve_left ?_
        rintro ⟨v, hv⟩
        exact hnone v stop.steps (by rw [← hv])

/-! ## Requests for output -/

/-- A run to an output among the operations. -/
theorem Handling.Done.emitted_of_run (hx : x.Done fuel)
    (hop : x.operation = .ask (.run .toOutput limit)) :
    (∀ v n, x.outcome.result = .ok (.response (.ran ⟨.output v, n⟩)) → x.emitted = [v]) ∧
      ((∀ v n, x.outcome.result ≠ .ok (.response (.ran ⟨.output v, n⟩))) → x.emitted = []) := by
  obtain ⟨out, hout, hrelays⟩ := hx.exists_perform hop
  obtain ⟨ran, hran, rfl⟩ := Option.map_eq_some_iff.1 hout
  have hsent : x.emitted = (reported? ran.result).toList :=
    hx.emitted_eq (by rw [hrelays.after]; exact run_toOutput_sends hran)
  simp only [hrelays.ok_iff, hsent, ne_eq]
  cases ran.result with
  | error e => simp [reported?, Except.map]
  | ok stop =>
    obtain ⟨stop, n⟩ := stop
    cases stop <;> simp [reported?, Stop.value?, Except.map]

/-- A request for outputs among the operations. -/
theorem Handling.Done.emitted_of_outputs {count : Int} (hx : x.Done fuel)
    (hop : x.operation = .ask (.outputs count limit))
    (hresult : x.outcome.result = .ok (.response (.values vs))) :
    x.emitted = vs ∧ (vs.length : Int) ≤ max count 0 ∧
      ((vs.length : Int) < count → ∃ c ran, Collects fuel limit x.before vs c ∧
        c.run fuel .toOutput limit = some ran ∧ CutShort limit c ran ∧
          x.outcome.after = ran.after) := by
  obtain ⟨out, hout, hrelays⟩ := hx.exists_perform hop
  obtain ⟨ran, hran, rfl⟩ := Option.map_eq_some_iff.1 hout
  have hvalues : ran.result = .ok vs := by
    have hrelayed := (hrelays.ok_iff _).1 hresult
    cases hr : ran.result with
    | error e => simp [hr, Except.map] at hrelayed
    | ok ws => simpa [hr, Except.map] using hrelayed
  have hafter : x.outcome.after = ran.after := hrelays.after
  obtain ⟨more, c, hmore, hlength, hcollects, hend⟩ := runOutputsOn_collects hran hvalues
  obtain rfl : vs = more := by simpa using hmore
  have hsent : x.outcome.after.output = x.before.output.sendAll vs := by
    rw [hafter, ← hcollects.output]
    rcases hend with ⟨-, hc⟩ | ⟨last, hlast, hcut, hc⟩
    · rw [hc]
    · rw [hc, run_toOutput_sends hlast, hcut.reported?_eq_none]
      exact c.output.sendAll_nil
  refine ⟨hx.emitted_eq hsent, by omega, fun hshort => ?_⟩
  rcases hend with ⟨hfull, -⟩ | ⟨last, hlast, hcut, hc⟩
  · omega
  · exact ⟨c, last, hcollects, hlast, hcut, hafter.trans hc⟩

/-! ## Sessions -/

theorem done_of_handle (h : handle fuel ops m = some (log, last)) : ∀ x ∈ log, x.Done fuel :=
  fun x hx =>
    ((handle_preserves (P := fun _ => True) (fun _ _ _ _ _ _ => trivial) trivial h).2.2 x hx).2.1

/-- **The lists collected make up the received part of the log.** -/
theorem received_of_handle (h : handle fuel ops m = some (log, last)) :
    last.output.received = m.output.received ++ log.flatMap Handling.collected := by
  refine handle_induction (P := fun c log =>
    last.output.received = c.output.received ++ log.flatMap Handling.collected) (by simp)
    (fun op c out log hout ih => ?_) h
  rw [ih, Handling.Done.received_eq (x := ⟨op, c, out⟩) hout, List.append_assoc, List.flatMap_cons]

/-- **The log is what was sent**, one operation after the other. -/
theorem sent_of_handle (h : handle fuel ops m = some (log, last)) :
    last.output.sent.toList = m.output.sent.toList ++ log.flatMap Handling.emitted := by
  refine handle_induction (P := fun c log =>
    last.output.sent.toList = c.output.sent.toList ++ log.flatMap Handling.emitted) (by simp)
    (fun op c out log hout ih => ?_) h
  rw [ih, Handling.Done.sent_eq (x := ⟨op, c, out⟩) hout, List.append_assoc, List.flatMap_cons]

/-- **Output is delivered once, and in order.** Whatever is done with a machine, in any
order and also after refusals, its output log only grows at its end, by what its output
instructions send, and all that was collected, put together, is the log up to the
position in it. A run to an output that reports a value has sent this value and no
other, and one that reports none has sent none. A request for several outputs that is
not refused gives all that was sent meanwhile, never more than asked for; it gives fewer
only where a last run to an output was cut short. -/
theorem output_delivered_once {program : Program} {inputs : List Int}
    (h : handle fuel ops (load program inputs) = some (log, last)) :
    last.output.position ≤ last.output.sent.size ∧
    log.flatMap Handling.collected = last.output.sent.toList.take last.output.position ∧
    log.flatMap Handling.emitted = last.output.sent.toList ∧
    ∀ x ∈ log,
      x.outcome.after.output.sent.toList = x.before.output.sent.toList ++ x.emitted ∧
      (∀ limit, x.operation = .ask (.run .toOutput limit) →
        (∀ v n, x.outcome.result = .ok (.response (.ran ⟨.output v, n⟩)) → x.emitted = [v]) ∧
        ((∀ v n, x.outcome.result ≠ .ok (.response (.ran ⟨.output v, n⟩))) → x.emitted = [])) ∧
      ∀ count limit vs, x.operation = .ask (.outputs count limit) →
        x.outcome.result = .ok (.response (.values vs)) →
        x.emitted = vs ∧ (vs.length : Int) ≤ max count 0 ∧
          ((vs.length : Int) < count → ∃ c ran, Collects fuel limit x.before vs c ∧
            c.run fuel .toOutput limit = some ran ∧ CutShort limit c ran ∧
              x.outcome.after = ran.after) := by
  have hreceived := received_of_handle h
  have hsent := sent_of_handle h
  refine ⟨last.output.position_le, hreceived.symm, hsent.symm, fun x hx => ?_⟩
  have hdone := done_of_handle h x hx
  exact ⟨hdone.sent_eq, fun limit hop => hdone.emitted_of_run hop,
    fun count limit vs hop hresult => hdone.emitted_of_outputs hop hresult⟩

/-- A machine is run to its first output, which is collected, and then asked for three
more, of which it lacks the input for the second. It outputs the last only on its way to
the halt, when nobody collects any more. -/
theorem a_session_that_leaves_an_output :
    ∃ log last,
      handle 9 [.ask (.run .toOutput none), .collectOutput, .ask (.outputs 3 none), .ask .step,
        .collectOutput, .feed [1], .ask (.run .toOutput (some 1)), .ask (.run .toHalt none)]
        (load [104, 5, 104, 6, 3, 0, 104, 7, 99]) = some (log, last) ∧
      last.output.sent = #[5, 6, 7] ∧ last.output.position = 2 ∧
      log.flatMap Handling.collected = [5, 6] ∧
      ∃ x ∈ log, x.operation = .ask (.outputs 3 none) ∧ x.emitted = [6] ∧
        ∃ c ran, Collects 9 none x.before [6] c ∧ c.run 9 .toOutput none = some ran ∧
          CutShort none c ran := by
  have hseen : (handle 9 [.ask (.run .toOutput none), .collectOutput, .ask (.outputs 3 none),
        .ask .step, .collectOutput, .feed [1], .ask (.run .toOutput (some 1)),
        .ask (.run .toHalt none)] (load [104, 5, 104, 6, 3, 0, 104, 7, 99])).map
      (fun done => (done.1[2]?.map fun x => (x.operation, x.outcome.result),
        done.2.output.sent, done.2.output.position)) =
        some (some (.ask (.outputs 3 none), .ok (.response (.values [6]))), #[5, 6, 7], 2) := by
    decide +kernel
  obtain ⟨⟨log, last⟩, hlog, hlast⟩ := Option.map_eq_some_iff.1 hseen
  simp only [Prod.mk.injEq] at hlast
  obtain ⟨hasked, hsent, hposition⟩ := hlast
  obtain ⟨-, hcollected, -, hall⟩ := output_delivered_once hlog
  obtain ⟨x, hx, hvalues⟩ := Option.map_eq_some_iff.1 hasked
  obtain ⟨hop, hresult⟩ := Prod.mk.inj hvalues
  have hmem := List.mem_of_getElem? hx
  obtain ⟨-, -, houtputs⟩ := hall x hmem
  obtain ⟨hemitted, -, hshort⟩ := houtputs 3 none [6] hop hresult
  obtain ⟨c, ran, hcollects, hran, hcut, -⟩ := hshort (by decide)
  refine ⟨log, last, hlog, hsent, hposition, ?_, x, hmem, hop, hemitted, c, ran, hcollects, hran,
    hcut⟩
  rw [hcollected, hsent, hposition]
  rfl

end IntMachine.Machine
