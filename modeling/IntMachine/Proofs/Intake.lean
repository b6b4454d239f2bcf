import IntMachine.Proofs.Delivery
/-!
# Input is taken once

What the input instructions of an operation have put into memory is read off the
machine as it was before the operation (`takenAlong`). It is the front of what was
pending (`Trail.pending`), and what is left over is pending after the operation. Over a
whole session, in which input is added and replaced in any order, a ledger is kept of
what the machine was given and of how much of it was consumed (`Ledger.record`).
-/

namespace IntMachine.Machine

variable {fuel n k : Nat} {limit : StepLimit} {m c last : Machine} {i : Instruction}
variable {is : List Instruction} {ops : List Operation} {log : List Handling} {x : Handling}

/-! ## What is taken on the way -/

/-- The input instructions among those executed. -/
def inputsOf (is : List Instruction) : List Instruction :=
  is.filter fun i => i.opcode = .input

theorem inputsOf_cons (i : Instruction) (is : List Instruction) :
    inputsOf (i :: is) = inputsOf [i] ++ inputsOf is := by
  simp only [inputsOf, ← List.filter_append, List.singleton_append]

/-- What the input instructions put into memory while a number of instructions are
executed, in order. -/
def takenAlong : Nat → Machine → List Int
  | 0, _ => []
  | n + 1, m => takenBy m.advance ++ takenAlong n m.advance.after

/-- **An input instruction takes a value**: the first that is pending, which it puts at
its target, and nowhere else. -/
structure Takes (m : Machine) (i : Instruction) (v : Int) : Prop where
  pending : m.input.pending = v :: m.step.after.input.pending
  stored : ∃ a : Nat, i.operands = [(a : Int)] ∧ m.step.after.memory.cell a = v ∧
    ∀ b ≠ a, m.step.after.memory.cell b = m.memory.cell b

theorem exists_takes (hstep : m.step.result = .ok i) (hop : i.opcode = .input) :
    ∃ v, takenBy m.advance = [v] ∧ m.Takes i v := by
  obtain ⟨hactive, hadv⟩ := step_eq_ok_iff.1 hstep
  obtain ⟨next, m', -, -, heff, heq⟩ := effect_of_executed hadv
  cases heff with
  | @input v rest a _ ho hv =>
    refine ⟨v, by simp [takenBy, hop, ho, heq], ?_, a, ho, ?_, fun b hb => ?_⟩
    · rw [step_after_of_active hactive, heq]
      exact Channel.pending_of_receive? hv
    · rw [step_after_of_active hactive, heq]
      simp
    · rw [step_after_of_active hactive, heq]
      simp [hb]
  -- no other effect is that of an input instruction
  | store hf _ => exact absurd hop (Opcode.ne_of_result? hf).1
  | jump hf _ => exact absurd hop (Opcode.ne_of_jumpsOn? hf).1
  | output hop' _ | adjust hop' _ | halt hop' _ => simp [hop] at hop'

theorem length_takenBy (hstep : m.step.result = .ok i) :
    (takenBy m.advance).length = (inputsOf [i]).length := by
  by_cases hop : i.opcode = .input
  · obtain ⟨v, hv, -⟩ := exists_takes hstep hop
    simp [hv, inputsOf, hop]
  · simp [takenBy_of_not_input (step_eq_ok_iff.1 hstep).2 hop, inputsOf, hop]

/-- **A trail takes the front of what was pending**, one value for each input
instruction. -/
theorem Trail.pending (h : Trail m is c) :
    m.input.pending = takenAlong is.length m ++ c.input.pending ∧
      (takenAlong is.length m).length = (inputsOf is).length := by
  induction h with
  | nil m => exact ⟨rfl, rfl⟩
  | @cons m c i is hstep _ ih =>
    obtain ⟨hpending, hlength⟩ := ih
    rw [step_after_of_active (step_eq_ok_iff.1 hstep).1] at hpending hlength
    refine ⟨?_, ?_⟩
    · rw [pending_advance, hpending, List.length_cons, takenAlong, List.append_assoc]
    · rw [List.length_cons, takenAlong, List.length_append, length_takenBy hstep, hlength,
        inputsOf_cons i is, List.length_append]

theorem Follows.pending (h : m.Follows is c) :
    m.input.pending = takenAlong is.length m ++ c.input.pending ∧
      (takenAlong is.length m).length = (inputsOf is).length := by
  obtain ⟨m', htrail, -, hc⟩ := h
  rw [hc]
  exact htrail.pending

/-- Each instruction of a trail was executed by the machine that the instructions before
it have left. -/
theorem Trail.exists_step (h : Trail m is c) (hi : is[k]? = some i) :
    ∃ d, m.stepTimes k = some d ∧ d.step.result = .ok i ∧
      takenAlong (k + 1) m = takenAlong k m ++ takenBy d.advance := by
  induction h generalizing k with
  | nil => cases hi
  | @cons m c j is hstep _ ih =>
    cases k with
    | zero =>
      obtain rfl : j = i := by simpa using hi
      exact ⟨m, rfl, hstep, by simp [takenAlong]⟩
    | succ k =>
      obtain ⟨d, hd, hresult, htaken⟩ := ih (by simpa using hi)
      rw [step_after_of_active (step_eq_ok_iff.1 hstep).1] at htaken
      refine ⟨d, by rwa [Machine.stepTimes, hstep], hresult, ?_⟩
      rw [takenAlong, htaken, takenAlong, List.append_assoc]

/-! ## Where a request stops -/

/-- A machine at an instruction that cannot be executed refuses a step, whatever it is
doing. -/
theorem exists_step_error (h : m.Active → ∀ i, m.advance.result ≠ .ok (some i)) :
    ∃ e, m.step.result = .error e := by
  cases hstep : m.step.result with
  | error e => exact ⟨e, rfl⟩
  | ok i =>
    obtain ⟨hactive, hadv⟩ := step_eq_ok_iff.1 hstep
    exact absurd hadv (h hactive i)

theorem runOn_stuck {mode : RunMode} {steps : Nat} {events : Array Event}
    {out : Outcome Machine MachineError RunEnd}
    (h : runOn mode limit fuel steps events m = some out)
    (hstuck : ∀ stop, out.result = .ok stop → stop.stop = .awaitingInput) :
    ∀ i, out.after.advance.result ≠ .ok (some i) := by
  induction fuel generalizing steps events m with
  | zero => cases h
  | succ fuel ih =>
    rcases runOn_cases h with ⟨-, rfl⟩ | ⟨-, ⟨e, hadv, rfl⟩ | ⟨hadv, rfl⟩ |
      ⟨i, stop, hadv, hstop, rfl⟩ | ⟨i, hadv, hstop, hrest⟩⟩
    · cases hstuck _ rfl
    · -- what could not be decoded cannot be decoded at the next look either
      obtain ⟨a, -, hafter, -⟩ := advance_of_not_executed (m := m) (by simp [hadv])
      simp only [hafter, advance_with_activity, hadv]
      simp
    · simp only [(starved_of_advance hadv).stuck]
      simp
    · obtain rfl : stop = .awaitingInput := hstuck _ rfl
      simpa using stopAfter?_cases hstop
    · exact ih hrest

/-- **A run stops in front of what it cannot execute**: where it is refused or
suspended, the instruction it has come to has not been executed. -/
theorem run_stuck {mode : RunMode} {out : Outcome Machine MachineError RunEnd} (hm : m.Active)
    (h : m.run fuel mode limit = some out)
    (hstuck : ∀ stop, out.result = .ok stop → stop.stop = .awaitingInput) :
    ∀ i, out.after.advance.result ≠ .ok (some i) := by
  rw [run_of_active hm] at h
  exact runOn_stuck h hstuck

/-- A request for outputs that is refused has come to an instruction that cannot be
executed. -/
theorem runOutputsOn_stuck {count : Nat} {values : Array Int} {events : Array Event}
    {e : MachineError} {out : Outcome Machine MachineError (List Int)} (hm : m.Active)
    (h : runOutputsOn fuel limit count values events m = some out)
    (hresult : out.result = .error e) :
    ∀ i, out.after.advance.result ≠ .ok (some i) := by
  induction count generalizing values events m with
  | zero =>
    obtain rfl := by simpa [runOutputsOn] using h
    cases hresult
  | succ count ih =>
    rw [runOutputsOn] at h
    cases hran : m.run fuel .toOutput limit with
    | none => simp [hran] at h
    | some ran =>
      simp only [hran] at h
      split at h
      · rename_i e' hrefused
        obtain rfl := Option.some.inj h
        exact run_stuck hm hran (by simp [hrefused])
      · rename_i v n hstop
        refine ih ?_ h
        cases run_ended hm hran with
        | output _ _ hrunning => exact active_of_running hrunning
        | cut hr | refused hr | exhausted _ hr | suspended _ hr | halted hr =>
          simp [hr] at hstop
      · obtain rfl := Option.some.inj h
        cases hresult

/-- **A request that is refused or suspended stops in front of what it cannot
execute.** -/
theorem perform_stuck {r : Request} {out : Outcome Machine MachineError Response} (hm : m.Active)
    (h : r.perform fuel m = some out)
    (hstuck : (∃ e, out.result = .error e) ∨ ∃ n, out.result = .ok (.ran ⟨.awaitingInput, n⟩)) :
    ∀ i, out.after.advance.result ≠ .ok (some i) := by
  cases r with
  | step =>
    obtain rfl := Option.some.inj h
    have hidle : ∀ i, m.advance.result ≠ .ok (some i) := fun i hadv => by
      have hstep : m.step.result = .ok i := step_eq_ok_iff.2 ⟨hm, hadv⟩
      simp [hstep, Except.map] at hstuck
    obtain ⟨a, -, hafter, -⟩ := advance_of_not_executed hidle
    rw [step_after_of_active hm, hafter, advance_with_activity]
    exact hidle
  | run mode limit =>
    obtain ⟨ran, hran, rfl⟩ := Option.map_eq_some_iff.1 h
    refine run_stuck hm hran fun stop hstop => ?_
    rcases hstuck with ⟨e, he⟩ | ⟨n, hn⟩
    · simp [hstop, Except.map] at he
    · simp only [hstop, Except.map] at hn
      cases hn
      rfl
  | outputs count limit =>
    obtain ⟨ran, hran, rfl⟩ := Option.map_eq_some_iff.1 h
    cases hresult : ran.result with
    | error e => exact runOutputsOn_stuck hm hran hresult
    | ok vs => simp [hresult, Except.map] at hstuck

/-! ## Sessions -/

/-- What the input instructions executed during an operation have put into memory. -/
def Handling.taken (x : Handling) : List Int :=
  takenAlong (instructionsOf x.outcome.events).length x.before

/-- **An operation that is interrupted**: it is refused, or gives control back because
input is missing. -/
inductive Handling.Interrupted (x : Handling) : Prop
  | refused {e : OperationError} : x.outcome.result = .error e → Interrupted x
  | suspended {n : Nat} : x.outcome.result = .ok (.response (.ran ⟨.awaitingInput, n⟩)) →
      Interrupted x
  | short {count : Int} {limit : StepLimit} {vs : List Int} :
      x.operation = .ask (.outputs count limit) →
      x.outcome.result = .ok (.response (.values vs)) → (vs.length : Int) < count →
      x.outcome.after.activity = .awaitingInput → Interrupted x

theorem Handling.Done.stuck {r : Request} (hx : x.Done fuel) (hop : x.operation = .ask r)
    (hactive : x.before.Active) (h : x.Interrupted) :
    ∀ i, x.outcome.after.advance.result ≠ .ok (some i) := by
  obtain ⟨ran, hran, hrelays⟩ := hx.exists_perform hop
  cases h with
  | refused he =>
    rw [hrelays.after]
    exact perform_stuck hactive hran (.inl (hrelays.error _ he))
  | @suspended n hn =>
    rw [hrelays.after]
    exact perform_stuck hactive hran (.inr ⟨n, (hrelays.ok_iff _).1 hn⟩)
  | short hop' hvalues hlength hwaits =>
    obtain ⟨c, last, -, -, hcut, hlast⟩ := (hx.emitted_of_outputs hop' hvalues).2.2 hlength
    rw [hlast] at hwaits ⊢
    -- of the ways to be cut short only one leaves the machine waiting
    cases hcut with
    | halted _ hhalted => simp [isHalted, hwaits] at hhalted
    | alreadyHalted _ hhalted hsame => simp [← hsame, isHalted, hwaits] at hhalted
    | starved _ hstarved => simp [hstarved.stuck]
    | limited _ _ hrunning => simp [hwaits] at hrunning

/-- **An interrupted request has executed nothing of the instruction it stopped at**: the
instructions executed lead to a machine that refuses a step. -/
theorem Handling.Done.exists_step_error {r : Request} (hx : x.Done fuel)
    (hop : x.operation = .ask r) (h : x.Interrupted)
    (hsteps : x.before.stepTimes (instructionsOf x.outcome.events).length = some c)
    (hafter : x.outcome.after = { c with activity := x.outcome.after.activity }) :
    ∃ e, c.step.result = .error e := by
  refine Machine.exists_step_error fun hactive => ?_
  by_cases hbefore : x.before.Active
  · have hstuck := hx.stuck hop hbefore h
    rw [hafter, advance_with_activity] at hstuck
    exact hstuck
  · -- nothing was executed, so the machine is the one before, which is not active
    obtain ⟨is, -, htrail⟩ := trail_of_stepTimes hsteps
    rw [htrail.eq_of_not_active hbefore] at hactive
    exact absurd hactive hbefore

/-! ## The ledger -/

/-- What a machine was given since the start of a session, and how much of that has been
consumed. -/
structure Ledger where
  values : List Int
  consumed : Nat

/-- Enters an operation: what is fed goes behind everything, what replaces the input goes
behind what has been consumed, and each input instruction executed consumes one value. -/
def Ledger.record (l : Ledger) (x : Handling) : Ledger where
  values :=
    match x.operation with
    | .feed vs => l.values ++ vs
    | .replaceInput vs => l.values.take l.consumed ++ vs
    | _ => l.values
  consumed := l.consumed + (inputsOf (instructionsOf x.outcome.events)).length

/-- The ledger of a session that has started with some input. -/
def Ledger.ofLog (inputs : List Int) (log : List Handling) : Ledger :=
  log.foldl Ledger.record ⟨inputs, 0⟩

/-- The machine has taken these values of what the ledger says that it was given, and the
rest is pending. -/
structure Ledger.Agrees (l : Ledger) (taken : List Int) (m : Machine) : Prop where
  values_eq : l.values = taken ++ m.input.pending
  consumed_eq : l.consumed = taken.length

/-- **The ledger is right about each operation.** -/
theorem Ledger.Agrees.record {l : Ledger} {taken : List Int} (h : l.Agrees taken x.before)
    (hx : x.Done fuel) : (l.record x).Agrees (taken ++ x.taken) x.outcome.after := by
  obtain ⟨op, before, out⟩ := x
  have hout : op.perform fuel before = some out := hx
  obtain ⟨hvalues, hconsumed⟩ := h
  cases op with
  | ask r =>
    obtain ⟨hpending, hlength⟩ := (hx.follows rfl).pending
    refine ⟨?_, ?_⟩
    · rw [List.append_assoc, Handling.taken, ← hpending]
      exact hvalues
    · rw [List.length_append, Handling.taken, hlength, ← hconsumed]
      rfl
  | feed vs | replaceInput vs | fetch | write _ _ | collectOutput | window _ _ | listing _ | copy =>
    obtain ⟨hsilent, hinput, -⟩ := Operation.perform_of_ne_ask (by simp) hout
    refine ⟨?_, ?_⟩
    · simp [Ledger.record, Handling.taken, takenAlong, hsilent, hinput, hvalues, hconsumed,
        Operation.onInput]
    · simp [Ledger.record, Handling.taken, takenAlong, hsilent, hconsumed, inputsOf]

/-- **The ledger is right about a session.** -/
theorem Ledger.Agrees.foldl {l : Ledger} {taken : List Int} (hl : l.Agrees taken m)
    (h : handle fuel ops m = some (log, last)) :
    (log.foldl Ledger.record l).Agrees (taken ++ log.flatMap Handling.taken) last := by
  refine handle_induction (P := fun c log => ∀ l taken, Ledger.Agrees l taken c →
    (log.foldl Ledger.record l).Agrees (taken ++ log.flatMap Handling.taken) last)
    (fun l taken hl => by simpa using hl) (fun op c out log hout ih l taken hl => ?_) h l taken hl
  have hnext := ih _ _ (hl.record (x := ⟨op, c, out⟩) hout)
  rwa [List.append_assoc] at hnext

/-- **Input is taken once, first come first served.** Whatever is done with a machine, in
any order and also after refusals: what its input instructions have put into memory,
followed by what is pending, is what it was given, by the input at the start, by
feeding, and by replacing what had not been consumed. Every input instruction executed
takes the first pending value and puts it at its target. A request leaves the machine
where the instructions it executed lead, so nothing is taken for another one; an
interrupted request has come to an instruction it could not execute. -/
theorem input_taken_once {program : Program} {inputs : List Int}
    (h : handle fuel ops (load program inputs) = some (log, last)) :
    log.flatMap Handling.taken ++ last.input.pending = (Ledger.ofLog inputs log).values ∧
    ∀ x ∈ log,
      x.taken.length = (inputsOf (instructionsOf x.outcome.events)).length ∧
      (∀ k i, (instructionsOf x.outcome.events)[k]? = some i → i.opcode = .input →
        ∃ c v, x.before.stepTimes k = some c ∧ c.step.result = .ok i ∧ c.Takes i v ∧
          takenAlong (k + 1) x.before = takenAlong k x.before ++ [v]) ∧
      ∀ r, x.operation = .ask r →
        ∃ c, x.before.stepTimes (instructionsOf x.outcome.events).length = some c ∧
          x.outcome.after = { c with activity := x.outcome.after.activity } ∧
          x.before.input.pending = x.taken ++ x.outcome.after.input.pending ∧
          (x.Interrupted → ∃ e, c.step.result = .error e) := by
  have hstart : Ledger.Agrees ⟨inputs, 0⟩ [] (load program inputs) :=
    ⟨by simp [load], rfl⟩
  refine ⟨(hstart.foldl h).values_eq.symm, fun x hx => ?_⟩
  have hdone := done_of_handle h x hx
  by_cases hask : ∃ r, x.operation = .ask r
  · obtain ⟨r, hop⟩ := hask
    have hfollows := hdone.follows hop
    obtain ⟨hpending, hlength⟩ := hfollows.pending
    refine ⟨hlength, fun k i hi hinput => ?_, fun _ _ => ?_⟩
    · obtain ⟨c', htrail, -, -⟩ := hfollows
      obtain ⟨c, hc, hstep, htaken⟩ := htrail.exists_step hi
      obtain ⟨v, hv, htakes⟩ := exists_takes hstep hinput
      exact ⟨c, v, hc, hstep, htakes, by rw [htaken, hv]⟩
    · obtain ⟨c, hsteps, hafter⟩ := hfollows.exists_stepTimes
      exact ⟨c, hsteps, hafter, hpending,
        fun hinterrupted => hdone.exists_step_error hop hinterrupted hsteps hafter⟩
  · have hne := not_exists.1 hask
    obtain ⟨hsilent, -, -⟩ := Operation.perform_of_ne_ask hne hdone
    refine ⟨?_, fun k i hi => ?_, fun r hop => absurd hop (hne r)⟩
    · rw [Handling.taken, hsilent]
      rfl
    · simp [hsilent] at hi

/-- Of the input at the start one value is taken before the rest is replaced. The run
after that is refused for want of a fourth value, having taken the two that it had. -/
theorem input_replaced_behind_what_was_taken :
    ∃ log last,
      handle 9 [.ask .step, .replaceInput [7], .feed [8], .ask (.run .toHalt none),
        .replaceInput [9, 5], .ask (.run .toInput none)]
        (load [3, 20, 3, 21, 3, 22, 3, 23, 99] [1, 2]) = some (log, last) ∧
      log.flatMap Handling.taken ++ last.input.pending = [1, 7, 8, 9, 5] ∧
      ∃ x ∈ log, x.outcome.result = .error (.machine (.inputExhausted 6)) ∧
        ∃ c, x.before.stepTimes 2 = some c ∧ ∃ e, c.step.result = .error e := by
  have hseen : (handle 9 [.ask .step, .replaceInput [7], .feed [8], .ask (.run .toHalt none),
        .replaceInput [9, 5], .ask (.run .toInput none)]
        (load [3, 20, 3, 21, 3, 22, 3, 23, 99] [1, 2])).map
      (fun done => ((Ledger.ofLog [1, 2] done.1).values, done.1[3]?.map fun x =>
        (x.operation, x.outcome.result, (instructionsOf x.outcome.events).length))) =
        some ([1, 7, 8, 9, 5], some (.ask (.run .toHalt none),
          .error (.machine (.inputExhausted 6)), 2)) := by
    decide +kernel
  obtain ⟨⟨log, last⟩, hlog, hlast⟩ := Option.map_eq_some_iff.1 hseen
  simp only [Prod.mk.injEq] at hlast
  obtain ⟨hledger, hrun⟩ := hlast
  obtain ⟨x, hx, hvalues⟩ := Option.map_eq_some_iff.1 hrun
  simp only [Prod.mk.injEq] at hvalues
  obtain ⟨hop, hresult, hlength⟩ := hvalues
  obtain ⟨htaken, hall⟩ := input_taken_once hlog
  have hmem := List.mem_of_getElem? hx
  obtain ⟨-, -, hrequests⟩ := hall x hmem
  obtain ⟨c, hsteps, -, -, hstuck⟩ := hrequests _ hop
  rw [hlength] at hsteps
  exact ⟨log, last, hlog, htaken.trans hledger, x, hmem, hresult, c, hsteps,
    hstuck (.refused hresult)⟩

end IntMachine.Machine
