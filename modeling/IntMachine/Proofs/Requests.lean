import IntMachine.Proofs.Runs
/-!
# Requests in any order

A machine is asked for single steps, for runs in the three modes, and for
several outputs at once, each run with a limit of its own, and is asked again
after a request that was refused. Whatever the requests, they leave the
machine that single steps would have left (`asked_agrees_with_steps`):
the requests differ only in where they stop.
-/

namespace IntMachine

/-- What a machine can be asked to execute. -/
inductive Request where
  | step
  | run (mode : RunMode) (limit : StepLimit)
  /-- Runs to an output up to this many times, each time within the limit. A
  negative count asks for nothing. -/
  | outputs (count : Int) (limit : StepLimit)
  deriving DecidableEq, Repr

/-- What a request that was not refused gives back. -/
inductive Response where
  | executed (i : Instruction)
  | ran (stop : RunEnd)
  | values (vs : List Int)
  deriving DecidableEq, Repr

/-- Makes a request of a machine; each run in it takes its own share of the
fuel. -/
def Request.perform (fuel : Nat) :
    Request → Machine → Option (Outcome Machine MachineError Response)
  | .step, m =>
    some { result := m.step.result.map .executed, after := m.step.after, events := m.step.events }
  | .run mode limit, m =>
    (m.run fuel mode limit).map fun { result, after, events } =>
      { result := result.map .ran, after, events }
  | .outputs count limit, m =>
    (m.runOutputs fuel count.toNat limit).map fun { result, after, events } =>
      { result := result.map .values, after, events }

/-- A request that came to an end, with the machine it was made of. -/
structure Exchange where
  request : Request
  before : Machine
  outcome : Outcome Machine MachineError Response

namespace Machine

/-- **Requests one after the other**, refused or not. Each comes to an end on
some fuel of its own, and each is made of the machine that the one before has
left. -/
inductive Asked : Machine → List Exchange → Machine → Prop
  | nil (m : Machine) : Asked m [] m
  | cons {fuel : Nat} {m last : Machine} {r : Request}
      {out : Outcome Machine MachineError Response} {log : List Exchange} :
      r.perform fuel m = some out → Asked out.after log last → Asked m (⟨r, m, out⟩ :: log) last

/-- Makes requests one after the other, each on the same fuel. -/
def performAll (fuel : Nat) : List Request → Machine → Option (List Exchange × Machine)
  | [], m => some ([], m)
  | r :: rs, m =>
    match r.perform fuel m with
    | none => none
    | some out =>
      (performAll fuel rs out.after).map fun (log, last) => (⟨r, m, out⟩ :: log, last)

variable {fuel : Nat} {limit : StepLimit} {m c : Machine} {is : List Instruction}

/-! ## One request -/

theorem Trail.executed (h : Trail m is c) : c.executed = m.executed + is.length := by
  induction h with
  | nil => rfl
  | @cons m _ _ _ hstep _ ih =>
    obtain ⟨hactive, hadv⟩ := step_eq_ok_iff.1 hstep
    rw [ih, step_after_of_active hactive, (advance_after_of_executed hadv).1]
    simp only [List.length_cons]
    omega

/-- **Every instruction executed is counted.** -/
theorem Follows.executed (h : m.Follows is c) : c.executed = m.executed + is.length := by
  obtain ⟨m', htrail, -, hc⟩ := h
  rw [hc]
  exact htrail.executed

/-- Outputs collected one after the other execute what steps would execute. -/
theorem runOutputsOn_follows {count : Nat} {values : Array Int} {events : Array Event}
    {out : Outcome Machine MachineError (List Int)}
    (h : runOutputsOn fuel limit count values events m = some out) :
    ∃ is, m.Follows is out.after ∧ instructionsOf out.events = instructionsOf events ++ is := by
  induction count generalizing values events m with
  | zero =>
    obtain rfl := by simpa [runOutputsOn] using h
    exact ⟨[], .refl m, by simp⟩
  | succ count ih =>
    rw [runOutputsOn] at h
    cases hran : m.run fuel .toOutput limit with
    | none => simp [hran] at h
    | some ran =>
      obtain ⟨is, hfollows, hevents, -⟩ := run_follows hran
      simp only [hran] at h
      split at h
      · obtain rfl := Option.some.inj h
        exact ⟨is, hfollows, by simp [hevents]⟩
      · obtain ⟨js, hrest, hmore⟩ := ih h
        exact ⟨is ++ js, hfollows.trans hrest, by simp [hmore, hevents]⟩
      · obtain rfl := Option.some.inj h
        exact ⟨is, hfollows, by simp [hevents]⟩

/-- **Whatever is asked for, steps would have done it**: those of the instructions
reported as performed. A run that ends says how many. -/
theorem perform_follows {r : Request} {out : Outcome Machine MachineError Response}
    (h : r.perform fuel m = some out) :
    m.Follows (instructionsOf out.events) out.after ∧
      ∀ stop, out.result = .ok (.ran stop) → stop.steps = (instructionsOf out.events).length := by
  cases r with
  | step =>
    obtain rfl := Option.some.inj h
    refine ⟨step_follows m, fun stop hstop => ?_⟩
    cases hresult : m.step.result <;> simp [hresult, Except.map] at hstop
  | run mode limit =>
    obtain ⟨ran, hran, rfl⟩ := Option.map_eq_some_iff.1 h
    obtain ⟨is, hfollows, rfl, hsteps⟩ := run_follows hran
    refine ⟨hfollows, fun stop hstop => hsteps stop ?_⟩
    cases hresult : ran.result <;> simp_all [Except.map]
  | outputs count limit =>
    obtain ⟨ran, hran, rfl⟩ := Option.map_eq_some_iff.1 h
    obtain ⟨is, hfollows, hevents⟩ := runOutputsOn_follows hran
    rw [instructionsOf_empty, List.nil_append] at hevents
    refine ⟨by rwa [hevents], fun stop hstop => ?_⟩
    cases hresult : ran.result <;> simp [hresult, Except.map] at hstop

/-! ## Requests one after the other -/

variable {log : List Exchange} {last : Machine}

theorem asked_of_performAll {rs : List Request} (h : performAll fuel rs m = some (log, last)) :
    Asked m log last := by
  induction rs generalizing m log with
  | nil =>
    obtain ⟨rfl, rfl⟩ : [] = log ∧ m = last := by simpa [performAll] using h
    exact .nil m
  | cons r rs ih =>
    rw [performAll] at h
    cases hout : r.perform fuel m with
    | none => simp [hout] at h
    | some out =>
      simp only [hout] at h
      obtain ⟨⟨rest, last'⟩, hrest, hlog⟩ := Option.map_eq_some_iff.1 h
      obtain ⟨rfl, rfl⟩ := Prod.mk.inj hlog
      exact .cons hout (ih hrest)

theorem Asked.follows (h : Asked m log last) : ∃ is, m.Follows is last := by
  induction h with
  | nil m => exact ⟨[], .refl m⟩
  | cons hout _ ih =>
    obtain ⟨js, hlast⟩ := ih
    exact ⟨_, (perform_follows hout).1.trans hlast⟩

/-- A run that ended reports what was counted while it lasted. -/
theorem Asked.counts (h : Asked m log last) :
    ∀ x ∈ log, ∀ stop, x.outcome.result = .ok (.ran stop) →
      x.outcome.after.executed = x.before.executed + stop.steps := by
  induction h with
  | nil => simp
  | cons hout _ ih =>
    intro x hx stop hstop
    rcases List.mem_cons.1 hx with rfl | hx
    · obtain ⟨hfollows, hcount⟩ := perform_follows hout
      rw [hcount stop hstop]
      exact hfollows.executed
    · exact ih x hx stop hstop

/-- **The requests differ only in where they stop.** Requests of any kind, with
any limits, in any order, refused or not, leave the machine that as many
successful steps leave as instructions were counted; nothing but what the
machine is doing may differ. Each run that ended reports how many were counted
while it lasted. -/
theorem asked_agrees_with_steps (h : Asked m log last) :
    (∃ n s, last.executed = m.executed + n ∧ m.stepTimes n = some s ∧
      last.memory = s.memory ∧ last.pc = s.pc ∧ last.base = s.base ∧ last.input = s.input ∧
      last.output = s.output ∧ last.executed = s.executed) ∧
    ∀ x ∈ log, ∀ stop, x.outcome.result = .ok (.ran stop) →
      x.outcome.after.executed = x.before.executed + stop.steps := by
  refine ⟨?_, h.counts⟩
  obtain ⟨is, hfollows⟩ := h.follows
  obtain ⟨s, hsteps, hlast⟩ := hfollows.exists_stepTimes
  refine ⟨is.length, s, hfollows.executed, hsteps, ?_⟩
  rw [hlast]
  exact ⟨rfl, rfl, rfl, rfl, rfl, rfl⟩

/-- A machine that outputs its input and then asks for more is stepped, asked
for outputs within a limit, run to an end it cannot reach, stepped again and
run for no instruction at all: it has executed two instructions. -/
theorem requests_past_a_refusal_agree_with_steps :
    ∃ log last, Asked (load [3, 9, 4, 9, 3, 9, 99] [7]) log last ∧
      log.map (·.request) = [.step, .outputs 3 (some 1), .run .toHalt none, .step,
        .run .toInput (some (-1))] ∧
      log.map (·.outcome.result) = [.ok (.executed ⟨.input, [9], 0, 3, [.position], [0, 1]⟩),
        .ok (.values [7]), .error (.inputExhausted 4), .error (.inputRequired 4),
        .ok (.ran ⟨.stepLimit, 0⟩)] ∧
      ∃ n s, n = 2 ∧ (load [3, 9, 4, 9, 3, 9, 99] [7]).stepTimes n = some s ∧
        last.memory = s.memory ∧ last.output = s.output := by
  have hseen : (performAll 9 [.step, .outputs 3 (some 1), .run .toHalt none, .step,
        .run .toInput (some (-1))] (load [3, 9, 4, 9, 3, 9, 99] [7])).map
      (fun (log, last) => (log.map (·.request), log.map (·.outcome.result), last.executed)) =
        some ([.step, .outputs 3 (some 1), .run .toHalt none, .step, .run .toInput (some (-1))],
          [.ok (.executed ⟨.input, [9], 0, 3, [.position], [0, 1]⟩), .ok (.values [7]),
          .error (.inputExhausted 4), .error (.inputRequired 4),
          .ok (.ran ⟨.stepLimit, 0⟩)], 2) := by
    decide +kernel
  obtain ⟨⟨log, last⟩, hasked, hlast⟩ := Option.map_eq_some_iff.1 hseen
  simp only [Prod.mk.injEq] at hlast
  obtain ⟨hrequests, hresults, hcount⟩ := hlast
  have hlog := asked_of_performAll hasked
  obtain ⟨⟨n, s, hn, hsteps, hmemory, -, -, -, houtput, -⟩, -⟩ := asked_agrees_with_steps hlog
  refine ⟨log, last, hlog, hrequests, hresults, n, s, ?_, hsteps, hmemory, houtput⟩
  simpa [hcount, load] using hn.symm

end Machine

end IntMachine
