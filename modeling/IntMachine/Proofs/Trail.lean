import IntMachine.Machine.Run
import IntMachine.Proofs.Step
/-!
# Trails of executed instructions

A trail is a sequence of successful steps, named by the instructions they
executed. `Machine.Follows` is the same up to the machine's activity, which
runs change where steps do not; it composes, and every call that executes
anything is an instance of it (`step_follows`, `run_follows`).
-/

namespace IntMachine

namespace Machine

variable {m m' c d : Machine} {i : Instruction} {is js : List Instruction}

/-! ## Active machines -/

/-- A machine that may be asked to execute something. -/
def Active (m : Machine) : Prop := m.activity = .running ∨ m.activity = .awaitingInput

instance : Decidable m.Active := inferInstanceAs (Decidable (_ ∨ _))

theorem obstacle?_eq_none_iff : m.obstacle? = none ↔ m.Active := by
  rw [obstacle?, Active]
  cases m.activity <;> simp

theorem active_of_running {m : Machine} (h : m.activity = .running) : m.Active := .inl h

theorem isHalted_of_active (h : m.Active) : m.isHalted = false := by
  rcases h with h | h <;> simp [isHalted, h]

/-- What a machine is doing has no part in what it executes. -/
theorem advance_with_activity (m : Machine) (a : Activity) :
    ({ m with activity := a } : Machine).advance = m.advance := by
  cases h : m.memory.decode m.pc m.base with
  | error e =>
    rw [advance_of_decode_error h, advance_of_decode_error (m := { m with activity := a }) h]
  | ok i =>
    cases hs : m.starves i with
    | true =>
      rw [advance_of_starves h hs, advance_of_starves (m := { m with activity := a }) h hs]
    | false =>
      obtain ⟨next, m', he, -⟩ := execute_effect (m := m.entering i) (wellFormed_of_decodeAt h) hs
      rw [advance_of_execute h hs he, advance_of_execute (m := { m with activity := a }) h hs he]

theorem not_active_of_advance_error {e : MachineError} (h : m.advance.result = .error e) :
    ¬ m.advance.after.Active := by
  rcases advance_cases m with ⟨e, -, hadv⟩ | ⟨i, -, -, hadv⟩ | ⟨i, next, m', -, -, -, hadv⟩
  · simp [hadv, Active]
  · simp [hadv] at h
  · simp [hadv] at h

/-- **A step of an active machine** is what `advance` makes of it. -/
theorem step_eq_ok_iff : m.step.result = .ok i ↔ m.Active ∧ m.advance.result = .ok (some i) := by
  rw [step, ← obstacle?_eq_none_iff]
  cases m.obstacle? with
  | some e => simp
  | none =>
    simp only [true_and]
    cases m.advance.result with
    | error e => simp
    | ok tried => cases tried <;> simp

theorem step_after_of_active (h : m.Active) : m.step.after = m.advance.after := by
  rw [step, obstacle?_eq_none_iff.2 h]
  dsimp only
  cases m.advance.result with
  | error e => rfl
  | ok tried => cases tried <;> rfl

theorem step_after_of_not_active (h : ¬ m.Active) : m.step.after = m := by
  rw [step]
  cases ho : m.obstacle? with
  | none => exact absurd (obstacle?_eq_none_iff.1 ho) h
  | some e => rfl

/-! ## Trails -/

/-- The machine after a number of steps, all of which succeed. -/
def stepTimes : Nat → Machine → Option Machine
  | 0, m => some m
  | n + 1, m =>
    match m.step.result with
    | .ok _ => stepTimes n m.step.after
    | .error _ => none

/-- Successful steps that execute these instructions lead from one machine to
the other. -/
inductive Trail : Machine → List Instruction → Machine → Prop
  | nil (m : Machine) : Trail m [] m
  | cons {m m' : Machine} {i : Instruction} {is : List Instruction} :
      m.step.result = .ok i → Trail m.step.after is m' → Trail m (i :: is) m'

theorem Trail.append (h : Trail m is c) (h' : Trail c js d) : Trail m (is ++ js) d := by
  induction h with
  | nil => exact h'
  | cons hstep _ ih => exact .cons hstep (ih h')

theorem Trail.stepTimes (h : Trail m is c) : m.stepTimes is.length = some c := by
  induction h with
  | nil => rfl
  | cons hstep _ ih => simp only [List.length_cons, Machine.stepTimes, hstep, ih]

theorem trail_of_stepTimes {n : Nat} (h : m.stepTimes n = some c) :
    ∃ is, is.length = n ∧ Trail m is c := by
  induction n generalizing m with
  | zero =>
    obtain rfl : m = c := by simpa [Machine.stepTimes] using h
    exact ⟨[], rfl, .nil m⟩
  | succ n ih =>
    rw [Machine.stepTimes] at h
    cases hstep : m.step.result with
    | error e => simp [hstep] at h
    | ok i =>
      obtain ⟨is, hlen, htrail⟩ := ih (by simpa [hstep] using h)
      exact ⟨i :: is, by simp [hlen], .cons hstep htrail⟩

/-- A trail from a machine that has stopped for good leads nowhere. -/
theorem Trail.eq_of_not_active (h : Trail m is c) (hm : ¬ m.Active) : c = m := by
  cases h with
  | nil => rfl
  | cons hstep _ => exact absurd (step_eq_ok_iff.1 hstep).1 hm

/-- A trail that goes anywhere can start from the machine in any active
state. -/
theorem Trail.of_activity {a : Activity} (h : Trail { m with activity := a } (i :: is) c)
    (hm : m.Active) : Trail m (i :: is) c := by
  cases h with
  | cons hstep hrest =>
    obtain ⟨hactive, hadvance⟩ := step_eq_ok_iff.1 hstep
    rw [step_after_of_active hactive, advance_with_activity] at hrest
    rw [advance_with_activity] at hadvance
    refine .cons (step_eq_ok_iff.2 ⟨hm, hadvance⟩) ?_
    rwa [step_after_of_active hm]

/-! ## Trails up to activity -/

/-- The machine has become the other one by executing these instructions; only
what it is doing may differ from where the steps alone would lead. -/
def Follows (m : Machine) (is : List Instruction) (c : Machine) : Prop :=
  ∃ m', Trail m is m' ∧ (c.Active → m'.Active) ∧ c = { m' with activity := c.activity }

theorem Follows.refl (m : Machine) : m.Follows [] m := ⟨m, .nil m, id, rfl⟩

/-- A machine that has executed nothing has changed in what it is doing only. -/
theorem follows_nil {a : Activity}
    (h : ({ m with activity := a } : Machine).Active → m.Active) :
    m.Follows [] { m with activity := a } :=
  ⟨m, .nil m, h, rfl⟩

/-- **Executing one instruction.** -/
theorem follows_of_advance (hm : m.Active) (h : m.advance.result = .ok (some i)) :
    m.Follows [i] m.advance.after := by
  have hstep : m.step.result = .ok i := step_eq_ok_iff.2 ⟨hm, h⟩
  refine ⟨m.step.after, .cons hstep (.nil _), ?_, ?_⟩
  · rw [step_after_of_active hm]; exact id
  · rw [step_after_of_active hm]

/-- **Following composes.** -/
theorem Follows.trans (h : m.Follows is c) (h' : c.Follows js d) : m.Follows (is ++ js) d := by
  obtain ⟨m', htrail, hactive, hc⟩ := h
  obtain ⟨c', htrail', hactive', hd⟩ := h'
  cases htrail' with
  | nil =>
    -- nothing was executed since, so the first trail is the whole of it
    refine ⟨m', by rwa [List.append_nil], hactive ∘ hactive', ?_⟩
    rw [hd, hc]
  | cons hstep hrest =>
    -- the second trail starts from an active machine, so it could have started
    -- from the end of the first
    have hcm : m'.Active := hactive (step_eq_ok_iff.1 hstep).1
    rw [hc] at hstep hrest
    exact ⟨c', htrail.append (Trail.of_activity (.cons hstep hrest) hcm), hactive', hd⟩

/-- What following keeps: nothing but what is being done differs from the end
of the trail. -/
theorem Follows.exists_stepTimes (h : m.Follows is c) :
    ∃ m', m.stepTimes is.length = some m' ∧ c = { m' with activity := c.activity } := by
  obtain ⟨m', htrail, -, hc⟩ := h
  exact ⟨m', htrail.stepTimes, hc⟩

end Machine

end IntMachine
