import IntMachine.Proofs.Collected
import IntMachine.Proofs.Suspension
/-!
# Machines that come to a halt

A run halts its machine only where steps lead to a halt (`haltsAt_of_run`), and
where they do, every run that does not stop on output comes to it
(`HaltsAt.run`); so whether and where a machine halts can be told without a mode
or an amount of fuel. Input it has not asked for makes no
difference (`HaltsAt.feed`), nor does how much of its output has been collected
(`HaltsAt.alike`). A machine that halts on enough input halts on less, or comes
to wait for the rest (`exists_run_of_haltsAt`).
-/

namespace IntMachine.Machine

variable {m c d : Machine} {is : List Instruction} {ws : List Int}
variable {mode : RunMode} {limit : StepLimit} {fuel steps : Nat} {events : Array Event}
variable {out : Outcome Machine MachineError RunEnd}

/-- **Input is inert until it is asked for**, along a trail. -/
theorem Trail.feed (h : Trail m is c) (ws : List Int) : Trail (m.feed ws) is (c.feed ws) := by
  induction h with
  | nil m => exact .nil _
  | @cons m c i is hstep _ ih =>
    obtain ⟨hactive, hadv⟩ := step_eq_ok_iff.1 hstep
    have hfed := advance_feed (m := m) (by simp [hadv]) ws
    have hfedActive : (m.feed ws).Active := hactive
    refine .cons (step_eq_ok_iff.2 ⟨hfedActive, by rw [hfed, hadv]⟩) ?_
    rw [step_after_of_active hfedActive, hfed]
    rwa [step_after_of_active hactive] at ih

theorem Follows.feed (h : m.Follows is c) (ws : List Int) : (m.feed ws).Follows is (c.feed ws) := by
  obtain ⟨m', htrail, hactive, hc⟩ := h
  refine ⟨m'.feed ws, htrail.feed ws, hactive, ?_⟩
  rw [hc]
  rfl

theorem Follows.alike (h : m.Follows is d) (hm : m.Alike c) : ∃ e, c.Follows is e ∧ d.Alike e := by
  obtain ⟨m', htrail, hactive, hd⟩ := h
  obtain ⟨c', htrail', hc'⟩ := htrail.alike hm
  obtain ⟨heq, hsent⟩ := hc'
  refine ⟨{ c' with activity := d.activity }, ⟨c', htrail', fun h => ?_, rfl⟩, ?_⟩
  · have hm' : m'.Active := hactive h
    rw [heq]
    exact hm'
  · rw [hd, heq]
    exact ⟨rfl, hsent⟩

/-! ## Steps to a halt -/

/-- Steps lead the machine to a halt, where it is the other one. -/
def HaltsAt (m c : Machine) : Prop := ∃ is, Trail m is c ∧ c.isHalted = true

/-- **A run that leaves its machine halted has taken steps to a halt.** -/
theorem haltsAt_of_runOn (hm : m.activity = .running)
    (h : runOn mode limit fuel steps events m = some out) (hhalted : out.after.isHalted = true) :
    m.HaltsAt out.after := by
  induction fuel generalizing steps events m with
  | zero => cases h
  | succ fuel ih =>
    have hactive := active_of_running hm
    -- a run that ends without a last instruction has halted nothing
    rcases runOn_cases h with ⟨-, rfl⟩ | ⟨-, ⟨e, hadv, rfl⟩ | ⟨hadv, rfl⟩ |
      ⟨i, stop, hadv, -, rfl⟩ | ⟨i, hadv, hstop, hrest⟩⟩
    · simp [isHalted, hm] at hhalted
    · obtain ⟨a, ha, hafter, -⟩ := advance_of_not_executed (m := m) (by simp [hadv])
      simp [isHalted, hafter, ha] at hhalted
    · obtain ⟨a, ha, hafter, -⟩ := advance_of_not_executed (m := m) (by simp [hadv])
      simp [isHalted, hafter, ha] at hhalted
    · have hstep : m.step.result = .ok i := step_eq_ok_iff.2 ⟨hactive, hadv⟩
      refine ⟨[i], .cons hstep ?_, hhalted⟩
      rw [step_after_of_active hactive]
      exact .nil _
    · have hstep : m.step.result = .ok i := step_eq_ok_iff.2 ⟨hactive, hadv⟩
      obtain ⟨is, htrail, hend⟩ := ih (running_of_stopAfter?_eq_none hadv hstop) hrest
      refine ⟨i :: is, .cons hstep ?_, hend⟩
      rwa [step_after_of_active hactive]

/-- **A run takes the steps to a halt**, with a look for each. -/
theorem runOn_of_trail (hmode : mode ≠ .toOutput) (hm : m.Active) (h : Trail m is c)
    (hhalted : c.isHalted = true) (steps : Nat) (events : Array Event) :
    ∃ out, runOn mode none is.length steps events m = some out ∧ out.after = c ∧
      ∃ n, out.result = .ok ⟨.halted, n⟩ := by
  induction h generalizing steps events with
  | nil m => simp [isHalted_of_active hm] at hhalted
  | @cons m c i is hstep hrest ih =>
    have hlimit : StepLimit.reached none steps = false := rfl
    obtain ⟨-, hadv⟩ := step_eq_ok_iff.1 hstep
    rw [step_after_of_active hm] at hrest ih
    cases hrest with
    | nil =>
      -- the step to the halt itself, after which the run stops
      have hstop : stopAfter? mode m.advance.after i = some .halted := by
        rw [stopAfter?, if_pos hhalted]
      exact ⟨_, runOn_of_stop hlimit hadv hstop, rfl, _, rfl⟩
    | cons hnext hmore =>
      have hactive : m.advance.after.Active := (step_eq_ok_iff.1 hnext).1
      have hstop : stopAfter? mode m.advance.after i = none := by
        simp [stopAfter?, isHalted_of_active hactive, hmode]
      obtain ⟨out, hout, hafter⟩ := ih hactive hhalted (steps + 1) (events ++ m.advance.events)
      exact ⟨out, by rw [List.length_cons, runOn_of_go hlimit hadv hstop, hout], hafter⟩

/-- A trail that leads anywhere may as well start from a running machine. -/
theorem HaltsAt.of_activity {a : Activity} (h : { m with activity := a }.HaltsAt c)
    (hactive : { m with activity := a }.Active) (hm : m.Active) : m.HaltsAt c := by
  obtain ⟨is, htrail, hhalted⟩ := h
  cases htrail with
  | nil => simp [isHalted_of_active hactive] at hhalted
  | cons hstep hrest => exact ⟨_, Trail.of_activity (.cons hstep hrest) hm, hhalted⟩

/-- A run that leaves its machine halted has taken steps to a halt. -/
theorem haltsAt_of_run (hm : m.Active) (h : m.run fuel mode limit = some out)
    (hhalted : out.after.isHalted = true) : m.HaltsAt out.after := by
  rw [run_of_active hm] at h
  exact (haltsAt_of_runOn rfl h hhalted).of_activity (.inl rfl) hm

/-- **Where steps lead to a halt, so does a run.** -/
theorem HaltsAt.run (h : m.HaltsAt c) (hm : m.Active) (hmode : mode ≠ .toOutput) :
    ∃ fuel out, m.run fuel mode = some out ∧ out.after = c ∧
      ∃ n, out.result = .ok ⟨.halted, n⟩ := by
  have hrunning : ({ m with activity := .running } : Machine).HaltsAt c :=
    h.of_activity (m := { m with activity := .running }) hm (.inl rfl)
  obtain ⟨is, htrail, hhalted⟩ := hrunning
  obtain ⟨out, hout, hafter⟩ := runOn_of_trail hmode (.inl rfl) htrail hhalted 0 #[]
  exact ⟨is.length, out, by rw [run_of_active hm, hout], hafter⟩

/-- **A machine halts at one place.** -/
theorem HaltsAt.unique (h : m.HaltsAt c) (h' : m.HaltsAt d) (hm : m.Active) : c = d := by
  have hmode : RunMode.toHalt ≠ .toOutput := by decide
  obtain ⟨fuel, out, hrun, rfl, -⟩ := h.run hm hmode
  obtain ⟨fuel', out', hrun', rfl, -⟩ := h'.run hm hmode
  rw [run_unique hrun hrun']

theorem HaltsAt.feed (h : m.HaltsAt c) (ws : List Int) : (m.feed ws).HaltsAt (c.feed ws) := by
  obtain ⟨is, htrail, hhalted⟩ := h
  exact ⟨is, htrail.feed ws, hhalted⟩

theorem HaltsAt.alike (h : m.HaltsAt d) (hm : m.Alike c) : ∃ e, c.HaltsAt e ∧ d.Alike e := by
  obtain ⟨is, htrail, hhalted⟩ := h
  obtain ⟨e, htrail', hde⟩ := htrail.alike hm
  refine ⟨e, ⟨is, htrail', ?_⟩, hde⟩
  rwa [isHalted, hde.activity]

/-- A machine that has become another one on its way to a halt halts there. -/
theorem HaltsAt.of_follows (h : c.HaltsAt d) (hm : m.Follows is c) (hc : c.Active) :
    m.HaltsAt d := by
  obtain ⟨m', htrail, hactive, heq⟩ := hm
  rw [heq] at h
  obtain ⟨js, hrest, hhalted⟩ := h.of_activity (m := m') (by rwa [← heq]) (hactive hc)
  exact ⟨_, htrail.append hrest, hhalted⟩

/-! ## Halting on less input -/

/-- A run leaves a machine that has stopped for good as it is. -/
theorem after_of_not_active (hm : ¬ m.Active) (h : m.run fuel mode limit = some out) :
    out.after = m := by
  obtain ⟨out', hrun, hafter, -⟩ : ∃ out', m.run fuel mode limit = some out' ∧ out'.after = m ∧
    instructionsOf out'.events = [] := run_of_not_active hm
  obtain rfl := Option.some.inj (hrun.symm.trans h)
  exact hafter

/-- A machine that lacks input does not halt on none. -/
theorem Starved.not_haltsAt (h : m.Starved) : ¬ m.HaltsAt c := by
  rintro ⟨is, htrail, hhalted⟩
  cases htrail with
  | nil => simp [isHalted_of_active h.active] at hhalted
  | cons hstep _ =>
    have hexecuted := (step_eq_ok_iff.1 hstep).2
    simp [h.stuck] at hexecuted

/-- **A machine that halts on enough input halts on less of it, or comes to lack
the rest** and halts when it gets it. -/
theorem exists_run_of_haltsAt (hm : m.Active) (h : (m.feed ws).HaltsAt d) :
    ∃ fuel first, m.run fuel .toInput = some first ∧
      ((m.HaltsAt first.after ∧ d = first.after.feed ws ∧ ∃ n, first.result = .ok ⟨.halted, n⟩) ∨
       (first.after.Starved ∧ (first.after.feed ws).HaltsAt d ∧
        ∃ n, first.result = .ok ⟨.awaitingInput, n⟩)) := by
  have hfed : (m.feed ws).Active := hm
  have hmode : RunMode.toInput ≠ .toOutput := by decide
  obtain ⟨fuel, whole, hwhole, rfl, -⟩ := h.run hfed hmode
  -- the whole run is a first one without the input and a second one that has it
  obtain ⟨first, rest, hfirst, hrest, hafter, -⟩ := run_feed hwhole
  have hhalted : rest.after.isHalted = true := by
    obtain ⟨-, -, hhalted⟩ := h
    rwa [hafter]
  refine ⟨fuel, first, hfirst, ?_⟩
  cases run_ended hm hfirst with
  | cut _ hreached => cases hreached
  | refused _ hfailed =>
    -- the rest of the input leaves a failed machine as it is
    have hstopped : ¬ (first.after.feed ws).Active := by simp [Active, feed, hfailed]
    simp [after_of_not_active hstopped hrest, isHalted, feed, hfailed] at hhalted
  | exhausted hmode => cases hmode
  | suspended _ hresult hstarved =>
    have hactive : (first.after.feed ws).Active := hstarved.active
    exact .inr ⟨hstarved, hafter ▸ haltsAt_of_run hactive hrest hhalted, _, hresult⟩
  | halted hresult hend =>
    have hstopped : ¬ (first.after.feed ws).Active := by simp [Active, feed, hend]
    have hfirstHalted : first.after.isHalted = true := by rw [isHalted, hend]; rfl
    refine .inl ⟨haltsAt_of_run hm hfirst hfirstHalted, ?_, _, hresult⟩
    rw [← hafter, after_of_not_active hstopped hrest]
  | output hmode => cases hmode

end IntMachine.Machine
