import IntMachine.Proofs.Runs
import IntMachine.Machine.Breakpoint
/-!
# Runs with breakpoints

A run with breakpoints takes its instructions one at a time and looks at the
limit and at the breakpoints before each. A look at the machine that meets
neither is the look of a run without breakpoints (`runGuardedOn_of_goesOn`,
`runGuardedOn_of_stops`); from that, by induction on the looks, a run that comes
to no breakpoint is the run without breakpoints (`runGuardedOn_of_clear`), and
one that does is that run, cut (`runGuardedOn_of_cut`).
-/

namespace IntMachine

variable {breakpoints : List Int} {limit : StepLimit} {fuel steps k : Nat}

/-! ## Limits -/

/-- A limit that admits one more instruction has admitted all before. -/
theorem StepLimit.reached_of_le {j : Nat} (h : limit.reached k = false) (hjk : j ≤ k) :
    limit.reached j = false := by
  cases limit with
  | none => rfl
  | some n =>
    simp only [reached, decide_eq_false_iff_not] at h ⊢
    omega

theorem StepLimit.reached_natCast_iff {n : Nat} : reached (some (n : Int)) k = true ↔ n ≤ k := by
  simp [reached]

/-- A limit admits an instruction unless it is a number below one. -/
theorem StepLimit.reached_zero_eq_false_iff :
    limit.reached 0 = false ↔ ∀ n, limit = some n → 1 ≤ n := by
  cases limit with
  | none => simp [reached]
  | some n =>
    simp only [reached, decide_eq_false_iff_not, Option.some.injEq, forall_eq']
    omega

namespace Machine

variable {events : Array Event} {m c d : Machine} {i : Instruction}
variable {out : Outcome Machine MachineError RunEnd}

/-! ## Going on -/

/-- The machine executes the instruction and has not halted after it, so that a
run that stops for nothing else goes on. -/
def GoesOn (m : Machine) (i : Instruction) : Prop :=
  m.advance.result = .ok (some i) ∧ m.advance.after.isHalted = false

theorem stopAfter?_toInput (m : Machine) (i : Instruction) :
    stopAfter? .toInput m i = if m.isHalted then some .halted else none := by
  simp [stopAfter?]

theorem GoesOn.stopAfter? (h : m.GoesOn i) :
    Machine.stopAfter? .toInput m.advance.after i = none := by
  rw [stopAfter?_toInput, h.2]
  rfl

theorem GoesOn.running (h : m.GoesOn i) : m.advance.after.activity = .running :=
  running_of_stopAfter?_eq_none h.1 h.stopAfter?

theorem GoesOn.active (h : m.GoesOn i) : m.advance.after.Active := active_of_running h.running

/-- Steps after an instruction that goes on are one fewer. -/
theorem GoesOn.stepTimes_succ (h : m.GoesOn i) (hm : m.Active) (k : Nat) :
    m.stepTimes (k + 1) = m.advance.after.stepTimes k := by
  have hstep : m.step.result = .ok i := step_eq_ok_iff.2 ⟨hm, h.1⟩
  rw [stepTimes, hstep, step_after_of_active hm]

/-- Steps may be counted in two parts. -/
theorem stepTimes_add {j n : Nat} (h : m.stepTimes j = some d) :
    m.stepTimes (j + n) = d.stepTimes n := by
  induction j generalizing m with
  | zero =>
    obtain rfl : m = d := by simpa [stepTimes] using h
    rw [Nat.zero_add]
  | succ j ih =>
    rw [stepTimes] at h
    rw [Nat.add_right_comm, stepTimes]
    cases hstep : m.step.result with
    | error e => simp [hstep] at h
    | ok i =>
      rw [hstep] at h
      exact ih h

/-- A machine that has not halted at the end of some steps had not halted at
their start. -/
theorem isHalted_of_stepTimes (h : m.stepTimes k = some c) (hc : c.isHalted = false) :
    m.isHalted = false := by
  cases k with
  | zero =>
    obtain rfl : m = c := by simpa [stepTimes] using h
    exact hc
  | succ k =>
    rw [stepTimes] at h
    cases hstep : m.step.result with
    | error e => simp [hstep] at h
    | ok i => exact isHalted_of_active (step_eq_ok_iff.1 hstep).1

/-- The first of several steps that do not halt goes on. -/
theorem goesOn_of_stepTimes (h : m.stepTimes (k + 1) = some c) (hc : c.isHalted = false) :
    m.Active ∧ ∃ i, m.GoesOn i ∧ m.advance.after.stepTimes k = some c := by
  rw [stepTimes] at h
  cases hstep : m.step.result with
  | error e => simp [hstep] at h
  | ok i =>
    obtain ⟨hm, hadv⟩ := step_eq_ok_iff.1 hstep
    have hrest : m.advance.after.stepTimes k = some c := by
      rw [← step_after_of_active hm]
      simpa [hstep] using h
    exact ⟨hm, i, ⟨hadv, isHalted_of_stepTimes hrest hc⟩, hrest⟩

theorem with_running (h : m.activity = .running) : { m with activity := .running } = m := by
  rw [← h]

/-- A run that goes on leaves behind what the machine was doing before. -/
theorem runOn_of_goesOn (h : m.GoesOn i) (hlimit : limit.reached steps = false) :
    runOn .toInput limit (fuel + 1) steps events { m with activity := .running } =
      runOn .toInput limit fuel (steps + 1) (events ++ m.advance.events)
        { m.advance.after with activity := .running } := by
  have hadvance := advance_with_activity m .running
  have hadv : ({ m with activity := .running } : Machine).advance.result = .ok (some i) := by
    rw [hadvance, h.1]
  have hstop : Machine.stopAfter? .toInput
      ({ m with activity := .running } : Machine).advance.after i = none := by
    rw [hadvance, h.stopAfter?]
  rw [runOn_of_go hlimit hadv hstop, hadvance, with_running h.running]

/-- The instruction a machine executes is the one at its program counter. -/
theorem address_of_executed (h : m.advance.result = .ok (some i)) : i.address = m.pc := by
  obtain ⟨next, m', hdecode, -⟩ := effect_of_executed h
  exact address_of_decodeAt hdecode

/-! ## One look of a run with breakpoints

The run with breakpoints makes a run of one instruction for each of its own.
Away from limit and breakpoints, such a look is a look of the run without
breakpoints. -/

theorem runGuardedOn_of_reached (hlimit : limit.reached steps = true) :
    runGuardedOn breakpoints limit (fuel + 1) steps events m =
      some { result := .ok ⟨.stepLimit, steps⟩, after := m, events } := by
  rw [runGuardedOn, if_pos hlimit]

theorem runGuardedOn_of_breakpoint (hlimit : limit.reached steps = false) (hsteps : steps ≠ 0)
    (hpc : m.pc ∈ breakpoints) :
    runGuardedOn breakpoints limit (fuel + 1) steps events m =
      some { result := .ok ⟨.breakpoint, steps⟩, after := m,
             events := events.push (.breakpointHit m.pc) } := by
  rw [runGuardedOn, if_neg (by simp [hlimit]), if_pos ⟨hsteps, hpc⟩]

section Passed

variable (fuel : Nat) (events : Array Event)
variable (hlimit : limit.reached steps = false) (hpass : ¬ (steps ≠ 0 ∧ m.pc ∈ breakpoints))
include hlimit hpass

theorem runGuardedOn_of_not_active (hm : ¬ m.Active) :
    ∃ ran, (∀ f mode l, m.run f mode l = some ran) ∧ ran.after = m ∧
      instructionsOf ran.events = [] ∧
      runGuardedOn breakpoints limit (fuel + 1) steps events m =
        some { result := ran.result.map fun r => { r with steps := steps + r.steps },
               after := m, events := events ++ ran.events } := by
  rw [runGuardedOn, if_neg (by simp [hlimit]), if_neg hpass]
  cases ha : m.activity with
  | running => exact absurd (.inl ha) hm
  | awaitingInput => exact absurd (.inr ha) hm
  | halted | failed cause =>
    simp only [run, ha]
    exact ⟨_, fun _ _ _ => rfl, rfl, rfl, rfl⟩

theorem runGuardedOn_of_goesOn (hm : m.Active) (h : m.GoesOn i) :
    runGuardedOn breakpoints limit (fuel + 1) steps events m =
      runGuardedOn breakpoints limit fuel (steps + 1) (events ++ m.advance.events)
        m.advance.after := by
  have hone : m.run 2 .toInput (some 1) =
      some { result := .ok ⟨.stepLimit, 1⟩, after := m.advance.after,
             events := m.advance.events } := by
    rw [run_of_active hm, runOn_of_goesOn h rfl, runOn_of_reached rfl, with_running h.running]
    simp
  rw [runGuardedOn, if_neg (by simp [hlimit]), if_neg hpass, hone]
  rfl

/-- A look that does not go on is the last one, with or without breakpoints. It
executes at most the instruction at the program counter. -/
theorem runGuardedOn_of_stops (hm : m.Active) (h : ∀ i, ¬ m.GoesOn i) :
    ∃ out is, runGuardedOn breakpoints limit (fuel + 1) steps events m = some out ∧
      runOn .toInput limit (fuel + 1) steps events { m with activity := .running } = some out ∧
      instructionsOf out.events = instructionsOf events ++ is ∧ is.tail = [] ∧
      ∀ i ∈ is, i.address = m.pc := by
  have hadvance := advance_with_activity m .running
  rw [runGuardedOn, if_neg (by simp [hlimit]), if_neg hpass, run_of_active hm]
  cases hadv : m.advance.result with
  | error e =>
    have hsame : ({ m with activity := .running } : Machine).advance.result = .error e := by
      rw [hadvance, hadv]
    obtain ⟨-, -, -, hnone⟩ := advance_of_not_executed (m := m) (by simp [hadv])
    rw [runOn_of_error rfl hsame, runOn_of_error hlimit hsame, hadvance]
    exact ⟨_, [], by simp, rfl, by simp [hnone], rfl, by simp⟩
  | ok tried =>
    cases tried with
    | none =>
      have hsame : ({ m with activity := .running } : Machine).advance.result = .ok none := by
        rw [hadvance, hadv]
      rw [runOn_of_none rfl hsame, runOn_of_none hlimit hsame, hadvance, advance_of_none hadv]
      exact ⟨_, [], by simp [starved], rfl, by simp, rfl, by simp⟩
    | some i =>
      have hsame : ({ m with activity := .running } : Machine).advance.result = .ok (some i) := by
        rw [hadvance, hadv]
      have hhalted : m.advance.after.isHalted = true := by
        by_contra hgoes
        exact h i ⟨hadv, by simpa using hgoes⟩
      have hstop : stopAfter? .toInput
          ({ m with activity := .running } : Machine).advance.after i = some .halted := by
        rw [hadvance, stopAfter?_toInput, hhalted]
        rfl
      rw [runOn_of_stop rfl hsame hstop, runOn_of_stop hlimit hsame hstop, hadvance]
      refine ⟨_, [i], by simp, rfl, by simp [instructionsOf_executed hadv], rfl, ?_⟩
      simpa using address_of_executed hadv

end Passed

/-! ## Whole runs -/

/-- **A run that comes to no breakpoint is the run without breakpoints.** At a
limit that admits nothing the machine is left as it is, so it has to be running
for the two to agree. -/
theorem runGuardedOn_of_clear (hm : m.Active)
    (hstart : limit.reached steps = true → m.activity = .running)
    (hclear : ∀ k c, m.stepTimes k = some c → c.isHalted = false → steps + k ≠ 0 →
      limit.reached (steps + k) = false → c.pc ∉ breakpoints) :
    runGuardedOn breakpoints limit fuel steps events m =
      runOn .toInput limit fuel steps events { m with activity := .running } := by
  induction fuel generalizing steps events m with
  | zero => rfl
  | succ fuel ih =>
    cases hlimit : limit.reached steps with
    | true =>
      rw [runGuardedOn_of_reached hlimit, runOn_of_reached hlimit, with_running (hstart hlimit)]
    | false =>
      have hpass : ¬ (steps ≠ 0 ∧ m.pc ∈ breakpoints) := by
        rintro ⟨hsteps, hpc⟩
        exact hclear 0 m rfl (isHalted_of_active hm) (by simpa using hsteps) hlimit hpc
      by_cases hgoes : ∃ i, m.GoesOn i
      · obtain ⟨i, h⟩ := hgoes
        rw [runGuardedOn_of_goesOn fuel events hlimit hpass hm h, runOn_of_goesOn h hlimit]
        refine ih h.active (fun _ => h.running) ?_
        intro k c hc hhalted _ hadmitted
        refine hclear (k + 1) c ?_ hhalted (by omega) ?_
        · rw [h.stepTimes_succ hm]
          exact hc
        · rw [← hadmitted, Nat.add_assoc, Nat.add_comm 1]
      · obtain ⟨out, -, hguarded, hplain, -⟩ :=
          runGuardedOn_of_stops fuel events hlimit hpass hm (not_exists.1 hgoes)
        rw [hguarded, hplain]

/-- **A run that comes to a breakpoint stops there**, where the run without
breakpoints would be after as many instructions. -/
theorem runGuardedOn_of_cut (steps : Nat) (events : Array Event) (hm : m.Active)
    (hstart : k = 0 → m.activity = .running)
    (hc : m.stepTimes k = some c) (hhalted : c.isHalted = false) (hpc : c.pc ∈ breakpoints)
    (hsteps : steps + k ≠ 0) (hlimit : limit.reached (steps + k) = false)
    (hfirst : ∀ j d, j < k → m.stepTimes j = some d → steps + j ≠ 0 → d.pc ∉ breakpoints)
    (hfuel : k < fuel) :
    ∃ plain, runOn .toInput (some ((steps + k : Nat) : Int)) (k + 1) steps events
          { m with activity := .running } =
        some { result := .ok ⟨.stepLimit, steps + k⟩, after := c, events := plain } ∧
      runGuardedOn breakpoints limit fuel steps events m =
        some { result := .ok ⟨.breakpoint, steps + k⟩, after := c,
               events := plain.push (.breakpointHit c.pc) } := by
  induction k generalizing fuel steps events m with
  | zero =>
    obtain rfl : m = c := by simpa [stepTimes] using hc
    obtain ⟨fuel, rfl⟩ := Nat.exists_eq_add_one_of_ne_zero (by omega : fuel ≠ 0)
    refine ⟨events, ?_, runGuardedOn_of_breakpoint hlimit hsteps hpc⟩
    rw [with_running (hstart rfl)]
    exact runOn_of_reached (StepLimit.reached_natCast_iff.2 (Nat.le_refl _))
  | succ k ih =>
    obtain ⟨fuel, rfl⟩ := Nat.exists_eq_add_one_of_ne_zero (by omega : fuel ≠ 0)
    obtain ⟨-, i, h, hrest⟩ := goesOn_of_stepTimes hc hhalted
    have hnow : limit.reached steps = false := StepLimit.reached_of_le hlimit (by omega)
    have hpass : ¬ (steps ≠ 0 ∧ m.pc ∈ breakpoints) := by
      rintro ⟨hne, hmem⟩
      exact hfirst 0 m (by omega) rfl (by simpa using hne) hmem
    have hlater : ∀ j d, j < k → m.advance.after.stepTimes j = some d → steps + 1 + j ≠ 0 →
        d.pc ∉ breakpoints := by
      intro j d hj hd _
      exact hfirst (j + 1) d (by omega) (by rw [h.stepTimes_succ hm]; exact hd) (by omega)
    have hsum : steps + 1 + k = steps + (k + 1) := by omega
    obtain ⟨plain, hplain, hguarded⟩ := ih (steps + 1) (events ++ m.advance.events) h.active
      (fun _ => h.running) hrest (by omega) (by rw [hsum]; exact hlimit) hlater
      (by omega : k < fuel)
    rw [hsum] at hplain hguarded
    refine ⟨plain, ?_, ?_⟩
    · have hadmits : StepLimit.reached (some ((steps + (k + 1) : Nat) : Int)) steps = false := by
        rw [Bool.eq_false_iff, ne_eq, StepLimit.reached_natCast_iff]
        omega
      rw [runOn_of_goesOn h hadmits]
      exact hplain
    · rw [runGuardedOn_of_goesOn fuel events hnow hpass hm h]
      exact hguarded

/-- **No instruction at a breakpoint is executed, but the first of a run.** -/
theorem runGuardedOn_addresses
    (h : runGuardedOn breakpoints limit fuel steps events m = some out) :
    ∃ is, instructionsOf out.events = instructionsOf events ++ is ∧
      (∀ i ∈ is.tail, i.address ∉ breakpoints) ∧
      (steps ≠ 0 → ∀ i ∈ is, i.address ∉ breakpoints) := by
  induction fuel generalizing steps events m with
  | zero => cases h
  | succ fuel ih =>
    cases hlimit : limit.reached steps with
    | true =>
      rw [runGuardedOn_of_reached hlimit] at h
      obtain rfl := Option.some.inj h
      exact ⟨[], by simp, by simp, by simp⟩
    | false =>
      by_cases hbreak : steps ≠ 0 ∧ m.pc ∈ breakpoints
      · rw [runGuardedOn_of_breakpoint hlimit hbreak.1 hbreak.2] at h
        obtain rfl := Option.some.inj h
        exact ⟨[], by simp [instructionsOf, Event.instruction?], by simp, by simp⟩
      -- past the guard, the program counter is at no breakpoint but at the start
      have hpc : steps ≠ 0 → m.pc ∉ breakpoints := fun hne hmem => hbreak ⟨hne, hmem⟩
      by_cases hm : m.Active
      · by_cases hgoes : ∃ i, m.GoesOn i
        · obtain ⟨i, hi⟩ := hgoes
          rw [runGuardedOn_of_goesOn fuel events hlimit hbreak hm hi] at h
          obtain ⟨is, hevents, -, hall⟩ := ih h
          have hrest := hall (by omega)
          have haddress := address_of_executed hi.1
          refine ⟨i :: is, by simp [hevents, instructionsOf_executed hi.1], hrest, ?_⟩
          intro hne j hj
          rcases List.mem_cons.1 hj with rfl | hj
          · rw [haddress]
            exact hpc hne
          · exact hrest j hj
        · obtain ⟨out', is, hguarded, -, hevents, htail, haddress⟩ :=
            runGuardedOn_of_stops fuel events hlimit hbreak hm (not_exists.1 hgoes)
          obtain rfl : out' = out := Option.some.inj (hguarded.symm.trans h)
          refine ⟨is, hevents, by simp [htail], fun hne j hj => ?_⟩
          rw [haddress j hj]
          exact hpc hne
      · obtain ⟨ran, -, -, hnone, hlook⟩ :=
          runGuardedOn_of_not_active fuel events hlimit hbreak hm
        rw [hlook] at h
        obtain rfl := Option.some.inj h
        exact ⟨[], by simp [hnone], by simp, by simp⟩

/-- And a run that has not come to its end yet has come to no breakpoint. -/
theorem not_mem_of_runGuardedOn_eq_none
    (h : runGuardedOn breakpoints limit fuel steps events m = none) (hk : k < fuel)
    (hsteps : steps + k ≠ 0) (hc : m.stepTimes k = some c) : c.pc ∉ breakpoints := by
  induction fuel generalizing steps events m k with
  | zero => omega
  | succ fuel ih =>
    cases hlimit : limit.reached steps with
    | true => simp [runGuardedOn_of_reached hlimit] at h
    | false =>
      by_cases hbreak : steps ≠ 0 ∧ m.pc ∈ breakpoints
      · simp [runGuardedOn_of_breakpoint hlimit hbreak.1 hbreak.2] at h
      cases k with
      | zero =>
        obtain rfl : m = c := by simpa [stepTimes] using hc
        exact fun hmem => hbreak ⟨hsteps, hmem⟩
      | succ k =>
        have hm : m.Active := by
          by_contra hm
          obtain ⟨ran, -, -, -, hlook⟩ :=
            runGuardedOn_of_not_active fuel events hlimit hbreak hm
          simp [hlook] at h
        by_cases hgoes : ∃ i, m.GoesOn i
        · obtain ⟨i, hi⟩ := hgoes
          rw [runGuardedOn_of_goesOn fuel events hlimit hbreak hm hi] at h
          rw [hi.stepTimes_succ hm] at hc
          exact ih h (by omega) (by omega) hc
        · obtain ⟨out, -, hguarded, -⟩ :=
            runGuardedOn_of_stops fuel events hlimit hbreak hm (not_exists.1 hgoes)
          simp [hguarded] at h

/-- A run with breakpoints executes what steps would execute. -/
theorem runGuardedOn_follows
    (h : runGuardedOn breakpoints limit fuel steps events m = some out) :
    ∃ is, m.Follows is out.after ∧ instructionsOf out.events = instructionsOf events ++ is := by
  induction fuel generalizing steps events m with
  | zero => cases h
  | succ fuel ih =>
    rw [runGuardedOn] at h
    split at h
    · obtain rfl := Option.some.inj h
      exact ⟨[], .refl m, by simp⟩
    split at h
    · obtain rfl := Option.some.inj h
      exact ⟨[], .refl m, by simp [instructionsOf, Event.instruction?]⟩
    cases hran : m.run 2 .toInput (some 1) with
    | none => simp [hran] at h
    | some ran =>
      obtain ⟨is, hfollows, hevents, -⟩ := run_follows hran
      simp only [hran] at h
      split at h
      · obtain rfl := Option.some.inj h
        exact ⟨is, hfollows, by simp [hevents]⟩
      split at h
      · obtain ⟨js, hrest, hmore⟩ := ih h
        exact ⟨is ++ js, hfollows.trans hrest, by simp [hmore, hevents]⟩
      · obtain rfl := Option.some.inj h
        exact ⟨is, hfollows, by simp [hevents]⟩

theorem runGuarded_follows (h : m.runGuarded fuel breakpoints limit = some out) :
    m.Follows (instructionsOf out.events) out.after := by
  rw [runGuarded] at h
  split at h
  · obtain ⟨is, hfollows, rfl, -⟩ := run_follows h
    exact hfollows
  · obtain ⟨is, hfollows, hevents⟩ := runGuardedOn_follows h
    rw [hevents, instructionsOf_empty, List.nil_append]
    exact hfollows

/-! ## Cuts -/

/-- **A cut.** After `k` instructions, at least one, the machine has become `c`,
which has not halted and is at a breakpoint, and the limit admits one more. -/
structure CutAt (breakpoints : List Int) (limit : StepLimit) (m : Machine) (k : Nat)
    (c : Machine) : Prop where
  moved : 1 ≤ k
  reached : m.stepTimes k = some c
  going : c.isHalted = false
  breakpoint : c.pc ∈ breakpoints
  admitted : limit.reached k = false

theorem CutAt.active (h : m.CutAt breakpoints limit k c) : m.Active := by
  obtain ⟨k, rfl⟩ := Nat.exists_eq_add_one_of_ne_zero (Nat.one_le_iff_ne_zero.1 h.moved)
  exact (goesOn_of_stepTimes h.reached h.going).1

/-- Before the first cut no machine on the way is at a breakpoint. -/
theorem CutAt.not_mem_of_first (h : m.CutAt breakpoints limit k c)
    (hfirst : ∀ j d, j < k → ¬ m.CutAt breakpoints limit j d) {j : Nat} (hj : j < k)
    (hj0 : j ≠ 0) (hd : m.stepTimes j = some d) : d.pc ∉ breakpoints := by
  intro hmem
  have hgoing : d.isHalted = false := by
    obtain ⟨n, rfl⟩ := Nat.exists_eq_add_of_le (Nat.le_of_lt hj)
    have hlater : d.stepTimes n = some c := by
      rw [← stepTimes_add hd]
      exact h.reached
    exact isHalted_of_stepTimes hlater h.going
  have hadmitted : limit.reached j = false := StepLimit.reached_of_le h.admitted (by omega)
  exact hfirst j d hj ⟨by omega, hd, hgoing, hmem, hadmitted⟩

end Machine

end IntMachine
