import IntMachine.Proofs.Trail
/-!
# Runs as trails

A run is a trail of steps and a reason to stop. `runOn_cases` lists what one
look at the machine can come to; from it, by induction on the looks, a run
executes what steps would execute (`run_follows`) and does not depend on how
much fuel it had to spare (`run_mono`).
-/

namespace IntMachine.Machine

variable {mode : RunMode} {limit : StepLimit} {fuel steps : Nat} {events : Array Event}
variable {m : Machine} {out : Outcome Machine MachineError RunEnd}

/-! ## One look at the machine -/

theorem runOn_of_reached (hlimit : limit.reached steps = true) :
    runOn mode limit (fuel + 1) steps events m =
      some { result := .ok ⟨.stepLimit, steps⟩, after := m, events } := by
  rw [runOn, if_pos hlimit]

theorem runOn_of_error {e : MachineError} (hlimit : limit.reached steps = false)
    (h : m.advance.result = .error e) :
    runOn mode limit (fuel + 1) steps events m =
      some { result := .error e, after := m.advance.after,
             events := events ++ m.advance.events } := by
  rw [runOn, if_neg (by simp [hlimit])]
  simp only [h]

theorem runOn_of_none (hlimit : limit.reached steps = false) (h : m.advance.result = .ok none) :
    runOn mode limit (fuel + 1) steps events m =
      some { result := starved mode m.advance.after steps, after := m.advance.after,
             events := events ++ m.advance.events } := by
  rw [runOn, if_neg (by simp [hlimit])]
  simp only [h]

theorem runOn_of_stop {i : Instruction} {stop : Stop} (hlimit : limit.reached steps = false)
    (h : m.advance.result = .ok (some i))
    (hstop : stopAfter? mode m.advance.after i = some stop) :
    runOn mode limit (fuel + 1) steps events m =
      some { result := .ok ⟨stop, steps + 1⟩, after := m.advance.after,
             events := events ++ m.advance.events } := by
  rw [runOn, if_neg (by simp [hlimit])]
  simp only [h, hstop]

theorem runOn_of_go {i : Instruction} (hlimit : limit.reached steps = false)
    (h : m.advance.result = .ok (some i)) (hstop : stopAfter? mode m.advance.after i = none) :
    runOn mode limit (fuel + 1) steps events m =
      runOn mode limit fuel (steps + 1) (events ++ m.advance.events) m.advance.after := by
  rw [runOn, if_neg (by simp [hlimit])]
  simp only [h, hstop]

/-- **One look of a run.** It stops at the limit, where nothing can be
executed, or after an instruction; or else it goes on. -/
theorem runOn_cases (h : runOn mode limit (fuel + 1) steps events m = some out) :
    (limit.reached steps = true ∧
      out = { result := .ok ⟨.stepLimit, steps⟩, after := m, events }) ∨
    (limit.reached steps = false ∧
      ((∃ e, m.advance.result = .error e ∧
        out = { result := .error e, after := m.advance.after,
                events := events ++ m.advance.events }) ∨
       (m.advance.result = .ok none ∧
        out = { result := starved mode m.advance.after steps, after := m.advance.after,
                events := events ++ m.advance.events }) ∨
       (∃ i stop, m.advance.result = .ok (some i) ∧
        stopAfter? mode m.advance.after i = some stop ∧
        out = { result := .ok ⟨stop, steps + 1⟩, after := m.advance.after,
                events := events ++ m.advance.events }) ∨
       (∃ i, m.advance.result = .ok (some i) ∧ stopAfter? mode m.advance.after i = none ∧
        runOn mode limit fuel (steps + 1) (events ++ m.advance.events) m.advance.after =
          some out))) := by
  cases hlimit : limit.reached steps with
  | true =>
    rw [runOn_of_reached hlimit] at h
    exact .inl ⟨rfl, (Option.some.inj h).symm⟩
  | false =>
    refine .inr ⟨rfl, ?_⟩
    cases hadv : m.advance.result with
    | error e =>
      rw [runOn_of_error hlimit hadv] at h
      exact .inl ⟨e, rfl, (Option.some.inj h).symm⟩
    | ok tried =>
      cases tried with
      | none =>
        rw [runOn_of_none hlimit hadv] at h
        exact .inr (.inl ⟨rfl, (Option.some.inj h).symm⟩)
      | some i =>
        cases hstop : stopAfter? mode m.advance.after i with
        | some stop =>
          rw [runOn_of_stop hlimit hadv hstop] at h
          exact .inr (.inr (.inl ⟨i, stop, rfl, hstop, (Option.some.inj h).symm⟩))
        | none =>
          rw [runOn_of_go hlimit hadv hstop] at h
          exact .inr (.inr (.inr ⟨i, rfl, hstop, h⟩))

/-- A run of an active machine. -/
theorem run_of_active (hm : m.Active) :
    m.run fuel mode limit = runOn mode limit fuel 0 #[] { m with activity := .running } := by
  rw [run]
  rcases hm with hm | hm <;> rw [hm]

/-- A machine that has stopped for good takes no notice of input. -/
theorem run_of_not_active (hm : ¬ m.Active) :
    ∃ out, m.run fuel mode limit = some out ∧ out.after = m ∧ instructionsOf out.events = [] := by
  cases ha : m.activity with
  | running => exact absurd (.inl ha) hm
  | awaitingInput => exact absurd (.inr ha) hm
  | halted | failed cause =>
    rw [run, ha]
    exact ⟨_, rfl, rfl, rfl⟩

/-- A run that goes on after an instruction leaves the machine running. -/
theorem running_of_stopAfter?_eq_none {i : Instruction} (h : m.advance.result = .ok (some i))
    (hstop : stopAfter? mode m.advance.after i = none) : m.advance.after.activity = .running := by
  have hactivity := (advance_after_of_executed h).2
  split at hactivity
  · simp [stopAfter?, isHalted, hactivity] at hstop
  · exact hactivity

/-- Where nothing is executed, nothing follows. -/
theorem idle_follows (hm : m.Active) (h : ∀ i, m.advance.result ≠ .ok (some i)) :
    m.Follows [] m.advance.after ∧ instructionsOf m.advance.events = [] := by
  obtain ⟨a, -, hafter, hnone⟩ := advance_of_not_executed h
  rw [hafter]
  exact ⟨follows_nil fun _ => hm, hnone⟩

/-- **A run executes what steps would execute**, and counts it. -/
theorem runOn_follows (hm : m.Active) (h : runOn mode limit fuel steps events m = some out) :
    ∃ is, m.Follows is out.after ∧ instructionsOf out.events = instructionsOf events ++ is ∧
      ∀ r, out.result = .ok r → r.steps = steps + is.length := by
  induction fuel generalizing steps events m with
  | zero => cases h
  | succ fuel ih =>
    rcases runOn_cases h with ⟨-, rfl⟩ | ⟨-, ⟨e, hadv, rfl⟩ | ⟨hadv, rfl⟩ |
      ⟨i, stop, hadv, -, rfl⟩ | ⟨i, hadv, hstop, hrest⟩⟩
    · refine ⟨[], .refl m, by simp, ?_⟩
      rintro r ⟨⟩
      rfl
    · obtain ⟨hfollows, hnone⟩ := idle_follows hm (by simp [hadv])
      refine ⟨[], hfollows, by simp [hnone], ?_⟩
      rintro r ⟨⟩
    · obtain ⟨hfollows, hnone⟩ := idle_follows hm (by simp [hadv])
      refine ⟨[], hfollows, by simp [hnone], ?_⟩
      intro r hr
      simp only [starved] at hr
      split at hr
      · cases hr
      · cases hr; rfl
    · refine ⟨[i], follows_of_advance hm hadv, by simp [instructionsOf_executed hadv], ?_⟩
      rintro r ⟨⟩
      rfl
    · have hrunning := running_of_stopAfter?_eq_none hadv hstop
      obtain ⟨is, hfollows, hevents, hsteps⟩ := ih (active_of_running hrunning) hrest
      refine ⟨i :: is, (follows_of_advance hm hadv).trans hfollows, ?_, fun r hr => ?_⟩
      · rw [hevents]; simp [instructionsOf_executed hadv]
      · rw [hsteps r hr]; simp; omega

/-- The same for a whole run, from whatever the machine is doing. -/
theorem run_follows (h : m.run fuel mode limit = some out) :
    ∃ is, m.Follows is out.after ∧ instructionsOf out.events = is ∧
      ∀ r, out.result = .ok r → r.steps = is.length := by
  cases hm : m.activity with
  | running | awaitingInput =>
    have hactive : m.Active := by simp [Active, hm]
    rw [run_of_active hactive] at h
    obtain ⟨is, hfollows, hevents, hsteps⟩ := runOn_follows (active_of_running rfl) h
    refine ⟨is, ?_, by simpa using hevents, by simpa using hsteps⟩
    exact (follows_nil fun _ => hactive).trans hfollows
  | halted =>
    obtain rfl := by simpa [run, hm] using h
    exact ⟨[], .refl m, rfl, by rintro r ⟨⟩; rfl⟩
  | failed cause =>
    obtain rfl := by simpa [run, hm] using h
    exact ⟨[], .refl m, rfl, by rintro r ⟨⟩⟩

theorem step_events_of_active (hm : m.Active) : m.step.events = m.advance.events := by
  rw [step, obstacle?_eq_none_iff.2 hm]
  dsimp only
  cases m.advance.result with
  | error e => rfl
  | ok tried => cases tried <;> rfl

/-- A step is a trail of one instruction or none. -/
theorem step_follows (m : Machine) : m.Follows (instructionsOf m.step.events) m.step.after := by
  by_cases hm : m.Active
  · rw [step_after_of_active hm, step_events_of_active hm]
    by_cases hadv : ∃ i, m.advance.result = .ok (some i)
    · obtain ⟨i, hadv⟩ := hadv
      rw [instructionsOf_executed hadv]
      exact follows_of_advance hm hadv
    · obtain ⟨hfollows, hnone⟩ := idle_follows hm (not_exists.1 hadv)
      rwa [hnone]
  · rw [step]
    cases ho : m.obstacle? with
    | none => exact absurd (obstacle?_eq_none_iff.1 ho) hm
    | some e => exact .refl m

/-! ## Fuel and counting -/

/-- **More fuel changes nothing.** -/
theorem runOn_mono {fuel' : Nat} (h : runOn mode limit fuel steps events m = some out)
    (hle : fuel ≤ fuel') : runOn mode limit fuel' steps events m = some out := by
  induction fuel generalizing fuel' steps events m with
  | zero => cases h
  | succ fuel ih =>
    obtain ⟨fuel', rfl⟩ := Nat.exists_eq_add_one_of_ne_zero (by omega : fuel' ≠ 0)
    rcases runOn_cases h with ⟨hlimit, rfl⟩ | ⟨hlimit, ⟨e, hadv, rfl⟩ | ⟨hadv, rfl⟩ |
      ⟨i, stop, hadv, hstop, rfl⟩ | ⟨i, hadv, hstop, hrest⟩⟩
    · exact runOn_of_reached hlimit
    · exact runOn_of_error hlimit hadv
    · exact runOn_of_none hlimit hadv
    · exact runOn_of_stop hlimit hadv hstop
    · rw [runOn_of_go hlimit hadv hstop]
      exact ih hrest (by omega)

theorem run_mono {fuel' : Nat} (h : m.run fuel mode limit = some out) (hle : fuel ≤ fuel') :
    m.run fuel' mode limit = some out := by
  cases hm : m.activity with
  | running | awaitingInput =>
    simp only [run, hm] at h ⊢
    exact runOn_mono h hle
  | halted | failed cause =>
    simp only [run, hm] at h ⊢
    exact h

/-- **A run ends in one way**, whatever the fuel. -/
theorem run_unique {fuel' : Nat} {out' : Outcome Machine MachineError RunEnd}
    (h : m.run fuel mode limit = some out) (h' : m.run fuel' mode limit = some out') :
    out = out' := by
  have hmore := run_mono h (Nat.le_max_left fuel fuel')
  have hmore' := run_mono h' (Nat.le_max_right fuel fuel')
  exact Option.some.inj (hmore.symm.trans hmore')

/-- **Where a run counts from does not matter**, as long as the limit moves
along. -/
theorem runOn_shift {limit' : StepLimit} {before : Nat} {earlier : Array Event}
    (hlimit : ∀ k, limit'.reached (before + k) = limit.reached k) :
    runOn mode limit' fuel (before + steps) (earlier ++ events) m =
      (runOn mode limit fuel steps events m).map fun out =>
        { result := out.result.map fun r => { r with steps := before + r.steps },
          after := out.after, events := earlier ++ out.events } := by
  induction fuel generalizing steps events m with
  | zero => rfl
  | succ fuel ih =>
    cases hreached : limit.reached steps with
    | true => rw [runOn_of_reached hreached, runOn_of_reached ((hlimit steps).trans hreached)]; rfl
    | false =>
      have hgoes := (hlimit steps).trans hreached
      cases hadv : m.advance.result with
      | error e =>
        rw [runOn_of_error hreached hadv, runOn_of_error hgoes hadv, Array.append_assoc]
        rfl
      | ok tried =>
        cases tried with
        | none =>
          rw [runOn_of_none hreached hadv, runOn_of_none hgoes hadv, Array.append_assoc]
          simp only [starved]
          split <;> rfl
        | some i =>
          cases hstop : stopAfter? mode m.advance.after i with
          | some stop =>
            rw [runOn_of_stop hreached hadv hstop, runOn_of_stop hgoes hadv hstop,
              Array.append_assoc]
            rfl
          | none =>
            rw [runOn_of_go hreached hadv hstop, runOn_of_go hgoes hadv hstop, Array.append_assoc,
              Nat.add_assoc, ih]

/-- A run without a limit may as well have started where it was continued. -/
theorem runOn_restarted (h : runOn mode none fuel steps events m = some out) :
    ∃ rest, runOn mode none fuel 0 #[] m = some rest ∧ rest.after = out.after ∧
      out.events = events ++ rest.events := by
  have hlimit : ∀ k, StepLimit.reached none (steps + k) = StepLimit.reached none k := fun _ => rfl
  have hshift : runOn mode none fuel (steps + 0) (events ++ #[]) m = _ := runOn_shift hlimit
  rw [Nat.add_zero, Array.append_empty, h] at hshift
  obtain ⟨rest, hrest, rfl⟩ := Option.map_eq_some_iff.1 hshift.symm
  exact ⟨rest, hrest, rfl, rfl⟩

end IntMachine.Machine
