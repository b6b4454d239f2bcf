import IntMachine.Proofs.Guarded
/-!
# How runs end

A run that does not find its machine stopped for good ends in one of six ways,
which `Ended` lists with what the machine is doing in the end (`run_ended`). A
run executes no more than its limit allows, and reports the limit only where it
has executed as much (`run_within`).
-/

namespace IntMachine.Machine

variable {mode : RunMode} {limit : StepLimit} {fuel steps N : Nat} {events : Array Event}
variable {m : Machine} {out : Outcome Machine MachineError RunEnd} {stop : RunEnd}

/-- The machine waits for input, and for nothing else. -/
structure Starved (m : Machine) : Prop where
  waits : m.activity = .awaitingInput
  stuck : m.advance.result = .ok none

theorem Starved.active (h : m.Starved) : m.Active := .inr h.waits

theorem starved_of_advance (h : m.advance.result = .ok none) : m.advance.after.Starved := by
  have hafter : m.advance.after = { m with activity := .awaitingInput } := by
    rw [advance_of_none h]
  rw [hafter]
  exact ⟨rfl, by rw [advance_with_activity, h]⟩

/-- **How a run ends** that may be asked to execute something. -/
inductive Ended (mode : RunMode) (limit : StepLimit) (out : Outcome Machine MachineError RunEnd) :
    Prop
  /-- It has executed all that it may. -/
  | cut {n : Nat} : out.result = .ok ⟨.stepLimit, n⟩ → limit.reached n = true →
      out.after.activity = .running → Ended mode limit out
  /-- It has met an ill-formed instruction. -/
  | refused {e : DecodeFailure} : out.result = .error (.decode e) →
      out.after.activity = .failed e → Ended mode limit out
  /-- It lacks input that it was to have from the start. -/
  | exhausted : mode = .toHalt → out.result = .error (.inputExhausted out.after.pc) →
      out.after.Starved → Ended mode limit out
  | suspended {n : Nat} : mode ≠ .toHalt → out.result = .ok ⟨.awaitingInput, n⟩ →
      out.after.Starved → Ended mode limit out
  | halted {n : Nat} : out.result = .ok ⟨.halted, n⟩ → out.after.activity = .halted →
      Ended mode limit out
  | output {v : Int} {n : Nat} : mode = .toOutput → out.result = .ok ⟨.output v, n⟩ →
      out.after.activity = .running → Ended mode limit out

theorem runOn_ended (hm : m.activity = .running)
    (h : runOn mode limit fuel steps events m = some out) : Ended mode limit out := by
  induction fuel generalizing steps events m with
  | zero => cases h
  | succ fuel ih =>
    rcases runOn_cases h with ⟨hlimit, rfl⟩ | ⟨-, ⟨e, hadv, rfl⟩ | ⟨hadv, rfl⟩ |
      ⟨i, stop, hadv, hstop, rfl⟩ | ⟨i, hadv, hstop, hrest⟩⟩
    · exact .cut rfl hlimit hm
    · rcases advance_cases m with ⟨d, -, heq⟩ | ⟨i, -, -, heq⟩ | ⟨i, next, m', -, -, -, heq⟩
      · obtain rfl : MachineError.decode d = e := by simpa [heq] using hadv
        exact .refused rfl (by rw [heq])
      · simp [heq] at hadv
      · simp [heq] at hadv
    · -- what lacking input comes to depends on the mode alone
      have hstarved := starved_of_advance hadv
      by_cases hmode : mode = .toHalt
      · exact .exhausted hmode (if_pos hmode) hstarved
      · exact .suspended hmode (if_neg hmode) hstarved
    · have hactivity := (advance_after_of_executed hadv).2
      by_cases hop : i.opcode = .halt
      · rw [if_pos hop] at hactivity
        obtain rfl : stop = .halted := by
          simpa [stopAfter?, isHalted, hactivity, eq_comm] using hstop
        exact .halted rfl hactivity
      · rw [if_neg hop] at hactivity
        obtain ⟨⟨hmode, -⟩, rfl⟩ := by simpa [stopAfter?, isHalted, hactivity] using hstop
        exact .output hmode rfl hactivity
    · exact ih (running_of_stopAfter?_eq_none hadv hstop) hrest

theorem run_ended (hm : m.Active) (h : m.run fuel mode limit = some out) :
    Ended mode limit out := by
  rw [run_of_active hm] at h
  exact runOn_ended rfl h

/-- **What a run is refused for** that may be asked to execute something: an
ill-formed instruction, or input that it was to have from the start. -/
theorem refused_cases {e : MachineError} (hm : m.Active) (h : m.run fuel mode limit = some out)
    (hresult : out.result = .error e) :
    (∃ d, e = .decode d) ∨ (mode = .toHalt ∧ e = .inputExhausted out.after.pc) := by
  cases run_ended hm h with
  | @refused d hr => exact .inl ⟨d, Except.error.inj (hresult.symm.trans hr)⟩
  | exhausted hmode hr => exact .inr ⟨hmode, Except.error.inj (hresult.symm.trans hr)⟩
  | cut hr | suspended _ hr | halted hr | output _ hr => cases hr.symm.trans hresult

/-- **A run to the end does not wait.** -/
theorem stop_ne_awaitingInput (hm : m.Active) (h : m.run fuel .toHalt limit = some out)
    (hresult : out.result = .ok stop) : stop.stop ≠ .awaitingInput := by
  cases run_ended hm h with
  | cut hr | halted hr =>
    obtain rfl := Except.ok.inj (hr.symm.trans hresult)
    simp
  | refused hr | exhausted _ hr => cases hr.symm.trans hresult
  | suspended hmode => exact absurd rfl hmode
  | output hmode => cases hmode

/-- **A run to the end that succeeds has come to a halt**, or had come to it before. -/
theorem isHalted_of_run (h : m.run fuel .toHalt = some out) (hresult : out.result = .ok stop) :
    out.after.isHalted = true := by
  cases hm : m.activity with
  | running | awaitingInput =>
    cases run_ended (by simp [Active, hm]) h with
    | cut _ hreached => cases hreached
    | refused hr | exhausted _ hr => cases hr.symm.trans hresult
    | suspended hmode => exact absurd rfl hmode
    | halted _ hend => simp [isHalted, hend]
    | output hmode => cases hmode
  | halted =>
    rw [run, hm] at h
    obtain rfl := Option.some.inj h
    simp [isHalted, hm]
  | failed cause =>
    rw [run, hm] at h
    obtain rfl := Option.some.inj h
    cases hresult

/-! ## Limits -/

/-- What a run stops for behind an instruction is a halt or an output. -/
theorem stopAfter?_cases {i : Instruction} {stop : Stop} (h : stopAfter? mode m i = some stop) :
    stop = .halted ∨ ∃ v, stop = .output v := by
  unfold stopAfter? at h
  split at h
  · exact .inl (Option.some.inj h).symm
  · split at h
    · exact .inr ⟨_, (Option.some.inj h).symm⟩
    · cases h

/-- No instruction and no lack of input is reported as the limit. -/
theorem stopAfter?_ne_stepLimit {i : Instruction} : stopAfter? mode m i ≠ some .stepLimit := by
  intro h
  simpa using stopAfter?_cases h

theorem starved_ne_stepLimit : starved mode m steps ≠ .ok ⟨.stepLimit, N⟩ := by
  unfold starved
  split <;> simp

theorem runOn_within (hsteps : steps ≤ N)
    (h : runOn mode (some (N : Int)) fuel steps events m = some out) :
    (instructionsOf out.events).length + steps ≤ (instructionsOf events).length + N ∧
      ∀ n, out.result = .ok ⟨.stepLimit, n⟩ → n = N := by
  induction fuel generalizing steps events m with
  | zero => cases h
  | succ fuel ih =>
    rcases runOn_cases h with ⟨hlimit, rfl⟩ | ⟨hlimit, ⟨e, hadv, rfl⟩ | ⟨hadv, rfl⟩ |
      ⟨i, stop, hadv, hstop, rfl⟩ | ⟨i, hadv, hstop, hrest⟩⟩
    · have hge : N ≤ steps := StepLimit.reached_natCast_iff.1 hlimit
      refine ⟨by dsimp only; omega, ?_⟩
      rintro n ⟨⟩
      omega
    · obtain ⟨a, -, -, hnone⟩ := advance_of_not_executed (m := m) (by simp [hadv])
      refine ⟨by simpa [hnone] using hsteps, ?_⟩
      rintro n ⟨⟩
    · obtain ⟨a, -, -, hnone⟩ := advance_of_not_executed (m := m) (by simp [hadv])
      exact ⟨by simpa [hnone] using hsteps, fun n hn => absurd hn starved_ne_stepLimit⟩
    · -- the limit is looked at before an instruction, never behind it
      have hlt : steps < N := by simpa [StepLimit.reached] using hlimit
      refine ⟨by simp [instructionsOf_executed hadv]; omega, ?_⟩
      rintro n ⟨⟩
      exact absurd hstop stopAfter?_ne_stepLimit
    · have hlt : steps < N := by simpa [StepLimit.reached] using hlimit
      obtain ⟨hlength, hcut⟩ := ih hlt hrest
      refine ⟨?_, hcut⟩
      rw [instructionsOf_append, instructionsOf_executed hadv, List.length_append] at hlength
      simp only [List.length_singleton] at hlength
      omega

/-- **A run stays within its limit**, and where it is stopped by the limit it has
executed as much as it may. -/
theorem run_within (hm : m.Active) (h : m.run fuel mode (some (N : Int)) = some out) :
    (instructionsOf out.events).length ≤ N ∧
      ∀ n, out.result = .ok ⟨.stepLimit, n⟩ → n = N := by
  rw [run_of_active hm] at h
  simpa using runOn_within (Nat.zero_le N) h

end IntMachine.Machine
