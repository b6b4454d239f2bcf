import IntMachine.Proofs.Endings
/-!
# Limits cut runs

A limit takes no part in what a run does before it is reached. So a run that is
cut at its limit is the beginning of every run with room for more, and a run that
ends for another reason is the whole of it (`runOn_of_admits`); taking up a run
that was cut is the same as never having cut it (`limits_only_cut`).
-/

namespace IntMachine

/-- A run with this limit may execute `n` instructions. -/
def StepLimit.Admits (limit : StepLimit) (n : Nat) : Prop := ∀ k ∈ limit, (n : Int) ≤ k

theorem StepLimit.admits_natCast {a n : Nat} (h : n ≤ a) : Admits (some (a : Int)) n := by
  rintro k ⟨⟩
  exact Int.ofNat_le.2 h

theorem StepLimit.Admits.reached {limit : StepLimit} {n steps : Nat} (h : limit.Admits n)
    (hsteps : steps < n) : limit.reached steps = false := by
  cases limit with
  | none => rfl
  | some k =>
    have hle : (n : Int) ≤ k := h k rfl
    rw [Bool.eq_false_iff, ne_eq, StepLimit.reached, decide_eq_true_eq]
    omega

namespace Machine

variable {mode : RunMode} {limit : StepLimit} {fuel steps N a b n : Nat} {events : Array Event}
variable {m : Machine} {first : Outcome Machine MachineError RunEnd}

/-- **A limit takes no part in a run before it is reached.** Under any limit with
room for as much, the run goes on from where it was cut, or ends as it did. -/
theorem runOn_of_admits (hlimit : limit.Admits N) (hsteps : steps ≤ N)
    (h : runOn mode (some (N : Int)) fuel steps events m = some first) :
    (first.result = .ok ⟨.stepLimit, N⟩ ∧ ∀ more, runOn mode limit (N - steps + more) steps events m
        = runOn mode limit more N first.events first.after) ∨
      ((∀ n, first.result ≠ .ok ⟨.stepLimit, n⟩) ∧
        runOn mode limit fuel steps events m = some first) := by
  induction fuel generalizing steps events m with
  | zero => cases h
  | succ fuel ih =>
    rcases runOn_cases h with ⟨hreached, rfl⟩ | ⟨hreached, hgoes⟩
    · obtain rfl : steps = N := by
        have hle := StepLimit.reached_natCast_iff.1 hreached
        omega
      exact .inl ⟨rfl, fun more => by rw [Nat.sub_self, Nat.zero_add]⟩
    · have hlt : steps < N := by simpa [StepLimit.reached] using hreached
      have hroom := hlimit.reached hlt
      rcases hgoes with ⟨e, hadv, rfl⟩ | ⟨hadv, rfl⟩ | ⟨i, stop, hadv, hstop, rfl⟩ |
        ⟨i, hadv, hstop, hrest⟩
      · exact .inr ⟨by simp, runOn_of_error hroom hadv⟩
      · exact .inr ⟨fun n => starved_ne_stepLimit, runOn_of_none hroom hadv⟩
      · refine .inr ⟨fun n hn => ?_, runOn_of_stop hroom hadv hstop⟩
        obtain ⟨rfl, -⟩ : stop = .stepLimit ∧ _ := by simpa using hn
        exact stopAfter?_ne_stepLimit hstop
      · -- both runs take the instruction, and the limit is one instruction nearer
        rcases ih hlt hrest with ⟨hcut, hmore⟩ | ⟨hends, hsame⟩
        · refine .inl ⟨hcut, fun more => ?_⟩
          rw [show N - steps + more = N - (steps + 1) + more + 1 by omega,
            runOn_of_go hroom hadv hstop]
          exact hmore more
        · exact .inr ⟨hends, by rw [runOn_of_go hroom hadv hstop, hsame]⟩

/-- **A run with a limit ends**: it takes one look more than it may execute
instructions. -/
theorem exists_runOn_of_limit (mode : RunMode) (k steps : Nat) (events : Array Event)
    (m : Machine) :
    ∃ out, runOn mode (some ((steps + k : Nat) : Int)) (k + 1) steps events m = some out := by
  induction k generalizing steps events m with
  | zero => exact ⟨_, runOn_of_reached (StepLimit.reached_natCast_iff.2 (Nat.le_refl _))⟩
  | succ k ih =>
    have hroom : StepLimit.reached (some ((steps + (k + 1) : Nat) : Int)) steps = false :=
      (StepLimit.admits_natCast (Nat.le_refl _)).reached (by omega)
    cases hadv : m.advance.result with
    | error e => exact ⟨_, runOn_of_error hroom hadv⟩
    | ok tried =>
      cases tried with
      | none => exact ⟨_, runOn_of_none hroom hadv⟩
      | some i =>
        cases hstop : stopAfter? mode m.advance.after i with
        | some stop => exact ⟨_, runOn_of_stop hroom hadv hstop⟩
        | none =>
          rw [runOn_of_go hroom hadv hstop, show steps + (k + 1) = steps + 1 + k by omega]
          exact ih (steps + 1) _ _

theorem exists_run_of_limit (mode : RunMode) (a : Nat) (m : Machine) :
    ∃ out, ∀ fuel, a < fuel → m.run fuel mode (some (a : Int)) = some out := by
  obtain ⟨out, hout⟩ : ∃ out, m.run (a + 1) mode (some (a : Int)) = some out := by
    by_cases hm : m.Active
    · have hends := exists_runOn_of_limit mode a 0 #[] { m with activity := .running }
      rwa [Nat.zero_add, ← run_of_active hm] at hends
    · obtain ⟨out, hout, -⟩ : ∃ out, m.run (a + 1) mode (some (a : Int)) = some out ∧
        out.after = m ∧ instructionsOf out.events = [] := run_of_not_active hm
      exact ⟨out, hout⟩
  exact ⟨out, fun fuel hfuel => run_mono hout hfuel⟩

/-! ## Runs that are taken up again -/

/-- **A limit takes no part in a run before it is reached**, whatever the machine is
doing. -/
theorem run_of_admits (hlimit : limit.Admits a)
    (h : m.run fuel mode (some (a : Int)) = some first) :
    (first.result = .ok ⟨.stepLimit, a⟩ ∧ first.after.activity = .running ∧
        ∀ more, m.run (a + more) mode limit =
          runOn mode limit more a first.events first.after) ∨
      ((∀ n, first.result ≠ .ok ⟨.stepLimit, n⟩) ∧ m.run fuel mode limit = some first) := by
  by_cases hm : m.Active
  · rw [run_of_active hm] at h
    rcases runOn_of_admits hlimit (Nat.zero_le a) h with ⟨hcut, hmore⟩ | ⟨hends, hsame⟩
    · refine .inl ⟨hcut, ?_, fun more => ?_⟩
      · cases runOn_ended rfl h with
        | cut _ _ hrunning => exact hrunning
        | refused hr | exhausted _ hr | suspended _ hr | halted hr | output _ hr =>
          simp [hcut] at hr
      · rw [run_of_active hm]
        exact hmore more
    · exact .inr ⟨hends, by rw [run_of_active hm, hsame]⟩
  · -- such a machine looks at no limit, and reports none
    refine .inr ?_
    cases ha : m.activity with
    | running => exact absurd (.inl ha) hm
    | awaitingInput => exact absurd (.inr ha) hm
    | halted | failed cause =>
      rw [run, ha] at h ⊢
      obtain rfl := Option.some.inj h
      exact ⟨by simp, rfl⟩

/-- **A run that was cut goes on from there** as if it had not been. -/
theorem run_of_cut (h : m.run fuel mode (some (a : Int)) = some first)
    (hcut : first.result = .ok ⟨.stepLimit, n⟩) (b more : Nat) :
    m.run (a + more) mode (some ((a + b : Nat) : Int)) =
      (first.after.run more mode (some (b : Int))).map fun second =>
        { result := second.result.map fun r => { r with steps := a + r.steps },
          after := second.after, events := first.events ++ second.events } := by
  have hroom := StepLimit.admits_natCast (Nat.le_add_right a b)
  rcases run_of_admits hroom h with ⟨-, hrunning, hmore⟩ | ⟨hends, -⟩
  · -- the second run counts from zero, under the limit that is left
    have hleft : ∀ k, StepLimit.reached (some ((a + b : Nat) : Int)) (a + k) =
        StepLimit.reached (some (b : Int)) k := fun k => by simp [StepLimit.reached]
    have hshift : runOn mode (some ((a + b : Nat) : Int)) more (a + 0) (first.events ++ #[])
        first.after = (runOn mode (some (b : Int)) more 0 #[] first.after).map fun second =>
          { result := second.result.map fun r => { r with steps := a + r.steps },
            after := second.after, events := first.events ++ second.events } := runOn_shift hleft
    rw [Nat.add_zero, Array.append_empty] at hshift
    rw [hmore, hshift, run_of_active (active_of_running hrunning), with_running hrunning]
  · exact absurd hcut (hends n)

/-- **Limits only cut runs.** A run with a limit of `a` instructions ends, on any
machine and in any mode. If it is stopped by the limit, it has executed `a`
instructions, and a run with a limit of `b` from there ends as the run with a limit
of `a + b` does from the start: with the same stop, value or error, on the same
machine, the instructions and events of the two taken together. If it ends in any
other way, then so does every run with room for `a` instructions, and every run
without a limit, in all of this. -/
theorem limits_only_cut (m : Machine) (mode : RunMode) (a b : Nat) :
    ∃ first, (∀ fuel, a < fuel → m.run fuel mode (some (a : Int)) = some first) ∧
      (∀ n, first.result = .ok ⟨.stepLimit, n⟩ → n = a ∧
        ∃ second, (∀ fuel, b < fuel → first.after.run fuel mode (some (b : Int)) = some second) ∧
          ∀ fuel, a + b < fuel →
            m.run fuel mode (some ((a + b : Nat) : Int)) =
              some { result := second.result.map fun r => { r with steps := a + r.steps },
                     after := second.after, events := first.events ++ second.events }) ∧
      ((∀ n, first.result ≠ .ok ⟨.stepLimit, n⟩) →
        ∀ limit : StepLimit, limit.Admits a → ∀ fuel, a < fuel →
          m.run fuel mode limit = some first) := by
  obtain ⟨first, hfirst⟩ := exists_run_of_limit mode a m
  have hone := hfirst (a + 1) (Nat.lt_succ_self a)
  refine ⟨first, hfirst, fun n hcut => ⟨?_, ?_⟩, fun hends limit hlimit fuel hfuel => ?_⟩
  · have hroom := StepLimit.admits_natCast (Nat.le_refl a)
    rcases run_of_admits hroom hone with ⟨hsteps, -⟩ | ⟨hends, -⟩
    · simpa using hcut.symm.trans hsteps
    · exact absurd hcut (hends n)
  · obtain ⟨second, hsecond⟩ := exists_run_of_limit mode b first.after
    refine ⟨second, hsecond, fun fuel hfuel => ?_⟩
    have hboth := run_of_cut hone hcut b (b + 1)
    rw [hsecond (b + 1) (Nat.lt_succ_self b)] at hboth
    exact run_mono hboth (by omega)
  · rcases run_of_admits hlimit (hfirst fuel hfuel) with ⟨hcut, -⟩ | ⟨-, hsame⟩
    · exact absurd hcut (hends a)
    · exact hsame

/-- A run to an output that is cut behind the first instruction comes to the output
at its second limit. -/
theorem an_output_behind_a_cut :
    ∃ first second, (load [3, 9, 4, 9, 99] [7]).run 2 .toOutput (some 1) = some first ∧
      first.result = .ok ⟨.stepLimit, 1⟩ ∧
      first.after.run 2 .toOutput (some 1) = some second ∧ second.result = .ok ⟨.output 7, 1⟩ ∧
      ∃ whole, (load [3, 9, 4, 9, 99] [7]).run 3 .toOutput (some 2) = some whole ∧
        whole.result = .ok ⟨.output 7, 2⟩ ∧ whole.after = second.after := by
  have hseen : ((load [3, 9, 4, 9, 99] [7]).run 2 .toOutput (some 1)).map (fun first =>
      (first.result, (first.after.run 2 .toOutput (some 1)).map (·.result))) =
        some (.ok ⟨.stepLimit, 1⟩, some (.ok ⟨.output 7, 1⟩)) := by decide +kernel
  obtain ⟨first, hfirst, hcut, -⟩ := limits_only_cut (load [3, 9, 4, 9, 99] [7]) .toOutput 1 1
  have hone : (load [3, 9, 4, 9, 99] [7]).run 2 .toOutput (some 1) = some first :=
    hfirst 2 (by decide)
  rw [hone, Option.map_some, Option.some.injEq, Prod.mk.injEq] at hseen
  obtain ⟨-, second, hsecond, hwhole⟩ := hcut 1 hseen.1
  have hrest : first.after.run 2 .toOutput (some 1) = some second := hsecond 2 (by decide)
  have houtput : second.result = .ok ⟨.output 7, 1⟩ := by simpa [hrest] using hseen.2
  exact ⟨first, second, hone, hseen.1, hrest, houtput, _, hwhole 3 (by decide),
    by rw [houtput]; rfl, rfl⟩

end Machine

end IntMachine
