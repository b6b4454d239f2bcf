import IntMachine.Proofs.Guarded
import IntMachine.Session.Breakpoints
/-!
# The breakpoints of a session

A run of a session is the run of its machine, cut before the first instruction
at a breakpoint that it comes to (`run_cut_at_breakpoint`). Breakpoints it never
comes to do not show, unless the limit admits no instruction and the machine is
not running (`run_with_unreached_breakpoints_iff`): a run with breakpoints looks
at the limit before it looks at the machine.
-/

namespace IntMachine.Session

variable {limit : StepLimit} {fuel k : Nat} {s : Session}

/-- The limit a run of the session keeps to: the given one, or else its own. -/
def bound (s : Session) (limit : StepLimit) : StepLimit := limit <|> s.limit

/-- What a call on the machine of the session gives, as a call on the session. -/
def adopt (s : Session) (out : Outcome Machine MachineError RunEnd) :
    Outcome Session MachineError RunEnd :=
  { result := out.result, after := { s with machine := out.after }, events := out.events }

theorem run_of_breakpoints (hB : s.breakpoints ≠ []) :
    s.run fuel limit =
      (Machine.runGuardedOn s.breakpoints (s.bound limit) fuel 0 #[] s.machine).map s.adopt := by
  rw [run, Machine.runGuarded, if_neg hB]
  rfl

theorem run_of_no_breakpoints (hB : s.breakpoints = []) :
    s.run fuel limit = (s.machine.run fuel .toInput (s.bound limit)).map s.adopt := by
  rw [run, Machine.runGuarded, if_pos hB]
  rfl

/-- Where there are no breakpoints, the limit admits an instruction or the
machine is running, a run that comes to no breakpoint is the run of the
machine. -/
theorem run_of_clear
    (hstart : s.breakpoints = [] ∨ (s.bound limit).reached 0 = false ∨
      s.machine.activity = .running)
    (hclear : ∀ k c, ¬ s.machine.CutAt s.breakpoints (s.bound limit) k c) :
    s.run (fuel + 1) limit =
      (s.machine.run (fuel + 1) .toInput (s.bound limit)).map s.adopt := by
  by_cases hB : s.breakpoints = []
  · exact run_of_no_breakpoints hB
  have hstart : (s.bound limit).reached 0 = false ∨ s.machine.activity = .running :=
    hstart.resolve_left hB
  rw [run_of_breakpoints hB]
  by_cases hm : s.machine.Active
  · rw [Machine.runGuardedOn_of_clear hm, Machine.run_of_active hm]
    · intro hreached
      rcases hstart with hadmits | hrunning
      · simp [hreached] at hadmits
      · exact hrunning
    · intro k c hc hgoing hk hadmitted hmem
      rw [Nat.zero_add] at hk hadmitted
      exact hclear k c ⟨by omega, hc, hgoing, hmem, hadmitted⟩
  · have hadmits : (s.bound limit).reached 0 = false := by
      rcases hstart with hadmits | hrunning
      · exact hadmits
      · exact absurd (.inl hrunning) hm
    have hpass : ¬ (0 ≠ 0 ∧ s.machine.pc ∈ s.breakpoints) := by simp
    obtain ⟨ran, hran, hafter, -, hlook⟩ :=
      Machine.runGuardedOn_of_not_active fuel #[] hadmits hpass hm
    rw [hlook, hran, ← hafter]
    cases hresult : ran.result <;> simp [adopt, hresult, Except.map]

/-- **A run with breakpoints is the run without, cut before the first
breakpoint.** If there is a cut, the run stops at the first one, with the
breakpoint as its reason, and leaves the machine that the run without
breakpoints leaves after as many instructions. If there is none, it comes to
what the run without breakpoints comes to. Either way no instruction at a
breakpoint is executed but as the first of the run, also while the run has not
come to its end. -/
theorem run_cut_at_breakpoint (limit : StepLimit) (hB : s.breakpoints ≠ [])
    (hlimit : ∀ n, s.bound limit = some n → 1 ≤ n) :
    (∀ k c, s.machine.CutAt s.breakpoints (s.bound limit) k c →
      (∀ j d, j < k → ¬ s.machine.CutAt s.breakpoints (s.bound limit) j d) →
      ∃ plain, s.machine.run (k + 1) .toInput (some k) =
          some { result := .ok ⟨.stepLimit, k⟩, after := c, events := plain } ∧
        ∀ fuel, k < fuel → s.run fuel limit =
          some { result := .ok ⟨.breakpoint, k⟩, after := { s with machine := c },
                 events := plain.push (.breakpointHit c.pc) }) ∧
    ((∀ k c, ¬ s.machine.CutAt s.breakpoints (s.bound limit) k c) →
      ∀ fuel, s.run (fuel + 1) limit =
        (s.machine.run (fuel + 1) .toInput (s.bound limit)).map s.adopt) ∧
    (∀ fuel out, s.run fuel limit = some out →
      ∀ i ∈ (instructionsOf out.events).tail, i.address ∉ s.breakpoints) ∧
    (∀ fuel k c, s.run fuel limit = none → 1 ≤ k → k < fuel →
      s.machine.stepTimes k = some c → c.pc ∉ s.breakpoints) := by
  have hadmits : (s.bound limit).reached 0 = false := StepLimit.reached_zero_eq_false_iff.2 hlimit
  refine ⟨fun k c hcut hfirst => ?_, fun hclear fuel => ?_, fun fuel out hrun => ?_,
    fun fuel k c hrun hk hfuel hc => ?_⟩
  · have hk : k ≠ 0 := Nat.one_le_iff_ne_zero.1 hcut.moved
    have hbefore : ∀ j d, j < k → s.machine.stepTimes j = some d → 0 + j ≠ 0 →
        d.pc ∉ s.breakpoints := by
      intro j d hj hd hj0
      exact hcut.not_mem_of_first hfirst hj (by omega) hd
    have hrun := fun fuel (hfuel : k < fuel) => Machine.runGuardedOn_of_cut 0 #[]
      hcut.active (fun h => absurd h hk) hcut.reached hcut.going hcut.breakpoint (by omega)
      (by rw [Nat.zero_add]; exact hcut.admitted) hbefore hfuel
    obtain ⟨plain, hplain, -⟩ := hrun (k + 1) (Nat.lt_succ_self k)
    rw [Nat.zero_add] at hplain
    refine ⟨plain, ?_, fun fuel hfuel => ?_⟩
    · rw [Machine.run_of_active hcut.active]
      exact hplain
    · obtain ⟨plain', hplain', hguarded⟩ := hrun fuel hfuel
      rw [Nat.zero_add] at hplain' hguarded
      obtain rfl : plain' = plain := by simpa [hplain'] using hplain
      rw [run_of_breakpoints hB, hguarded]
      rfl
  · exact run_of_clear (.inr (.inl hadmits)) hclear
  · rw [run_of_breakpoints hB] at hrun
    obtain ⟨ran, hran, rfl⟩ := Option.map_eq_some_iff.1 hrun
    obtain ⟨is, hevents, htail, -⟩ := Machine.runGuardedOn_addresses hran
    have his : instructionsOf (s.adopt ran).events = is := by
      rw [adopt, hevents]
      rfl
    rw [his]
    exact htail
  · rw [run_of_breakpoints hB, Option.map_eq_none_iff] at hrun
    exact Machine.not_mem_of_runGuardedOn_eq_none hrun hfuel (by omega) hc

/-- Of four instructions, the run with a breakpoint before the third executes
two. -/
theorem stops_before_the_third_output :
    ∃ c plain, (Machine.load [104, 1, 104, 2, 104, 3, 99]).stepTimes 2 = some c ∧
      c.pc = 4 ∧ c.output.sent = #[1, 2] ∧
      ((start [104, 1, 104, 2, 104, 3, 99]).addBreakpoint 4).run 9 (some 3) =
        some { result := .ok ⟨.breakpoint, 2⟩,
               after := { (start [104, 1, 104, 2, 104, 3, 99]).addBreakpoint 4 with machine := c },
               events := plain } ∧
      ∀ i ∈ (instructionsOf plain).tail, i.address ≠ 4 := by
  have hseen : ((Machine.load [104, 1, 104, 2, 104, 3, 99]).stepTimes 2).map
      (fun c => (c.pc, c.output.sent, c.isHalted)) = some (4, #[1, 2], false) := by decide +kernel
  have hsecond : ((Machine.load [104, 1, 104, 2, 104, 3, 99]).stepTimes 1).map (·.pc) =
      some 2 := by decide +kernel
  obtain ⟨c, hc, hsaw⟩ := Option.map_eq_some_iff.1 hseen
  simp only [Prod.mk.injEq] at hsaw
  obtain ⟨hpc, hsent, hgoing⟩ := hsaw
  obtain ⟨hcut, -, haddresses, -⟩ := run_cut_at_breakpoint
    (s := (start [104, 1, 104, 2, 104, 3, 99]).addBreakpoint 4) (some 3) (List.cons_ne_nil 4 [])
    (by rintro n ⟨⟩; decide)
  obtain ⟨plain, -, hrun⟩ := hcut 2 c ⟨by decide, hc, hgoing, by simp [hpc, addBreakpoint], rfl⟩ (by
    rintro j d hj ⟨hmoved, hd, -, hmem, -⟩
    obtain rfl : j = 1 := by omega
    have hfirst : (Machine.load [104, 1, 104, 2, 104, 3, 99]).stepTimes 1 = some d := hd
    have hpc : d.pc = 2 := by simpa [hfirst] using hsecond
    simp [addBreakpoint, start, insertAddress, hpc] at hmem)
  refine ⟨c, _, hc, hpc, hsent, hrun 9 (by decide), fun i hi => ?_⟩
  have hnot := haddresses 9 _ (hrun 9 (by decide)) i hi
  simpa [addBreakpoint, start, insertAddress] using hnot

/-! ## Breakpoints that are never reached -/

/-- The run without breakpoints, with the breakpoints put back after it. -/
theorem run_dropBreakpoints :
    ((s.dropBreakpoints.run fuel limit).map fun out =>
        { out with after := { out.after with breakpoints := s.breakpoints } }) =
      (s.machine.run fuel .toInput (s.bound limit)).map s.adopt := by
  rw [run_of_no_breakpoints (s := s.dropBreakpoints) rfl, Option.map_map]
  rfl

/-- A limit that admits nothing stops a run with breakpoints whatever the
machine is doing, and one without only if the machine is running. -/
theorem running_of_run_eq (hB : s.breakpoints ≠ []) (hreached : (s.bound limit).reached 0 = true)
    (h : s.run 1 limit = (s.machine.run 1 .toInput (s.bound limit)).map s.adopt) :
    s.machine.activity = .running := by
  rw [run_of_breakpoints hB, Machine.runGuardedOn_of_reached hreached] at h
  cases hm : s.machine.activity with
  | running => rfl
  | awaitingInput =>
    rw [Machine.run_of_active (.inr hm), Machine.runOn_of_reached hreached] at h
    have hmachine : s.machine = { s.machine with activity := .running } := by
      simpa [adopt] using congrArg (Option.map fun out => out.after.machine) h
    rw [hmachine] at hm
    cases hm
  | halted | failed cause =>
    simp [Machine.run, hm, adopt] at h

/-- **Breakpoints a run never comes to do not show, with one exception.** They
show exactly where the limit admits no instruction and the machine is not
running: a run with breakpoints then stops at the limit without a look at the
machine, and a run without breakpoints looks at the machine first. Away from the
exception a run of a halted machine is reported as such, a run of a failed one is
refused, and neither changes anything. -/
theorem run_with_unreached_breakpoints_iff (limit : StepLimit)
    (hclear : ∀ k c, (s.bound limit).reached k = false →
      s.machine.stepTimes (k + 1) = some c → c.pc ∉ s.breakpoints) :
    ((∀ fuel, s.run (fuel + 1) limit = (s.dropBreakpoints.run (fuel + 1) limit).map fun out =>
        { out with after := { out.after with breakpoints := s.breakpoints } }) ↔
      (s.breakpoints = [] ∨ (s.bound limit).reached 0 = false ∨
        s.machine.activity = .running)) ∧
    ∀ fuel, s.breakpoints = [] ∨ (s.bound limit).reached 0 = false →
      (s.machine.activity = .halted →
        s.run (fuel + 1) limit = some { result := .ok ⟨.alreadyHalted, 0⟩, after := s }) ∧
      ∀ cause, s.machine.activity = .failed cause →
        s.run (fuel + 1) limit = some { result := .error (.stopped cause), after := s } := by
  have hnone : ∀ k c, ¬ s.machine.CutAt s.breakpoints (s.bound limit) k c := by
    intro k c hcut
    obtain ⟨k, rfl⟩ := Nat.exists_eq_add_one_of_ne_zero (Nat.one_le_iff_ne_zero.1 hcut.moved)
    have hadmitted := StepLimit.reached_of_le hcut.admitted (Nat.le_succ k)
    exact hclear k c hadmitted hcut.reached hcut.breakpoint
  refine ⟨⟨fun hsame => ?_, fun hstart fuel => ?_⟩, fun fuel hstart => ⟨fun hm => ?_,
    fun cause hm => ?_⟩⟩
  · by_cases hB : s.breakpoints = []
    · exact .inl hB
    cases hreached : (s.bound limit).reached 0 with
    | false => exact .inr (.inl rfl)
    | true =>
      have hone := hsame 0
      rw [run_dropBreakpoints] at hone
      exact .inr (.inr (running_of_run_eq hB hreached hone))
  · rw [run_dropBreakpoints]
    exact run_of_clear hstart hnone
  · rw [run_of_clear (hstart.imp_right .inl) hnone]
    simp [Machine.run, hm, adopt]
  · rw [run_of_clear (hstart.imp_right .inl) hnone]
    simp [Machine.run, hm, adopt]

/-- A machine that waits for input at a breakpoint, run with a limit of two:
nothing is executed, and the breakpoint does not show. -/
theorem waiting_at_a_breakpoint_does_not_show :
    ∃ m, (Machine.load [3, 0, 99]).step.after = m ∧ m.activity = .awaitingInput ∧
      ({ program := [3, 0, 99], machine := m, breakpoints := [0] } : Session).run 4 (some 2) =
        (({ program := [3, 0, 99], machine := m } : Session).run 4 (some 2)).map fun out =>
          { out with after := { out.after with breakpoints := [0] } } := by
  refine ⟨(Machine.load [3, 0, 99]).step.after, rfl, by decide +kernel, ?_⟩
  have hstep : (Machine.load [3, 0, 99]).step.after.step.result = .error (.inputRequired 0) := by
    decide +kernel
  have hiff := (run_with_unreached_breakpoints_iff (some 2)
    (s := { program := [3, 0, 99], machine := (Machine.load [3, 0, 99]).step.after,
            breakpoints := [0] })
    (by intro k c _ hc; simp [Machine.stepTimes, hstep] at hc)).1
  exact hiff.2 (.inr (.inl rfl)) 3

/-- **The exception.** A program that halts at once has been run, and a
breakpoint is set at an address that is never reached. A run with a limit of zero
then reports the limit, and not the halt that it reports without the
breakpoint. -/
theorem unreached_breakpoint_hides_a_halt :
    ((start [99]).run 1).map (·.after.machine.activity) = some .halted ∧
      (((start [99]).run 1).bind fun out => (out.after.run 1 (some 0)).map (·.result)) =
        some (.ok ⟨.alreadyHalted, 0⟩) ∧
      (((start [99]).run 1).bind fun out =>
          ((out.after.addBreakpoint 5).run 1 (some 0)).map (·.result)) =
        some (.ok ⟨.stepLimit, 0⟩) :=
  ⟨by decide +kernel, by decide +kernel, by decide +kernel⟩

end IntMachine.Session
