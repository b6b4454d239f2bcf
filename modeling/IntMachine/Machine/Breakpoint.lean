import IntMachine.Machine.Run
/-!
# Running up to a breakpoint

A run that also stops before an instruction at one of the given addresses. The
first instruction of the run is exempt, so that a run can leave the breakpoint
the run before it stopped at. The run goes one instruction at a time, and before
each it looks at the limit first, then at the breakpoints, then at the machine.
-/

namespace IntMachine.Machine

/-- Runs on, after `steps` instructions and the given events. -/
def runGuardedOn (breakpoints : List Int) (limit : StepLimit) :
    (fuel steps : Nat) → Array Event → Machine → Option (Outcome Machine MachineError RunEnd)
  | 0, _, _, _ => none
  | fuel + 1, steps, events, m =>
    if limit.reached steps then some { result := .ok ⟨.stepLimit, steps⟩, after := m, events }
    else if steps ≠ 0 ∧ m.pc ∈ breakpoints then
      some { result := .ok ⟨.breakpoint, steps⟩, after := m,
             events := events.push (.breakpointHit m.pc) }
    else
      match m.run 2 .toInput (some 1) with
      | none => none
      | some ran =>
        let events := events ++ ran.events
        match ran.result with
        | .error e => some { result := .error e, after := ran.after, events }
        | .ok ⟨stop, more⟩ =>
          if stop = .stepLimit then
            runGuardedOn breakpoints limit fuel (steps + more) events ran.after
          else some { result := .ok ⟨stop, steps + more⟩, after := ran.after, events }

/-- Runs until the machine halts, fails, waits for input, comes to a breakpoint
or to the limit. -/
def runGuarded (fuel : Nat) (breakpoints : List Int) (limit : StepLimit := none) (m : Machine) :
    Option (Outcome Machine MachineError RunEnd) :=
  if breakpoints = [] then m.run fuel .toInput limit
  else runGuardedOn breakpoints limit fuel 0 #[] m

end IntMachine.Machine
