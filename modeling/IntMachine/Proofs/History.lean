import IntMachine.Proofs.Runs
/-!
# Histories of input and output

A history tells how a machine came to be from another one: it was sent input,
taken up again, and made to execute. What its input instructions have taken is
read off the memory, where each has put the value. `History.conservation` is
the law of the input channel: nothing sent is lost, doubled or moved.
-/

namespace IntMachine

@[simp] theorem Channel.sendAll_nil (c : Channel) : c.sendAll [] = c := by
  ext1 <;> simp [sendAll]

theorem Channel.sendAll_cons (c : Channel) (v : Int) (vs : List Int) :
    c.sendAll (v :: vs) = (c.send v).sendAll vs := by
  ext1 <;> simp [sendAll, send]

theorem Channel.sent_sendAll (c : Channel) (vs : List Int) :
    (c.sendAll vs).sent = c.sent ++ vs.toArray := rfl

/-- The value an instruction sends, if it is an output instruction. -/
def Instruction.output? (i : Instruction) : Option Int :=
  if i.opcode = .output then some (i.operands.headD 0) else none

theorem Instruction.output?_of_output {i : Instruction} (h : i.opcode = .output) :
    i.output? = some (i.operands.headD 0) := if_pos h

theorem Instruction.output?_of_not_output {i : Instruction} (h : i.opcode ≠ .output) :
    i.output? = none := if_neg h

namespace Machine

variable {m c : Machine} {i : Instruction} {sent taken : List Int}

/-! ## What is taken -/

/-- The value that an input instruction has put into memory, if that is what
was executed. -/
def takenBy (tried : Outcome Machine MachineError (Option Instruction)) : List Int :=
  match tried.result with
  | .ok (some i) =>
    if i.opcode = .input then i.operands.map fun a => tried.after.memory.cell a.toNat else []
  | _ => []

theorem takenBy_of_not_input {tried : Outcome Machine MachineError (Option Instruction)}
    (h : tried.result = .ok (some i)) (hop : i.opcode ≠ .input) : takenBy tried = [] := by
  rw [takenBy, h]
  exact if_neg hop

/-- **What is taken was pending**, and was the first of it. -/
theorem pending_advance (m : Machine) :
    m.input.pending = takenBy m.advance ++ m.advance.after.input.pending := by
  by_cases hadv : ∃ i, m.advance.result = .ok (some i)
  · obtain ⟨i, hadv⟩ := hadv
    obtain ⟨next, m', -, -, heff, heq⟩ := effect_of_executed hadv
    cases heff with
    | store hf _ =>
      rw [takenBy_of_not_input hadv (Opcode.ne_of_result? hf).1, heq]
      rfl
    | jump hf _ =>
      rw [takenBy_of_not_input hadv (Opcode.ne_of_jumpsOn? hf).1, heq]
      rfl
    | input hop ho hv =>
      rw [takenBy, hadv, heq]
      simpa [hop, ho] using Channel.pending_of_receive? hv
    | output hop _ | adjust hop _ | halt hop _ =>
      rw [takenBy_of_not_input hadv (by simp [hop]), heq]
      rfl
  · obtain ⟨a, -, hafter, -⟩ := advance_of_not_executed (not_exists.1 hadv)
    have hnone : takenBy m.advance = [] := by
      rw [takenBy]
      split
      · exact absurd ⟨_, ‹_›⟩ hadv
      · rfl
    rw [hnone, hafter]
    rfl

/-- **What an instruction sends**: its operand, if it is an output
instruction. -/
theorem output_advance (h : m.advance.result = .ok (some i)) :
    m.advance.after.output =
      if i.opcode = .output then m.output.send (i.operands.headD 0) else m.output := by
  obtain ⟨next, m', -, -, heff, heq⟩ := effect_of_executed h
  rw [heq]
  cases heff with
  | store hf _ => exact (if_neg (Opcode.ne_of_result? hf).2.1).symm
  | jump hf _ => exact (if_neg (Opcode.ne_of_jumpsOn? hf).2.1).symm
  | output hop ho => simp [hop, ho]
  | input hop _ _ | adjust hop _ | halt hop _ => simp [hop]

/-- What one instruction sends. -/
theorem output_advance_eq_sendAll (h : m.advance.result = .ok (some i)) :
    m.advance.after.output = m.output.sendAll i.output?.toList := by
  rw [output_advance h]
  by_cases hop : i.opcode = .output
  · rw [if_pos hop, Instruction.output?_of_output hop, Option.toList_some, Channel.sendAll_cons,
      Channel.sendAll_nil]
  · rw [if_neg hop, Instruction.output?_of_not_output hop, Option.toList_none, Channel.sendAll_nil]

/-- A trail sends what its output instructions send, in order. -/
theorem Trail.output {is : List Instruction} (h : Trail m is c) :
    c.output = m.output.sendAll (is.filterMap Instruction.output?) := by
  induction h with
  | nil m => exact m.output.sendAll_nil.symm
  | @cons m c i is hstep _ ih =>
    obtain ⟨hactive, hadv⟩ := step_eq_ok_iff.1 hstep
    rw [ih, step_after_of_active hactive, output_advance_eq_sendAll hadv]
    cases hout : i.output? with
    | none => rw [List.filterMap_cons_none hout, Option.toList_none, Channel.sendAll_nil]
    | some v =>
      rw [List.filterMap_cons_some hout, Option.toList_some, Channel.sendAll_cons,
        Channel.sendAll_nil, ← Channel.sendAll_cons]

/-- **What is executed is all that sends.** -/
theorem Follows.output {is : List Instruction} (h : m.Follows is c) :
    c.output = m.output.sendAll (is.filterMap Instruction.output?) := by
  obtain ⟨m', htrail, -, hc⟩ := h
  rw [hc]
  exact htrail.output

/-! ## Runs to an output -/

section ToOutput

variable {fuel steps : Nat} {limit : StepLimit} {events : Array Event}
variable {out : Outcome Machine MachineError RunEnd}

/-- The output that a run reports. -/
def reported? : Except MachineError RunEnd → Option Int
  | .ok stop => stop.stop.value?
  | .error _ => none

theorem reported?_starved {mode : RunMode} : reported? (starved mode m steps) = none := by
  unfold starved
  split <;> rfl

/-- Behind an instruction a run to an output reports what the instruction has sent. -/
theorem output?_of_stopAfter? {stop : Stop} (h : m.advance.result = .ok (some i))
    (hstop : stopAfter? .toOutput m.advance.after i = some stop) : i.output? = stop.value? := by
  have hactivity := (advance_after_of_executed h).2
  by_cases hop : i.opcode = .halt
  · rw [if_pos hop] at hactivity
    obtain rfl : stop = .halted := by simpa [stopAfter?, isHalted, hactivity, eq_comm] using hstop
    exact Instruction.output?_of_not_output (by simp [hop])
  · rw [if_neg hop] at hactivity
    obtain ⟨houtput, rfl⟩ : i.opcode = .output ∧ Stop.output (i.operands.headD 0) = stop := by
      simpa [stopAfter?, isHalted, hactivity] using hstop
    exact Instruction.output?_of_output houtput

/-- A run to an output goes on behind no output. -/
theorem ne_output_of_stopAfter? (hstop : stopAfter? .toOutput m i = none) :
    i.opcode ≠ .output := by
  intro hop
  unfold stopAfter? at hstop
  split at hstop
  · cases hstop
  · simp [hop] at hstop

theorem runOn_toOutput_sends (h : runOn .toOutput limit fuel steps events m = some out) :
    out.after.output = m.output.sendAll (reported? out.result).toList := by
  induction fuel generalizing steps events m with
  | zero => cases h
  | succ fuel ih =>
    rcases runOn_cases h with ⟨-, rfl⟩ | ⟨-, ⟨e, hadv, rfl⟩ | ⟨hadv, rfl⟩ |
      ⟨i, stop, hadv, hstop, rfl⟩ | ⟨i, hadv, hstop, hrest⟩⟩
    · exact m.output.sendAll_nil.symm
    · obtain ⟨a, -, hafter, -⟩ := advance_of_not_executed (m := m) (by simp [hadv])
      simp [hafter, reported?]
    · obtain ⟨a, -, hafter, -⟩ := advance_of_not_executed (m := m) (by simp [hadv])
      simp [hafter, reported?_starved]
    · rw [output_advance_eq_sendAll hadv, output?_of_stopAfter? hadv hstop]
      rfl
    · rw [ih hrest, output_advance hadv, if_neg (ne_output_of_stopAfter? hstop)]

/-- **A run to an output sends the value it reports, and otherwise nothing**, whatever
the machine is doing. -/
theorem run_toOutput_sends (h : m.run fuel .toOutput limit = some out) :
    out.after.output = m.output.sendAll (reported? out.result).toList := by
  cases hm : m.activity with
  | running | awaitingInput =>
    rw [run_of_active (by simp [Active, hm])] at h
    have hsends := runOn_toOutput_sends h
    exact hsends
  | halted | failed cause =>
    rw [run, hm] at h
    obtain rfl := Option.some.inj h
    exact m.output.sendAll_nil.symm

end ToOutput

/-! ## Histories -/

/-- The machine has become the other one, was sent the first list on the way,
and its input instructions have taken the second. -/
inductive History (m : Machine) : List Int → List Int → Machine → Prop
  | start : History m [] [] m
  | fed {sent taken : List Int} {c : Machine} (vs : List Int) :
      History m sent taken c → History m (sent ++ vs) taken (c.feed vs)
  | resumed {sent taken : List Int} {c : Machine} :
      History m sent taken c → c.Active → History m sent taken { c with activity := .running }
  | advanced {sent taken : List Int} {c : Machine} :
      History m sent taken c → c.activity = .running →
      History m sent (taken ++ takenBy c.advance) c.advance.after

/-- **Nothing sent is lost, doubled or moved.** What was pending and what was
sent since is what has been taken and what is pending. -/
theorem History.conservation (h : History m sent taken c) :
    m.input.pending ++ sent = taken ++ c.input.pending := by
  induction h with
  | start => simp
  | fed vs _ ih => rw [feed, Channel.pending_sendAll, ← List.append_assoc, ih, List.append_assoc]
  | resumed _ _ ih => exact ih
  | advanced _ _ ih => rw [ih, List.append_assoc, ← pending_advance]

variable {fuel : Nat} {mode : RunMode} {limit : StepLimit}
variable {out : Outcome Machine MachineError RunEnd}

/-- A run belongs to the history of its machine. -/
theorem History.runOn {steps : Nat} {events : Array Event} (hc : History m sent taken c)
    (hrunning : c.activity = .running)
    (h : runOn mode limit fuel steps events c = some out) :
    ∃ more, History m sent (taken ++ more) out.after := by
  induction fuel generalizing steps events taken c with
  | zero => cases h
  | succ fuel ih =>
    rcases runOn_cases h with ⟨-, rfl⟩ | ⟨-, ⟨e, -, rfl⟩ | ⟨-, rfl⟩ | ⟨i, stop, -, -, rfl⟩ |
      ⟨i, hadv, hstop, hrest⟩⟩
    · exact ⟨[], by rwa [List.append_nil]⟩
    · exact ⟨_, hc.advanced hrunning⟩
    · exact ⟨_, hc.advanced hrunning⟩
    · exact ⟨_, hc.advanced hrunning⟩
    · obtain ⟨more, hmore⟩ :=
        ih (hc.advanced hrunning) (running_of_stopAfter?_eq_none hadv hstop) hrest
      exact ⟨_, by rwa [List.append_assoc] at hmore⟩

theorem History.run (hc : History m sent taken c) (hactive : c.Active)
    (h : c.run fuel mode limit = some out) :
    ∃ more, History m sent (taken ++ more) out.after := by
  rw [run_of_active hactive] at h
  exact (hc.resumed hactive).runOn rfl h

end Machine

end IntMachine
