import IntMachine.Cascade
import IntMachine.Proofs.History
/-!
# Feedback keeps every signal

While a signal goes round, every stage has been sent what the stage before it
has output, and the first stage the signal at the start as well; only the stage
whose turn it is lacks the one signal in flight (`InFlight`). Running that stage
delivers the signal (`InFlight.ran`) and may put another one in flight, so that
in the end everything has been delivered, whatever the end is.
-/

namespace IntMachine

@[simp] theorem instructionsOf_push_stageHalted (events : Array Event) (k rounds : Nat) :
    instructionsOf (events.push (.stageHalted k rounds)) = instructionsOf events := by
  simp [instructionsOf, Event.instruction?]

namespace Machine

variable {fuel steps : Nat} {events : Array Event} {c : Machine}
variable {out : Outcome Machine MachineError RunEnd}

/-! ## Runs to an output -/

/-- What a run to an output comes to, on a machine that has sent its output on
this channel so far. -/
inductive ToOutput (sent : Channel) (out : Outcome Machine MachineError RunEnd) : Prop
  | output {v : Int} {n : Nat} :
      out.result = .ok ⟨.output v, n⟩ → out.after.Active → out.after.output = sent.send v →
      ToOutput sent out
  | halted {n : Nat} {i : Instruction} :
      out.result = .ok ⟨.halted, n⟩ → out.after.output = sent → out.after.isHalted = true →
      (instructionsOf out.events).getLast? = some i → i.opcode = .halt → ToOutput sent out
  | starved {n : Nat} :
      out.result = .ok ⟨.awaitingInput, n⟩ → out.after.output = sent → ToOutput sent out
  | refused {e : MachineError} :
      out.result = .error e → out.after.output = sent → ToOutput sent out

/-- **A run to an output sends the value it reports, and otherwise nothing.** -/
theorem runOn_toOutput (h : runOn .toOutput none fuel steps events c = some out) :
    ToOutput c.output out := by
  induction fuel generalizing steps events c with
  | zero => cases h
  | succ fuel ih =>
    rcases runOn_cases h with ⟨hlimit, -⟩ | ⟨-, ⟨e, hadv, rfl⟩ | ⟨hadv, rfl⟩ |
      ⟨i, stop, hadv, hstop, rfl⟩ | ⟨i, hadv, hstop, hrest⟩⟩
    · cases hlimit
    · obtain ⟨a, -, hafter, -⟩ := advance_of_not_executed (m := c) (by simp [hadv])
      exact .refused rfl (by rw [hafter])
    · obtain ⟨a, -, hafter, -⟩ := advance_of_not_executed (m := c) (by simp [hadv])
      exact .starved rfl (by rw [hafter])
    · have houtput := output_advance hadv
      have hactivity := (advance_after_of_executed hadv).2
      by_cases hop : i.opcode = .halt
      · rw [if_pos hop] at hactivity
        rw [if_neg (by simp [hop])] at houtput
        obtain rfl : stop = .halted := by
          simpa [stopAfter?, isHalted, hactivity, eq_comm] using hstop
        refine .halted rfl houtput (by simp [isHalted, hactivity]) (i := i) ?_ hop
        rw [instructionsOf_append, instructionsOf_executed hadv, List.getLast?_concat]
      · rw [if_neg hop] at hactivity
        have hsent : i.opcode = .output ∧ Stop.output (i.operands.headD 0) = stop := by
          simpa [stopAfter?, isHalted, hactivity] using hstop
        rw [if_pos hsent.1] at houtput
        obtain rfl := hsent.2
        exact .output rfl (active_of_running hactivity) houtput
    · have houtput := output_advance hadv
      rw [if_neg (ne_output_of_stopAfter? hstop)] at houtput
      cases ih hrest with
      | output hr ha ho => exact .output hr ha (by rw [ho, houtput])
      | halted hr ho hh hi hop => exact .halted hr (by rw [ho, houtput]) hh hi hop
      | starved hr ho => exact .starved hr (by rw [ho, houtput])
      | refused hr ho => exact .refused hr (by rw [ho, houtput])

theorem run_toOutput (hc : c.Active) (h : c.run fuel .toOutput = some out) :
    ToOutput c.output out := by
  rw [run_of_active hc] at h
  have hran := runOn_toOutput h
  exact hran

end Machine

namespace Cascade

open Machine (History load ToOutput)

variable {program : Program} {settings : List Int} {first signal : Int} {k : Nat}
variable {fuel runFuel rounds : Nat} {last : Option Int} {events : Array Event}
variable {c : Cascade}

/-! ## What a stage is due -/

/-- Everything that a stage has output. -/
def outputs (c : Cascade) (k : Nat) : List Int :=
  match c.stages[k]? with
  | some stage => stage.output.sent.toList
  | none => []

/-- What a stage is to be sent: what the stage before it has output, and to the
first stage the signal at the start and what the last has output. -/
def dueTo (c : Cascade) (first : Int) : Nat → List Int
  | 0 => first :: c.outputs (c.stages.size - 1)
  | i + 1 => c.outputs i

/-- The stage that is run behind a stage. -/
def behind (c : Cascade) (k : Nat) : Nat := if k + 1 = c.stages.size then 0 else k + 1

/-- The cascade with another machine as a stage. -/
def withStage (c : Cascade) (k : Nat) (stage : Machine) : Cascade :=
  ⟨c.stages.setIfInBounds k stage⟩

@[simp] theorem size_withStage (c : Cascade) (k : Nat) (stage : Machine) :
    (c.withStage k stage).stages.size = c.stages.size := by
  simp [withStage]

theorem getElem?_withStage {stage : Machine} (hk : k < c.stages.size) (i : Nat) :
    (c.withStage k stage).stages[i]? = if i = k then some stage else c.stages[i]? := by
  by_cases hi : i = k
  · subst hi
    simp [withStage, hk]
  · rw [withStage, if_neg hi, Array.getElem?_setIfInBounds_ne (Ne.symm hi)]

section Turn

variable {stage stage' : Machine} {v : Int}

theorem lt_size_of_stage (hstage : c.stages[k]? = some stage) : k < c.stages.size :=
  (Array.getElem?_eq_some_iff.1 hstage).1

/-- **What a stage sends goes to its own log**, and to no other. -/
theorem outputs_withStage_of_sent {vs : List Int} (hstage : c.stages[k]? = some stage)
    (hout : stage'.output = stage.output.sendAll vs) (i : Nat) :
    (c.withStage k stage').outputs i = c.outputs i ++ if i = k then vs else [] := by
  unfold outputs
  rw [getElem?_withStage (lt_size_of_stage hstage)]
  by_cases hi : i = k
  · rw [if_pos hi, if_pos hi, hi, hstage]
    simp [hout, Channel.sendAll]
  · rw [if_neg hi, if_neg hi, List.append_nil]

theorem outputs_withStage_of_silent (hstage : c.stages[k]? = some stage)
    (hout : stage'.output = stage.output) (i : Nat) :
    (c.withStage k stage').outputs i = c.outputs i := by
  have hsent : stage'.output = stage.output.sendAll [] := by rw [hout, Channel.sendAll_nil]
  simpa using outputs_withStage_of_sent hstage hsent i

theorem outputs_withStage_of_output (hstage : c.stages[k]? = some stage)
    (hout : stage'.output = stage.output.send v) (i : Nat) :
    (c.withStage k stage').outputs i = c.outputs i ++ if i = k then [v] else [] := by
  have hsent : stage'.output = stage.output.sendAll [v] := by
    rw [hout, Channel.sendAll_cons, Channel.sendAll_nil]
  exact outputs_withStage_of_sent hstage hsent i

/-- A stage that has output nothing leaves everything due as it is. -/
theorem dueTo_withStage_of_silent (hstage : c.stages[k]? = some stage)
    (hout : stage'.output = stage.output) (i : Nat) :
    (c.withStage k stage').dueTo first i = c.dueTo first i := by
  cases i <;> simp [dueTo, outputs_withStage_of_silent hstage hout]

/-- **What a stage outputs is due to the stage behind it**, and to no other. -/
theorem dueTo_withStage_of_output (hstage : c.stages[k]? = some stage)
    (hout : stage'.output = stage.output.send v) {i : Nat} (hi : i < c.stages.size) :
    (c.withStage k stage').dueTo first i =
      c.dueTo first i ++ if i = c.behind k then [v] else [] := by
  have hk := lt_size_of_stage hstage
  have hsent := outputs_withStage_of_output hstage hout
  cases i with
  | zero =>
    -- the first stage is behind the last, also where there is but one
    have hturn : c.stages.size - 1 = k ↔ 0 = c.behind k := by
      unfold behind
      split <;> omega
    simp [dueTo, hsent, hturn]
  | succ i =>
    have hturn : i = k ↔ i + 1 = c.behind k := by
      unfold behind
      split <;> omega
    simp [dueTo, hsent, hturn]

end Turn

/-! ## Signals in flight -/

/-- The machine has come from the start of the program with this setting, and
was sent these values behind the setting. -/
def WasSent (program : Program) (setting : Int) (vs : List Int) (stage : Machine) : Prop :=
  ∃ taken, History (load program [setting]) vs taken stage

/-- One signal is in flight, to stage `k`. No stage has halted or failed, and
each has been sent all that is due to it but that signal. -/
structure InFlight (program : Program) (settings : List Int) (first : Int) (k : Nat)
    (signal : Int) (c : Cascade) : Prop where
  size_eq : c.stages.size = settings.length
  lt_size : k < c.stages.size
  exists_stage : ∀ i setting, settings[i]? = some setting →
    ∃ stage sent, c.stages[i]? = some stage ∧ stage.Active ∧
      WasSent program setting sent stage ∧
      c.dueTo first i = sent ++ if i = k then [signal] else []

/-- Every stage has been sent all that is due to it. -/
structure Delivered (program : Program) (settings : List Int) (first : Int) (c : Cascade) :
    Prop where
  size_eq : c.stages.size = settings.length
  exists_stage : ∀ i setting, settings[i]? = some setting →
    ∃ stage, c.stages[i]? = some stage ∧ WasSent program setting (c.dueTo first i) stage

/-- A machine that is sent one more value and run. -/
theorem WasSent.run {setting v : Int} {vs : List Int} {stage : Machine} {mode : RunMode}
    {limit : StepLimit} {out : Outcome Machine MachineError RunEnd}
    (h : WasSent program setting vs stage) (hactive : stage.Active)
    (hrun : (stage.feed [v]).run fuel mode limit = some out) :
    WasSent program setting (vs ++ [v]) out.after := by
  obtain ⟨taken, hhistory⟩ := h
  obtain ⟨more, hmore⟩ := (hhistory.fed [v]).run hactive hrun
  exact ⟨taken ++ more, hmore⟩

section Turn

variable {stage : Machine} {mode : RunMode} {out : Outcome Machine MachineError RunEnd}

theorem InFlight.active (hin : InFlight program settings first k signal c)
    (hstage : c.stages[k]? = some stage) : stage.Active := by
  have hk : k < settings.length := hin.size_eq ▸ hin.lt_size
  obtain ⟨s, sent, hs, hactive, -⟩ := hin.exists_stage k _ (List.getElem?_eq_getElem hk)
  obtain rfl := Option.some.inj (hstage.symm.trans hs)
  exact hactive

/-- **Running the stage whose turn it is delivers the signal in flight.** -/
theorem InFlight.ran (hin : InFlight program settings first k signal c)
    (hstage : c.stages[k]? = some stage)
    (hrun : (stage.feed [signal]).run fuel mode = some out) {i : Nat} {setting : Int}
    (hi : settings[i]? = some setting) :
    ∃ s, (c.withStage k out.after).stages[i]? = some s ∧ (i ≠ k → s.Active) ∧
      WasSent program setting (c.dueTo first i) s := by
  obtain ⟨s, sent, hs, hactive, hsent, hdue⟩ := hin.exists_stage i setting hi
  rw [getElem?_withStage hin.lt_size]
  by_cases hik : i = k
  · -- what was due and not sent is the signal the stage was run on
    subst hik
    obtain rfl := Option.some.inj (hstage.symm.trans hs)
    rw [if_pos rfl] at hdue
    refine ⟨out.after, if_pos rfl, fun h => absurd rfl h, ?_⟩
    rw [hdue]
    exact hsent.run hactive hrun
  · rw [if_neg hik, List.append_nil] at hdue
    refine ⟨s, by rw [if_neg hik]; exact hs, fun _ => hactive, ?_⟩
    rw [hdue]
    exact hsent

/-- **A stage that outputs a value puts it in flight** to the stage behind. -/
theorem InFlight.output {v : Int} (hin : InFlight program settings first k signal c)
    (hstage : c.stages[k]? = some stage)
    (hrun : (stage.feed [signal]).run fuel mode = some out) (hactive : out.after.Active)
    (hout : out.after.output = stage.output.send v) :
    InFlight program settings first (c.behind k) v (c.withStage k out.after) where
  size_eq := by rw [size_withStage, hin.size_eq]
  lt_size := by
    have hlt := hin.lt_size
    rw [size_withStage]
    unfold behind
    split <;> omega
  exists_stage := by
    intro i setting hi
    have hlt : i < c.stages.size := by
      rw [hin.size_eq]
      exact (List.getElem?_eq_some_iff.1 hi).1
    obtain ⟨s, hs, hothers, hsent⟩ := hin.ran hstage hrun hi
    refine ⟨s, c.dueTo first i, hs, ?_, hsent, dueTo_withStage_of_output hstage hout hlt⟩
    by_cases hik : i = k
    · rw [getElem?_withStage hin.lt_size, if_pos hik] at hs
      obtain rfl := Option.some.inj hs
      exact hactive
    · exact hothers hik

/-- **A stage that outputs nothing leaves nothing in flight.** -/
theorem InFlight.silent (hin : InFlight program settings first k signal c)
    (hstage : c.stages[k]? = some stage)
    (hrun : (stage.feed [signal]).run fuel mode = some out)
    (hout : out.after.output = stage.output) :
    Delivered program settings first (c.withStage k out.after) where
  size_eq := by rw [size_withStage, hin.size_eq]
  exists_stage := by
    intro i setting hi
    obtain ⟨s, hs, -, hsent⟩ := hin.ran hstage hrun hi
    rw [dueTo_withStage_of_silent hstage hout]
    exact ⟨s, hs, hsent⟩

end Turn

/-! ## Round and round -/

theorem exists_of_runStage {mode : RunMode} {ran : Outcome Cascade MachineError RunEnd}
    (h : c.runStage fuel mode k signal = some ran) :
    ∃ stage out, c.stages[k]? = some stage ∧ (stage.feed [signal]).run fuel mode = some out ∧
      ran = { result := out.result, after := c.withStage k out.after, events := out.events } := by
  unfold runStage at h
  cases hstage : c.stages[k]? with
  | none => simp [hstage] at h
  | some stage =>
    rw [hstage] at h
    obtain ⟨out, hout, rfl⟩ := Option.map_eq_some_iff.1 h
    exact ⟨stage, out, rfl, hout, rfl⟩

/-- A stage has just halted, it alone, and the value is what the last stage has
output last. -/
structure HaltedWith (out : Outcome Cascade CascadeError Int) (v : Int) : Prop where
  exists_stage : ∃ k rounds, out.events.back? = some (.stageHalted k rounds) ∧
    k < out.after.stages.size ∧
    ∀ i stage, out.after.stages[i]? = some stage → (stage.isHalted = true ↔ i = k)
  exists_halt : ∃ i, (instructionsOf out.events).getLast? = some i ∧ i.opcode = .halt
  value : (out.after.outputs (out.after.stages.size - 1)).getLast? = some v

/-- **The end of the feedback.** No stage but the one whose turn it is can have
halted. -/
theorem InFlight.haltedWith {stage : Machine} {ended : Outcome Machine MachineError RunEnd}
    {result : Except CascadeError Int} {i : Instruction} {v : Int}
    (hin : InFlight program settings first k signal c) (hstage : c.stages[k]? = some stage)
    (hrun : (stage.feed [signal]).run runFuel .toOutput = some ended)
    (hout : ended.after.output = stage.output) (hhalted : ended.after.isHalted = true)
    (hi : (instructionsOf ended.events).getLast? = some i) (hop : i.opcode = .halt)
    (hv : (c.outputs (c.stages.size - 1)).getLast? = some v) :
    HaltedWith { result, after := c.withStage k ended.after,
                 events := (events ++ ended.events).push (.stageHalted k rounds) } v where
  exists_stage := by
    refine ⟨k, rounds, by simp, by simpa using hin.lt_size, fun j s hs => ?_⟩
    have hj : j < settings.length := by
      have hlt := lt_size_of_stage hs
      rwa [size_withStage, hin.size_eq] at hlt
    obtain ⟨s', hs', hothers, -⟩ := hin.ran hstage hrun (List.getElem?_eq_getElem hj)
    obtain rfl := Option.some.inj (hs.symm.trans hs')
    by_cases hjk : j = k
    · rw [getElem?_withStage hin.lt_size, if_pos hjk] at hs
      obtain rfl := Option.some.inj hs
      exact ⟨fun _ => hjk, fun _ => hhalted⟩
    · have hlive : s.isHalted = false := Machine.isHalted_of_active (hothers hjk)
      simp [hlive, hjk]
  exists_halt := by
    refine ⟨i, ?_, hop⟩
    rw [instructionsOf_push_stageHalted, instructionsOf_append, List.getLast?_append, hi]
    rfl
  value := by rw [size_withStage, outputs_withStage_of_silent hstage hout, hv]

theorem feedOn_delivers {out : Outcome Cascade CascadeError Int}
    (hin : InFlight program settings first k signal c)
    (hlast : last = (c.outputs (c.stages.size - 1)).getLast?)
    (h : feedOn runFuel fuel k rounds last signal events c = some out) :
    Delivered program settings first out.after ∧ ∀ v, out.result = .ok v → HaltedWith out v := by
  induction fuel generalizing k rounds last signal events c with
  | zero => cases h
  | succ fuel ih =>
    rw [feedOn] at h
    cases hran : c.runStage runFuel .toOutput k signal with
    | none => simp [hran] at h
    | some ran =>
      obtain ⟨stage, ended, hstage, hrun, rfl⟩ := exists_of_runStage hran
      simp only [hran] at h
      have hactive : stage.Active := hin.active hstage
      have hlt := hin.lt_size
      cases Machine.run_toOutput (c := stage.feed [signal]) hactive hrun with
      | output hr ha ho =>
        have hnext := hin.output hstage hrun ha ho
        have hsent := outputs_withStage_of_output hstage ho (c.stages.size - 1)
        simp only [hr] at h
        split at h
        · rename_i hend
          rw [behind, if_pos hend] at hnext
          refine ih hnext ?_ h
          rw [size_withStage, hsent, if_pos (by omega), List.getLast?_concat]
        · rename_i hend
          rw [behind, if_neg hend] at hnext
          refine ih hnext ?_ h
          rw [size_withStage, hsent, if_neg (by omega), List.append_nil, hlast]
      | halted hr ho hh hi hop =>
        have hdelivered := hin.silent hstage hrun ho
        simp only [hr, Stop.isHalted, if_true, Option.some.injEq] at h
        subst h
        refine ⟨hdelivered, fun v hv => ?_⟩
        cases last with
        | none => cases hv
        | some w =>
          obtain rfl : w = v := Except.ok.inj hv
          exact hin.haltedWith hstage hrun ho hh hi hop hlast.symm
      | starved hr ho =>
        have hdelivered := hin.silent hstage hrun ho
        simp only [hr, Stop.isHalted] at h
        obtain rfl := Option.some.inj h
        exact ⟨hdelivered, by rintro v ⟨⟩⟩
      | refused hr ho =>
        have hdelivered := hin.silent hstage hrun ho
        simp only [hr, Option.some.injEq] at h
        subst h
        exact ⟨hdelivered, by rintro v ⟨⟩⟩

theorem build_eq_ok_iff :
    build program settings = .ok c ↔ settings ≠ [] ∧
      c = ⟨(settings.map fun setting => load program [setting]).toArray⟩ := by
  unfold build
  split <;> simp_all [eq_comm]

theorem getElem?_build (h : build program settings = .ok c) (i : Nat) :
    c.stages[i]? = settings[i]?.map fun setting => load program [setting] := by
  obtain ⟨-, rfl⟩ := build_eq_ok_iff.1 h
  simp

theorem outputs_build (h : build program settings = .ok c) (i : Nat) : c.outputs i = [] := by
  unfold outputs
  rw [getElem?_build h]
  cases settings[i]? <;> rfl

/-- A fresh cascade has the signal in flight to its first stage, and has sent
its stages nothing else. -/
theorem inFlight_build (h : build program settings = .ok c) (first : Int) :
    InFlight program settings first 0 first c where
  size_eq := by
    obtain ⟨-, rfl⟩ := build_eq_ok_iff.1 h
    simp
  lt_size := by
    obtain ⟨hsettings, rfl⟩ := build_eq_ok_iff.1 h
    simpa using List.length_pos_iff.2 hsettings
  exists_stage := by
    intro i setting hi
    refine ⟨load program [setting], [], ?_, .inl rfl, ⟨[], .start⟩, ?_⟩
    · rw [getElem?_build h, hi, Option.map_some]
    · cases i <;> simp [dueTo, outputs_build h]

/-- **Feedback loses, doubles and moves no signal.** However it ends, what each
stage has taken and what is pending on its input are its setting and all that
the stage before it has output, in order; the first stage has got the signal at
the start before what the last stage has output. A value is given back only
where a stage has just halted, and is the last the last stage has output. -/
theorem feedBack_delivers {out : Outcome Cascade CascadeError Int}
    (hbuild : build program settings = .ok c) (h : c.feedBack fuel first = some out) :
    out.after.stages.size = settings.length ∧
    (∀ i setting, settings[i]? = some setting → ∃ stage taken,
      out.after.stages[i]? = some stage ∧
      History (load program [setting]) (out.after.dueTo first i) taken stage ∧
      taken ++ stage.input.pending = setting :: out.after.dueTo first i) ∧
    ∀ v, out.result = .ok v → HaltedWith out v := by
  have hlast : none = (c.outputs (c.stages.size - 1)).getLast? := by
    rw [outputs_build hbuild]
    rfl
  obtain ⟨hdelivered, hvalue⟩ := feedOn_delivers (inFlight_build hbuild first) hlast h
  refine ⟨hdelivered.size_eq, fun i setting hi => ?_, hvalue⟩
  obtain ⟨stage, hstage, taken, hhistory⟩ := hdelivered.exists_stage i setting hi
  refine ⟨stage, taken, hstage, hhistory, ?_⟩
  rw [← hhistory.conservation]
  rfl

/-- Two stages that add one to a signal, as often as their setting says: the
first halts with the last signal pending. -/
theorem two_counting_stages_deliver :
    ∃ c out, build [3, 19, 3, 20, 1001, 20, 1, 20, 4, 20, 1001, 19, -1, 19, 1005, 19, 2, 99]
        [2, 2] = .ok c ∧
      c.feedBack 20 0 = some out ∧ out.result = .ok 4 ∧ HaltedWith out 4 ∧
      ∃ stage taken, out.after.stages[0]? = some stage ∧ stage.input.pending = [4] ∧
        taken ++ stage.input.pending = [2, 0, 2, 4] := by
  obtain ⟨c, hbuild⟩ : ∃ c, build [3, 19, 3, 20, 1001, 20, 1, 20, 4, 20, 1001, 19, -1, 19, 1005,
    19, 2, 99] [2, 2] = .ok c := ⟨_, rfl⟩
  have hseen : (c.feedBack 20 0).map (fun out => (out.result, out.after.dueTo 0 0,
      out.after.stages[0]?.map fun stage => stage.input.pending)) =
        some (.ok 4, [0, 2, 4], some [4]) := by
    obtain rfl := Except.ok.inj hbuild
    decide +kernel
  obtain ⟨out, hout, hvalues⟩ := Option.map_eq_some_iff.1 hseen
  simp only [Prod.mk.injEq] at hvalues
  obtain ⟨hresult, hdue, hpending⟩ := hvalues
  obtain ⟨-, hstages, hvalue⟩ := feedBack_delivers hbuild hout
  obtain ⟨stage, taken, hstage, -, htaken⟩ := hstages 0 2 rfl
  rw [hstage, Option.map_some, Option.some.injEq] at hpending
  rw [hdue] at htaken
  exact ⟨c, out, hbuild, hout, hresult, hvalue 4 hresult, stage, taken, hstage, hpending, htaken⟩

end Cascade

end IntMachine
