import IntMachine.Proofs.Halting
import IntMachine.Proofs.Relay
/-!
# One-shot stages

A stage that outputs one value on its way to a halt can be run to that output and
left there: what remains of its run is silent (`Spent`), and more input does not
wake it. So a cascade of such stages gives the same value whether each stage is run
to its end or the signal is fed round until a stage halts: the feedback comes to the
last output in its first round, and the first stage halts at the start of the second
(`one_shot_modes_agree`).
-/

namespace IntMachine

theorem Channel.sent_send (c : Channel) (v : Int) : (c.send v).sent = c.sent.push v := rfl

/-- What is sent in one go and in several is the same only if nothing was added. -/
theorem Channel.send_sendAll_eq_send_iff {c : Channel} {v w : Int} {vs : List Int} :
    (c.send v).sendAll vs = c.send w ↔ v = w ∧ vs = [] := by
  constructor
  · intro h
    have hsent := congrArg Channel.sent h
    have hsize := congrArg Array.size hsent
    obtain rfl : vs = [] := by simpa [sent_sendAll, sent_send] using hsize
    have hpush : c.sent.push v = c.sent.push w := by simpa [sent_sendAll, sent_send] using hsent
    exact ⟨(Array.push_eq_push.1 hpush).1, rfl⟩
  · rintro ⟨rfl, rfl⟩
    exact sendAll_nil _

namespace Machine

variable {mode : RunMode} {fuel steps : Nat} {events : Array Event}
variable {m c : Machine} {i : Instruction} {is : List Instruction} {stop : Stop} {w : Int}

/-! ## Runs to an output on the way to a halt -/

/-- **Where a run stops after an instruction**: at a halt, or at an output. -/
theorem stop_cases (h : m.advance.result = .ok (some i))
    (hstop : stopAfter? mode m.advance.after i = some stop) :
    stop = .halted ∧ ¬ m.advance.after.Active ∨
      stop = .output (i.operands.headD 0) ∧ m.advance.after.Active := by
  have hactivity := (advance_after_of_executed h).2
  by_cases hop : i.opcode = .halt
  · rw [if_pos hop] at hactivity
    refine .inl ⟨?_, by simp [Active, hactivity]⟩
    simpa [stopAfter?, isHalted, hactivity, eq_comm] using hstop
  · rw [if_neg hop] at hactivity
    obtain ⟨-, rfl⟩ : (mode = .toOutput ∧ i.opcode = .output) ∧
      .output (i.operands.headD 0) = stop := by simpa [stopAfter?, isHalted, hactivity] using hstop
    exact .inr ⟨rfl, active_of_running hactivity⟩

/-- A run to an output takes the steps to a halt, as far as the first output. -/
theorem runOn_toOutput_of_trail (hm : m.Active) (h : Trail m is c) (hhalted : c.isHalted = true)
    (steps : Nat) (events : Array Event) :
    ∃ out n, runOn .toOutput none is.length steps events m = some out ∧
      (out.result = .ok ⟨.halted, n⟩ ∧ out.after = c ∨
        (∃ v, out.result = .ok ⟨.output v, n⟩) ∧ out.after.HaltsAt c) := by
  induction h generalizing steps events with
  | nil m => simp [isHalted_of_active hm] at hhalted
  | @cons m c i is hstep hrest ih =>
    have hlimit : StepLimit.reached none steps = false := rfl
    obtain ⟨-, hadv⟩ := step_eq_ok_iff.1 hstep
    rw [step_after_of_active hm] at hrest ih
    cases hstop : stopAfter? .toOutput m.advance.after i with
    | some stop =>
      refine ⟨_, steps + 1, runOn_of_stop hlimit hadv hstop, ?_⟩
      rcases stop_cases hadv hstop with ⟨rfl, hdone⟩ | ⟨rfl, -⟩
      · exact .inl ⟨rfl, (hrest.eq_of_not_active hdone).symm⟩
      · exact .inr ⟨⟨_, rfl⟩, is, hrest, hhalted⟩
    | none =>
      have hactive := active_of_running (running_of_stopAfter?_eq_none hadv hstop)
      obtain ⟨out, n, hout, hends⟩ := ih hactive hhalted (steps + 1) (events ++ m.advance.events)
      exact ⟨out, n, by rw [List.length_cons, runOn_of_go hlimit hadv hstop, hout], hends⟩

/-- What a machine has output is behind what it had output before. -/
theorem HaltsAt.exists_sent (h : m.HaltsAt c) : ∃ vs, c.output = m.output.sendAll vs := by
  obtain ⟨is, htrail, -⟩ := h
  exact ⟨_, htrail.output⟩

/-- **A run to an output on the way to a halt** comes to the halt without any output,
or to an output with the halt still ahead. -/
theorem HaltsAt.run_toOutput (h : m.HaltsAt c) (hm : m.Active) :
    ∃ fuel out n, m.run fuel .toOutput = some out ∧
      (out.result = .ok ⟨.halted, n⟩ ∧ c.output = m.output ∨
        ∃ v, out.result = .ok ⟨.output v, n⟩ ∧ out.after.Active ∧
          out.after.output = m.output.send v ∧ out.after.HaltsAt c) := by
  have hrunning : ({ m with activity := .running } : Machine).HaltsAt c :=
    h.of_activity (m := { m with activity := .running }) hm (.inl rfl)
  obtain ⟨is, htrail, hhalted⟩ := hrunning
  obtain ⟨out, n, hout, hends⟩ := runOn_toOutput_of_trail (.inl rfl) htrail hhalted 0 #[]
  have hrun : m.run is.length .toOutput = some out := by rw [run_of_active hm, hout]
  refine ⟨is.length, out, n, hrun, ?_⟩
  -- what was output on the way is told by the run itself
  have hsent := Machine.run_toOutput hm hrun
  rcases hends with ⟨hresult, rfl⟩ | ⟨⟨v, hresult⟩, hrest⟩
  · cases hsent with
    | output hr | starved hr | refused hr => simp [hresult] at hr
    | halted _ ho => exact .inl ⟨hresult, ho⟩
  · cases hsent with
    | halted hr | starved hr | refused hr => simp [hresult] at hr
    | output hr hactive ho =>
      obtain ⟨rfl, -⟩ : v = _ ∧ n = _ := by simpa [hresult] using hr
      exact .inr ⟨v, hresult, hactive, ho, hrest⟩

/-! ## Machines with nothing more to output -/

/-- The machine is on its way to a halt and outputs nothing more. -/
structure Spent (m : Machine) : Prop where
  active : m.Active
  halts : ∃ c, m.HaltsAt c ∧ c.output = m.output

theorem Spent.feed (h : m.Spent) (vs : List Int) : (m.feed vs).Spent := by
  obtain ⟨hactive, c, hhalts, houtput⟩ := h
  exact ⟨hactive, c.feed vs, hhalts.feed vs, houtput⟩

/-- **A spent machine halts** where an output is asked of it. -/
theorem Spent.run (h : m.Spent) :
    ∃ fuel out n, m.run fuel .toOutput = some out ∧ out.result = .ok ⟨.halted, n⟩ := by
  obtain ⟨hactive, c, hhalts, houtput⟩ := h
  obtain ⟨fuel, out, n, hrun, ⟨hresult, -⟩ | ⟨v, -, -, hsent, hrest⟩⟩ :=
    hhalts.run_toOutput hactive
  · exact ⟨fuel, out, n, hrun, hresult⟩
  · obtain ⟨vs, hmore⟩ := hrest.exists_sent
    have hsize := congrArg (fun channel => channel.sent.size) hmore
    simp [houtput, hsent, Channel.sent_sendAll, Channel.sent_send] at hsize

/-- **A machine that outputs one value is spent behind it.** -/
theorem HaltsAt.run_of_one_output (h : m.HaltsAt c) (hm : m.Active)
    (hone : c.output = m.output.send w) :
    ∃ fuel out n, m.run fuel .toOutput = some out ∧ out.result = .ok ⟨.output w, n⟩ ∧
      out.after.Spent := by
  obtain ⟨fuel, out, n, hrun, ⟨-, hnone⟩ | ⟨v, hresult, hactive, hsent, hrest⟩⟩ :=
    h.run_toOutput hm
  · have hsize := congrArg (fun channel => channel.sent.size) (hone.symm.trans hnone)
    simp [Channel.sent_send] at hsize
  · obtain ⟨vs, hmore⟩ := hrest.exists_sent
    rw [hsent, hone] at hmore
    obtain ⟨rfl, -⟩ := Channel.send_sendAll_eq_send_iff.1 hmore.symm
    exact ⟨fuel, out, n, hrun, hresult, hactive, c, hrest, hone.trans hsent.symm⟩

end Machine

namespace Cascade

open Machine (HaltsAt Spent load)

variable {program : Program} {settings input : List Int} {first v w s : Int} {k : Nat}
variable {fuel runFuel more moreRuns rounds : Nat} {last : Option Int} {events : Array Event}
variable {c : Cascade} {m : Machine} {out : Outcome Cascade CascadeError Int}

/-! ## Stages that output one value -/

/-- **A complete run takes steps to a halt.** -/
theorem haltsAt_of_ends (h : program.Ends input (.ok m)) : (load program input).HaltsAt m := by
  obtain ⟨fuel, hrun⟩ := h
  obtain ⟨ran, hran, hend⟩ := Option.map_eq_some_iff.1 hrun
  cases hresult : ran.result with
  | error cause => simp [hresult, Except.map] at hend
  | ok stop =>
    obtain rfl : ran.after = m := by simpa [hresult, Except.map] using hend
    exact Machine.haltsAt_of_run (.inl rfl) hran (Machine.isHalted_of_run hran hresult)

/-- What a complete run has output if it was one value. -/
theorem output_of_ends (h : program.Ends input (.ok m)) (hone : m.output.sent.size = 1)
    (hlast : m.output.sent.back? = some w) : m.output = Channel.empty.send w := by
  obtain ⟨vs, hsent⟩ := (haltsAt_of_ends h).exists_sent
  have hvs : m.output.sent = vs.toArray := by
    rw [hsent, Channel.sent_sendAll]
    exact Array.empty_append
  rw [hvs] at hone hlast
  obtain ⟨v, rfl⟩ := List.length_eq_one_iff.1 (by simpa using hone)
  obtain rfl : v = w := by simpa using hlast
  rw [hsent, Channel.sendAll_cons, Channel.sendAll_nil]
  rfl

/-- **A one-shot stage outputs its value and is spent.** -/
theorem exists_runStage_of_ends (hstage : c.stages[k]? = some (load program [s]))
    (hends : program.Ends [s, v] (.ok m)) (hone : m.output.sent.size = 1)
    (hlast : m.output.sent.back? = some w) :
    ∃ fuel stage events n, stage.Spent ∧ c.runStage fuel .toOutput k v =
      some { result := .ok ⟨.output w, n⟩, after := c.withStage k stage, events } := by
  obtain ⟨fuel, out, n, hrun, hresult, hspent⟩ :=
    (haltsAt_of_ends hends).run_of_one_output (.inl rfl) (output_of_ends hends hone hlast)
  refine ⟨fuel, out.after, out.events, n, hspent, ?_⟩
  rw [runStage_eq hstage, hrun, Option.map_some, hresult]

/-! ## More fuel -/

theorem feedOn_mono (h : feedOn runFuel fuel k rounds last v events c = some out)
    (hruns : runFuel ≤ moreRuns) (hle : fuel ≤ more) :
    feedOn moreRuns more k rounds last v events c = some out := by
  induction fuel generalizing more k rounds last v events c with
  | zero => cases h
  | succ fuel ih =>
    obtain ⟨more, rfl⟩ := Nat.exists_eq_add_one_of_ne_zero (by omega : more ≠ 0)
    have hrest : fuel ≤ more := by omega
    rw [feedOn] at h ⊢
    cases hran : c.runStage runFuel .toOutput k v with
    | none => simp [hran] at h
    | some ran =>
      simp only [hran, runStage_mono hran hruns] at h ⊢
      cases hresult : ran.result with
      | error cause => simpa only [hresult] using h
      | ok stop =>
        obtain ⟨stop, steps⟩ := stop
        cases stop with
        | output value =>
          simp only [hresult] at h ⊢
          split at h
          · rename_i hend
            rw [if_pos hend]
            exact ih h hrest
          · rename_i hend
            rw [if_neg hend]
            exact ih h hrest
        | halted | alreadyHalted | awaitingInput | stepLimit | breakpoint =>
          simpa only [hresult] using h

theorem feedBack_unique {fuel' : Nat} {out' : Outcome Cascade CascadeError Int}
    (h : c.feedBack fuel v = some out) (h' : c.feedBack fuel' v = some out') : out = out' := by
  have hmore := feedOn_mono h (Nat.le_max_left fuel fuel') (Nat.le_max_left fuel fuel')
  have hmore' := feedOn_mono h' (Nat.le_max_right fuel fuel') (Nat.le_max_right fuel fuel')
  exact Option.some.inj (hmore.symm.trans hmore')

/-! ## The first round -/

/-- The first `k` stages have output what they will, and the others are about to
start. -/
structure Sounded (program : Program) (settings : List Int) (k : Nat) (c : Cascade) : Prop where
  size_eq : c.stages.size = settings.length
  spent : ∀ i, i < k → ∃ stage, c.stages[i]? = some stage ∧ stage.Spent
  fresh : ∀ j s, k ≤ j → settings[j]? = some s → c.stages[j]? = some (load program [s])

theorem sounded_build (h : build program settings = .ok c) : Sounded program settings 0 c where
  size_eq := by
    obtain ⟨-, rfl⟩ := build_eq_ok_iff.1 h
    simp
  spent _ hi := absurd hi (Nat.not_lt_zero _)
  fresh j s _ hs := by rw [getElem?_build h, hs, Option.map_some]

theorem Sounded.withStage {stage : Machine} (h : Sounded program settings k c)
    (hk : k < settings.length) (hspent : stage.Spent) :
    Sounded program settings (k + 1) (c.withStage k stage) := by
  rw [← h.size_eq] at hk
  refine ⟨by rw [size_withStage, h.size_eq], fun i hi => ?_, fun j s hj hs => ?_⟩
  · rw [getElem?_withStage hk]
    split
    · exact ⟨stage, rfl, hspent⟩
    · exact h.spent i (by omega)
  · rw [getElem?_withStage hk, if_neg (by omega)]
    exact h.fresh j s (by omega) hs

/-- **The second round ends at once**: the first stage halts on whatever it is given. -/
theorem Sounded.exists_feedOn_zero (h : Sounded program settings k c) (hk : 0 < k) (rounds : Nat)
    (v w : Int) (events : Array Event) :
    ∃ runFuel out, feedOn runFuel 1 0 rounds (some w) v events c = some out ∧
      out.result = .ok w := by
  obtain ⟨stage, hstage, hspent⟩ := h.spent 0 hk
  obtain ⟨fuel, ran, n, hrun, hresult⟩ := (hspent.feed [v]).run
  refine ⟨fuel, ?_⟩
  simp only [feedOn, runStage, hstage, hrun, hresult, Option.map_some, Stop.isHalted, if_true]
  exact ⟨_, rfl, rfl⟩

/-- **The turn of one stage**: it outputs what its complete run does. -/
theorem Sounded.exists_runStage (h : Sounded program settings k c)
    (hinto : SignalInto program settings first k v)
    (hnext : SignalInto program settings first (k + 1) w)
    (hone : ∀ i m, StageEnds program settings first i (.ok m) → m.output.sent.size = 1) :
    ∃ fuel ran n, c.runStage fuel .toOutput k v = some ran ∧ ran.result = .ok ⟨.output w, n⟩ ∧
      Sounded program settings (k + 1) ran.after := by
  obtain ⟨m, hends, hlast⟩ := signalInto_succ_iff.1 hnext
  have hk := hends.lt
  have hsize := hone k m hends
  obtain ⟨s, v', hs, hinto', hends⟩ := hends
  obtain rfl := hinto.unique hinto'
  obtain ⟨fuel, stage, events, n, hspent, hran⟩ :=
    exists_runStage_of_ends (h.fresh k s (Nat.le_refl k) hs) hends hsize hlast
  exact ⟨fuel, _, n, hran, rfl, h.withStage hk hspent⟩

/-- **The first round carries the signal of the pass.** From the stage whose turn it
is, the feedback comes to the value behind the last stage, and gives it once the first
stage has halted. -/
theorem Sounded.exists_feedOn (h : Sounded program settings k c)
    (hinto : SignalInto program settings first k v)
    (hlast : SignalInto program settings first settings.length w)
    (hone : ∀ i m, StageEnds program settings first i (.ok m) → m.output.sent.size = 1)
    {count : Nat} (hcount : k + (count + 1) = settings.length) (last : Option Int)
    (events : Array Event) :
    ∃ runFuel fuel out, feedOn runFuel fuel k 0 last v events c = some out ∧
      out.result = .ok w := by
  induction count generalizing k v last events c with
  | zero =>
    rw [← hcount] at hlast
    obtain ⟨fuel, ran, n, hran, hresult, hnext⟩ := h.exists_runStage hinto hlast hone
    have hend : k + 1 = c.stages.size := by rw [h.size_eq, hcount]
    obtain ⟨fuel', out, hout, hvalue⟩ :=
      hnext.exists_feedOn_zero (Nat.succ_pos k) 1 w w (events ++ ran.events)
    refine ⟨max fuel fuel', 2, out, ?_, hvalue⟩
    rw [feedOn, runStage_mono hran (Nat.le_max_left ..)]
    simp only [hresult, if_pos hend]
    exact feedOn_mono hout (Nat.le_max_right ..) (Nat.le_refl _)
  | succ count ih =>
    obtain ⟨v', hinto'⟩ := hlast.of_le (i := k + 1) (by omega)
    obtain ⟨fuel, ran, n, hran, hresult, hnext⟩ := h.exists_runStage hinto hinto' hone
    have hgoes : k + 1 ≠ c.stages.size := by
      rw [h.size_eq]
      omega
    obtain ⟨runFuel, fuel', out, hout, hvalue⟩ :=
      ih hnext hinto' (by omega) last (events ++ ran.events)
    refine ⟨max fuel runFuel, fuel' + 1, out, ?_, hvalue⟩
    rw [feedOn, runStage_mono hran (Nat.le_max_left ..)]
    simp only [hresult, if_neg hgoes]
    exact feedOn_mono hout (Nat.le_max_right ..) (Nat.le_refl _)

/-- **On one-shot stages the two modes agree.** Take any program, settings and signal
for which one pass through a fresh cascade gives a value, with exactly one output in
the log of every stage behind it. Then the feedback, too, comes to an end on a fresh
cascade, and gives the same value. -/
theorem one_shot_modes_agree (hbuild : build program settings = .ok c)
    (hpass : c.passOnce fuel first = some out) (hw : out.result = .ok w)
    (hone : ∀ (i : Nat) stage, out.after.stages[i]? = some stage → stage.output.sent.size = 1) :
    (∃ fuel' out', c.feedBack fuel' first = some out') ∧
      ∀ fuel' out', c.feedBack fuel' first = some out' → out'.result = .ok w := by
  have hfresh := relayed_build hbuild first
  have hcount : 0 + c.stages.size = settings.length := by rw [hfresh.size_eq, Nat.zero_add]
  have hsettings : settings.length ≠ 0 := by
    simpa [List.length_eq_zero_iff] using (build_eq_ok_iff.1 hbuild).1
  obtain ⟨count, hlength⟩ := Nat.exists_eq_add_one_of_ne_zero hsettings
  cases passOn_passed hfresh .start hcount hpass with
  | failed hresult => simp [hw] at hresult
  | @arrived w' hresult hlast hall =>
    obtain rfl : w' = w := Except.ok.inj (hresult.symm.trans hw)
    have hsizes : ∀ i m, StageEnds program settings first i (.ok m) → m.output.sent.size = 1 :=
      fun i m hends => hone i m (hall.done i m hends.lt hends)
    obtain ⟨runFuel, fuel', out', hout, hvalue⟩ := (sounded_build hbuild).exists_feedOn .start
      hlast hsizes (by rw [Nat.zero_add, hlength]) none #[]
    have hfeed : c.feedBack (max runFuel fuel') first = some out' :=
      feedOn_mono hout (Nat.le_max_left ..) (Nat.le_max_right ..)
    refine ⟨⟨_, out', hfeed⟩, fun fuel'' out'' hout'' => ?_⟩
    rw [← feedBack_unique hfeed hout'', hvalue]

/-- Three stages that each output the sum of their setting and the signal, once. -/
theorem three_adding_stages_agree :
    ∃ c fuel out, build sumProgram [1, 2, 3] = .ok c ∧ c.feedBack fuel 4 = some out ∧
      out.result = .ok 10 := by
  obtain ⟨c, hbuild⟩ : ∃ c, build sumProgram [1, 2, 3] = .ok c := ⟨_, rfl⟩
  have hseen : (c.passOnce 9 4).map (fun out => (out.result,
      out.after.stages.all fun stage => stage.output.sent.size = 1)) = some (.ok 10, true) := by
    obtain rfl := Except.ok.inj hbuild
    decide +kernel
  obtain ⟨out, hpass, hvalues⟩ := Option.map_eq_some_iff.1 hseen
  obtain ⟨hresult, hall⟩ := Prod.mk.inj hvalues
  have hone : ∀ (i : Nat) stage, out.after.stages[i]? = some stage →
      stage.output.sent.size = 1 := by
    intro i stage hstage
    have hmem := Array.mem_of_getElem? hstage
    simpa using Array.all_eq_true_iff_forall_mem.1 hall stage hmem
  obtain ⟨⟨fuel, out', hfeed⟩, hvalue⟩ := one_shot_modes_agree hbuild hpass hresult hone
  exact ⟨c, fuel, out', hbuild, hfeed, hvalue fuel out' hfeed⟩

end Cascade

end IntMachine
