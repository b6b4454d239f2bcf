import IntMachine.Proofs.OneShot
/-!
# Cascades used again

A cascade can be used any number of times, in either way and also after a use that
failed; its stages go on from where they were left. What running one stage keeps,
every use keeps (`Use.perform_preserves`): the logs only grow, and a stage that has
stopped for good adds nothing. The value that feedback gives was output by the last
stage during the same call. A pass reads its value off the end of the log instead,
so where the last stage adds nothing to the log, as it does once it has halted, the
value is an old one (`fresh_unless_silent_pass`).
-/

namespace IntMachine

namespace Machine

variable {mode : RunMode} {fuel : Nat} {m : Machine} {limit : StepLimit}
variable {out : Outcome Machine MachineError RunEnd}

/-- A run adds to the output. -/
theorem exists_sent_of_run (h : m.run fuel mode limit = some out) :
    ∃ vs, out.after.output = m.output.sendAll vs := by
  obtain ⟨is, hfollows, -⟩ := run_follows h
  exact ⟨_, hfollows.output⟩

/-- **A run to an output sends the value it reports, and otherwise nothing**, whatever
the machine is doing. -/
theorem run_toOutput_cases (h : m.run fuel .toOutput = some out) :
    (∃ v n, out.result = .ok ⟨.output v, n⟩ ∧ out.after.output = m.output.send v) ∨
      (∀ v n, out.result ≠ .ok ⟨.output v, n⟩) ∧ out.after.output = m.output := by
  have hsent := run_toOutput_sends h
  cases hresult : out.result with
  | error e => exact .inr ⟨by simp, by simpa [hresult, reported?] using hsent⟩
  | ok stop =>
    obtain ⟨stop, n⟩ := stop
    cases stop with
    | output v =>
      rw [hresult, reported?, Stop.value?, Option.toList_some, Channel.sendAll_cons,
        Channel.sendAll_nil] at hsent
      exact .inl ⟨v, n, rfl, hsent⟩
    | _ => exact .inr ⟨by simp, by simpa [hresult, reported?, Stop.value?] using hsent⟩

end Machine

namespace Cascade

variable {program : Program} {settings : List Int} {signal v w : Int} {k : Nat}
variable {fuel runFuel count rounds : Nat} {last? : Option Int} {events : Array Event}
variable {c c₀ last : Cascade} {mode : RunMode}
variable {ran : Outcome Cascade MachineError RunEnd} {out : Outcome Cascade CascadeError Int}

/-! ## Uses -/

/-- A way to use a cascade. -/
inductive Use where
  | pass (signal : Int)
  | feedBack (signal : Int)
  deriving DecidableEq, Repr

def Use.perform (fuel : Nat) : Use → Cascade → Option (Outcome Cascade CascadeError Int)
  | .pass signal, c => c.passOnce fuel signal
  | .feedBack signal, c => c.feedBack fuel signal

/-- A use that came to an end, with the cascade it was made of. -/
structure Usage where
  use : Use
  before : Cascade
  outcome : Outcome Cascade CascadeError Int

/-- **Uses one after the other**, whether or not they give a value. Each comes to an
end on some fuel of its own, and is made of the cascade that the one before has
left. -/
inductive Used : Cascade → List Usage → Cascade → Prop
  | nil (c : Cascade) : Used c [] c
  | cons {fuel : Nat} {c last : Cascade} {u : Use} {out : Outcome Cascade CascadeError Int}
      {log : List Usage} :
      u.perform fuel c = some out → Used out.after log last → Used c (⟨u, c, out⟩ :: log) last

/-- What the last stage has output. -/
def lastLog (c : Cascade) : List Int := c.outputs (c.stages.size - 1)

/-! ## What running a stage keeps -/

section Preserves

variable {P : Cascade → Prop}
variable (hP : ∀ fuel mode c k signal ran, P c → runStage fuel mode c k signal = some ran →
  P ran.after)
include hP

theorem passOn_preserves (hc : P c) (h : passOn fuel count v events c = some out) :
    P out.after := by
  induction count generalizing v events c with
  | zero =>
    obtain rfl := Option.some.inj h
    exact hc
  | succ count ih =>
    cases passOn_succ_eq_some_iff.1 h with
    | refused hran | silent hran => exact hP _ _ _ _ _ _ hc hran
    | passed hran _ _ hrest => exact ih (hP _ _ _ _ _ _ hc hran) hrest

theorem feedOn_preserves (hc : P c) (h : feedOn runFuel fuel k rounds last? v events c = some out) :
    P out.after := by
  induction fuel generalizing k rounds last? v events c with
  | zero => cases h
  | succ fuel ih =>
    rw [feedOn] at h
    cases hran : c.runStage runFuel .toOutput k v with
    | none => simp [hran] at h
    | some ran =>
      have hnext := hP _ _ _ _ _ _ hc hran
      simp only [hran] at h
      split at h
      · obtain rfl := Option.some.inj h
        exact hnext
      · split at h
        · exact ih hnext h
        · exact ih hnext h
      · split at h
        · obtain rfl := Option.some.inj h
          exact hnext
        · obtain rfl := Option.some.inj h
          exact hnext

/-- **What running a stage keeps, every use keeps.** -/
theorem Use.perform_preserves {u : Use} (hc : P c) (h : u.perform fuel c = some out) :
    P out.after := by
  cases u with
  | pass signal => exact passOn_preserves hP hc h
  | feedBack signal => exact feedOn_preserves hP hc h

end Preserves

/-! ## Logs -/

theorem size_of_runStage (h : c.runStage fuel mode k signal = some ran) :
    ran.after.stages.size = c.stages.size := by
  obtain ⟨stage, out, -, -, rfl⟩ := exists_of_runStage h
  exact size_withStage c k out.after

/-- **Running a stage adds to its log**, and to no other. -/
theorem exists_outputs_of_runStage (h : c.runStage fuel mode k signal = some ran) :
    ∃ vs, ∀ i, ran.after.outputs i = c.outputs i ++ if i = k then vs else [] := by
  obtain ⟨stage, out, hstage, hrun, rfl⟩ := exists_of_runStage h
  obtain ⟨vs, hsent⟩ := Machine.exists_sent_of_run hrun
  exact ⟨vs, outputs_withStage_of_sent hstage hsent⟩

theorem outputs_of_runStage_toOutput (h : c.runStage fuel .toOutput k signal = some ran) :
    (∃ v n, ran.result = .ok ⟨.output v, n⟩ ∧
        ∀ i, ran.after.outputs i = c.outputs i ++ if i = k then [v] else []) ∨
      (∀ v n, ran.result ≠ .ok ⟨.output v, n⟩) ∧ ∀ i, ran.after.outputs i = c.outputs i := by
  obtain ⟨stage, out, hstage, hrun, rfl⟩ := exists_of_runStage h
  rcases Machine.run_toOutput_cases hrun with ⟨v, n, hresult, hsent⟩ | ⟨hsilent, hsent⟩
  · exact .inl ⟨v, n, hresult, outputs_withStage_of_output hstage hsent⟩
  · exact .inr ⟨hsilent, outputs_withStage_of_silent hstage hsent⟩

theorem lastOutput?_eq (c : Cascade) (k : Nat) : c.lastOutput? k = (c.outputs k).getLast? := by
  unfold lastOutput? outputs
  cases c.stages[k]? <;> simp

/-- The second cascade is what the first has become: no log has lost anything, and
the stages that had stopped for good have stayed so and output nothing. -/
structure Onward (c₀ c : Cascade) : Prop where
  size_eq : c.stages.size = c₀.stages.size
  outputs_prefix : ∀ i, c₀.outputs i <+: c.outputs i
  stopped : ∀ (i : Nat) stage, c₀.stages[i]? = some stage → ¬ stage.Active →
    c.outputs i = c₀.outputs i ∧ ∃ stage', c.stages[i]? = some stage' ∧ ¬ stage'.Active

theorem Onward.refl (c : Cascade) : Onward c c where
  size_eq := rfl
  outputs_prefix _ := List.prefix_refl _
  stopped _ stage hstage hstopped := ⟨rfl, stage, hstage, hstopped⟩

theorem Onward.runStage (h : Onward c₀ c) (hran : c.runStage fuel mode k signal = some ran) :
    Onward c₀ ran.after := by
  obtain ⟨vs, hlogs⟩ := exists_outputs_of_runStage hran
  obtain ⟨stage, out, hstage, hrun, rfl⟩ := exists_of_runStage hran
  have hk := lt_size_of_stage hstage
  refine ⟨by rw [size_withStage, h.size_eq], fun i => ?_, fun i stopped hi hstopped => ?_⟩
  · rw [hlogs]
    exact (h.outputs_prefix i).trans (List.prefix_append _ _)
  · obtain ⟨hsame, stage', hstage', hstopped'⟩ := h.stopped i stopped hi hstopped
    by_cases hik : i = k
    · -- what is run is a stage that has stopped, with one more value pending
      subst hik
      obtain rfl := Option.some.inj (hstage.symm.trans hstage')
      have hafter : out.after = stage.feed [signal] :=
        Machine.after_of_not_active hstopped' hrun
      refine ⟨?_, out.after, by rw [getElem?_withStage hk, if_pos rfl], by rwa [hafter]⟩
      rw [outputs_withStage_of_silent hstage (by rw [hafter]; rfl), hsame]
    · refine ⟨by rw [hlogs, if_neg hik, List.append_nil, hsame], stage', ?_, hstopped'⟩
      rw [getElem?_withStage hk, if_neg hik, hstage']

/-- **A use only goes on.** -/
theorem Use.onward {u : Use} (h : u.perform fuel c = some out) : Onward c out.after :=
  u.perform_preserves (fun _ _ _ _ _ _ hc hran => Onward.runStage hc hran) (.refl c) h

/-! ## Values -/

/-- Feedback ends at a run without an output, and has no value to give but the last
from before. -/
theorem feedOn_of_silent (hran : c.runStage runFuel .toOutput k v = some ran)
    (hsilent : ∀ v n, ran.result ≠ .ok ⟨.output v, n⟩)
    (h : feedOn runFuel (fuel + 1) k rounds last? v events c = some out) :
    out.after = ran.after ∧ ∀ w, out.result = .ok w → last? = some w := by
  simp only [feedOn, hran] at h
  split at h
  · obtain rfl := Option.some.inj h
    exact ⟨rfl, by rintro w ⟨⟩⟩
  · rename_i hresult
    exact absurd hresult (hsilent _ _)
  · split at h
    · obtain rfl := Option.some.inj h
      refine ⟨rfl, fun w hw => ?_⟩
      cases last? with
      | none => cases hw
      | some u => rw [Except.ok.inj hw]
    · obtain rfl := Option.some.inj h
      exact ⟨rfl, by rintro w ⟨⟩⟩

/-- **The value of feedback is what the last stage has output last** since the
start, where `base` had been output before. -/
theorem feedOn_fresh {base : List Int} (fresh : List Int) (hlog : c.lastLog = base ++ fresh)
    (hlast : fresh.getLast? = last?)
    (h : feedOn runFuel fuel k rounds last? v events c = some out) :
    ∃ fresh, out.after.lastLog = base ++ fresh ∧
      ∀ w, out.result = .ok w → fresh.getLast? = some w := by
  induction fuel generalizing k rounds last? v events c fresh with
  | zero => cases h
  | succ fuel ih =>
    rw [feedOn] at h
    cases hran : c.runStage runFuel .toOutput k v with
    | none => simp [hran] at h
    | some ran =>
      have hsize := size_of_runStage hran
      have hk : k < c.stages.size := by
        obtain ⟨stage, _, hstage, -⟩ := exists_of_runStage hran
        exact lt_size_of_stage hstage
      rcases outputs_of_runStage_toOutput hran with ⟨u, n, hresult, hlogs⟩ | ⟨hsilent, hlogs⟩
      · simp only [hran, hresult] at h
        have hnext : ran.after.lastLog =
            base ++ fresh ++ if c.stages.size - 1 = k then [u] else [] := by
          rw [lastLog, hsize, hlogs, ← hlog]
          rfl
        split at h
        · refine ih (fresh ++ [u]) ?_ List.getLast?_concat h
          rw [hnext, if_pos (by omega), List.append_assoc]
        · refine ih fresh ?_ hlast h
          rw [hnext, if_neg (by omega), List.append_nil]
      · have hnext : ran.after.lastLog = base ++ fresh := by
          rw [lastLog, hsize, hlogs, ← hlog]
          rfl
        obtain ⟨hafter, hvalue⟩ := feedOn_of_silent hran hsilent h
        exact ⟨fresh, by rw [hafter, hnext], fun w hw => by rw [hlast, hvalue w hw]⟩

/-- The value is the last in the log of the last stage, which has halted. -/
structure EndsOn (c : Cascade) (v : Int) : Prop where
  last : c.lastLog.getLast? = some v
  halted : ∃ stage, c.stages[c.stages.size - 1]? = some stage ∧ stage.isHalted = true

theorem endsOn_of_runStage {stop : RunEnd}
    (hran : c.runStage fuel .toHalt (c.stages.size - 1) signal = some ran)
    (hresult : ran.result = .ok stop) (hlast : ran.after.lastOutput? (c.stages.size - 1) = some v) :
    ran.after.EndsOn v := by
  rw [lastOutput?_eq, ← size_of_runStage hran] at hlast
  obtain ⟨stage, run, hstage, hrun, rfl⟩ := exists_of_runStage hran
  refine ⟨hlast, run.after, ?_, Machine.isHalted_of_run hrun hresult⟩
  rw [size_withStage, getElem?_withStage (lt_size_of_stage hstage), if_pos rfl]

/-- **The value of a pass is the last in the log**, whenever it was output. -/
theorem passOn_endsOn (hcount : count ≤ c.stages.size) (hends : count = 0 → c.EndsOn v)
    (h : passOn fuel count v events c = some out) (hresult : out.result = .ok w) :
    out.after.EndsOn w := by
  induction count generalizing v events c with
  | zero =>
    obtain rfl := Option.some.inj h
    obtain rfl := Except.ok.inj hresult
    exact hends rfl
  | succ count ih =>
    cases passOn_succ_eq_some_iff.1 h with
    | refused | silent => cases hresult
    | passed hran hstop hsignal hrest =>
      have hsize := size_of_runStage hran
      refine ih (by omega) (fun hzero => ?_) hrest
      subst hzero
      exact endsOn_of_runStage hran hstop hsignal

/-- **A pass finds a stage silent only where it has never output anything.** -/
theorem passOn_silent (h : passOn fuel count v events c = some out)
    (hresult : out.result = .error (.silent k)) : out.after.outputs k = [] := by
  induction count generalizing v events c with
  | zero =>
    obtain rfl := Option.some.inj h
    cases hresult
  | succ count ih =>
    cases passOn_succ_eq_some_iff.1 h with
    | refused => cases hresult
    | silent _ _ hnone =>
      obtain rfl := CascadeError.silent.inj (Except.error.inj hresult)
      rwa [lastOutput?_eq, List.getLast?_eq_none_iff] at hnone
    | passed _ _ _ hrest => exact ih hrest

/-- **A use gives a fresh value, or a pass has gone through a silent last stage**. -/
theorem Use.value_cases {u : Use} {fresh : List Int} (hsize : c.stages.size ≠ 0)
    (h : u.perform fuel c = some out) (hfresh : out.after.lastLog = c.lastLog ++ fresh)
    (hv : out.result = .ok v) :
    fresh.getLast? = some v ∨
      fresh = [] ∧ (∃ signal, u = .pass signal) ∧ c.lastLog.getLast? = some v ∧
        out.after.EndsOn v := by
  cases u with
  | pass signal =>
    have hends : out.after.EndsOn v :=
      passOn_endsOn (Nat.le_refl _) (fun hzero => absurd hzero hsize) h hv
    have hlast := hends.last
    rw [hfresh] at hlast
    rcases List.eq_nil_or_concat' fresh with rfl | ⟨earlier, w, rfl⟩
    · exact .inr ⟨rfl, ⟨signal, rfl⟩, by rwa [List.append_nil] at hlast, hends⟩
    · rw [← List.append_assoc, List.getLast?_concat] at hlast
      exact .inl (by rw [List.getLast?_concat, hlast])
  | feedBack signal =>
    obtain ⟨fresh', hlog, hvalue⟩ :=
      feedOn_fresh [] (List.append_nil c.lastLog).symm rfl h
    obtain rfl := List.append_cancel_left (hfresh.symm.trans hlog)
    exact .inl (hvalue v hv)

/-! ## Histories -/

variable {log : List Usage}

/-- Each use of a history was made of a cascade with as many stages. -/
theorem Used.exists_perform (h : Used c log last) {x : Usage} (hx : x ∈ log) :
    x.before.stages.size = c.stages.size ∧
      ∃ fuel, x.use.perform fuel x.before = some x.outcome := by
  induction h with
  | nil => cases hx
  | @cons fuel c last u out log hout _ ih =>
    rcases List.mem_cons.1 hx with rfl | hx
    · exact ⟨rfl, fuel, hout⟩
    · obtain ⟨hsize, hperform⟩ := ih hx
      exact ⟨hsize.trans (Use.onward hout).size_eq, hperform⟩

/-- **Values are fresh but where a pass goes through a silent last stage.** Take any
history of uses of a cascade, and one of them. Its last stage has output `fresh`
during the call, which is nothing where it had stopped for good before. A value that
is given is the last of these, unless there are none, the use is a pass, and the last
stage has halted at the end; then it is the last value of the log as it was before
the call. A pass never finds a stage silent that has ever output anything. -/
theorem fresh_unless_silent_pass (hbuild : build program settings = .ok c)
    (hused : Used c log last) {x : Usage} (hx : x ∈ log) :
    ∃ fresh, x.outcome.after.lastLog = x.before.lastLog ++ fresh ∧
      (∀ stage, x.before.stages[x.before.stages.size - 1]? = some stage → ¬ stage.Active →
        fresh = []) ∧
      (∀ v, x.outcome.result = .ok v →
        fresh.getLast? = some v ∨
          fresh = [] ∧ (∃ signal, x.use = .pass signal) ∧
            x.before.lastLog.getLast? = some v ∧ x.outcome.after.EndsOn v) ∧
      ∀ signal k, x.use = .pass signal → x.outcome.result = .error (.silent k) →
        x.before.outputs k = [] := by
  obtain ⟨hsize, fuel, hout⟩ := hused.exists_perform hx
  have hstages : x.before.stages.size ≠ 0 := by
    obtain ⟨hsettings, rfl⟩ := build_eq_ok_iff.1 hbuild
    simpa [hsize] using hsettings
  have honward := Use.onward hout
  obtain ⟨fresh, hfresh⟩ := honward.outputs_prefix (x.before.stages.size - 1)
  have hlog : x.outcome.after.lastLog = x.before.lastLog ++ fresh := by
    rw [lastLog, honward.size_eq]
    exact hfresh.symm
  refine ⟨fresh, hlog, fun stage hstage hstopped => ?_,
    fun v hv => Use.value_cases hstages hout hlog hv, fun signal k huse hsilent => ?_⟩
  · have hsame := (honward.stopped _ stage hstage hstopped).1
    rw [← hfresh] at hsame
    exact List.append_right_eq_self.1 hsame
  · rw [huse] at hout
    have hnone := passOn_silent hout hsilent
    exact List.prefix_nil.1 (hnone ▸ honward.outputs_prefix k)

/-- A pass behind feedback that has left the stage halted: it gives the value of the
feedback once more. -/
theorem a_pass_behind_feedback :
    ∃ c first second, build [104, 5, 99] [0] = .ok c ∧
      Used c [⟨.feedBack 1, c, first⟩, ⟨.pass 2, first.after, second⟩] second.after ∧
      first.result = .ok 5 ∧ second.result = .ok 5 ∧
      first.after.lastLog.getLast? = some 5 ∧ second.after.lastLog = first.after.lastLog := by
  obtain ⟨c, hbuild⟩ : ∃ c, build [104, 5, 99] [0] = .ok c := ⟨_, rfl⟩
  have hseen : ((Use.feedBack 1).perform 9 c).bind (fun first =>
      ((Use.pass 2).perform 9 first.after).map fun second =>
        (first.result, second.result,
          first.after.stages[first.after.stages.size - 1]?.map fun stage => stage.isHalted)) =
      some (.ok 5, .ok 5, some true) := by
    obtain rfl := Except.ok.inj hbuild
    decide +kernel
  obtain ⟨first, hfirst, hrest⟩ := Option.bind_eq_some_iff.1 hseen
  obtain ⟨second, hsecond, hvalues⟩ := Option.map_eq_some_iff.1 hrest
  simp only [Prod.mk.injEq] at hvalues
  obtain ⟨hfive, hagain, hlast⟩ := hvalues
  obtain ⟨stage, hstage, hhalted⟩ := Option.map_eq_some_iff.1 hlast
  have hused : Used c [⟨.feedBack 1, c, first⟩, ⟨.pass 2, first.after, second⟩] second.after :=
    .cons hfirst (.cons hsecond (.nil _))
  obtain ⟨fresh, hlog, hstopped, hvalue, -⟩ :=
    fresh_unless_silent_pass hbuild hused (List.mem_cons_of_mem _ (List.mem_singleton_self _))
  have hdone : ¬ stage.Active := fun hactive => by
    simp [Machine.isHalted_of_active hactive] at hhalted
  obtain rfl := hstopped stage hstage hdone
  refine ⟨c, first, second, hbuild, hused, hfive, hagain, ?_, by simpa using hlog⟩
  rcases hvalue 5 hagain with hfresh | ⟨-, -, hold, -⟩
  · cases hfresh
  · exact hold

/-- The second of two passes gives the value of the first, which nothing in it has
output. -/
theorem a_second_pass_gives_an_old_value :
    ∃ c first second, build [104, 5, 99] [0] = .ok c ∧
      Used c [⟨.pass 1, c, first⟩, ⟨.pass 2, first.after, second⟩] second.after ∧
      second.result = .ok 5 ∧ first.after.lastLog = [5] ∧ second.after.lastLog = [5] := by
  obtain ⟨c, hbuild⟩ : ∃ c, build [104, 5, 99] [0] = .ok c := ⟨_, rfl⟩
  have hseen : ((Use.pass 1).perform 9 c).bind (fun first =>
      ((Use.pass 2).perform 9 first.after).map fun second =>
        (second.result, first.after.lastLog, second.after.lastLog)) =
      some (.ok 5, [5], [5]) := by
    obtain rfl := Except.ok.inj hbuild
    decide +kernel
  obtain ⟨first, hfirst, hrest⟩ := Option.bind_eq_some_iff.1 hseen
  obtain ⟨second, hsecond, hvalues⟩ := Option.map_eq_some_iff.1 hrest
  simp only [Prod.mk.injEq] at hvalues
  obtain ⟨hresult, hlog, hlog'⟩ := hvalues
  exact ⟨c, first, second, hbuild, .cons hfirst (.cons hsecond (.nil _)), hresult, hlog, hlog'⟩

end Cascade

end IntMachine
