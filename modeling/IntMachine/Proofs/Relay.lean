import IntMachine.Proofs.Feedback
/-!
# One pass is a relay of complete runs

A signal that is passed once through a cascade goes through complete runs of the
program, one for each stage: each is given the setting of its stage and what the
run before it output last. `SignalInto` tells what comes to a stage in this way,
and `FailsAt` which run gives nothing to pass on. The cascade does the same
(`pass_is_a_relay`): it gives the last signal, or fails as the first run that
fails does, with the stages behind that one untouched.
-/

namespace IntMachine

/-- What a complete run of the program on some input comes to. -/
def Program.Ends (program : Program) (input : List Int) (r : Except MachineError Machine) : Prop :=
  ∃ fuel, program.execute fuel input = some r

namespace Cascade

open Machine (load)

variable {program : Program} {settings : List Int} {first signal v w s : Int} {i j k : Nat}
variable {fuel more count : Nat} {events : Array Event} {c : Cascade} {m : Machine}
variable {input : List Int} {r r' : Except MachineError Machine} {e e' : CascadeError}
variable {out : Outcome Cascade CascadeError Int}

/-! ## Complete runs -/

/-- **A complete run comes to one thing.** -/
theorem ends_unique (h : program.Ends input r) (h' : program.Ends input r') : r = r' := by
  obtain ⟨fuel, hrun⟩ := h
  obtain ⟨fuel', hrun'⟩ := h'
  obtain ⟨ran, hran, rfl⟩ := Option.map_eq_some_iff.1 hrun
  obtain ⟨ran', hran', rfl⟩ := Option.map_eq_some_iff.1 hrun'
  rw [Machine.run_unique hran hran']

/-- What comes to a stage: the signal at the start to the first, and to the others
what the run before output last. -/
inductive SignalInto (program : Program) (settings : List Int) (first : Int) : Nat → Int → Prop
  | start : SignalInto program settings first 0 first
  | next {k : Nat} {s v w : Int} {m : Machine} :
      SignalInto program settings first k v → settings[k]? = some s →
      program.Ends [s, v] (.ok m) → m.output.sent.back? = some w →
      SignalInto program settings first (k + 1) w

/-- What the complete run for a stage comes to, on its setting and its signal. -/
def StageEnds (program : Program) (settings : List Int) (first : Int) (k : Nat)
    (r : Except MachineError Machine) : Prop :=
  ∃ s v, settings[k]? = some s ∧ SignalInto program settings first k v ∧ program.Ends [s, v] r

/-- The run for a stage gives no signal: it is refused, or it outputs nothing. -/
inductive FailsAt (program : Program) (settings : List Int) (first : Int) :
    Nat → CascadeError → Prop
  | refused {k : Nat} {cause : MachineError} :
      StageEnds program settings first k (.error cause) →
      FailsAt program settings first k (.stage cause)
  | silent {k : Nat} {m : Machine} :
      StageEnds program settings first k (.ok m) → m.output.sent.back? = none →
      FailsAt program settings first k (.silent k)

theorem StageEnds.lt (h : StageEnds program settings first k r) : k < settings.length := by
  obtain ⟨s, v, hs, -⟩ := h
  exact (List.getElem?_eq_some_iff.1 hs).1

/-- A signal is what the run before has output last. -/
theorem signalInto_succ_iff : SignalInto program settings first (k + 1) w ↔
    ∃ m, StageEnds program settings first k (.ok m) ∧ m.output.sent.back? = some w := by
  constructor
  · intro h
    cases h with
    | next hinto hs hends hlast => exact ⟨_, ⟨_, _, hs, hinto, hends⟩, hlast⟩
  · rintro ⟨m, ⟨s, v, hs, hinto, hends⟩, hlast⟩
    exact hinto.next hs hends hlast

/-- **One signal comes to a stage.** -/
theorem SignalInto.unique (h : SignalInto program settings first k v)
    (h' : SignalInto program settings first k w) : v = w := by
  induction h generalizing w with
  | start =>
    cases h'
    rfl
  | next _ hs hends hlast ih =>
    cases h' with
    | next hinto hs' hends' hlast' =>
      obtain rfl := ih hinto
      obtain rfl := Option.some.inj (hs.symm.trans hs')
      obtain rfl := Except.ok.inj (ends_unique hends hends')
      exact Option.some.inj (hlast.symm.trans hlast')

theorem StageEnds.unique (h : StageEnds program settings first k r)
    (h' : StageEnds program settings first k r') : r = r' := by
  obtain ⟨s, v, hs, hinto, hends⟩ := h
  obtain ⟨s', v', hs', hinto', hends'⟩ := h'
  obtain rfl := hinto.unique hinto'
  obtain rfl := Option.some.inj (hs.symm.trans hs')
  exact ends_unique hends hends'

theorem FailsAt.exists_ends (h : FailsAt program settings first k e) :
    ∃ r, StageEnds program settings first k r := by
  cases h with
  | refused hends | silent hends _ => exact ⟨_, hends⟩

/-- No signal is passed on by a run that gives none. -/
theorem FailsAt.not_succ (h : FailsAt program settings first k e) :
    ¬ SignalInto program settings first (k + 1) w := by
  rw [signalInto_succ_iff]
  rintro ⟨m, hends, hlast⟩
  cases h with
  | refused hends' => cases hends.unique hends'
  | silent hends' hnone =>
    obtain rfl := Except.ok.inj (hends.unique hends')
    cases hlast.symm.trans hnone

/-- A signal that comes to a stage has come to all before it. -/
theorem SignalInto.of_le (h : SignalInto program settings first k v) (hle : i ≤ k) :
    ∃ w, SignalInto program settings first i w := by
  induction h with
  | start =>
    obtain rfl := Nat.le_zero.1 hle
    exact ⟨first, .start⟩
  | @next k s v w m hinto hs hends hlast ih =>
    rcases Nat.le_succ_iff.1 hle with hle | rfl
    · exact ih hle
    · exact ⟨w, hinto.next hs hends hlast⟩

/-- **Nothing comes behind a run that fails.** -/
theorem FailsAt.le (h : FailsAt program settings first k e)
    (hinto : SignalInto program settings first i v) : i ≤ k := by
  by_contra hlt
  obtain ⟨w, hnext⟩ := hinto.of_le (Nat.succ_le_of_lt (Nat.lt_of_not_le hlt))
  exact h.not_succ hnext

/-- **At most one run fails**, and in one way. -/
theorem FailsAt.unique (h : FailsAt program settings first k e)
    (h' : FailsAt program settings first j e') : k = j ∧ e = e' := by
  obtain ⟨r, s, v, -, hinto, -⟩ := h.exists_ends
  obtain ⟨r', s', v', -, hinto', -⟩ := h'.exists_ends
  obtain rfl : k = j := Nat.le_antisymm (h'.le hinto) (h.le hinto')
  refine ⟨rfl, ?_⟩
  cases h with
  | refused hends =>
    cases h' with
    | refused hends' => rw [Except.error.inj (hends.unique hends')]
    | silent hends' _ => cases hends.unique hends'
  | silent hends _ =>
    cases h' with
    | refused hends' => cases hends.unique hends'
    | silent => rfl

/-! ## Stages of a pass -/

/-- The first `k` stages have been run, each to where its complete run leads, and
the others are about to start. -/
structure Relayed (program : Program) (settings : List Int) (first : Int) (k : Nat) (c : Cascade) :
    Prop where
  size_eq : c.stages.size = settings.length
  done : ∀ i m, i < k → StageEnds program settings first i (.ok m) → c.stages[i]? = some m
  fresh : ∀ j s, k ≤ j → settings[j]? = some s → c.stages[j]? = some (load program [s])

theorem relayed_build (h : build program settings = .ok c) (first : Int) :
    Relayed program settings first 0 c where
  size_eq := by
    obtain ⟨-, rfl⟩ := build_eq_ok_iff.1 h
    simp
  done _ _ hi := absurd hi (Nat.not_lt_zero _)
  fresh j s _ hs := by rw [getElem?_build h, hs, Option.map_some]

/-- **A stage that is given its signal** makes a run on its setting and the
signal. -/
theorem runStage_eq {mode : RunMode} (hstage : c.stages[k]? = some (load program [s])) :
    c.runStage fuel mode k v = ((load program [s, v]).run fuel mode).map fun out =>
      { result := out.result, after := c.withStage k out.after, events := out.events } := by
  have hfed : (load program [s]).feed [v] = load program [s, v] := by
    simp [load, Machine.feed, Channel.sendAll, Channel.empty]
  rw [runStage, hstage, ← hfed]
  rfl

/-- Running a stage leaves the ones before it and behind it as they are. -/
theorem Relayed.withStage (h : Relayed program settings first k c) (hk : k < settings.length)
    (hends : ∀ m', StageEnds program settings first k (.ok m') → m = m') :
    Relayed program settings first (k + 1) (c.withStage k m) := by
  rw [← h.size_eq] at hk
  refine ⟨by rw [size_withStage, h.size_eq], fun i m' hi hends' => ?_, fun j s hj hs => ?_⟩
  · rw [getElem?_withStage hk]
    split
    · rename_i heq
      subst heq
      rw [hends m' hends']
    · exact h.done i m' (by omega) hends'
  · rw [getElem?_withStage hk, if_neg (by omega)]
    exact h.fresh j s (by omega) hs

/-- How a pass ends. -/
inductive Passed (program : Program) (settings : List Int) (first : Int)
    (out : Outcome Cascade CascadeError Int) : Prop
  | arrived {w : Int} :
      out.result = .ok w → SignalInto program settings first settings.length w →
      Relayed program settings first settings.length out.after →
      Passed program settings first out
  | failed {k : Nat} {e : CascadeError} :
      out.result = .error e → FailsAt program settings first k e →
      Relayed program settings first (k + 1) out.after → Passed program settings first out

/-- **One stage of a pass.** -/
theorem Relayed.ran {ran : Outcome Cascade MachineError RunEnd}
    (h : Relayed program settings first k c) (hk : k < settings.length)
    (hinto : SignalInto program settings first k v)
    (hran : c.runStage fuel .toHalt k v = some ran) :
    Relayed program settings first (k + 1) ran.after ∧
      ((∃ cause, ran.result = .error cause ∧ StageEnds program settings first k (.error cause)) ∨
       ∃ m stop, ran.result = .ok stop ∧ StageEnds program settings first k (.ok m) ∧
        ran.after.lastOutput? k = m.output.sent.back?) := by
  have hs : settings[k]? = some settings[k] := List.getElem?_eq_getElem hk
  rw [runStage_eq (h.fresh k _ (Nat.le_refl k) hs)] at hran
  obtain ⟨out, hout, rfl⟩ := Option.map_eq_some_iff.1 hran
  have hends : StageEnds program settings first k (out.result.map fun _ => out.after) :=
    ⟨_, v, hs, hinto, fuel, by rw [Program.execute, hout]; rfl⟩
  refine ⟨h.withStage hk fun m' hends' => ?_, ?_⟩
  · have hsame := hends.unique hends'
    cases hresult : out.result with
    | error cause =>
      rw [hresult] at hsame
      cases hsame
    | ok stop =>
      rw [hresult] at hsame
      exact Except.ok.inj hsame
  · cases hresult : out.result with
    | error cause =>
      rw [hresult] at hends
      exact .inl ⟨cause, rfl, hends⟩
    | ok stop =>
      rw [hresult] at hends
      refine .inr ⟨out.after, stop, rfl, hends, ?_⟩
      rw [lastOutput?, getElem?_withStage (by rwa [h.size_eq]), if_pos rfl]
      rfl

/-- **A pass is a relay.** Whatever the fuel, it ends as the complete runs do. -/
theorem passOn_passed (h : Relayed program settings first k c)
    (hinto : SignalInto program settings first k v) (hcount : k + count = settings.length)
    (hpass : passOn fuel count v events c = some out) : Passed program settings first out := by
  induction count generalizing k v events c with
  | zero =>
    obtain rfl := Option.some.inj hpass
    obtain rfl : k = settings.length := by omega
    exact .arrived rfl hinto h
  | succ count ih =>
    -- the pass counts the stages that are left, not the ones that are done
    have hturn : c.stages.size - (count + 1) = k := by
      rw [h.size_eq]
      omega
    rw [passOn, hturn] at hpass
    cases hran : c.runStage fuel .toHalt k v with
    | none => simp [hran] at hpass
    | some ran =>
      obtain ⟨hnext, ⟨cause, hresult, hends⟩ | ⟨m, stop, hresult, hends, hlast⟩⟩ :=
        h.ran (by omega) hinto hran
      · simp only [hran, hresult, Option.some.injEq] at hpass
        subst hpass
        exact .failed rfl (.refused hends) hnext
      · simp only [hran, hresult, hlast] at hpass
        cases hback : m.output.sent.back? with
        | none =>
          simp only [hback, Option.some.injEq] at hpass
          subst hpass
          exact .failed rfl (.silent hends hback) hnext
        | some w =>
          simp only [hback] at hpass
          exact ih hnext (signalInto_succ_iff.2 ⟨m, hends, hback⟩) (by omega) hpass

/-! ## Passes end -/

/-- **What the next stage of a pass comes to**: its run is refused, or has left no output at all,
or the last of its outputs goes through the stages behind it. -/
inductive NextStage (fuel count : Nat) (v : Int) (events : Array Event) (c : Cascade) :
    Outcome Cascade CascadeError Int → Prop
  | refused {ran : Outcome Cascade MachineError RunEnd} {cause : MachineError} :
      c.runStage fuel .toHalt (c.stages.size - (count + 1)) v = some ran →
      ran.result = .error cause →
      NextStage fuel count v events c
        { result := .error (.stage cause), after := ran.after, events := events ++ ran.events }
  | silent {ran : Outcome Cascade MachineError RunEnd} {stop : RunEnd} :
      c.runStage fuel .toHalt (c.stages.size - (count + 1)) v = some ran →
      ran.result = .ok stop → ran.after.lastOutput? (c.stages.size - (count + 1)) = none →
      NextStage fuel count v events c
        { result := .error (.silent (c.stages.size - (count + 1))), after := ran.after,
          events := events ++ ran.events }
  | passed {ran : Outcome Cascade MachineError RunEnd} {stop : RunEnd} {w : Int}
      {out : Outcome Cascade CascadeError Int} :
      c.runStage fuel .toHalt (c.stages.size - (count + 1)) v = some ran →
      ran.result = .ok stop → ran.after.lastOutput? (c.stages.size - (count + 1)) = some w →
      passOn fuel count w (events ++ ran.events) ran.after = some out →
      NextStage fuel count v events c out

theorem passOn_succ_eq_some_iff :
    passOn fuel (count + 1) v events c = some out ↔ NextStage fuel count v events c out := by
  rw [passOn]
  constructor
  · intro h
    cases hran : c.runStage fuel .toHalt (c.stages.size - (count + 1)) v with
    | none => simp [hran] at h
    | some ran =>
      simp only [hran] at h
      cases hresult : ran.result with
      | error cause =>
        simp only [hresult, Option.some.injEq] at h
        subst h
        exact .refused hran hresult
      | ok stop =>
        simp only [hresult] at h
        cases hlast : ran.after.lastOutput? (c.stages.size - (count + 1)) with
        | none =>
          simp only [hlast, Option.some.injEq] at h
          subst h
          exact .silent hran hresult hlast
        | some w =>
          simp only [hlast] at h
          exact .passed hran hresult hlast h
  · rintro (⟨hran, hresult⟩ | ⟨hran, hresult, hlast⟩ | ⟨hran, hresult, hlast, hrest⟩)
    · simp only [hran, hresult]
    · simp only [hran, hresult, hlast]
    · simp only [hran, hresult, hlast, hrest]

theorem runStage_mono {mode : RunMode} {ran : Outcome Cascade MachineError RunEnd}
    (h : c.runStage fuel mode k signal = some ran) (hle : fuel ≤ more) :
    c.runStage more mode k signal = some ran := by
  obtain ⟨stage, out, hstage, hout, rfl⟩ := exists_of_runStage h
  simp only [runStage, hstage, Machine.run_mono hout hle]
  rfl

theorem passOn_mono (h : passOn fuel count v events c = some out) (hle : fuel ≤ more) :
    passOn more count v events c = some out := by
  induction count generalizing v events c with
  | zero => exact h
  | succ count ih =>
    rw [passOn_succ_eq_some_iff] at h ⊢
    cases h with
    | refused hran hresult => exact .refused (runStage_mono hran hle) hresult
    | silent hran hresult hlast => exact .silent (runStage_mono hran hle) hresult hlast
    | passed hran hresult hlast hrest =>
      exact .passed (runStage_mono hran hle) hresult hlast (ih hrest)

/-- The complete runs that are come to stop. -/
def RunsStop (program : Program) (settings : List Int) (first : Int) : Prop :=
  ∀ k v, k < settings.length → SignalInto program settings first k v →
    ∃ r, StageEnds program settings first k r

/-- **A pass whose runs stop ends.** -/
theorem exists_passOn (hstop : RunsStop program settings first)
    (h : Relayed program settings first k c) (hinto : SignalInto program settings first k v)
    (hcount : k + count = settings.length) (events : Array Event) :
    ∃ fuel out, passOn fuel count v events c = some out := by
  induction count generalizing k v events c with
  | zero => exact ⟨0, _, rfl⟩
  | succ count ih =>
    have hk : k < settings.length := by omega
    have hturn : c.stages.size - (count + 1) = k := by
      rw [h.size_eq]
      omega
    obtain ⟨r, s, v', hs, hinto', fuel, hexecute⟩ := hstop k v hk hinto
    obtain rfl := hinto.unique hinto'
    obtain ⟨one, hone, -⟩ := Option.map_eq_some_iff.1 hexecute
    obtain ⟨ran, hran⟩ : ∃ ran, c.runStage fuel .toHalt k v = some ran := by
      rw [runStage_eq (h.fresh k s (Nat.le_refl k) hs), hone]
      exact ⟨_, rfl⟩
    obtain ⟨hnext, ⟨cause, hresult, hends⟩ | ⟨m, stop, hresult, hends, hlast⟩⟩ :=
      h.ran hk hinto hran
    · refine ⟨fuel, ?_⟩
      simp only [passOn, hturn, hran, hresult]
      exact ⟨_, rfl⟩
    · cases hback : m.output.sent.back? with
      | none =>
        refine ⟨fuel, ?_⟩
        simp only [passOn, hturn, hran, hresult, hlast, hback]
        exact ⟨_, rfl⟩
      | some w =>
        obtain ⟨fuel', out, hout⟩ := ih hnext (signalInto_succ_iff.2 ⟨m, hends, hback⟩) (by omega)
          (events ++ ran.events)
        -- fuel for this stage and fuel for those behind it make fuel for all
        refine ⟨max fuel fuel', out, ?_⟩
        simp only [passOn, hturn, runStage_mono hran (Nat.le_max_left ..), hresult, hlast, hback]
        exact passOn_mono hout (Nat.le_max_right ..)

/-- **One pass is a relay of complete runs.** Take any program, settings and signal
such that the complete runs that are come to stop. Then the cascade gives a value
exactly if a signal comes out behind the last run, and that value; it fails exactly
if a run does, as the first that does, which is the only one. Each stage whose run
gives a result ends as that run does, and the stages behind one that fails are as
they were at the start. -/
theorem pass_is_a_relay (hsettings : settings ≠ []) (hstop : RunsStop program settings first) :
    ∃ c, build program settings = .ok c ∧ (∃ fuel out, c.passOnce fuel first = some out) ∧
      ∀ fuel out, c.passOnce fuel first = some out →
        (∀ w, out.result = .ok w ↔ SignalInto program settings first settings.length w) ∧
        (∀ e, out.result = .error e ↔ ∃ k, FailsAt program settings first k e) ∧
        (∀ i m, StageEnds program settings first i (.ok m) → out.after.stages[i]? = some m) ∧
        (∀ k e, FailsAt program settings first k e → ∀ j s, k < j → settings[j]? = some s →
          out.after.stages[j]? = some (load program [s])) := by
  obtain ⟨c, hbuild⟩ : ∃ c, build program settings = .ok c :=
    ⟨_, build_eq_ok_iff.2 ⟨hsettings, rfl⟩⟩
  have hfresh := relayed_build hbuild first
  have hcount : 0 + c.stages.size = settings.length := by rw [hfresh.size_eq, Nat.zero_add]
  refine ⟨c, hbuild, exists_passOn hstop hfresh .start hcount #[], fun fuel out hout => ?_⟩
  cases passOn_passed hfresh .start hcount hout with
  | @arrived w hresult hinto hall =>
    -- a signal behind the last stage leaves no room for a failure
    have hnone : ∀ k e, ¬ FailsAt program settings first k e := by
      intro k e hfails
      obtain ⟨r, hends⟩ := hfails.exists_ends
      exact absurd hends.lt (Nat.not_lt.2 (hfails.le hinto))
    refine ⟨fun w' => ?_, fun e => ?_, fun i m hends => hall.done i m hends.lt hends,
      fun k e hfails => absurd hfails (hnone k e)⟩
    · rw [hresult]
      exact ⟨fun h => Except.ok.inj h ▸ hinto, fun h => by rw [hinto.unique h]⟩
    · rw [hresult]
      exact iff_of_false (by simp) (by simp [hnone])
  | @failed k e hresult hfails hall =>
    obtain ⟨r, hends⟩ := hfails.exists_ends
    refine ⟨fun w => ?_, fun e' => ?_, fun i m hi => ?_, fun k' e' hfails' j s hj hs => ?_⟩
    · rw [hresult]
      exact iff_of_false (by simp) fun h => absurd hends.lt (Nat.not_lt.2 (hfails.le h))
    · rw [hresult]
      refine ⟨fun h => ⟨k, Except.error.inj h ▸ hfails⟩, ?_⟩
      rintro ⟨k', hfails'⟩
      rw [(hfails.unique hfails').2]
    · have ⟨s, v, _, hinto, _⟩ := hi
      exact hall.done i m (Nat.lt_succ_of_le (hfails.le hinto)) hi
    · obtain ⟨rfl, -⟩ := hfails.unique hfails'
      exact hall.fresh j s hj hs

/-- What a complete run is seen to output last. -/
theorem exists_ends_of_last (fuel : Nat)
    (h : (program.execute fuel input).map (·.map (·.output.sent.back?)) = some (.ok (some w))) :
    ∃ m, program.Ends input (.ok m) ∧ m.output.sent.back? = some w := by
  obtain ⟨r, hr, hlast⟩ := Option.map_eq_some_iff.1 h
  cases r with
  | error cause => cases hlast
  | ok m => exact ⟨m, ⟨fuel, hr⟩, Except.ok.inj hlast⟩

/-- A program that outputs the sum of two values. -/
def sumProgram : Program := [3, 11, 3, 12, 1, 11, 12, 11, 4, 11, 99, 0, 0]

/-- Two stages, each of which adds its setting to the signal. -/
theorem two_adding_stages_relay :
    ∃ c fuel out, build sumProgram [1, 2] = .ok c ∧ c.passOnce fuel 3 = some out ∧
      out.result = .ok 6 := by
  obtain ⟨m, hm, hfour⟩ : ∃ m, sumProgram.Ends [1, 3] (.ok m) ∧ m.output.sent.back? = some 4 :=
    exists_ends_of_last 9 (by decide +kernel)
  obtain ⟨m', hm', hsix⟩ : ∃ m, sumProgram.Ends [2, 4] (.ok m) ∧ m.output.sent.back? = some 6 :=
    exists_ends_of_last 9 (by decide +kernel)
  have hfirst : SignalInto sumProgram [1, 2] 3 0 3 := .start
  have hsecond : SignalInto sumProgram [1, 2] 3 1 4 := hfirst.next rfl hm hfour
  have hlast : SignalInto sumProgram [1, 2] 3 2 6 := hsecond.next rfl hm' hsix
  have hstop : RunsStop sumProgram [1, 2] 3 := by
    intro k v hk hinto
    have hstage : k = 0 ∨ k = 1 := by
      simp only [List.length_cons, List.length_nil] at hk
      omega
    rcases hstage with rfl | rfl
    · obtain rfl := hinto.unique hfirst
      exact ⟨_, 1, 3, rfl, hfirst, hm⟩
    · obtain rfl := hinto.unique hsecond
      exact ⟨_, 2, 4, rfl, hsecond, hm'⟩
  obtain ⟨c, hbuild, ⟨fuel, out, hout⟩, hpassed⟩ := pass_is_a_relay (by simp) hstop
  exact ⟨c, fuel, out, hbuild, hout, ((hpassed fuel out hout).1 6).2 hlast⟩

end Cascade

end IntMachine
