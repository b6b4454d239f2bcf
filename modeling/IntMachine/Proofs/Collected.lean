import IntMachine.Proofs.Endings
import IntMachine.Proofs.Trail
/-!
# Collected output

How much of its output has been collected has no part in what a machine does.
`Machine.Alike` says that two machines differ at most in that; alike machines
execute the same instructions and become alike machines (`Trail.alike`).
-/

namespace IntMachine

/-- The machines differ at most in how much of their output has been collected. -/
structure Machine.Alike (m c : Machine) : Prop where
  eq : c = { m with output := c.output }
  sent : c.output.sent = m.output.sent

/-- What has been collected plays no part in an instruction's effect. -/
theorem Effect.alike {i : Instruction} {m c d : Machine} {next : Int} (heff : Effect i m next d)
    (h : m.Alike c) : ∃ e, Effect i c next e ∧ d.Alike e := by
  obtain ⟨hc, hsent⟩ := h
  rw [hc]
  cases heff with
  | store hf ho => exact ⟨_, .store hf ho, rfl, hsent⟩
  | input hop ho hv => exact ⟨_, .input hop ho hv, rfl, hsent⟩
  | output hop ho => exact ⟨_, .output hop ho, rfl, by simp [Channel.send, hsent]⟩
  | jump hf ho => exact ⟨_, .jump hf ho, rfl, hsent⟩
  | adjust hop ho => exact ⟨_, .adjust hop ho, rfl, hsent⟩
  | halt hop ho => exact ⟨_, .halt hop ho, rfl, hsent⟩

namespace Machine

variable {m c d : Machine} {is : List Instruction}

namespace Alike

theorem refl (m : Machine) : m.Alike m := ⟨rfl, rfl⟩

theorem symm (h : m.Alike c) : c.Alike m := by
  obtain ⟨hc, hsent⟩ := h
  rw [hc]
  exact ⟨rfl, hsent.symm⟩

theorem trans (h : m.Alike c) (h' : c.Alike d) : m.Alike d := by
  obtain ⟨hc, hsent⟩ := h
  obtain ⟨hd, hsent'⟩ := h'
  refine ⟨?_, hsent'.trans hsent⟩
  rw [hd, hc]

theorem feed (h : m.Alike c) (ws : List Int) : (m.feed ws).Alike (c.feed ws) := by
  obtain ⟨hc, hsent⟩ := h
  rw [hc]
  exact ⟨rfl, hsent⟩

theorem activity (h : m.Alike c) : c.activity = m.activity := by rw [h.eq]

theorem memory (h : m.Alike c) : c.memory = m.memory := by rw [h.eq]

theorem active (h : m.Alike c) (hm : m.Active) : c.Active := by
  rw [Active, h.activity]
  exact hm

/-- **Alike machines take the same step.** -/
theorem advance (h : m.Alike c) :
    c.advance.result = m.advance.result ∧ m.advance.after.Alike c.advance.after := by
  -- which of the three cases it is depends on memory, registers and input alone
  have hdecode : c.memory.decode c.pc c.base = m.memory.decode m.pc m.base := by rw [h.eq]
  have hinput : c.input = m.input := by rw [h.eq]
  have hstarves : ∀ i, c.starves i = m.starves i := fun i => by rw [starves, starves, hinput]
  have hwith : ∀ a, { m with activity := a }.Alike { c with activity := a } := fun a => by
    obtain ⟨hc, hsent⟩ := h
    rw [hc]
    exact ⟨rfl, hsent⟩
  rcases advance_cases m with ⟨e, hd, heq⟩ | ⟨i, hd, hs, heq⟩ | ⟨i, next, m', hd, hs, heff, heq⟩
  · rw [heq, advance_of_decode_error (hdecode.trans hd)]
    exact ⟨rfl, hwith _⟩
  · rw [heq, advance_of_starves (hdecode.trans hd) ((hstarves i).trans hs)]
    exact ⟨rfl, hwith _⟩
  · have hentering : (m.entering i).Alike (c.entering i) := by
      obtain ⟨hc, hsent⟩ := h
      rw [hc]
      exact ⟨rfl, hsent⟩
    obtain ⟨c', heff', hafter⟩ := heff.alike hentering
    rw [heq, advance_of_execute (hdecode.trans hd) ((hstarves i).trans hs)
      (execute_of_effect heff')]
    refine ⟨rfl, ?_⟩
    obtain ⟨hc', hsent'⟩ := hafter
    rw [hc']
    exact ⟨rfl, hsent'⟩

theorem starved (h : m.Alike c) (hm : m.Starved) : c.Starved :=
  ⟨h.activity.trans hm.waits, h.advance.1.trans hm.stuck⟩

end Alike

theorem alike_collectOutput (m : Machine) : m.Alike m.collectOutput.2 := ⟨rfl, rfl⟩

/-- **Alike machines take the same way**, and stay alike. -/
theorem Trail.alike (htrail : Trail m is d) (h : m.Alike c) : ∃ e, Trail c is e ∧ d.Alike e := by
  induction htrail generalizing c with
  | nil m => exact ⟨c, .nil c, h⟩
  | @cons m d i is hstep _ ih =>
    obtain ⟨hactive, hadv⟩ := step_eq_ok_iff.1 hstep
    obtain ⟨hresult, hafter⟩ := h.advance
    rw [step_after_of_active hactive] at ih
    obtain ⟨e, hrest, hde⟩ := ih hafter
    refine ⟨e, .cons (step_eq_ok_iff.2 ⟨h.active hactive, hresult.trans hadv⟩) ?_, hde⟩
    rwa [step_after_of_active (h.active hactive)]

end Machine

end IntMachine
