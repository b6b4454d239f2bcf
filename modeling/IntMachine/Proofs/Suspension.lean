import IntMachine.Proofs.Runs
/-!
# Suspended runs

A run that stops for want of input can be taken up again, and how the input is
cut into pieces does not show in what the machine becomes. Input that no
instruction has asked for yet is inert (`advance_feed`), so a run on less input
is the beginning of the run on more (`run_feed`); `runPieces_feed` is the same
for any number of pieces.
-/

namespace IntMachine

/-- What is received first was sent first. -/
theorem Channel.receive?_sendAll {c d : Channel} {v : Int} (ws : List Int)
    (h : c.receive? = some (v, d)) : (c.sendAll ws).receive? = some (v, d.sendAll ws) := by
  rw [receive?] at h
  split at h
  · rename_i hlt
    obtain ⟨rfl, rfl⟩ := by simpa using h
    have hmore : (c.sendAll ws).position < (c.sendAll ws).sent.size := by simp [sendAll]; omega
    rw [receive?, dif_pos hmore]
    simp [sendAll, hlt]
  · cases h

/-- Values behind the one an instruction takes play no part in its effect. -/
theorem Effect.feed {i : Instruction} {m m' : Machine} {next : Int} (h : Effect i m next m')
    (ws : List Int) : Effect i (m.feed ws) next (m'.feed ws) := by
  cases h with
  | store hf ho => exact .store hf ho
  | input hop ho hv => exact .input hop ho (Channel.receive?_sendAll ws hv)
  | output hop ho => exact .output hop ho
  | jump hf ho => exact .jump hf ho
  | adjust hop ho => exact .adjust hop ho
  | halt hop ho => exact .halt hop ho

namespace Machine

variable {fuel steps : Nat} {events : Array Event} {m : Machine} {ws : List Int}
variable {whole : Outcome Machine MachineError RunEnd}

/-! ## Input not asked for -/

@[simp] theorem feed_nil (m : Machine) : m.feed [] = m := by
  simp [feed, Channel.sendAll]

theorem feed_append (m : Machine) (vs ws : List Int) : m.feed (vs ++ ws) = (m.feed vs).feed ws := by
  simp [feed, Channel.sendAll]

/-- **Input is inert until it is asked for.** -/
theorem advance_feed (h : m.advance.result ≠ .ok none) (ws : List Int) :
    (m.feed ws).advance = { m.advance with after := m.advance.after.feed ws } := by
  rcases advance_cases m with ⟨e, hd, hadv⟩ | ⟨i, -, -, hadv⟩ | ⟨i, next, m', hd, hs, heff, hadv⟩
  · rw [hadv, advance_of_decode_error (m := m.feed ws) hd]
    rfl
  · exact absurd (by rw [hadv]) h
  · have hgoes : (m.feed ws).starves i = false := by
      rw [Bool.eq_false_iff, ne_eq, starves_iff]
      rintro ⟨hop, hpending⟩
      rw [feed, Channel.pending_sendAll, List.append_eq_nil_iff] at hpending
      simp [starves_iff.2 ⟨hop, hpending.1⟩] at hs
    rw [hadv, advance_of_execute (m := m.feed ws) hd hgoes (execute_of_effect (heff.feed ws))]
    rfl

/-! ## Two pieces -/

/-- A run that is to stop where input is missing stops after an instruction
only where the machine has halted. -/
theorem not_active_of_stopAfter? {i : Instruction} {stop : Stop}
    (h : stopAfter? .toInput m i = some stop) : ¬ m.Active := by
  cases hm : m.activity <;> simp [stopAfter?, isHalted, Active, hm] at h ⊢

/-- **A run on less input is the beginning of the run on more.** -/
theorem runOn_feed (hm : m.activity = .running)
    (h : runOn .toInput none fuel steps events (m.feed ws) = some whole) :
    ∃ first rest, runOn .toInput none fuel steps events m = some first ∧
      (first.after.feed ws).run fuel .toInput = some rest ∧ rest.after = whole.after ∧
      instructionsOf first.events ++ instructionsOf rest.events = instructionsOf whole.events := by
  induction fuel generalizing steps events m with
  | zero => cases h
  | succ fuel ih =>
    have hlimit : StepLimit.reached none steps = false := rfl
    cases hadv : m.advance.result with
    | error e =>
      have hfed := advance_feed (m := m) (by simp [hadv]) ws
      rw [runOn_of_error hlimit (by rw [hfed, hadv]), hfed] at h
      obtain rfl := Option.some.inj h
      have hdone : ¬ (m.advance.after.feed ws).Active := not_active_of_advance_error hadv
      obtain ⟨rest, hrun, hafter, hnone⟩ := run_of_not_active hdone
      exact ⟨_, rest, runOn_of_error hlimit hadv, hrun, hafter, by simp [hnone]⟩
    | ok tried =>
      cases tried with
      | none =>
        -- the whole run is still to come: it is the rest, up to what it counts from
        obtain ⟨rest, hrest, hafter, hevents⟩ := runOn_restarted h
        have hsuspended := advance_of_none hadv
        have hresumed : ({ m.advance.after.feed ws with activity := .running } : Machine) =
            m.feed ws := by
          rw [hsuspended, feed, feed, ← hm]
        refine ⟨_, rest, runOn_of_none hlimit hadv, ?_, hafter, by simp [hsuspended, hevents]⟩
        rw [run_of_active (by rw [hsuspended]; exact .inr rfl)]
        exact hresumed ▸ hrest
      | some i =>
        have hfed := advance_feed (m := m) (by simp [hadv]) ws
        have hfedi : (m.feed ws).advance.result = .ok (some i) := by rw [hfed, hadv]
        cases hstop : stopAfter? .toInput m.advance.after i with
        | some stop =>
          rw [runOn_of_stop hlimit hfedi (by rw [hfed]; exact hstop), hfed] at h
          obtain rfl := Option.some.inj h
          have hdone : ¬ (m.advance.after.feed ws).Active := not_active_of_stopAfter? hstop
          obtain ⟨rest, hrun, hafter, hnone⟩ := run_of_not_active hdone
          exact ⟨_, rest, runOn_of_stop hlimit hadv hstop, hrun, hafter, by simp [hnone]⟩
        | none =>
          rw [runOn_of_go hlimit hfedi (by rw [hfed]; exact hstop), hfed] at h
          obtain ⟨first, rest, hfirst, hrest, hafter, hevents⟩ :=
            ih (running_of_stopAfter?_eq_none hadv hstop) h
          exact ⟨first, rest, by rw [runOn_of_go hlimit hadv hstop]; exact hfirst,
            run_mono hrest (Nat.le_succ _), hafter, hevents⟩

/-- The same from whatever the machine is doing. -/
theorem run_feed (h : (m.feed ws).run fuel .toInput = some whole) :
    ∃ first rest, m.run fuel .toInput = some first ∧
      (first.after.feed ws).run fuel .toInput = some rest ∧ rest.after = whole.after ∧
      instructionsOf first.events ++ instructionsOf rest.events = instructionsOf whole.events := by
  by_cases hm : m.Active
  · rw [run_of_active (m := m.feed ws) hm] at h
    rw [run_of_active hm]
    exact runOn_feed rfl h
  · obtain ⟨first, hfirst, hafter, hnone⟩ := run_of_not_active hm
    exact ⟨first, whole, hfirst, by rw [hafter]; exact h, rfl, by simp [hnone]⟩

/-! ## Any number of pieces -/

/-- Runs a machine once for each piece of input, as soon as that is sent. -/
def runPieces (fuel : Nat) :
    List (List Int) → Machine → Option (List (Outcome Machine MachineError RunEnd))
  | [], _ => some []
  | piece :: pieces, m =>
    match (m.feed piece).run fuel .toInput with
    | none => none
    | some out => (runPieces fuel pieces out.after).map (out :: ·)

theorem runPieces_cons {piece : List Int} {pieces : List (List Int)}
    {out : Outcome Machine MachineError RunEnd} {outs : List (Outcome Machine MachineError RunEnd)}
    (hout : (m.feed piece).run fuel .toInput = some out)
    (houts : runPieces fuel pieces out.after = some outs) :
    runPieces fuel (piece :: pieces) m = some (out :: outs) := by
  simp only [runPieces, hout, houts, Option.map_some]

/-- **Suspension is transparent.** Where one run on all the input comes to an
end, so do the runs on its pieces, one after the other; the last of them leaves
the same machine, and together they execute the same instructions in the same
order, so that none has been touched by input sent after it. -/
theorem runPieces_feed {pieces : List (List Int)} (hpieces : pieces ≠ [])
    (h : (m.feed pieces.flatten).run fuel .toInput = some whole) :
    ∃ outs last, runPieces fuel pieces m = some (outs ++ [last]) ∧ last.after = whole.after ∧
      (outs ++ [last]).flatMap (fun out => instructionsOf out.events) =
        instructionsOf whole.events ∧
      ((outs ++ [last]).map fun out => (instructionsOf out.events).length).sum =
        (instructionsOf whole.events).length := by
  induction pieces generalizing m whole with
  | nil => exact absurd rfl hpieces
  | cons piece pieces ih =>
    cases pieces with
    | nil =>
      -- the last piece is the only one to be compared with the whole run
      refine ⟨[], whole, runPieces_cons ?_ rfl, rfl, by simp, by simp⟩
      simpa using h
    | cons next others =>
      rw [List.flatten_cons, feed_append] at h
      obtain ⟨first, rest, hfirst, hrest, hafter, hevents⟩ := run_feed h
      obtain ⟨outs, last, houts, hlast, hflat, hsum⟩ := ih (by simp) hrest
      refine ⟨first :: outs, last, runPieces_cons hfirst houts, hlast.trans hafter, ?_, ?_⟩
      · rw [List.cons_append, List.flatMap_cons, hflat, hevents]
      · rw [List.cons_append, List.map_cons, List.sum_cons, hsum, ← hevents, List.length_append]

/-- Two values echoed and one dropped before the halt, in four pieces: one is
empty, one is more than is asked for, and one comes after the halt. -/
theorem echoes_in_four_pieces :
    ∃ whole outs last,
      ((load [3, 11, 4, 11, 3, 11, 4, 11, 3, 11, 99]).feed [5, 7, 8, 9]).run 20 .toInput =
        some whole ∧
      runPieces 20 [[5], [], [7, 8], [9]] (load [3, 11, 4, 11, 3, 11, 4, 11, 3, 11, 99]) =
        some (outs ++ [last]) ∧
      last.after = whole.after ∧ whole.after.output.sent = #[5, 7] ∧
      whole.after.input.pending = [9] ∧ whole.after.executed = 6 := by
  have hseen : (((load [3, 11, 4, 11, 3, 11, 4, 11, 3, 11, 99]).feed [5, 7, 8, 9]).run 20
      .toInput).map (fun out => (out.after.output.sent, out.after.input.pending,
        out.after.executed)) = some (#[5, 7], [9], 6) := by decide +kernel
  obtain ⟨whole, hwhole, hafter⟩ := Option.map_eq_some_iff.1 hseen
  obtain ⟨outs, last, houts, hlast, -, -⟩ :=
    runPieces_feed (List.cons_ne_nil [5] [[], [7, 8], [9]]) hwhole
  simp only [Prod.mk.injEq] at hafter
  exact ⟨whole, outs, last, hwhole, houts, hlast, hafter.1, hafter.2.1, hafter.2.2⟩

end Machine

end IntMachine
