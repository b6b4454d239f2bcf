import IntMachine.Proofs.Operations
/-!
# Machines that wait for input

A machine that waits stands at an input instruction (`AtInput`), as long as
nobody writes to its memory, so that without input nothing can be executed on
it. What requests can change is what it is doing: a run that may execute no
instruction sets it running before it looks at the limit, and stops there
(`suspended_unless_allowed_nothing`).
-/

namespace IntMachine

/-- Whether a request leaves no room for a single instruction: a run whose limit
is reached from the start. -/
def Request.allowsNothing : Request → Bool
  | .step => false
  | .run _ limit => limit.reached 0
  | .outputs count limit => 0 < count && limit.reached 0

/-- What a machine without the input it needs is doing after a request. -/
def Request.leaves (r : Request) (a : Activity) : Activity :=
  match r with
  | .step => .awaitingInput
  | .run _ limit => if limit.reached 0 then .running else .awaitingInput
  | .outputs count limit =>
    if 0 < count then if limit.reached 0 then .running else .awaitingInput else a

theorem Request.leaves_of_allowsNothing {r : Request} (h : r.allowsNothing = true)
    (a : Activity) : r.leaves a = .running := by
  cases r <;> simp_all [allowsNothing, leaves]

theorem Request.leaves_awaitingInput {r : Request} (h : r.allowsNothing = false) :
    r.leaves .awaitingInput = .awaitingInput := by
  cases r with
  | step => rfl
  | run mode limit => simpa [allowsNothing, leaves] using h
  | outputs count limit =>
    rw [leaves]
    split
    · rename_i hcount
      simpa [allowsNothing, hcount] using h
    · rfl

theorem Request.leaves_running_or_awaitingInput (r : Request) {a : Activity}
    (h : a = .running ∨ a = .awaitingInput) :
    r.leaves a = .running ∨ r.leaves a = .awaitingInput := by
  cases r <;> grind [leaves]

namespace Machine

variable {fuel : Nat} {m c : Machine} {op : Operation}

/-! ## Without the input it needs -/

/-- A run that lacks input from the start outputs nothing and stops there or,
before it has looked, at its limit. -/
theorem run_of_starving (fuel : Nat) (mode : RunMode) (limit : StepLimit) (hm : m.Active)
    (h : m.advance.result = .ok none) :
    ∃ ran, m.run (fuel + 1) mode limit = some ran ∧ instructionsOf ran.events = [] ∧
      ran.after =
        { m with activity := if limit.reached 0 then .running else .awaitingInput } ∧
      ∀ v steps, ran.result ≠ .ok ⟨.output v, steps⟩ := by
  have hadvance : ({ m with activity := .running } : Machine).advance =
      { result := .ok none, after := { m with activity := .awaitingInput } } := by
    rw [advance_with_activity, advance_of_none h]
  rw [run_of_active hm]
  cases hlimit : limit.reached 0 with
  | true =>
    -- the machine was set running, and nothing looks at it again
    exact ⟨_, runOn_of_reached hlimit, rfl, rfl, by simp⟩
  | false =>
    refine ⟨_, runOn_of_none hlimit (by rw [hadvance]), ?_, ?_, fun v steps hresult => ?_⟩
    · rw [hadvance]
      rfl
    · rw [hadvance]
      rfl
    · simp only [starved] at hresult
      split at hresult <;> simp at hresult

/-- **One request of a machine without the input it needs** executes nothing. -/
theorem perform_of_starving (fuel : Nat) (r : Request) (hm : m.Active)
    (h : m.advance.result = .ok none) :
    ∃ out, r.perform (fuel + 1) m = some out ∧ instructionsOf out.events = [] ∧
      out.after = { m with activity := r.leaves m.activity } := by
  cases r with
  | step =>
    refine ⟨_, rfl, ?_, ?_⟩
    · rw [step_events_of_active hm, advance_of_none h]
      rfl
    · rw [step_after_of_active hm, advance_of_none h]
      rfl
  | run mode limit =>
    obtain ⟨ran, hran, hevents, hafter, -⟩ := run_of_starving fuel mode limit hm h
    exact ⟨_, Option.map_eq_some_iff.2 ⟨ran, hran, rfl⟩, hevents, hafter⟩
  | outputs count limit =>
    rw [Request.perform, runOutputs, Request.leaves]
    rcases Int.lt_or_le 0 count with hpos | hnonpos
    · obtain ⟨n, hn⟩ : ∃ n, count.toNat = n + 1 := ⟨count.toNat - 1, by omega⟩
      obtain ⟨ran, hran, hevents, hafter, hsilent⟩ := run_of_starving fuel .toOutput limit hm h
      rw [hn, runOutputsOn, hran, if_pos hpos]
      dsimp only
      -- only an output would have the machine run again
      split
      · exact ⟨_, rfl, by simp [hevents], hafter⟩
      · rename_i v steps hresult
        exact absurd hresult (hsilent v steps)
      · exact ⟨_, rfl, by simp [hevents], hafter⟩
    · rw [Int.toNat_eq_zero.2 hnonpos, if_neg (by omega)]
      exact ⟨_, rfl, rfl, rfl⟩

/-! ## Waiting at an input instruction -/

/-- The machine stands at an input instruction if it waits for input. -/
def AtInput (m : Machine) : Prop :=
  m.activity = .awaitingInput →
    ∃ i, m.memory.decode m.pc m.base = .ok i ∧ i.opcode = .input

theorem atInput_advance (m : Machine) : m.advance.after.AtInput := by
  rcases advance_cases m with ⟨e, -, hadv⟩ | ⟨i, hd, hs, hadv⟩ | ⟨i, next, m', -, -, heff, hadv⟩
  · rw [hadv]
    intro hwaits
    cases hwaits
  · rw [hadv]
    exact fun _ => ⟨i, hd, (starves_iff.1 hs).1⟩
  · rw [hadv, AtInput, heff.activity, entering_activity]
    split <;> (intro hwaits; cases hwaits)

/-- **A machine comes to wait at input instructions only**, and is still there
after anything but a write. -/
theorem Operation.perform_atInput {out : Outcome Machine OperationError Answer}
    (hop : op.isWrite = false) (hm : m.AtInput) (h : op.perform fuel m = some out) :
    out.after.AtInput := by
  rcases op.kinds with ⟨r, rfl⟩ | rfl | hwrite | hstill
  · obtain ⟨ran, hran, rfl⟩ := Option.map_eq_some_iff.1 h
    refine perform_preserves (P := AtInput) ?_ (fun c _ _ => atInput_advance c) hm hran
    intro c _ _ hwaits
    cases hwaits
  · obtain ⟨out', hout', hafter⟩ := Operation.perform_fetch fuel m
    obtain rfl : out' = out := by simpa [hout'] using h
    rw [hafter, AtInput, fetchedActivity]
    cases hd : m.memory.decode m.pc m.base with
    | ok i => simpa [AtInput, hd] using hm
    | error e =>
      intro hwaits
      cases hwaits
  · rw [hwrite] at hop
    cases hop
  · obtain ⟨out', input, output, hout', -, hafter⟩ := Operation.perform_of_still fuel m hstill
    obtain rfl : out' = out := by simpa [hout'] using h
    rw [hafter]
    exact hm

theorem advance_of_atInput (hat : m.AtInput) (hm : m.activity = .awaitingInput)
    (hpending : m.input.pending = []) : m.advance.result = .ok none := by
  obtain ⟨i, hd, hop⟩ := hat hm
  rw [advance_of_starves hd (starves_iff.2 ⟨hop, hpending⟩)]

/-! ## Requests while input is missing -/

/-- The machine has come from another one without executing anything. -/
structure Idled (m c : Machine) : Prop where
  active : c.Active
  eq : c = { m with activity := c.activity }

theorem Idled.refl (hm : m.Active) : m.Idled m := ⟨hm, rfl⟩

/-- **Requests while input is missing** come to an end and execute nothing. -/
theorem Idled.perform_ask (hc : m.Idled c) (h : m.advance.result = .ok none) (fuel : Nat)
    (r : Request) :
    ∃ out, (Operation.ask r).perform (fuel + 1) c = some out ∧ m.Idled out.after ∧
      instructionsOf out.events = [] ∧ out.after.activity = r.leaves c.activity := by
  have hstarving : c.advance.result = .ok none := by rw [hc.eq, advance_with_activity, h]
  obtain ⟨ran, hran, hevents, hafter⟩ := perform_of_starving fuel r hc.active hstarving
  refine ⟨_, Operation.perform_ask hran, ⟨?_, ?_⟩, hevents, by rw [hafter]⟩
  · rw [hafter]
    exact r.leaves_running_or_awaitingInput hc.active
  · rw [hafter, hc.eq]

/-- What each request among several was made of, and what it came to. -/
theorem handle_of_starving (fuel : Nat) (hm : m.Active) (h : m.advance.result = .ok none)
    (rs : List Request) :
    ∃ log last, handle (fuel + 1) (rs.map .ask) m = some (log, last) ∧
      log.map (·.operation) = rs.map .ask ∧
      ∀ x ∈ log, ∃ r ∈ rs, x.operation = .ask r ∧ m.Idled x.outcome.after ∧
        instructionsOf x.outcome.events = [] ∧
        x.outcome.after.activity = r.leaves x.before.activity := by
  obtain ⟨log, last, hlog, hoperations, -, hall⟩ :=
    handle_ends (P := m.Idled) (fun op hop c hc => by
      obtain ⟨r, -, rfl⟩ := List.mem_map.1 hop
      obtain ⟨out, hout, hafter, -⟩ := hc.perform_ask h fuel r
      exact ⟨out, hout, hafter⟩) (.refl hm)
  refine ⟨log, last, hlog, hoperations, fun x hx => ?_⟩
  obtain ⟨hbefore, hperform, -⟩ := hall x hx
  obtain ⟨r, hr, hop⟩ : ∃ r ∈ rs, .ask r = x.operation := by
    rw [← List.mem_map, ← hoperations]
    exact List.mem_map_of_mem hx
  obtain ⟨out, hout, hafter⟩ := hbefore.perform_ask h fuel r
  rw [← hop, hout] at hperform
  obtain rfl := Option.some.inj hperform
  exact ⟨r, hr, hop.symm, hafter⟩

/-- **A suspended machine stays suspended unless it is allowed nothing.** A
machine that has come to wait for input, its memory not written from outside and
none of its input pending, executes nothing whatever is requested of it, and
nothing but what it is doing can change. It keeps waiting all along exactly if
none of the runs has a limit that rules out the first instruction. -/
theorem suspended_unless_allowed_nothing {before : List Operation} {past : List Handling}
    (hc : c.activity ≠ .awaitingInput) (hbefore : ∀ op ∈ before, op.isWrite = false)
    (hpast : handle fuel before c = some (past, m)) (hm : m.activity = .awaitingInput)
    (hpending : m.input.pending = []) (fuel' : Nat) (rs : List Request) :
    ∃ log last, handle (fuel' + 1) (rs.map .ask) m = some (log, last) ∧
      (∀ x ∈ log, instructionsOf x.outcome.events = [] ∧
        x.outcome.after = { m with activity := x.outcome.after.activity }) ∧
      ((∀ x ∈ log, x.outcome.after = m) ↔ ∀ r ∈ rs, r.allowsNothing = false) := by
  have hat : m.AtInput := (handle_preserves
    (fun op hop c out => op.perform_atInput (hbefore op hop)) (fun h => absurd h hc) hpast).2.1
  have hstarving : m.advance.result = .ok none := advance_of_atInput hat hm hpending
  have hactive : m.Active := .inr hm
  obtain ⟨log, last, hlog, hoperations, hall⟩ := handle_of_starving fuel' hactive hstarving rs
  refine ⟨log, last, hlog, fun x hx => ?_, fun hsame r hr => ?_, fun hallowed => ?_⟩
  · obtain ⟨r, -, -, hafter, hevents, -⟩ := hall x hx
    exact ⟨hevents, hafter.eq⟩
  · have hmem : Operation.ask r ∈ log.map (·.operation) := hoperations ▸ List.mem_map_of_mem hr
    obtain ⟨x, hx, hop⟩ := List.mem_map.1 hmem
    obtain ⟨r', -, hop', -, -, hactivity⟩ := hall x hx
    obtain rfl : r = r' := Operation.ask.inj (hop.symm.trans hop')
    -- it would have been left running
    by_contra hnothing
    rw [hsame x hx, hm, Request.leaves_of_allowsNothing (by simpa using hnothing)] at hactivity
    cases hactivity
  · -- a request that allows an instruction brings the machine back to waiting
    refine fun x hx => ((handle_preserves (P := (· = m)) (fun op hop c out hc hout => ?_) rfl
      hlog).2.2 x hx).2.2
    obtain ⟨r, hr, rfl⟩ := List.mem_map.1 hop
    obtain ⟨out', hout', hafter, -, hactivity⟩ := (Idled.refl hactive).perform_ask hstarving fuel' r
    obtain rfl : out' = out := by simpa [hc, hout'] using hout
    rw [hafter.eq, hactivity, hm, Request.leaves_awaitingInput (hallowed r hr), ← hm]

/-- A program that begins with an input instruction is run until it waits, and
then asked for everything but input. -/
theorem an_unfed_program_stays_suspended :
    ∃ past m log last,
      handle 9 [.ask (.run .toOutput (some 7)), .fetch] (load [3, 0, 99]) = some (past, m) ∧
      m.activity = .awaitingInput ∧
      handle 9 ([.step, .run .toHalt none, .outputs 2 (some 1), .run .toInput (some 3),
        .outputs (-2) (some 0)].map .ask) m = some (log, last) ∧
      ∀ x ∈ log, x.outcome.after = m ∧ instructionsOf x.outcome.events = [] := by
  have hseen : (handle 9 [.ask (.run .toOutput (some 7)), .fetch] (load [3, 0, 99])).map
      (fun handled => (handled.2.activity, handled.2.input.pending)) =
        some (.awaitingInput, []) := by
    decide +kernel
  obtain ⟨⟨past, m⟩, hpast, hm⟩ := Option.map_eq_some_iff.1 hseen
  simp only [Prod.mk.injEq] at hm
  obtain ⟨hwaits, hpending⟩ := hm
  obtain ⟨log, last, hlog, hidle, hiff⟩ := suspended_unless_allowed_nothing (by decide)
    (by decide) hpast hwaits hpending 8 [.step, .run .toHalt none, .outputs 2 (some 1),
      .run .toInput (some 3), .outputs (-2) (some 0)]
  have hsame := hiff.2 (by decide)
  exact ⟨past, m, log, last, hpast, hwaits, hlog, fun x hx => ⟨hsame x hx, (hidle x hx).1⟩⟩

/-- **A run that may execute nothing ends the wait**: it sets the machine running
and stops at its limit, and no input has come. -/
theorem an_empty_run_ends_the_wait :
    (handle 9 [.ask (.run .toInput none), .ask (.run .toInput (some 0))] (load [3, 0, 99])).map
        (fun (log, last) =>
          (log.map fun x => (x.outcome.after.activity, x.outcome.result), last.input.pending)) =
      some ([(.awaitingInput, .ok (.response (.ran ⟨.awaitingInput, 0⟩))),
        (.running, .ok (.response (.ran ⟨.stepLimit, 0⟩)))], []) := by
  decide +kernel

end Machine

end IntMachine
