import IntMachine.Proofs.Operations
/-!
# Machines that have stopped

A machine stops for good by executing a halt instruction or by failing to decode
an instruction. A failure leaves everything as the instructions before it left
it (`decode_failure_is_final`), and nothing can be executed after it. A halted
machine is as inert, with one exception: a fetch of the ill-formed word behind
the halt makes it a failed one (`halted_until_bad_fetch`).
-/

namespace IntMachine

/-- What a halted machine answers to a request. -/
def Request.whenHalted : Request → Except MachineError Response
  | .step => .error .alreadyHalted
  | .run _ _ => .ok (.ran ⟨.alreadyHalted, 0⟩)
  | .outputs _ _ => .ok (.values [])

/-- What a machine that has failed answers to a request: it refuses all but to
wait for no outputs. -/
def Request.whenFailed (cause : DecodeFailure) : Request → Except MachineError Response
  | .step | .run _ _ => .error (.stopped cause)
  | .outputs count _ => if 0 < count then .error (.stopped cause) else .ok (.values [])

namespace Machine

variable {fuel : Nat} {m c last : Machine} {r : Request} {e : DecodeFailure}
variable {op : Operation} {ops : List Operation} {log : List Handling}

/-! ## Requests of a machine that has stopped -/

/-- **A halted machine takes no notice of requests.** -/
theorem perform_of_halted (fuel : Nat) (r : Request) (hm : m.activity = .halted) :
    r.perform fuel m = some { result := r.whenHalted, after := m } := by
  have hrun : ∀ mode limit, m.run fuel mode limit =
      some { result := .ok ⟨.alreadyHalted, 0⟩, after := m } := fun mode limit => by
    rw [run, hm]
  cases r with
  | step => simp [Request.perform, Request.whenHalted, step, obstacle?, hm, Except.map]
  | run mode limit => rw [Request.perform, hrun]; rfl
  | outputs count limit =>
    rw [Request.perform, runOutputs]
    cases count.toNat with
    | zero => rfl
    | succ n => rw [runOutputsOn, hrun]; rfl

/-- **Nor does one that has failed**, but it refuses them. -/
theorem perform_of_failed (fuel : Nat) (r : Request) (hm : m.activity = .failed e) :
    r.perform fuel m = some { result := r.whenFailed e, after := m } := by
  have hrun : ∀ mode limit, m.run fuel mode limit =
      some { result := .error (.stopped e), after := m } := fun mode limit => by
    rw [run, hm]
  cases r with
  | step => simp [Request.perform, Request.whenFailed, step, obstacle?, hm, Except.map]
  | run mode limit => rw [Request.perform, hrun]; rfl
  | outputs count limit =>
    rw [Request.perform, runOutputs, Request.whenFailed]
    rcases Int.lt_or_le 0 count with hpos | hnonpos
    · obtain ⟨n, hn⟩ : ∃ n, count.toNat = n + 1 := ⟨count.toNat - 1, by omega⟩
      rw [hn, runOutputsOn, hrun, if_pos hpos]
      rfl
    · rw [Int.toNat_eq_zero.2 hnonpos, if_neg (by omega)]
      rfl

theorem perform_of_not_active (fuel : Nat) (r : Request) (hm : ¬ m.Active) :
    ∃ ran, r.perform fuel m = some ran ∧ ran.after = m := by
  cases ha : m.activity with
  | running => exact absurd (.inl ha) hm
  | awaitingInput => exact absurd (.inr ha) hm
  | halted => exact ⟨_, perform_of_halted fuel r ha, rfl⟩
  | failed cause => exact ⟨_, perform_of_failed fuel r ha, rfl⟩

/-! ## Operations on a machine that has stopped -/

/-- What is left of a machine that has stopped, whatever is done with it: all but
its pending input, how much of its output has been collected, and what it is
doing. -/
structure Undisturbed (m c : Machine) : Prop where
  memory : c.memory = m.memory
  pc : c.pc = m.pc
  base : c.base = m.base
  sent : c.output.sent = m.output.sent
  executed : c.executed = m.executed

theorem Undisturbed.refl (m : Machine) : m.Undisturbed m := ⟨rfl, rfl, rfl, rfl, rfl⟩

theorem Undisturbed.trans {d : Machine} (h : m.Undisturbed c) (h' : c.Undisturbed d) :
    m.Undisturbed d :=
  ⟨h'.memory.trans h.memory, h'.pc.trans h.pc, h'.base.trans h.base, h'.sent.trans h.sent,
    h'.executed.trans h.executed⟩

/-- A fetch finds the same in a machine that is undisturbed. -/
theorem Undisturbed.decode_eq (h : m.Undisturbed c) :
    c.memory.decode c.pc c.base = m.memory.decode m.pc m.base := by
  rw [h.memory, h.pc, h.base]

/-- **One operation on a machine that has stopped**, if it writes nothing: it
comes to an end, and only a fetch can show in what the machine is doing. -/
theorem Operation.perform_of_stopped (fuel : Nat) (hm : ¬ m.Active) (hop : op.isWrite = false) :
    ∃ out, op.perform fuel m = some out ∧ m.Undisturbed out.after ∧
      out.after.activity = if op = .fetch then m.fetchedActivity else m.activity := by
  rcases op.kinds with ⟨r, rfl⟩ | rfl | hwrite | hstill
  · obtain ⟨ran, hran, hafter⟩ := perform_of_not_active fuel r hm
    refine ⟨_, Operation.perform_ask hran, ?_, ?_⟩
    · rw [hafter]
      exact .refl m
    · rw [hafter, if_neg (by simp)]
  · obtain ⟨out, hout, hafter⟩ := Operation.perform_fetch fuel m
    refine ⟨out, hout, ?_, ?_⟩
    · rw [hafter]
      exact ⟨rfl, rfl, rfl, rfl, rfl⟩
    · rw [hafter, if_pos rfl]
  · rw [hwrite] at hop
    cases hop
  · obtain ⟨out, input, output, hout, hsent, hafter⟩ := Operation.perform_of_still fuel m hstill
    have hfetch : op ≠ .fetch := fun h => by simp [h, Operation.isStill] at hstill
    refine ⟨out, hout, ?_, ?_⟩
    · rw [hafter]
      exact ⟨rfl, rfl, rfl, hsent, rfl⟩
    · rw [hafter, if_neg hfetch]

theorem not_active_fetchedActivity (hm : ¬ m.Active) :
    ¬ ({ m with activity := m.fetchedActivity } : Machine).Active := by
  rw [fetchedActivity]
  cases m.memory.decode m.pc m.base with
  | ok i => exact hm
  | error e => simp [Active]

/-- A machine that has stopped does not go on. -/
theorem Operation.not_active_of_stopped {out : Outcome Machine OperationError Answer}
    (hm : ¬ m.Active)
    (h : out.after.activity = if op = .fetch then m.fetchedActivity else m.activity) :
    ¬ out.after.Active := by
  rw [Active, h]
  split
  · exact not_active_fetchedActivity hm
  · exact hm

/-! ## Halted machines -/

/-- A run among the operations was reported as the run of a halted machine: no
instruction executed, and no output collected. -/
structure Handling.ReportsHalt (x : Handling) : Prop where
  run : ∀ mode limit, x.operation = .ask (.run mode limit) →
    x.outcome.result = .ok (.response (.ran ⟨.alreadyHalted, 0⟩))
  outputs : ∀ count limit, x.operation = .ask (.outputs count limit) →
    x.outcome.result = .ok (.response (.values []))

theorem Handling.reportsHalt {x : Handling} (hx : x.before.activity = .halted)
    (h : x.operation.perform fuel x.before = some x.outcome) : x.ReportsHalt := by
  have hask : ∀ r : Request, x.operation = .ask r →
      x.outcome.result = (r.whenHalted.map .response).mapError .machine := fun r hr => by
    rw [hr, Operation.perform_ask (perform_of_halted fuel r hx)] at h
    rw [← Option.some.inj h]
  exact ⟨fun mode limit hr => hask _ hr, fun count limit hr => hask _ hr⟩

/-- Whatever is done with a machine that has stopped comes to an end and leaves it
undisturbed. -/
theorem handle_of_stopped (fuel : Nat) (hm : ¬ m.Active)
    (hops : ∀ op ∈ ops, op.isWrite = false) :
    ∃ log last, handle fuel ops m = some (log, last) ∧ log.map (·.operation) = ops ∧
      m.Undisturbed last ∧ ∀ x ∈ log, m.Undisturbed x.before ∧
        x.operation.perform fuel x.before = some x.outcome ∧ m.Undisturbed x.outcome.after := by
  obtain ⟨log, last, hlog, hoperations, hlast, hall⟩ := handle_ends
    (P := fun c => m.Undisturbed c ∧ ¬ c.Active) (fun op hop c ⟨hc, hstop⟩ => by
      obtain ⟨out, hout, hafter, hactivity⟩ := op.perform_of_stopped fuel hstop (hops op hop)
      exact ⟨out, hout, hc.trans hafter, op.not_active_of_stopped hstop hactivity⟩)
    ⟨.refl m, hm⟩
  refine ⟨log, last, hlog, hoperations, hlast.1, fun x hx => ?_⟩
  obtain ⟨hbefore, hperform, hafter⟩ := hall x hx
  exact ⟨hbefore.1, hperform, hafter.1⟩

/-- A halted machine whose fetches all find an instruction stays halted. -/
theorem handle_of_halted (fuel : Nat) (hm : m.activity = .halted)
    (hops : ∀ op ∈ ops, op.isWrite = false)
    (hfetch : Operation.fetch ∈ ops → ∃ i, m.memory.decode m.pc m.base = .ok i) :
    ∃ log last, handle fuel ops m = some (log, last) ∧ last.activity = .halted ∧
      ∀ x ∈ log, x.outcome.after.activity = .halted ∧ x.ReportsHalt := by
  obtain ⟨log, last, hlog, -, hlast, hall⟩ := handle_ends
    (P := fun c => m.Undisturbed c ∧ c.activity = .halted) (fun op hop c ⟨hc, hhalted⟩ => by
      have hstop : ¬ c.Active := by simp [Active, hhalted]
      obtain ⟨out, hout, hafter, hactivity⟩ := op.perform_of_stopped fuel hstop (hops op hop)
      refine ⟨out, hout, hc.trans hafter, ?_⟩
      rw [hactivity]
      split
      · -- nothing has moved, so that the fetch finds what it would have found at first
        rename_i h
        obtain ⟨i, hi⟩ := hfetch (h ▸ hop)
        rw [fetchedActivity, hc.decode_eq, hi, hhalted]
      · exact hhalted)
    ⟨.refl m, hm⟩
  refine ⟨log, last, hlog, hlast.2, fun x hx => ?_⟩
  obtain ⟨⟨-, hbefore⟩, hperform, -, hafter⟩ := hall x hx
  exact ⟨hafter, Handling.reportsHalt hbefore hperform⟩

/-- A fetch that leaves a machine halted has found an instruction. -/
theorem exists_decode_of_fetch {out : Outcome Machine OperationError Answer}
    (h : Operation.fetch.perform fuel m = some out) (hhalted : out.after.activity = .halted) :
    ∃ i, m.memory.decode m.pc m.base = .ok i := by
  obtain ⟨out', hout', hafter⟩ := Operation.perform_fetch fuel m
  obtain rfl : out' = out := by simpa [hout'] using h
  have hactivity : m.fetchedActivity = .halted := by rwa [hafter] at hhalted
  rw [fetchedActivity] at hactivity
  cases hd : m.memory.decode m.pc m.base with
  | ok i => exact ⟨i, rfl⟩
  | error e => simp [hd] at hactivity

/-- **A halted machine stays halted until a fetch finds no instruction.** Whatever
is done with it, short of writing to its memory, comes to an end and changes
neither memory nor program counter nor relative base nor the output nor the count
of instructions. The machine stays halted all along, and reports every run as a
run of a halted machine, exactly if its instruction is never fetched or the word
behind the halt begins a well-formed one. -/
theorem halted_until_bad_fetch (hm : m.activity = .halted) (fuel : Nat)
    (hops : ∀ op ∈ ops, op.isWrite = false) :
    ∃ log last, handle fuel ops m = some (log, last) ∧ m.Undisturbed last ∧
      (∀ x ∈ log, m.Undisturbed x.outcome.after) ∧
      ((last.activity = .halted ∧
          ∀ x ∈ log, x.outcome.after.activity = .halted ∧ x.ReportsHalt) ↔
        (Operation.fetch ∈ ops → ∃ i, m.memory.decode m.pc m.base = .ok i)) := by
  have hstopped : ¬ m.Active := by simp [Active, hm]
  obtain ⟨log, last, hlog, hoperations, hlast, hall⟩ := handle_of_stopped fuel hstopped hops
  refine ⟨log, last, hlog, hlast, fun x hx => (hall x hx).2.2, ?_, ?_⟩
  · -- the fetch was made of a machine undisturbed since, and left it halted
    rintro ⟨-, hhalted⟩ hfetch
    rw [← hoperations] at hfetch
    obtain ⟨x, hx, hop⟩ := List.mem_map.1 hfetch
    obtain ⟨hbefore, hperform, -⟩ := hall x hx
    rw [hop] at hperform
    rw [← hbefore.decode_eq]
    exact exists_decode_of_fetch hperform (hhalted x hx).1
  · intro hfetch
    obtain ⟨log', last', hlog', hend⟩ := handle_of_halted fuel hm hops hfetch
    obtain ⟨rfl, rfl⟩ : log' = log ∧ last' = last := by simpa [hlog] using hlog'.symm
    exact hend

/-- A program with a second halt behind the first is run, run again, fetched, fed
and asked for outputs: it stays halted. -/
theorem a_second_halt_keeps_it_halted :
    ∃ m log last, ((load [104, 5, 99, 99]).run 9 .toHalt).map (·.after) = some m ∧
      handle 9 [.ask (.run .toHalt none), .fetch, .feed [7], .ask .step, .ask (.outputs 2 none),
        .collectOutput, .listing 0, .copy, .ask (.run .toInput (some 0))] m = some (log, last) ∧
      last.activity = .halted ∧ last.memory = m.memory ∧ last.output.sent = #[5] ∧
      ∀ x ∈ log, x.ReportsHalt := by
  have hseen : ((load [104, 5, 99, 99]).run 9 .toHalt).map (fun out =>
      (out.after.activity, out.after.output.sent,
        (out.after.memory.decode out.after.pc out.after.base).toOption.isSome)) =
      some (.halted, #[5], true) := by decide +kernel
  obtain ⟨out, hrun, hout⟩ := Option.map_eq_some_iff.1 hseen
  simp only [Prod.mk.injEq] at hout
  obtain ⟨hhalted, hsent, hword⟩ := hout
  have hstill : ∀ op ∈ ([.ask (.run .toHalt none), .fetch, .feed [7], .ask .step,
      .ask (.outputs 2 none), .collectOutput, .listing 0, .copy, .ask (.run .toInput (some 0))] :
        List Operation), op.isWrite = false := by decide
  obtain ⟨log, last, hlog, hlast, -, hiff⟩ := halted_until_bad_fetch hhalted 9 hstill
  obtain ⟨hend, hreports⟩ := hiff.2 fun _ => by
    cases hd : out.after.memory.decode out.after.pc out.after.base with
    | ok i => exact ⟨i, rfl⟩
    | error e => simp [hd, Except.toOption] at hword
  exact ⟨out.after, log, last, by rw [hrun]; rfl, hlog, hend, hlast.memory,
    hlast.sent.trans hsent, fun x hx => (hreports x hx).2⟩

/-- **A fetch can make a halted machine a failed one.** Behind the only
instruction, a halt, stands nothing: the fetch of it fails, and the run after it
is refused. -/
theorem fetch_revokes_a_halt :
    (handle 9 [.ask (.run .toHalt none), .fetch, .ask (.run .toHalt none)] (load [99])).map
        (fun (log, _) => log.map fun x => (x.outcome.after.activity, x.outcome.result)) =
      some [(.halted, .ok (.response (.ran ⟨.halted, 1⟩))),
        (.failed ⟨.unknownOpcode 0, 1, 0⟩,
          .error (.machine (.decode ⟨.unknownOpcode 0, 1, 0⟩))),
        (.failed ⟨.unknownOpcode 0, 1, 0⟩,
          .error (.machine (.stopped ⟨.unknownOpcode 0, 1, 0⟩)))] := by
  decide +kernel

/-! ## Failed machines -/

/-- The machine has failed, on the instruction at its program counter. -/
structure FailedBy (m : Machine) (e : DecodeFailure) : Prop where
  activity : m.activity = .failed e
  decode : m.memory.decode m.pc m.base = .error e

/-- **A failure tells where it happened**, and the word that stands there. -/
theorem FailedBy.place (h : m.FailedBy e) :
    e.pc = m.pc ∧ (m.pc < 0 → e.word = 0) ∧ (0 ≤ m.pc → m.memory.peek m.pc = .ok e.word) := by
  have hd := h.decode
  rw [Memory.decode, decodeAt] at hd
  split at hd
  · -- a negative counter is found out before any word is read
    rename_i hneg
    obtain rfl := Except.error.inj hd
    exact ⟨rfl, fun _ => rfl, fun h => by omega⟩
  · rename_i hnonneg
    cases hword : decodeWord m.memory.cell m.base m.pc.toNat with
    | ok i => simp [hword, Except.mapError] at hd
    | error fault =>
      obtain rfl : (⟨fault, m.pc, m.memory.cell m.pc.toNat⟩ : DecodeFailure) = e := by
        simpa [hword, Except.mapError] using hd
      refine ⟨rfl, fun h => absurd h hnonneg, fun h => ?_⟩
      rw [Memory.peek, Memory.index_of_nonneg h]
      rfl

theorem failedBy_of_advance {cause : MachineError} (h : m.advance.result = .error cause) :
    ∃ e, cause = .decode e ∧ m.advance.after.FailedBy e := by
  rcases advance_cases m with ⟨e, hd, hadv⟩ | ⟨i, -, -, hadv⟩ | ⟨i, next, m', -, -, -, hadv⟩
  · rw [hadv] at h ⊢
    exact ⟨e, (Except.error.inj h).symm, rfl, hd⟩
  · simp [hadv] at h
  · simp [hadv] at h

section Raised

variable {mode : RunMode} {limit : StepLimit}

theorem failedBy_of_step (h : m.step.result = .error (.decode e)) : m.step.after.FailedBy e := by
  by_cases hm : m.Active
  · rw [step_after_of_active hm]
    rw [step, obstacle?_eq_none_iff.2 hm] at h
    cases hadv : m.advance.result with
    | error cause =>
      obtain ⟨e', rfl, hfailed⟩ := failedBy_of_advance hadv
      obtain rfl : e' = e := by simpa [hadv] using h
      exact hfailed
    | ok tried => cases tried <;> simp [hadv] at h
  · cases ha : m.activity with
    | running => exact absurd (.inl ha) hm
    | awaitingInput => exact absurd (.inr ha) hm
    | halted | failed _ => simp [step, obstacle?, ha] at h

theorem failedBy_of_runOn {steps : Nat} {events : Array Event}
    {out : Outcome Machine MachineError RunEnd}
    (h : runOn mode limit fuel steps events m = some out)
    (he : out.result = .error (.decode e)) : out.after.FailedBy e := by
  induction fuel generalizing steps events m with
  | zero => cases h
  | succ fuel ih =>
    -- of the ways to stop, only a failing look ends in a decode failure
    rcases runOn_cases h with ⟨-, rfl⟩ | ⟨-, ⟨cause, hadv, rfl⟩ | ⟨-, rfl⟩ | ⟨i, stop, -, -, rfl⟩ |
      ⟨i, -, -, hrest⟩⟩
    · cases he
    · obtain ⟨e', rfl, hfailed⟩ := failedBy_of_advance hadv
      cases he
      exact hfailed
    · simp only [starved] at he
      split at he <;> cases he
    · cases he
    · exact ih hrest

theorem failedBy_of_run {out : Outcome Machine MachineError RunEnd}
    (h : m.run fuel mode limit = some out) (he : out.result = .error (.decode e)) :
    out.after.FailedBy e := by
  cases ha : m.activity with
  | running | awaitingInput =>
    rw [run_of_active (by simp [Active, ha])] at h
    exact failedBy_of_runOn h he
  | halted | failed cause =>
    rw [run, ha] at h
    obtain rfl := Option.some.inj h
    cases he

theorem failedBy_of_runOutputsOn {count : Nat} {values : Array Int} {events : Array Event}
    {out : Outcome Machine MachineError (List Int)}
    (h : runOutputsOn fuel limit count values events m = some out)
    (he : out.result = .error (.decode e)) : out.after.FailedBy e := by
  induction count generalizing values events m with
  | zero =>
    obtain rfl := by simpa [runOutputsOn] using h
    cases he
  | succ count ih =>
    rw [runOutputsOn] at h
    cases hran : m.run fuel .toOutput limit with
    | none => simp [hran] at h
    | some ran =>
      simp only [hran] at h
      split at h
      · rename_i cause hcause
        obtain rfl := Option.some.inj h
        cases he
        exact failedBy_of_run hran hcause
      · exact ih h
      · obtain rfl := Option.some.inj h
        cases he

/-- **A request that raises a decode failure leaves the machine failed by it.** -/
theorem failedBy_of_perform {out : Outcome Machine MachineError Response}
    (h : r.perform fuel m = some out) (he : out.result = .error (.decode e)) :
    out.after.FailedBy e := by
  have hresult : ∀ {α : Type} {f : α → Response} {result : Except MachineError α},
      result.map f = .error (.decode e) → result = .error (.decode e) := by
    intro α f result hmap
    cases result with
    | error cause => exact congrArg Except.error (Except.error.inj hmap)
    | ok v => cases hmap
  cases r with
  | step =>
    obtain rfl := Option.some.inj h
    exact failedBy_of_step (hresult he)
  | run mode limit =>
    obtain ⟨ran, hran, rfl⟩ := Option.map_eq_some_iff.1 h
    exact failedBy_of_run hran (hresult he)
  | outputs count limit =>
    obtain ⟨ran, hran, rfl⟩ := Option.map_eq_some_iff.1 h
    exact failedBy_of_runOutputsOn hran (hresult he)

end Raised

/-- A request among the operations was refused on account of an earlier failure,
and changed nothing. -/
structure Handling.Refused (x : Handling) (e : DecodeFailure) : Prop where
  after : ∀ r, x.operation = .ask r → x.outcome.after = x.before
  step : x.operation = .ask .step → x.outcome.result = .error (.machine (.stopped e))
  run : ∀ mode limit, x.operation = .ask (.run mode limit) →
    x.outcome.result = .error (.machine (.stopped e))
  outputs : ∀ count limit, x.operation = .ask (.outputs count limit) → 0 < count →
    x.outcome.result = .error (.machine (.stopped e))

theorem Handling.refused {x : Handling} (hx : x.before.activity = .failed e)
    (h : x.operation.perform fuel x.before = some x.outcome) : x.Refused e := by
  have hask : ∀ r : Request, x.operation = .ask r → x.outcome.after = x.before ∧
      x.outcome.result = ((r.whenFailed e).map .response).mapError .machine := fun r hr => by
    rw [hr, Operation.perform_ask (perform_of_failed fuel r hx)] at h
    rw [← Option.some.inj h]
    exact ⟨rfl, rfl⟩
  refine ⟨fun r hr => (hask r hr).1, fun hr => (hask _ hr).2, fun _ _ hr => (hask _ hr).2,
    fun count limit hr hcount => ?_⟩
  rw [(hask _ hr).2, Request.whenFailed, if_pos hcount]
  rfl

/-- A machine that has failed keeps its failure whatever is done with it, unless
its instruction is fetched again. -/
theorem Operation.perform_keeps_failure (fuel : Nat) (hm : m.activity = .failed e)
    (hop : op ≠ .fetch) : ∃ out, op.perform fuel m = some out ∧ out.after.activity = .failed e := by
  have hstopped : ¬ m.Active := by simp [Active, hm]
  cases hwrite : op.isWrite with
  | true =>
    obtain ⟨out, memory, hout, hafter⟩ := Operation.perform_of_write fuel m hwrite
    exact ⟨out, hout, by rw [hafter, hm]⟩
  | false =>
    obtain ⟨out, hout, -, hactivity⟩ := op.perform_of_stopped fuel hstopped hwrite
    exact ⟨out, hout, by rw [hactivity, if_neg hop, hm]⟩

/-- **A decode failure leaves no trace and is final.** A request that ends in one
leaves the machine where as many successful steps lead as it executed
instructions, but failed; the failure names the program counter and the word
there. Whatever is done with the machine from then on, its memory written
included, short of fetching its instruction again, every later request is refused
and changes nothing. -/
theorem decode_failure_is_final {out : Outcome Machine MachineError Response}
    (h : r.perform fuel m = some out) (he : out.result = .error (.decode e)) :
    (∃ s, m.stepTimes (instructionsOf out.events).length = some s ∧
      out.after = { s with activity := .failed e }) ∧
    out.after.activity.reason? = some e.message ∧
    e.pc = out.after.pc ∧ (out.after.pc < 0 → e.word = 0) ∧
    (0 ≤ out.after.pc → out.after.memory.peek out.after.pc = .ok e.word) ∧
    ∀ fuel' ops, Operation.fetch ∉ ops → ∃ log last, handle fuel' ops out.after = some (log, last) ∧
      log.map (·.operation) = ops ∧ last.activity = .failed e ∧ ∀ x ∈ log, x.Refused e := by
  have hfailed : out.after.FailedBy e := failedBy_of_perform h he
  obtain ⟨s, hsteps, hafter⟩ := (perform_follows h).1.exists_stepTimes
  rw [hfailed.activity] at hafter
  obtain ⟨hpc, hnegative, hword⟩ := hfailed.place
  refine ⟨⟨s, hsteps, hafter⟩, by rw [hfailed.activity]; rfl, hpc, hnegative, hword,
    fun fuel' ops hfetch => ?_⟩
  have hkeeps : ∀ op ∈ ops, ∀ c : Machine, c.activity = .failed e →
      ∃ out, op.perform fuel' c = some out ∧ out.after.activity = .failed e :=
    fun op hop c hc => op.perform_keeps_failure fuel' hc fun h => hfetch (h ▸ hop)
  obtain ⟨log, last, hlog, hoperations, hlast, hall⟩ := handle_ends hkeeps hfailed.activity
  refine ⟨log, last, hlog, hoperations, hlast, fun x hx => ?_⟩
  obtain ⟨hbefore, hperform, -⟩ := hall x hx
  exact Handling.refused hbefore hperform

/-- A word of no operation behind an output: one instruction is executed, and not
even writing a halt there brings the machine back. -/
theorem a_mended_program_stays_failed :
    ∃ out s log last,
      (Request.run .toHalt none).perform 9 (load [104, 5, 98]) = some out ∧
      out.result = .error (.decode ⟨.unknownOpcode 98, 2, 98⟩) ∧
      (load [104, 5, 98]).stepTimes 1 = some s ∧
      out.after = { s with activity := .failed ⟨.unknownOpcode 98, 2, 98⟩ } ∧
      handle 9 [.feed [1], .write 2 99, .ask (.run .toOutput none), .collectOutput, .ask .step]
        out.after = some (log, last) ∧
      last.activity = .failed ⟨.unknownOpcode 98, 2, 98⟩ ∧
      ∀ x ∈ log, x.Refused ⟨.unknownOpcode 98, 2, 98⟩ := by
  have hseen : ((Request.run .toHalt none).perform 9 (load [104, 5, 98])).map (fun out =>
      (out.result, (instructionsOf out.events).length)) =
      some (.error (.decode ⟨.unknownOpcode 98, 2, 98⟩), 1) := by decide +kernel
  obtain ⟨out, hout, hresult⟩ := Option.map_eq_some_iff.1 hseen
  simp only [Prod.mk.injEq] at hresult
  obtain ⟨herror, hcount⟩ := hresult
  obtain ⟨⟨s, hsteps, hafter⟩, -, -, -, -, hfinal⟩ := decode_failure_is_final hout herror
  obtain ⟨log, last, hlog, -, hlast, hrefused⟩ := hfinal 9 [.feed [1], .write 2 99,
    .ask (.run .toOutput none), .collectOutput, .ask .step] (by decide)
  rw [hcount] at hsteps
  exact ⟨out, s, log, last, hout, herror, hsteps, hafter, hlog, hlast, hrefused⟩

end Machine

end IntMachine
