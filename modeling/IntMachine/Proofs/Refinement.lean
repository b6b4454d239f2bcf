import IntMachine.Proofs.Ideal
import IntMachine.Proofs.Trail
/-!
# The machine is the ideal machine

A machine seen through `peek` and without its counters is a state of the ideal
machine. Decoding succeeds on the words the ideal machine selects and resolves,
and with the same operands (`decode_ideal`, `exists_decode`), so an executed
instruction is a transition (`rule_iff`), and what is not executed is blocked
or ill-formed. How memory is stored, that it grows, and that an instruction may
overwrite itself or its operands shows nowhere.
-/

namespace IntMachine

namespace Machine

/-- The state of the ideal machine that a machine is in. -/
def ideal (m : Machine) : Ideal where
  cells := m.memory.cell
  pc := m.pc
  base := m.base
  input := m.input.pending
  output := m.output.sent.toList
  halted := m.isHalted

/-- A machine shows a state of the ideal machine: every cell by `peek`, and the
registers and queues as they are. -/
structure Shows (m : Machine) (s : Ideal) : Prop where
  peek : ∀ a : Nat, m.memory.peek a = .ok (s.cells a)
  pc : m.pc = s.pc
  base : m.base = s.base
  input : m.input.pending = s.input
  output : m.output.sent.toList = s.output
  halted : m.isHalted = s.halted

theorem shows_iff {m : Machine} {s : Ideal} : m.Shows s ↔ m.ideal = s := by
  have hpeek : ∀ a : Nat, m.memory.peek a = .ok (m.memory.cell a) := fun a => by
    rw [Memory.peek, Memory.index_natCast]
    rfl
  constructor
  · rintro ⟨hcells, hpc, hbase, hinput, houtput, hhalted⟩
    have : m.memory.cell = s.cells := funext fun a =>
      Except.ok.inj ((hpeek a).symm.trans (hcells a))
    rw [ideal, this, hpc, hbase, hinput, houtput, hhalted]
  · rintro rfl
    exact ⟨hpeek, rfl, rfl, rfl, rfl, rfl⟩

theorem ideal_load (program : Program) (input : List Int) :
    (Machine.load program input).ideal = Ideal.start program input := by
  simp only [load, ideal, Ideal.start, Channel.pending_sendAll, Channel.pending_empty,
    List.nil_append, isHalted]
  congr 1
  funext a
  simp

end Machine

/-! ## Decoding -/

namespace Ideal

variable {s : Ideal} {k : Nat} {mode : Mode} {role : Role} {roles : List Role}
variable {modes : List Mode} {o : IntMachine.Operand} {operands : List IntMachine.Operand}

/-- The address an operand word names, by the digit of its mode. -/
theorem names_iff (hd : (mode.digit : Int) = s.digit k) {a : Nat} :
    s.Names k a ↔ mode ≠ .immediate ∧ addressOf s.base mode (s.word k) = a := by
  constructor
  · rintro (⟨h0, ha⟩ | ⟨h2, ha⟩)
    · obtain rfl : mode = .position := Mode.digit_injective (by rw [h0] at hd; exact_mod_cast hd)
      exact ⟨by simp, by simpa [addressOf] using ha⟩
    · obtain rfl : mode = .relative := Mode.digit_injective (by rw [h2] at hd; exact_mod_cast hd)
      exact ⟨by simp, by simpa [addressOf] using ha⟩
  · rintro ⟨hmode, ha⟩
    cases mode with
    | position => exact .position hd.symm (by simpa [addressOf] using ha)
    | immediate => exact absurd rfl hmode
    | relative => exact .relative hd.symm (by simpa [addressOf] using ha)

/-- **Resolving an operand** finds what the ideal machine finds. -/
theorem operand_of_resolve (hd : (mode.digit : Int) = s.digit k)
    (h : resolve s.cells s.base k role mode (s.word k) = .ok o) : s.Operand k role o.value := by
  cases role with
  | read =>
    rcases resolve_read_eq_ok_iff.1 h with ⟨rfl, rfl⟩ | ⟨hmode, a, ha, rfl⟩
    · exact .immediate hd.symm
    · exact .cell ((names_iff hd).2 ⟨hmode, ha⟩)
  | write =>
    obtain ⟨hmode, a, ha, rfl⟩ := resolve_write_eq_ok_iff.1 h
    exact ⟨a, (names_iff hd).2 ⟨hmode, ha⟩, rfl⟩

/-- The modes a digit leaves to an address. -/
theorem Names.exists_mode {a : Nat} (h : s.Names k a) :
    ∃ mode : Mode, (mode.digit : Int) = s.digit k ∧ mode ≠ .immediate ∧
      addressOf s.base mode (s.word k) = a := by
  rcases h with ⟨h0, ha⟩ | ⟨h2, ha⟩
  · exact ⟨.position, by simp [Mode.digit, h0], by simp, by simpa [addressOf] using ha⟩
  · exact ⟨.relative, by simp [Mode.digit, h2], by simp, by simpa [addressOf] using ha⟩

/-- **And conversely**: what the ideal machine finds is resolved. -/
theorem Operand.exists_resolve {v : Int} (h : s.Operand k role v) :
    ∃ (mode : Mode) (o : IntMachine.Operand), (mode.digit : Int) = s.digit k ∧
      resolve s.cells s.base k role mode (s.word k) = .ok o ∧ o.value = v := by
  cases role with
  | read =>
    rcases h with hd | h
    · exact ⟨.immediate, _, hd.symm, resolve_read_eq_ok_iff.2 (.inl ⟨rfl, rfl⟩), rfl⟩
    · obtain ⟨mode, hd, hmode, ha⟩ := h.exists_mode
      exact ⟨mode, _, hd, resolve_read_eq_ok_iff.2 (.inr ⟨hmode, _, ha, rfl⟩), rfl⟩
  | write =>
    obtain ⟨c, h, rfl⟩ := h
    obtain ⟨mode, hd, hmode, ha⟩ := h.exists_mode
    exact ⟨mode, _, hd, resolve_write_eq_ok_iff.2 ⟨hmode, _, ha, rfl⟩, rfl⟩

/-- All operands at once, as far as the digits of the modes are those of the
word. -/
theorem operands_of_resolveAll (hlen : modes.length = roles.length)
    (hd : ∀ j mode, modes[j]? = some mode → (mode.digit : Int) = s.digit (k + j))
    (h : resolveAll s.cells s.base s.pc.toNat k roles modes = .ok operands) :
    s.Operands k roles (operands.map (·.value)) := by
  induction roles generalizing k modes operands with
  | nil =>
    obtain rfl := List.length_eq_zero_iff.1 hlen
    obtain rfl := resolveAll_nil_eq_ok_iff.1 h
    exact .nil k
  | cons role roles ih =>
    obtain ⟨mode, modes, rfl⟩ := List.exists_cons_of_length_eq_add_one hlen
    obtain ⟨first, others, hfirst, hothers, rfl⟩ := resolveAll_cons_eq_ok_iff.1 h
    refine .cons (operand_of_resolve (hd 0 mode rfl) hfirst) (ih (by simpa using hlen) ?_ hothers)
    intro j mode hj
    rw [Nat.add_right_comm, Nat.add_assoc]
    exact hd (j + 1) mode (by simpa using hj)

theorem Operands.exists_resolveAll {vs : List Int} (h : s.Operands k roles vs) :
    ∃ (modes : List Mode) (operands : List IntMachine.Operand), modes.length = roles.length ∧
      (∀ j mode, modes[j]? = some mode → (mode.digit : Int) = s.digit (k + j)) ∧
      resolveAll s.cells s.base s.pc.toNat k roles modes = .ok operands ∧
      operands.map (·.value) = vs := by
  induction h with
  | nil k => exact ⟨[], [], rfl, by simp, rfl, rfl⟩
  | cons hfirst _ ih =>
    obtain ⟨mode, o, hd, hresolve, rfl⟩ := hfirst.exists_resolve
    obtain ⟨modes, operands, hlen, hds, hall, rfl⟩ := ih
    refine ⟨mode :: modes, o :: operands, by simp [hlen], fun j mode' hj => ?_,
      resolveAll_cons_eq_ok_iff.2 ⟨o, operands, hresolve, hall, rfl⟩, rfl⟩
    cases j with
    | zero =>
      obtain rfl : mode = mode' := by simpa using hj
      exact hd
    | succ j =>
      have := hds j mode' (by simpa using hj)
      rwa [Nat.add_right_comm, Nat.add_assoc] at this

end Ideal

namespace Machine

variable {m : Machine} {i : Instruction}

/-- **What decodes is selected and resolved.** -/
theorem decode_ideal (h : m.memory.decode m.pc m.base = .ok i) :
    m.ideal.Selects i.opcode.number i.opcode.layout.length ∧
      m.ideal.Operands 1 i.opcode.layout i.operands := by
  obtain ⟨hpc, op, modes, operands, hparts, hoperands, rfl⟩ := decodeAt_eq_ok_iff.1 h
  obtain ⟨hsign, hnumber, habove, hlen, hdigits⟩ := partsOfWord_eq_ok_iff.1 hparts
  refine ⟨⟨hpc, hsign, hnumber, habove⟩,
    Ideal.operands_of_resolveAll hlen (fun j mode hj => ?_) hoperands⟩
  rw [hdigits j mode hj, Nat.add_comm 1 j]
  rfl

/-- **What is selected and resolved decodes.** -/
theorem exists_decode (op : Opcode) (vs : List Int)
    (hsel : m.ideal.Selects op.number op.layout.length)
    (hvs : m.ideal.Operands 1 op.layout vs) :
    ∃ i, m.memory.decode m.pc m.base = .ok i ∧ i.opcode = op ∧ i.operands = vs := by
  obtain ⟨modes, operands, hlen, hdigits, hoperands, rfl⟩ := hvs.exists_resolveAll
  refine ⟨_, decodeAt_eq_ok_iff.2 ⟨hsel.counter, op, modes, operands, ?_, hoperands, rfl⟩,
    rfl, rfl⟩
  refine partsOfWord_eq_ok_iff.2 ⟨hsel.sign, hsel.number, hsel.above, hlen, fun j mode hj => ?_⟩
  rw [hdigits j mode hj, Nat.add_comm 1 j]
  rfl

/-- **Decoding fails on the ill-formed instructions and on no others.** -/
theorem decode_eq_error_iff :
    (∃ e, m.memory.decode m.pc m.base = .error e) ↔ m.ideal.IllFormed := by
  rw [Ideal.illFormed_iff]
  constructor
  · rintro ⟨e, he⟩ ⟨op, vs, hsel, hvs⟩
    obtain ⟨i, hi, -⟩ := exists_decode op vs hsel hvs
    rw [he] at hi
    cases hi
  · intro h
    cases hd : m.memory.decode m.pc m.base with
    | error e => exact ⟨e, rfl⟩
    | ok i => exact absurd ⟨_, _, decode_ideal hd⟩ h

/-! ## Executing -/

/-- The instruction behind a decoded one. -/
theorem next_of_decode (h : m.memory.decode m.pc m.base = .ok i) :
    i.next = m.pc + (1 + i.operands.length : Nat) := by
  rw [Instruction.next, address_of_decodeAt h, Instruction.length]

theorem cell_put_eq (mem : Memory) (c : Nat) (v : Int) :
    (mem.put c v).cell = Function.update mem.cell c v := by
  funext a
  rw [Memory.cell_put, Function.update_apply]

theorem cell_entering_eq (m : Machine) (i : Instruction) :
    (m.entering i).memory.cell = m.memory.cell :=
  funext (cell_entering m i)

/-- Only an input instruction can be kept waiting. -/
theorem starves_eq_false (h : i.opcode ≠ .input) : m.starves i = false := by
  simp [starves, h]

/-- An operation that stores makes the transition that stores. -/
theorem advance_of_store (op : Opcode) {f : Int → Int → Int} {a b : Int} {c : Nat}
    (hm : m.isHalted = false) (hf : op.result? = some f) (hl : op.layout = [.read, .read, .write])
    (hsel : m.ideal.Selects op.number 3)
    (ha : m.ideal.Reads 1 a) (hb : m.ideal.Reads 2 b) (hc : m.ideal.Names 3 c) :
    ∃ i, m.advance.result = .ok (some i) ∧ m.advance.after.ideal =
      { m.ideal with cells := Function.update m.ideal.cells c (f a b), pc := m.ideal.pc + 4 } := by
  obtain ⟨i, hd, rfl, ho⟩ := exists_decode op [a, b, c] (by rwa [hl])
    (by rw [hl]; exact .cons ha (.cons hb (.cons ⟨c, hc, rfl⟩ (.nil _))))
  have hs : m.starves i = false := starves_eq_false (Opcode.ne_of_result? hf).1
  have hadv := advance_of_execute hd hs (execute_store hf ho)
  refine ⟨i, by rw [hadv], ?_⟩
  rw [hadv]
  simp [ideal, cell_put_eq, cell_entering_eq, next_of_decode hd, ho, hm]
  rfl

/-- An operation that jumps makes the transition that jumps. -/
theorem advance_of_jump (op : Opcode) {taken : Int → Bool} {a b : Int}
    (hm : m.isHalted = false) (hf : op.jumpsOn? = some taken) (hl : op.layout = [.read, .read])
    (hsel : m.ideal.Selects op.number 2) (ha : m.ideal.Reads 1 a) (hb : m.ideal.Reads 2 b) :
    ∃ i, m.advance.result = .ok (some i) ∧ m.advance.after.ideal =
      { m.ideal with pc := if taken a then b else m.ideal.pc + 3 } := by
  obtain ⟨i, hd, rfl, ho⟩ := exists_decode op [a, b] (by rwa [hl])
    (by rw [hl]; exact .cons ha (.cons hb (.nil _)))
  have hs : m.starves i = false := starves_eq_false (Opcode.ne_of_jumpsOn? hf).1
  have hadv := advance_of_execute hd hs (execute_jump hf ho)
  refine ⟨i, by rw [hadv], ?_⟩
  rw [hadv]
  simp [ideal, cell_entering_eq, next_of_decode hd, ho, hm]
  rfl

/-- **Every rule is executed**, and leads where the rule leads. -/
theorem advance_of_rule {s' : Ideal} (hm : m.isHalted = false) (h : m.ideal.Rule s') :
    ∃ i, m.advance.result = .ok (some i) ∧ m.advance.after.ideal = s' := by
  cases h with
  | add hsel ha hb hc => exact advance_of_store .add hm rfl rfl hsel ha hb hc
  | multiply hsel ha hb hc => exact advance_of_store .multiply hm rfl rfl hsel ha hb hc
  | lessThan hsel ha hb hc =>
    exact advance_of_store (f := fun a b => if a < b then 1 else 0) .lessThan hm rfl rfl
      hsel ha hb hc
  | equals hsel ha hb hc =>
    exact advance_of_store (f := fun a b => if a = b then 1 else 0) .equals hm rfl rfl
      hsel ha hb hc
  | jumpIfTrue hsel ha hb => simpa using advance_of_jump .jumpIfTrue hm rfl rfl hsel ha hb
  | jumpIfFalse hsel ha hb => simpa using advance_of_jump .jumpIfFalse hm rfl rfl hsel ha hb
  | @input v rest c hsel hc hin =>
    obtain ⟨i, hd, hop, ho⟩ := exists_decode .input [(c : Int)] hsel (.cons ⟨c, hc, rfl⟩ (.nil _))
    have hpending : m.input.pending = v :: rest := hin
    obtain ⟨⟨w, left⟩, hr⟩ : ∃ p, m.input.receive? = some p :=
      Option.ne_none_iff_exists'.1 fun h => by
        simp [Channel.receive?_eq_none_iff.1 h] at hpending
    obtain ⟨rfl, rfl⟩ : v = w ∧ rest = left.pending := by
      simpa [hpending] using Channel.pending_of_receive? hr
    have hs : m.starves i = false := by
      rw [Bool.eq_false_iff, ne_eq, starves_iff]
      rintro ⟨-, h⟩
      simp [hpending] at h
    have hadv := advance_of_execute hd hs (execute_input hop ho hr)
    refine ⟨i, by rw [hadv], ?_⟩
    rw [hadv]
    simp [ideal, cell_put_eq, cell_entering_eq, next_of_decode hd, ho, hm]
    rfl
  | @output a hsel ha =>
    obtain ⟨i, hd, hop, ho⟩ := exists_decode .output [a] hsel (.cons ha (.nil _))
    have hadv := advance_of_execute hd (starves_eq_false (by simp [hop])) (execute_output hop ho)
    refine ⟨i, by rw [hadv], ?_⟩
    rw [hadv]
    simp [ideal, Channel.send, cell_entering_eq, next_of_decode hd, ho, hm]
    rfl
  | @adjustRelativeBase a hsel ha =>
    obtain ⟨i, hd, hop, ho⟩ := exists_decode .adjustRelativeBase [a] hsel (.cons ha (.nil _))
    have hadv := advance_of_execute hd (starves_eq_false (by simp [hop])) (execute_adjust hop ho)
    refine ⟨i, by rw [hadv], ?_⟩
    rw [hadv]
    simp [ideal, cell_entering_eq, next_of_decode hd, ho, hm]
    rfl
  | halt hsel =>
    obtain ⟨i, hd, hop, ho⟩ := exists_decode .halt [] hsel (.nil _)
    have hadv := advance_of_execute hd (starves_eq_false (by simp [hop])) (execute_halt hop)
    refine ⟨i, by rw [hadv], ?_⟩
    rw [hadv]
    simp [ideal, cell_entering_eq, next_of_decode hd, ho]
    rfl

/-- **An executed instruction is a transition**, and the other way round. -/
theorem transition_iff {s' : Ideal} (hm : m.isHalted = false) :
    m.ideal.Transition s' ↔
      ∃ i, m.advance.result = .ok (some i) ∧ m.advance.after.ideal = s' := by
  constructor
  · rintro ⟨-, hrule⟩
    exact advance_of_rule hm hrule
  · rintro ⟨i, hi, rfl⟩
    obtain ⟨next, m', hd, hs, -⟩ := effect_of_executed hi
    obtain ⟨hsel, hvs⟩ := decode_ideal hd
    have hinput : i.opcode = .input → m.ideal.input ≠ [] := fun hop hnil => by
      rw [starves_iff.2 ⟨hop, hnil⟩] at hs
      cases hs
    obtain ⟨s', hrule⟩ := Ideal.exists_rule hsel hvs hinput
    -- the machine makes this transition too, so it is the one it made
    obtain ⟨j, -, rfl⟩ := advance_of_rule hm hrule
    exact ⟨hm, hrule⟩

/-- **Waiting for input is being blocked.** -/
theorem blocked_iff (hm : m.isHalted = false) :
    m.ideal.Blocked ↔ m.advance.result = .ok none := by
  rw [Ideal.blocked_iff]
  constructor
  · rintro ⟨-, hnil, vs, hsel, hvs⟩
    obtain ⟨i, hd, hop, -⟩ := exists_decode .input vs hsel hvs
    rw [advance_of_starves hd (starves_iff.2 ⟨hop, hnil⟩)]
  · intro h
    rcases advance_cases m with ⟨e, -, hadv⟩ | ⟨i, hd, hs, -⟩ | ⟨i, next, m', -, -, -, hadv⟩
    · rw [hadv] at h; cases h
    · obtain ⟨hop, hnil⟩ := starves_iff.1 hs
      obtain ⟨hsel, hvs⟩ := decode_ideal hd
      rw [hop] at hsel hvs
      exact ⟨hm, hnil, _, hsel, hvs⟩
    · rw [hadv] at h; cases h

/-- **Failing is being ill-formed.** -/
theorem illFormed_iff : m.ideal.IllFormed ↔ ∃ e, m.advance.result = .error (.decode e) := by
  rw [← decode_eq_error_iff]
  constructor
  · rintro ⟨e, he⟩
    exact ⟨e, by rw [advance_of_decode_error he]⟩
  · rintro ⟨e, he⟩
    rcases advance_cases m with ⟨e, hd, -⟩ | ⟨i, -, -, hadv⟩ | ⟨i, next, m', -, -, -, hadv⟩
    · exact ⟨e, hd⟩
    · rw [hadv] at he; cases he
    · rw [hadv] at he; cases he

/-! ## Steps -/

/-- What a step of an active machine reports where it executes nothing. -/
theorem step_result_of_active (hm : m.Active) :
    (m.step.result = .error (.inputRequired m.pc) ↔ m.advance.result = .ok none) ∧
      ∀ e, m.step.result = .error (.decode e) ↔ m.advance.result = .error (.decode e) := by
  rw [step, obstacle?_eq_none_iff.2 hm]
  rcases advance_cases m with ⟨e, -, hadv⟩ | ⟨i, -, -, hadv⟩ | ⟨i, next, m', -, -, -, hadv⟩ <;>
    simp [hadv]

/-- A machine that has executed something, or could, is active or halted. -/
theorem active_or_halted_after_step (h : m.step.result = .ok i) :
    m.step.after.Active ∨ m.step.after.isHalted = true := by
  obtain ⟨hm, hadv⟩ := step_eq_ok_iff.1 h
  have hactivity := (advance_after_of_executed hadv).2
  rw [step_after_of_active hm]
  split at hactivity
  · exact .inr (by simp [isHalted, hactivity])
  · exact .inl (active_of_running hactivity)

/-- **A number of steps is as many transitions.** -/
theorem transitions_iff {k : Nat} {s' : Ideal} (hm : m.Active ∨ m.isHalted = true) :
    Ideal.Transitions k m.ideal s' ↔ ∃ c, m.stepTimes k = some c ∧ c.ideal = s' := by
  induction k generalizing m with
  | zero =>
    constructor
    · rintro ⟨⟩
      exact ⟨m, rfl, rfl⟩
    · rintro ⟨c, ⟨⟩, rfl⟩
      exact .zero _
  | succ k ih =>
    constructor
    · intro h
      obtain _ | ⟨hstep, hrest⟩ := h
      have hrun : m.isHalted = false := hstep.1
      have hactive : m.Active := hm.resolve_right (by simp [hrun])
      obtain ⟨i, hadv, rfl⟩ := (transition_iff hrun).1 hstep
      have hi : m.step.result = .ok i := step_eq_ok_iff.2 ⟨hactive, hadv⟩
      rw [← step_after_of_active hactive] at hrest
      obtain ⟨c, hc, rfl⟩ := (ih (active_or_halted_after_step hi)).1 hrest
      exact ⟨c, by simp only [stepTimes, hi, hc], rfl⟩
    · rintro ⟨c, hc, rfl⟩
      rw [stepTimes] at hc
      cases hi : m.step.result with
      | error e => simp [hi] at hc
      | ok i =>
        obtain ⟨hactive, hadv⟩ := step_eq_ok_iff.1 hi
        refine .succ ((transition_iff (isHalted_of_active hactive)).2 ⟨i, hadv, rfl⟩) ?_
        rw [← step_after_of_active hactive]
        exact (ih (active_or_halted_after_step hi)).2 ⟨c, by simpa [hi] using hc, rfl⟩

/-- Steps never leave a machine in anything but an active or halted state. -/
theorem Trail.active_or_halted {c : Machine} {is : List Instruction} (h : Trail m is c)
    (hm : m.Active ∨ m.isHalted = true) : c.Active ∨ c.isHalted = true := by
  induction h with
  | nil => exact hm
  | cons hstep _ ih => exact ih (active_or_halted_after_step hstep)

/-- **Refinement.** After any number of steps a machine that was loaded with a
program and input shows the state that as many transitions of the ideal machine
lead to, and there are as many transitions exactly if there are as many steps.
From each such state that has not halted, a step succeeds exactly if there is a
transition, asks for input without moving exactly if the ideal machine is
blocked, and fails to decode exactly if the instruction is ill-formed. -/
theorem steps_refine_transitions (program : Program) (input : List Int) (k : Nat) :
    (∀ s, Ideal.Transitions k (.start program input) s ↔
      ∃ m, (Machine.load program input).stepTimes k = some m ∧ m.Shows s) ∧
    ∀ m s, (Machine.load program input).stepTimes k = some m → m.Shows s → s.halted = false →
      ((∃ i, m.step.result = .ok i) ↔ ∃ s', s.Transition s') ∧
      ((m.step.result = .error (.inputRequired m.pc) ∧ m.step.after.pc = m.pc) ↔ s.Blocked) ∧
      ((∃ e, m.step.result = .error (.decode e)) ↔ s.IllFormed) := by
  have hload : (Machine.load program input).Active := active_of_running rfl
  refine ⟨fun s => ?_, fun m s hm hs hrun => ?_⟩
  · simp only [shows_iff]
    rw [← ideal_load, transitions_iff (.inl hload)]
  · obtain ⟨is, -, htrail⟩ := trail_of_stepTimes hm
    obtain rfl := shows_iff.1 hs
    have hactive : m.Active :=
      (htrail.active_or_halted (.inl hload)).resolve_right (by simpa [ideal] using hrun)
    have hresult := step_result_of_active hactive
    refine ⟨?_, ?_, ?_⟩
    · constructor
      · rintro ⟨i, hi⟩
        exact ⟨_, (transition_iff hrun).2 ⟨i, (step_eq_ok_iff.1 hi).2, rfl⟩⟩
      · rintro ⟨s', h⟩
        obtain ⟨i, hadv, -⟩ := (transition_iff hrun).1 h
        exact ⟨i, step_eq_ok_iff.2 ⟨hactive, hadv⟩⟩
    · rw [blocked_iff hrun, hresult.1, step_after_of_active hactive]
      refine ⟨And.left, fun h => ⟨h, ?_⟩⟩
      obtain ⟨a, -, hafter, -⟩ := advance_of_not_executed (m := m) (by simp [h])
      rw [hafter]
    · rw [illFormed_iff]
      exact exists_congr hresult.2

/-- An addition that reads past the end of memory and overwrites its own word
runs into the zero behind the program, which is no operation. -/
theorem self_overwriting_addition_refines :
    ∃ m s, (Machine.load [1, 50, 60, 0] []).stepTimes 1 = some m ∧ m.Shows s ∧
      s.halted = false ∧ s.cells 0 = 0 ∧ m.memory.size = 61 ∧
      ((∃ e, m.step.result = .error (.decode e)) ↔ s.IllFormed) ∧ s.IllFormed := by
  have hrun : (Machine.load [1, 50, 60, 0] []).stepTimes 1 =
      some (Machine.load [1, 50, 60, 0] []).step.after := by decide +kernel
  have hlive : (Machine.load [1, 50, 60, 0] []).step.after.ideal.halted = false := by
    decide +kernel
  have hfails : ∃ e, (Machine.load [1, 50, 60, 0] []).step.after.step.result =
      .error (.decode e) := ⟨⟨.unknownOpcode 0, 4, 0⟩, by decide +kernel⟩
  have hrefines := (steps_refine_transitions [1, 50, 60, 0] [] 1).2 _ _ hrun (shows_iff.2 rfl) hlive
  exact ⟨_, _, hrun, shows_iff.2 rfl, hlive, by decide +kernel, by decide +kernel, hrefines.2.2,
    hrefines.2.2.1 hfails⟩

end Machine

end IntMachine
