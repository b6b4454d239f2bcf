import IntMachine.Machine.Step
import IntMachine.Proofs.Operands
/-!
# What one instruction does

`Effect` lists all that executing a well-formed instruction can do to a
machine, one case for each kind of operation, and `advance_cases` all that
`advance` can do: fail to decode, wait for input, or have an effect. Whatever
holds of every step of a machine is read off these two.
-/

namespace IntMachine

/-- What an operation that stores a result makes of its operands. -/
def Opcode.result? : Opcode → Option (Int → Int → Int)
  | .add => some fun a b => a + b
  | .multiply => some fun a b => a * b
  | .lessThan => some fun a b => if a < b then 1 else 0
  | .equals => some fun a b => if a = b then 1 else 0
  | _ => none

/-- When an operation that jumps does jump. -/
def Opcode.jumpsOn? : Opcode → Option (Int → Bool)
  | .jumpIfTrue => some fun a => a ≠ 0
  | .jumpIfFalse => some fun a => a = 0
  | _ => none

/-- An operation that stores a result does nothing else. -/
theorem Opcode.ne_of_result? {op : Opcode} {f : Int → Int → Int} (h : op.result? = some f) :
    op ≠ .input ∧ op ≠ .output ∧ op ≠ .halt := by
  cases op <;> simp_all [result?]

/-- An operation that jumps does nothing else. -/
theorem Opcode.ne_of_jumpsOn? {op : Opcode} {taken : Int → Bool} (h : op.jumpsOn? = some taken) :
    op ≠ .input ∧ op ≠ .output ∧ op ≠ .halt := by
  cases op <;> simp_all [jumpsOn?]

/-- The instruction that an event reports as performed. -/
def Event.instruction? : Event → Option Instruction
  | .performed i _ => some i
  | _ => none

/-- The instructions that events report as performed, in order. -/
def instructionsOf (events : Array Event) : List Instruction :=
  events.toList.filterMap Event.instruction?

@[simp] theorem instructionsOf_empty : instructionsOf #[] = [] := rfl

@[simp] theorem instructionsOf_append (a b : Array Event) :
    instructionsOf (a ++ b) = instructionsOf a ++ instructionsOf b := by
  simp [instructionsOf]

namespace Memory

/-- Reads pass exactly where no address is negative. -/
theorem touch_fst_eq_none {m : Memory} {as : List Int} (h : ∀ a ∈ as, 0 ≤ a) :
    (m.touch as).1 = none := by
  induction as generalizing m with
  | nil => rfl
  | cons a as ih =>
    rw [touch, index_of_nonneg (h a (List.mem_cons_self ..))]
    exact ih fun b hb => h b (List.mem_cons_of_mem _ hb)

/-- Reads do not show in the view. -/
@[simp] theorem cell_touch (m : Memory) (as : List Int) (n : Nat) :
    (m.touch as).2.cell n = m.cell n := by
  induction as generalizing m with
  | nil => rfl
  | cons a as ih =>
    rw [touch]
    cases index a with
    | error e => rfl
    | ok k => simp only [ih, cell_visit]

end Memory

/-- **Effects.** What a well-formed instruction can do to a machine once its
reads are done, with the address of the instruction to follow. -/
inductive Effect (i : Instruction) (m : Machine) : Int → Machine → Prop
  | store {f : Int → Int → Int} {a b : Int} {c : Nat} :
      i.opcode.result? = some f → i.operands = [a, b, c] →
      Effect i m i.next { m with memory := m.memory.put c (f a b) }
  | input {v : Int} {rest : Channel} {c : Nat} :
      i.opcode = .input → i.operands = [(c : Int)] → m.input.receive? = some (v, rest) →
      Effect i m i.next { m with memory := m.memory.put c v, input := rest }
  | output {a : Int} :
      i.opcode = .output → i.operands = [a] →
      Effect i m i.next { m with output := m.output.send a }
  | jump {taken : Int → Bool} {a b : Int} :
      i.opcode.jumpsOn? = some taken → i.operands = [a, b] →
      Effect i m (if taken a then b else i.next) m
  | adjust {a : Int} :
      i.opcode = .adjustRelativeBase → i.operands = [a] →
      Effect i m i.next { m with base := m.base + a }
  | halt :
      i.opcode = .halt → i.operands = [] →
      Effect i m i.next { m with activity := .halted }

section Effect

variable {i : Instruction} {m m' : Machine} {next : Int}

/-- Only a halt instruction changes what a machine is doing. -/
theorem Effect.activity (h : Effect i m next m') :
    m'.activity = if i.opcode = .halt then .halted else m.activity := by
  cases h with
  | store hf _ => exact (if_neg (Opcode.ne_of_result? hf).2.2).symm
  | jump hf _ => exact (if_neg (Opcode.ne_of_jumpsOn? hf).2.2).symm
  | input hop _ _ | output hop _ | adjust hop _ | halt hop _ => simp [hop]

/-- Effects are not counted by themselves. -/
theorem Effect.executed (h : Effect i m next m') : m'.executed = m.executed := by
  cases h <;> rfl

end Effect

namespace Machine

variable {m m' : Machine} {i : Instruction}

/-- Only an input instruction waits, and only while nothing is pending. -/
theorem starves_iff : m.starves i = true ↔ i.opcode = .input ∧ m.input.pending = [] := by
  simp [starves]

theorem store_natCast (c : Nat) (v : Int) :
    m.store i c v = (.ok i.next, { m with memory := m.memory.put c v }) := by
  simp [store]

theorem execute_store {f : Int → Int → Int} {a b : Int} {c : Nat}
    (hf : i.opcode.result? = some f) (ho : i.operands = [a, b, (c : Int)]) :
    m.execute i = (.ok i.next, { m with memory := m.memory.put c (f a b) }) := by
  cases hop : i.opcode <;> simp only [hop, Opcode.result?, Option.some.injEq, reduceCtorEq] at hf
  all_goals
    subst hf
    simp only [execute, hop, ho, store_natCast]

theorem execute_jump {taken : Int → Bool} {a b : Int} (hf : i.opcode.jumpsOn? = some taken)
    (ho : i.operands = [a, b]) : m.execute i = (.ok (if taken a then b else i.next), m) := by
  cases hop : i.opcode <;> simp only [hop, Opcode.jumpsOn?, Option.some.injEq, reduceCtorEq] at hf
  all_goals
    subst hf
    simp only [execute, hop, ho, decide_eq_true_eq]

theorem execute_input {v : Int} {rest : Channel} {c : Nat} (hop : i.opcode = .input)
    (ho : i.operands = [(c : Int)]) (hv : m.input.receive? = some (v, rest)) :
    m.execute i = (.ok i.next, { m with memory := m.memory.put c v, input := rest }) := by
  simp [execute, hop, ho, hv, store_natCast]

theorem execute_output {a : Int} (hop : i.opcode = .output) (ho : i.operands = [a]) :
    m.execute i = (.ok i.next, { m with output := m.output.send a }) := by
  simp only [execute, hop, ho]

theorem execute_adjust {a : Int} (hop : i.opcode = .adjustRelativeBase) (ho : i.operands = [a]) :
    m.execute i = (.ok i.next, { m with base := m.base + a }) := by
  simp only [execute, hop, ho]

theorem execute_halt (hop : i.opcode = .halt) :
    m.execute i = (.ok i.next, { m with activity := .halted }) := by
  simp only [execute, hop]

/-- **A well-formed instruction takes effect**, unless it is an input
instruction and nothing is pending. -/
theorem execute_effect (hw : i.WellFormed) (hs : m.starves i = false) :
    ∃ next m', m.execute i = (.ok next, m') ∧ Effect i m next m' := by
  have hplaces := hw.operands
  cases hop : i.opcode with
  | add | multiply | lessThan | equals =>
    obtain ⟨a, b, v, hv, ho⟩ : ∃ a b v, 0 ≤ v ∧ i.operands = [a, b, v] := by
      simpa [hop, Opcode.layout, List.forall₂_cons_left_iff, and_comm] using hplaces
    obtain ⟨c, rfl⟩ := Int.eq_ofNat_of_zero_le hv
    exact ⟨_, _, execute_store (by rw [hop]; rfl) ho, .store (by rw [hop]; rfl) ho⟩
  | jumpIfTrue | jumpIfFalse =>
    obtain ⟨a, b, ho⟩ : ∃ a b, i.operands = [a, b] := by
      simpa [hop, Opcode.layout, List.forall₂_cons_left_iff] using hplaces
    exact ⟨_, _, execute_jump (by rw [hop]; rfl) ho, .jump (by rw [hop]; rfl) ho⟩
  | input =>
    obtain ⟨v, hv, ho⟩ : ∃ v, 0 ≤ v ∧ i.operands = [v] := by
      simpa [hop, Opcode.layout, List.forall₂_cons_left_iff, and_comm] using hplaces
    obtain ⟨c, rfl⟩ := Int.eq_ofNat_of_zero_le hv
    have hpending : m.input.pending ≠ [] := fun h => by
      simp [starves_iff.2 ⟨hop, h⟩] at hs
    obtain ⟨⟨w, rest⟩, hr⟩ : ∃ p, m.input.receive? = some p :=
      Option.ne_none_iff_exists'.1 fun h => hpending (Channel.receive?_eq_none_iff.1 h)
    exact ⟨_, _, execute_input hop ho hr, .input hop ho hr⟩
  | output =>
    obtain ⟨a, ho⟩ : ∃ a, i.operands = [a] := by
      simpa [hop, Opcode.layout, List.forall₂_cons_left_iff] using hplaces
    exact ⟨_, _, execute_output hop ho, .output hop ho⟩
  | adjustRelativeBase =>
    obtain ⟨a, ho⟩ : ∃ a, i.operands = [a] := by
      simpa [hop, Opcode.layout, List.forall₂_cons_left_iff] using hplaces
    exact ⟨_, _, execute_adjust hop ho, .adjust hop ho⟩
  | halt =>
    have ho : i.operands = [] := by simpa [hop, Opcode.layout] using hplaces
    exact ⟨_, _, execute_halt hop, .halt hop ho⟩

/-- **The effect of an instruction is the only one it has.** -/
theorem execute_of_effect {next : Int} (h : Effect i m next m') :
    m.execute i = (.ok next, m') := by
  cases h with
  | store hf ho => exact execute_store hf ho
  | input hop ho hv => exact execute_input hop ho hv
  | output hop ho => exact execute_output hop ho
  | jump hf ho => exact execute_jump hf ho
  | adjust hop ho => exact execute_adjust hop ho
  | halt hop _ => exact execute_halt hop

/-! ## What `advance` can do -/

/-- The machine about to have an instruction's effect: running, its reads
done. -/
def entering (m : Machine) (i : Instruction) : Machine :=
  { m with memory := (m.memory.touch i.reads).2, activity := .running }

section Entering

variable (m : Machine) (i : Instruction)

@[simp] theorem cell_entering (a : Nat) : (m.entering i).memory.cell a = m.memory.cell a :=
  Memory.cell_touch m.memory i.reads a

@[simp] theorem entering_pc : (m.entering i).pc = m.pc := rfl

@[simp] theorem entering_base : (m.entering i).base = m.base := rfl

@[simp] theorem entering_activity : (m.entering i).activity = .running := rfl

@[simp] theorem entering_input : (m.entering i).input = m.input := rfl

@[simp] theorem entering_output : (m.entering i).output = m.output := rfl

@[simp] theorem entering_executed : (m.entering i).executed = m.executed := rfl

end Entering

theorem advance_of_decode_error {e : DecodeFailure} (h : m.memory.decode m.pc m.base = .error e) :
    m.advance = { result := .error (.decode e), after := { m with activity := .failed e },
                  events := #[.decodeFailed e] } := by
  simp [advance, fetch, h]

theorem advance_of_starves (h : m.memory.decode m.pc m.base = .ok i) (hs : m.starves i = true) :
    m.advance = { result := .ok none, after := { m with activity := .awaitingInput } } := by
  simp [advance, fetch, h, hs]

theorem advance_of_execute {next : Int} (h : m.memory.decode m.pc m.base = .ok i)
    (hs : m.starves i = false) (he : (m.entering i).execute i = (.ok next, m')) :
    m.advance = { result := .ok (some i),
                  after := { m' with pc := next, executed := m'.executed + 1 },
                  events := #[.performed i m.base] } := by
  have hreads : (m.memory.touch i.reads).1 = none :=
    Memory.touch_fst_eq_none (wellFormed_of_decodeAt h).reads
  rw [entering] at he
  simp [advance, fetch, h, hs, perform, hreads, he]

/-- **All that `advance` can do.** -/
theorem advance_cases (m : Machine) :
    (∃ e, m.memory.decode m.pc m.base = .error e ∧
      m.advance = { result := .error (.decode e), after := { m with activity := .failed e },
                    events := #[.decodeFailed e] }) ∨
    (∃ i, m.memory.decode m.pc m.base = .ok i ∧ m.starves i = true ∧
      m.advance = { result := .ok none, after := { m with activity := .awaitingInput } }) ∨
    (∃ i next m', m.memory.decode m.pc m.base = .ok i ∧ m.starves i = false ∧
      Effect i (m.entering i) next m' ∧
      m.advance = { result := .ok (some i),
                    after := { m' with pc := next, executed := m'.executed + 1 },
                    events := #[.performed i m.base] }) := by
  cases h : m.memory.decode m.pc m.base with
  | error e => exact .inl ⟨e, rfl, advance_of_decode_error h⟩
  | ok i =>
    cases hs : m.starves i with
    | true => exact .inr (.inl ⟨i, rfl, hs, advance_of_starves h hs⟩)
    | false =>
      obtain ⟨next, m', he, heff⟩ := execute_effect (m := m.entering i)
        (wellFormed_of_decodeAt h) hs
      exact .inr (.inr ⟨i, next, m', rfl, hs, heff, advance_of_execute h hs he⟩)

/-- What an instruction that `advance` executed is, and what it did. -/
theorem effect_of_executed (h : m.advance.result = .ok (some i)) :
    ∃ next m', m.memory.decode m.pc m.base = .ok i ∧ m.starves i = false ∧
      Effect i (m.entering i) next m' ∧
      m.advance = { result := .ok (some i),
                    after := { m' with pc := next, executed := m.executed + 1 },
                    events := #[.performed i m.base] } := by
  rcases advance_cases m with ⟨e, -, hadv⟩ | ⟨j, -, -, hadv⟩ | ⟨j, next, m', hd, hs, heff, hadv⟩
  · rw [hadv] at h; cases h
  · rw [hadv] at h; cases h
  · obtain rfl : j = i := by simpa [hadv] using h
    exact ⟨next, m', hd, hs, heff, by rw [hadv, heff.executed]; rfl⟩

theorem instructionsOf_executed (h : m.advance.result = .ok (some i)) :
    instructionsOf m.advance.events = [i] := by
  obtain ⟨next, m', -, -, -, hadv⟩ := effect_of_executed h
  rw [hadv]
  rfl

/-- **An executed instruction** counts, and leaves the machine halted if it is
a halt instruction and running otherwise. -/
theorem advance_after_of_executed (h : m.advance.result = .ok (some i)) :
    m.advance.after.executed = m.executed + 1 ∧
      m.advance.after.activity = if i.opcode = .halt then .halted else .running := by
  obtain ⟨next, m', -, -, heff, hadv⟩ := effect_of_executed h
  rw [hadv]
  exact ⟨rfl, heff.activity⟩

/-- **What `advance` leaves where it executes nothing**: all but what the
machine is doing. -/
theorem advance_of_not_executed (h : ∀ i, m.advance.result ≠ .ok (some i)) :
    ∃ a, a ≠ .halted ∧ m.advance.after = { m with activity := a } ∧
      instructionsOf m.advance.events = [] := by
  rcases advance_cases m with ⟨e, -, hadv⟩ | ⟨j, -, -, hadv⟩ | ⟨j, next, m', -, -, -, hadv⟩
  · exact ⟨.failed e, by simp, by rw [hadv], by rw [hadv]; rfl⟩
  · exact ⟨.awaitingInput, by simp, by rw [hadv], by rw [hadv]; rfl⟩
  · exact absurd (by rw [hadv]) (h j)

/-- A machine that has to wait stays where it is. -/
theorem advance_of_none (h : m.advance.result = .ok none) :
    m.advance = { result := .ok none, after := { m with activity := .awaitingInput } } := by
  rcases advance_cases m with ⟨e, -, hadv⟩ | ⟨i, -, -, hadv⟩ | ⟨i, next, m', -, -, -, hadv⟩
  · simp [hadv] at h
  · exact hadv
  · simp [hadv] at h

end Machine

end IntMachine
