import IntMachine.Proofs.Accesses
import IntMachine.Proofs.Faults
/-!
# Footprints

Which cells an instruction depends on, and which it changes. What is decoded depends on the
cells that the instruction lists as read and on no others (`decodeAt_congr`): its words, which
say what the operands are, and the cells that these name. Performing it changes at most the
cell at its target, and that only if its operation is one that stores (`Effect.memory_cases`).
-/

namespace IntMachine

variable {view view' : View} {base pc raw : Int} {start counter : Nat} {role : Role} {mode : Mode}
variable {roles : List Role} {modes : List Mode} {o : Operand} {operands : List Operand}

/-! ## What is read -/

/-- The words of an instruction lie from its first to its last. -/
theorem natCast_mem_ownWords_iff {start length n : Nat} :
    (n : Int) ∈ ownWords start length ↔ start ≤ n ∧ n < start + length := by
  simp [ownWords, List.mem_range'_1]

theorem resolve_congr (h : resolve view base start role mode raw = .ok o)
    (hsource : ∀ a ∈ o.source, view' a.toNat = view a.toNat) :
    resolve view' base start role mode raw = .ok o := by
  cases role with
  | read =>
    rcases resolve_read_eq_ok_iff.1 h with ⟨hmode, rfl⟩ | ⟨hmode, a, ha, rfl⟩
    · exact resolve_read_eq_ok_iff.2 (.inl ⟨hmode, rfl⟩)
    · have hcell : view' a = view a := hsource a rfl
      exact resolve_read_eq_ok_iff.2 (.inr ⟨hmode, a, ha, by rw [hcell]⟩)
  | write => exact resolve_write_eq_ok_iff.2 (resolve_write_eq_ok_iff.1 h)

/-- **Operands depend on their words and on the cells they are read from.** -/
theorem resolveAll_congr (h : resolveAll view base counter start roles modes = .ok operands)
    (hwords : ∀ j < roles.length, view' (counter + (start + j)) = view (counter + (start + j)))
    (hsources : ∀ a ∈ operands.filterMap (·.source), view' a.toNat = view a.toNat) :
    resolveAll view' base counter start roles modes = .ok operands := by
  induction roles generalizing start modes operands with
  | nil => exact h
  | cons role roles ih =>
    cases modes with
    | nil => exact h
    | cons mode modes =>
      obtain ⟨first, others, hfirst, hothers, rfl⟩ := resolveAll_cons_eq_ok_iff.1 h
      have hword : view' (counter + start) = view (counter + start) := hwords 0 (by simp)
      refine resolveAll_cons_eq_ok_iff.2 ⟨first, others, ?_, ih hothers ?_ ?_, rfl⟩
      · rw [hword]
        exact resolve_congr hfirst fun a ha =>
          hsources a (List.mem_filterMap.2 ⟨first, List.mem_cons_self, ha⟩)
      · intro j hj
        rw [Nat.add_assoc start, Nat.add_comm 1]
        exact hwords (j + 1) (by simpa using hj)
      · intro a ha
        obtain ⟨o, ho, hoa⟩ := List.mem_filterMap.1 ha
        exact hsources a (List.mem_filterMap.2 ⟨o, List.mem_cons_of_mem _ ho, hoa⟩)

/-- **Decoding depends on what is read and on nothing else.** -/
theorem decodeAt_congr {i : Instruction} (h : decodeAt view base pc = .ok i)
    (hagree : ∀ a ∈ i.reads, view' a.toNat = view a.toNat) :
    decodeAt view' base pc = .ok i := by
  obtain ⟨hpc, op, modes, operands, hparts, hoperands, rfl⟩ := decodeAt_eq_ok_iff.1 h
  have hwords : ∀ k < op.length, view' (pc.toNat + k) = view (pc.toNat + k) := fun k hk =>
    hagree _ (List.mem_append_left _ (natCast_mem_ownWords_iff.2 ⟨by omega, by omega⟩))
  have hword : view' pc.toNat = view pc.toNat := hwords 0 (by rw [Opcode.length]; omega)
  refine decodeAt_eq_ok_iff.2 ⟨hpc, op, modes, operands, by rw [hword]; exact hparts, ?_,
    by rw [hword]⟩
  refine resolveAll_congr hoperands (fun j hj => hwords (1 + j) ?_) fun a ha =>
    hagree a (List.mem_append_right _ ha)
  rw [Opcode.length]
  omega

/-! ## What is changed -/

/-- The operations that store a value at the address that is their last operand. -/
def Opcode.stores : Opcode → Bool
  | .add | .multiply | .input | .lessThan | .equals => true
  | .output | .jumpIfTrue | .jumpIfFalse | .adjustRelativeBase | .halt => false

theorem Opcode.stores_of_result? {op : Opcode} {f : Int → Int → Int} (h : op.result? = some f) :
    op.stores = true := by
  cases op <;> first | rfl | cases h

theorem Opcode.stores_of_jumpsOn? {op : Opcode} {taken : Int → Bool}
    (h : op.jumpsOn? = some taken) : op.stores = false := by
  cases op <;> first | rfl | cases h

/-- **What an instruction does to memory once it is read**: nothing, or it stores a value at
its target. -/
theorem Effect.memory_cases {i : Instruction} {m m' : Machine} {next : Int}
    (h : Effect i m next m') :
    (i.opcode.stores = false ∧ m'.memory = m.memory) ∨
    (i.opcode.stores = true ∧ ∃ (c : Nat) (v : Int), i.target? = some (c : Int) ∧
      m'.memory = m.memory.put c v) := by
  cases h with
  | store hf ho =>
    exact .inr ⟨Opcode.stores_of_result? hf, _, _, by rw [Instruction.target?, ho]; rfl, rfl⟩
  | input hop ho _ =>
    exact .inr ⟨by rw [hop]; rfl, _, _, by rw [Instruction.target?, ho]; rfl, rfl⟩
  | jump hf _ => exact .inl ⟨Opcode.stores_of_jumpsOn? hf, rfl⟩
  | output hop _ | adjust hop _ | halt hop _ => exact .inl ⟨by rw [hop]; rfl, rfl⟩

namespace Machine

variable {i : Instruction}

/-- **Performing an instruction changes the cell at its target and no other.** -/
theorem target_of_cell_perform_ne {c : Machine} {n : Nat} (hw : i.WellFormed)
    (h : (perform i c).after.memory.cell n ≠ c.memory.cell n) :
    i.opcode.stores = true ∧ i.target? = some (n : Int) := by
  rcases perform_cases hw c with ⟨-, hperform⟩ | ⟨-, next, c', heffect, hperform⟩
  · rw [hperform] at h
    exact absurd (Memory.cell_touch _ _ n) h
  rw [hperform] at h
  rcases heffect.memory_cases with ⟨-, hmemory⟩ | ⟨hstores, t, v, ht, hmemory⟩
  · simp [hmemory] at h
  · have hn : n = t := by
      by_contra hne
      simp [hmemory, hne] at h
    exact ⟨hstores, hn ▸ ht⟩

/-- **What is listed as read is all that decoding depends on, and the target is all that is
changed.** Take an instruction that a memory holds. Any other memory, of any length, that
shows the same at the addresses listed as read holds the same instruction. And whatever
machine performs it, wherever peeking shows something else afterwards the operation is one of
the five that store, and the address is the target. -/
theorem footprint_is_complete {memory : Memory} (h : memory.decode pc base = .ok i) :
    (∀ memory' : Memory, (∀ a ∈ i.reads, memory'.peek a = memory.peek a) →
      memory'.decode pc base = .ok i) ∧
    ∀ (c : Machine) (a : Int), (perform i c).after.memory.peek a ≠ c.memory.peek a →
      i.opcode ∈ [.add, .multiply, .input, .lessThan, .equals] ∧ i.target? = some a := by
  have hw : i.WellFormed := wellFormed_of_decodeAt h
  refine ⟨fun memory' hagree => decodeAt_congr h fun a ha => ?_, fun c a hchanged => ?_⟩
  · have hpeek := hagree a ha
    rw [Memory.peek_of_nonneg (hw.reads a ha), Memory.peek_of_nonneg (hw.reads a ha)] at hpeek
    exact Except.ok.inj hpeek
  · rcases Int.lt_or_le a 0 with ha | ha
    · -- a negative address cannot be peeked at before or after
      exact absurd (by rw [Memory.peek, Memory.peek, Memory.index_of_neg ha]; rfl) hchanged
    · rw [Memory.peek_of_nonneg ha, Memory.peek_of_nonneg ha] at hchanged
      obtain ⟨hstores, htarget⟩ := target_of_cell_perform_ne hw fun hsame => hchanged (by rw [hsame])
      rw [Int.toNat_of_nonneg ha] at htarget
      refine ⟨?_, htarget⟩
      cases hop : i.opcode <;> simp_all [Opcode.stores]

/-- Two operands are read behind the end of the memory. A memory that goes on for longer, but
not so far, holds the same instruction, which changes the cell at its target. -/
theorem a_longer_memory_holds_the_same :
    ∃ i, (Memory.ofList [201, 1, 9, 3]).decode 0 10 = .ok i ∧ i.reads = [0, 1, 2, 3, 11, 9] ∧
      (Memory.ofList [201, 1, 9, 3, 5, 5, 5]).decode 0 10 = .ok i ∧
      (perform i (load [201, 1, 9, 3])).after.memory.peek 3 ≠ (load [201, 1, 9, 3]).memory.peek 3 ∧
      i.target? = some 3 := by
  have hdecode : (Memory.ofList [201, 1, 9, 3]).decode 0 10 =
      .ok ⟨.add, [0, 0, 3], 0, 201, [.relative, .position, .position], [0, 1, 2, 3, 11, 9]⟩ := by
    decide +kernel
  obtain ⟨halike, hchanges⟩ := footprint_is_complete hdecode
  have hchanged : (perform
      ⟨.add, [0, 0, 3], 0, 201, [.relative, .position, .position], [0, 1, 2, 3, 11, 9]⟩
      (load [201, 1, 9, 3])).after.memory.peek 3 ≠ (load [201, 1, 9, 3]).memory.peek 3 := by
    decide +kernel
  obtain ⟨-, htarget⟩ := hchanges _ _ hchanged
  exact ⟨_, hdecode, rfl, halike _ (by decide +kernel), hchanged, htarget⟩

end Machine

end IntMachine
