import IntMachine.Proofs.Words
import Mathlib.Data.List.Forall2
/-!
# Decoded instructions

When decoding succeeds, operand by operand, and what is then known of the
instruction: it has an operand for each place of its operation, and no address
in it, read or written, is negative. `Instruction.WellFormed` is that much and
no more; executing an instruction asks for nothing else.
-/

namespace IntMachine

/-- The address that an operand word names in position or relative mode. -/
def addressOf (base : Int) (mode : Mode) (raw : Int) : Int :=
  if mode = .relative then raw + base else raw

theorem effectiveAddress_eq_ok_iff {base raw : Int} {mode : Mode} {a : Nat} :
    effectiveAddress base mode raw = .ok a ↔ addressOf base mode raw = a := by
  change (if addressOf base mode raw < 0 then Except.error (DecodeFault.negativeAddress _)
    else .ok (addressOf base mode raw).toNat) = .ok a ↔ _
  split
  · simp only [reduceCtorEq, false_iff]; omega
  · simp only [Except.ok.injEq]; omega

variable {view : View} {base pc : Int} {k : Nat} {raw : Int} {mode : Mode} {o : Operand}

/-- **A read operand** is its word, or the cell its word names. -/
theorem resolve_read_eq_ok_iff :
    resolve view base k .read mode raw = .ok o ↔
      (mode = .immediate ∧ o = ⟨raw, none⟩) ∨
        (mode ≠ .immediate ∧ ∃ a : Nat, addressOf base mode raw = a ∧ o = ⟨view a, some a⟩) := by
  cases mode with
  | immediate => simp [resolve, eq_comm]
  | position | relative =>
    simp only [resolve, ← effectiveAddress_eq_ok_iff]
    cases effectiveAddress base _ raw <;> simp [Except.map, eq_comm]

/-- **A written operand** is the address its word names. -/
theorem resolve_write_eq_ok_iff :
    resolve view base k .write mode raw = .ok o ↔
      mode ≠ .immediate ∧ ∃ a : Nat, addressOf base mode raw = a ∧ o = ⟨a, none⟩ := by
  cases mode with
  | immediate => simp [resolve]
  | position | relative =>
    simp only [resolve, ← effectiveAddress_eq_ok_iff]
    cases effectiveAddress base _ raw <;> simp [Functor.map, Except.map, eq_comm]

theorem resolveAll_nil_eq_ok_iff {pc : Nat} {operands : List Operand} :
    resolveAll view base pc k [] [] = .ok operands ↔ operands = [] := by
  simp [resolveAll, eq_comm]

/-- Operands are resolved one by one. -/
theorem resolveAll_cons_eq_ok_iff {pc : Nat} {role : Role} {roles : List Role}
    {modes : List Mode} {operands : List Operand} :
    resolveAll view base pc k (role :: roles) (mode :: modes) = .ok operands ↔
      ∃ first others, resolve view base k role mode (view (pc + k)) = .ok first ∧
        resolveAll view base pc (k + 1) roles modes = .ok others ∧ operands = first :: others := by
  simp only [resolveAll]
  cases resolve view base k role mode (view (pc + k)) with
  | error fault => simp
  | ok first =>
    cases resolveAll view base pc (k + 1) roles modes with
    | error fault => simp
    | ok others => simp [eq_comm]

/-- **When decoding succeeds**, and with what. -/
theorem decodeAt_eq_ok_iff {i : Instruction} :
    decodeAt view base pc = .ok i ↔
      0 ≤ pc ∧ ∃ op modes operands,
        partsOfWord (view pc.toNat) = .ok (op, modes) ∧
        resolveAll view base pc.toNat 1 op.layout modes = .ok operands ∧
        i = { opcode := op, operands := operands.map (·.value), address := pc,
              word := view pc.toNat, modes := modes,
              reads := ownWords pc.toNat op.length ++ operands.filterMap (·.source) } := by
  rw [decodeAt]
  split
  · rename_i hneg
    simp only [reduceCtorEq, false_iff]
    rintro ⟨hpos, -⟩
    omega
  · rename_i hpos
    have hpc : ((pc.toNat : Nat) : Int) = pc := by omega
    rw [decodeWord]
    cases partsOfWord (view pc.toNat) with
    | error fault => simp [Except.mapError]
    | ok parts =>
      obtain ⟨op, modes⟩ := parts
      cases hr : resolveAll view base pc.toNat 1 op.layout modes with
      | error fault => simp [Except.mapError, hr]
      | ok operands =>
        simp only [hr, Except.mapError, Except.ok.injEq, hpc]
        constructor
        · rintro rfl
          exact ⟨by omega, op, modes, operands, rfl, hr, rfl⟩
        · rintro ⟨-, op', modes', operands', hparts, hr', rfl⟩
          obtain ⟨rfl, rfl⟩ := by simpa using hparts
          rw [hr] at hr'
          rw [Except.ok.inj hr']

/-! ## What is known of a decoded instruction -/

/-- An instruction that no execution refuses: an operand for each place, and
no negative address. -/
structure Instruction.WellFormed (i : Instruction) : Prop where
  operands : List.Forall₂ (fun role v => role = .write → 0 ≤ v) i.opcode.layout i.operands
  reads : ∀ a ∈ i.reads, 0 ≤ a

theorem resolve_write_nonneg {role : Role} (h : resolve view base k role mode raw = .ok o) :
    role = .write → 0 ≤ o.value := by
  rintro rfl
  obtain ⟨-, a, -, rfl⟩ := resolve_write_eq_ok_iff.1 h
  exact Int.natCast_nonneg a

theorem resolve_source_nonneg {role : Role} (h : resolve view base k role mode raw = .ok o) :
    ∀ a ∈ o.source, 0 ≤ a := by
  cases role with
  | write =>
    obtain ⟨-, a, -, rfl⟩ := resolve_write_eq_ok_iff.1 h
    simp
  | read =>
    rcases resolve_read_eq_ok_iff.1 h with ⟨-, rfl⟩ | ⟨-, a, -, rfl⟩
    · simp
    · simp

/-- Resolved operands fill their places, and their sources are addresses. -/
theorem forall₂_of_resolveAll {pc : Nat} {roles : List Role} {modes : List Mode}
    {operands : List Operand} (hlen : modes.length = roles.length)
    (h : resolveAll view base pc k roles modes = .ok operands) :
    List.Forall₂ (fun role v => role = .write → 0 ≤ v) roles (operands.map (·.value)) ∧
      ∀ a ∈ operands.filterMap (·.source), 0 ≤ a := by
  induction roles generalizing k modes operands with
  | nil =>
    obtain rfl := List.length_eq_zero_iff.1 hlen
    obtain rfl := resolveAll_nil_eq_ok_iff.1 h
    simp
  | cons role roles ih =>
    obtain ⟨mode, modes, rfl⟩ := List.exists_cons_of_length_eq_add_one hlen
    obtain ⟨first, others, hfirst, hothers, rfl⟩ := resolveAll_cons_eq_ok_iff.1 h
    obtain ⟨hplaces, hsources⟩ := ih (by simpa using hlen) hothers
    refine ⟨List.Forall₂.cons (resolve_write_nonneg hfirst) hplaces, fun a ha => ?_⟩
    obtain ⟨o, ho, hoa⟩ := List.mem_filterMap.1 ha
    rcases List.mem_cons.1 ho with rfl | ho
    · exact resolve_source_nonneg hfirst a hoa
    · exact hsources a (List.mem_filterMap.2 ⟨o, ho, hoa⟩)

theorem ownWords_nonneg {start length : Nat} : ∀ a ∈ ownWords start length, 0 ≤ a := by
  intro a ha
  obtain ⟨n, -, rfl⟩ := List.mem_map.1 ha
  exact Int.natCast_nonneg n

/-- **What decodes is well-formed.** -/
theorem wellFormed_of_decodeAt {i : Instruction} (h : decodeAt view base pc = .ok i) :
    i.WellFormed := by
  obtain ⟨-, op, modes, operands, hparts, hoperands, rfl⟩ := decodeAt_eq_ok_iff.1 h
  obtain ⟨-, -, -, hlen, -⟩ := partsOfWord_eq_ok_iff.1 hparts
  obtain ⟨hplaces, hsources⟩ := forall₂_of_resolveAll hlen hoperands
  refine ⟨hplaces, fun a ha => ?_⟩
  rcases List.mem_append.1 ha with ha | ha
  · exact ownWords_nonneg a ha
  · exact hsources a ha

/-- A decoded instruction was decoded at the program counter. -/
theorem address_of_decodeAt {i : Instruction} (h : decodeAt view base pc = .ok i) :
    i.address = pc := by
  obtain ⟨-, op, modes, operands, -, -, rfl⟩ := decodeAt_eq_ok_iff.1 h
  rfl

end IntMachine
