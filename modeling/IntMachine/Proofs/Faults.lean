import IntMachine.Proofs.Unfed
/-!
# The first fault of an instruction

An instruction can be ill-formed in its program counter, in its word, and in each of its
operands, and decoding looks at them in this order. `WellFormedAt` says of a view, without
decoding, that nothing is wrong at a program counter, and `FirstFault` what is wrong first.
Decoding finds the one or the other (`decodeAt_eq_error_iff`), and what it finds to be in
order can be performed on every machine.
-/

namespace IntMachine

variable {view : View} {base pc raw : Int} {start k : Nat} {role : Role} {mode : Mode}
variable {roles : List Role} {modes : List Mode} {fault : DecodeFault}

/-! ## One operand -/

/-- **An operand word that can be used**: a target is not immediate, and an address is not
negative. -/
structure Usable (base : Int) (role : Role) (mode : Mode) (raw : Int) : Prop where
  target : role = .write → mode ≠ .immediate
  address : mode ≠ .immediate → 0 ≤ addressOf base mode raw

/-- **What is wrong with an operand word** at a position. -/
inductive OperandFault (base : Int) (position : Nat) :
    Role → Mode → (raw : Int) → DecodeFault → Prop
  | target {raw : Int} : OperandFault base position .write .immediate raw (.immediateWrite position)
  | address {role : Role} {mode : Mode} {raw : Int} :
      mode ≠ .immediate → addressOf base mode raw < 0 →
      OperandFault base position role mode raw (.negativeAddress (addressOf base mode raw))

theorem effectiveAddress_eq_error_iff :
    effectiveAddress base mode raw = .error fault ↔
      addressOf base mode raw < 0 ∧ fault = .negativeAddress (addressOf base mode raw) := by
  change (if addressOf base mode raw < 0 then Except.error (DecodeFault.negativeAddress _)
    else .ok (addressOf base mode raw).toNat) = .error fault ↔ _
  split
  · rename_i hneg
    simp only [hneg, Except.error.injEq, true_and]
    exact eq_comm
  · rename_i hpos
    simp [hpos]

/-- In position and relative mode everything hangs on the address. -/
theorem resolve_of_ne_immediate (view : View) (k : Nat) (role : Role) (hmode : mode ≠ .immediate) :
    ∃ f, resolve view base k role mode raw = (effectiveAddress base mode raw).map f := by
  cases mode with
  | immediate => exact absurd rfl hmode
  | position | relative =>
    cases role with
    | read => exact ⟨fun a => ⟨view a, some a⟩, rfl⟩
    | write =>
      refine ⟨fun a => ⟨a, none⟩, ?_⟩
      simp only [resolve]
      cases effectiveAddress base _ raw <;> rfl

/-- **An operand that is not resolved is refused for what is wrong with it.** -/
theorem resolve_eq_error_iff (view : View) :
    resolve view base k role mode raw = .error fault ↔ OperandFault base k role mode raw fault := by
  constructor
  · intro h
    by_cases hmode : mode = .immediate
    · subst hmode
      cases role with
      | read => cases h
      | write =>
        obtain rfl := Except.error.inj h
        exact .target
    · obtain ⟨f, hf⟩ := resolve_of_ne_immediate view k role hmode
      rw [hf] at h
      cases heff : effectiveAddress base mode raw with
      | ok a => simp [heff, Except.map] at h
      | error fault' =>
        obtain rfl : fault' = fault := by simpa [heff, Except.map] using h
        obtain ⟨hneg, rfl⟩ := effectiveAddress_eq_error_iff.1 heff
        exact .address hmode hneg
  · intro h
    cases h with
    | target => rfl
    | address hmode hneg =>
      obtain ⟨f, hf⟩ := resolve_of_ne_immediate view k role hmode
      rw [hf, effectiveAddress_eq_error_iff.2 ⟨hneg, rfl⟩]
      rfl

/-- An operand word can be used exactly if nothing is wrong with it. -/
theorem usable_iff :
    Usable base role mode raw ↔ ∀ fault, ¬ OperandFault base k role mode raw fault := by
  constructor
  · rintro ⟨htarget, haddress⟩ fault (_ | ⟨hmode, hneg⟩)
    · exact htarget rfl rfl
    · have := haddress hmode
      omega
  · refine fun h => ⟨fun hrole hmode => ?_, fun hmode => ?_⟩
    · subst hrole hmode
      exact h _ .target
    · by_contra hneg
      exact h _ (.address hmode (Int.not_le.1 hneg))

theorem exists_resolve_iff (view : View) (k : Nat) :
    (∃ o, resolve view base k role mode raw = .ok o) ↔ Usable base role mode raw := by
  rw [usable_iff (k := k)]
  simp only [← resolve_eq_error_iff view]
  cases resolve view base k role mode raw <;> simp

/-! ## All operands -/

/-- The operand words from a position on can be used in these places. -/
def AllUsable (view : View) (base : Int) (pc start : Nat) (places : List (Role × Mode)) : Prop :=
  ∀ (j : Nat) (role : Role) (mode : Mode), places[j]? = some (role, mode) →
    Usable base role mode (view (pc + (start + j)))

/-- **What is wrong first with the operand words** from a position on: nothing is wrong with
any word to the left. -/
def FirstOperandFault (view : View) (base : Int) (pc start : Nat) (places : List (Role × Mode))
    (fault : DecodeFault) : Prop :=
  ∃ (j : Nat) (role : Role) (mode : Mode), places[j]? = some (role, mode) ∧
    OperandFault base (start + j) role mode (view (pc + (start + j))) fault ∧
    AllUsable view base pc start (places.take j)

variable {counter : Nat} {places : List (Role × Mode)}

theorem allUsable_cons_iff :
    AllUsable view base counter start ((role, mode) :: places) ↔
      Usable base role mode (view (counter + start)) ∧
        AllUsable view base counter (start + 1) places := by
  constructor
  · intro h
    refine ⟨h 0 role mode rfl, fun j role' mode' hj => ?_⟩
    rw [Nat.add_right_comm, Nat.add_assoc]
    exact h (j + 1) role' mode' (by simpa using hj)
  · rintro ⟨hfirst, hothers⟩ j role' mode' hj
    cases j with
    | zero =>
      obtain ⟨rfl, rfl⟩ : role = role' ∧ mode = mode' := by simpa using hj
      exact hfirst
    | succ j =>
      have hword := hothers j role' mode' (by simpa using hj)
      rwa [Nat.add_right_comm, Nat.add_assoc] at hword

theorem firstOperandFault_cons_iff :
    FirstOperandFault view base counter start ((role, mode) :: places) fault ↔
      OperandFault base start role mode (view (counter + start)) fault ∨
        Usable base role mode (view (counter + start)) ∧
          FirstOperandFault view base counter (start + 1) places fault := by
  constructor
  · rintro ⟨j, role', mode', hj, hfault, hleft⟩
    cases j with
    | zero =>
      obtain ⟨rfl, rfl⟩ : role = role' ∧ mode = mode' := by simpa using hj
      exact .inl hfault
    | succ j =>
      rw [List.take_succ_cons, allUsable_cons_iff] at hleft
      refine .inr ⟨hleft.1, j, role', mode', by simpa using hj, ?_, hleft.2⟩
      rwa [Nat.add_right_comm, Nat.add_assoc]
  · rintro (hfault | ⟨hfirst, j, role', mode', hj, hfault, hleft⟩)
    · exact ⟨0, role, mode, rfl, hfault, by simp [AllUsable]⟩
    · refine ⟨j + 1, role', mode', by simpa using hj, ?_, ?_⟩
      · rwa [Nat.add_right_comm, Nat.add_assoc] at hfault
      · rw [List.take_succ_cons, allUsable_cons_iff]
        exact ⟨hfirst, hleft⟩

/-- **Operands are resolved if all of them can be.** -/
theorem exists_resolveAll_iff :
    (∃ operands, resolveAll view base counter start roles modes = .ok operands) ↔
      AllUsable view base counter start (roles.zip modes) := by
  induction roles generalizing start modes with
  | nil => simp [resolveAll, AllUsable]
  | cons role roles ih =>
    cases modes with
    | nil => simp [resolveAll, AllUsable]
    | cons mode modes =>
      rw [List.zip_cons_cons, allUsable_cons_iff, ← ih, ← exists_resolve_iff view start]
      simp only [resolveAll_cons_eq_ok_iff]
      constructor
      · rintro ⟨_, first, others, hfirst, hothers, rfl⟩
        exact ⟨⟨first, hfirst⟩, others, hothers⟩
      · rintro ⟨⟨first, hfirst⟩, others, hothers⟩
        exact ⟨_, first, others, hfirst, hothers, rfl⟩

/-- **Operands are refused for the first that cannot be resolved.** -/
theorem resolveAll_eq_error_iff :
    resolveAll view base counter start roles modes = .error fault ↔
      FirstOperandFault view base counter start (roles.zip modes) fault := by
  induction roles generalizing start modes with
  | nil => simp [resolveAll, FirstOperandFault]
  | cons role roles ih =>
    cases modes with
    | nil => simp [resolveAll, FirstOperandFault]
    | cons mode modes =>
      rw [List.zip_cons_cons, firstOperandFault_cons_iff, ← ih,
        ← resolve_eq_error_iff view, ← exists_resolve_iff view start,
        resolveAll]
      cases resolve view base start role mode (view (counter + start)) with
      | error fault' => simp
      | ok first => cases resolveAll view base counter (start + 1) roles modes <;> simp

/-! ## The whole instruction -/

/-- **Well-formed at a program counter**: the word there is made of an operation and a mode for
each of its operands, and the words behind it can be used as these operands. -/
def WellFormedAt (view : View) (base pc : Int) : Prop :=
  0 ≤ pc ∧ ∃ (op : Opcode) (modes : List Mode), modes.length = op.layout.length ∧
    view pc.toNat = wordOfParts op modes ∧
    AllUsable view base pc.toNat 1 (op.layout.zip modes)

/-- **What is wrong first** at a program counter, from the counter to the word to the operands,
and from left to right among these. -/
inductive FirstFault (view : View) (base pc : Int) : DecodeFailure → Prop
  | counter : pc < 0 → FirstFault view base pc ⟨.negativeCounter, pc, 0⟩
  | word {fault : DecodeFault} :
      0 ≤ pc → WordFault (view pc.toNat) fault →
      FirstFault view base pc ⟨fault, pc, view pc.toNat⟩
  | operand {op : Opcode} {modes : List Mode} {fault : DecodeFault} :
      0 ≤ pc → modes.length = op.layout.length → view pc.toNat = wordOfParts op modes →
      FirstOperandFault view base pc.toNat 1 (op.layout.zip modes) fault →
      FirstFault view base pc ⟨fault, pc, view pc.toNat⟩

theorem exists_decodeAt_iff : (∃ i, decodeAt view base pc = .ok i) ↔ WellFormedAt view base pc := by
  constructor
  · rintro ⟨i, hi⟩
    obtain ⟨hpc, op, modes, operands, hparts, hoperands, -⟩ := decodeAt_eq_ok_iff.1 hi
    obtain ⟨hlen, hword⟩ := partsOfWord_eq_ok_iff_wordOfParts.1 hparts
    exact ⟨hpc, op, modes, hlen, hword, exists_resolveAll_iff.1 ⟨operands, hoperands⟩⟩
  · rintro ⟨hpc, op, modes, hlen, hword, husable⟩
    obtain ⟨operands, hoperands⟩ := exists_resolveAll_iff.2 husable
    have hparts := partsOfWord_eq_ok_iff_wordOfParts.2 ⟨hlen, hword⟩
    exact ⟨_, decodeAt_eq_ok_iff.2 ⟨hpc, op, modes, operands, hparts, hoperands, rfl⟩⟩

/-- Where the word is at fault, nothing behind it counts. -/
theorem firstFault_iff_of_partsOfWord_error {e : DecodeFailure} (hpc : 0 ≤ pc)
    (hparts : partsOfWord (view pc.toNat) = .error fault) :
    FirstFault view base pc e ↔ e = ⟨fault, pc, view pc.toNat⟩ := by
  constructor
  · rintro (hneg | ⟨-, hword⟩ | ⟨-, hlen, hmade, -⟩)
    · omega
    · rw [partsOfWord_of_wordFault hword] at hparts
      rw [Except.error.inj hparts]
    · rw [partsOfWord_eq_ok_iff_wordOfParts.2 ⟨hlen, hmade⟩] at hparts
      cases hparts
  · rintro rfl
    exact .word hpc (wordFault_of_partsOfWord hparts)

/-- Where the counter and the word are in order, only an operand can be at fault. -/
theorem firstFault_iff_of_partsOfWord_ok {e : DecodeFailure} {op : Opcode} (hpc : 0 ≤ pc)
    (hparts : partsOfWord (view pc.toNat) = .ok (op, modes)) :
    FirstFault view base pc e ↔
      ∃ fault, FirstOperandFault view base pc.toNat 1 (op.layout.zip modes) fault ∧
        e = ⟨fault, pc, view pc.toNat⟩ := by
  constructor
  · rintro (hneg | ⟨-, hword⟩ | ⟨-, hlen, hmade, hfault⟩)
    · omega
    · rw [partsOfWord_of_wordFault hword] at hparts
      cases hparts
    · rw [partsOfWord_eq_ok_iff_wordOfParts.2 ⟨hlen, hmade⟩] at hparts
      obtain ⟨rfl, rfl⟩ := by simpa using hparts
      exact ⟨_, hfault, rfl⟩
  · rintro ⟨fault, hfault, rfl⟩
    obtain ⟨hlen, hmade⟩ := partsOfWord_eq_ok_iff_wordOfParts.1 hparts
    exact .operand hpc hlen hmade hfault

/-- **Decoding finds what is wrong first.** -/
theorem decodeAt_eq_error_iff {e : DecodeFailure} :
    decodeAt view base pc = .error e ↔ FirstFault view base pc e := by
  rcases Int.lt_or_le pc 0 with hneg | hpos
  · rw [decodeAt, if_pos hneg, Except.error.injEq]
    constructor
    · rintro rfl
      exact .counter hneg
    · rintro (_ | h | h)
      · rfl
      all_goals omega
  rw [decodeAt, if_neg (Int.not_lt.2 hpos), decodeWord]
  cases hparts : partsOfWord (view pc.toNat) with
  | error fault =>
    rw [firstFault_iff_of_partsOfWord_error hpos hparts]
    simp [Except.mapError, eq_comm]
  | ok parts =>
    obtain ⟨op, modes⟩ := parts
    rw [firstFault_iff_of_partsOfWord_ok hpos hparts]
    simp only [← resolveAll_eq_error_iff]
    cases resolveAll view base pc.toNat 1 op.layout modes <;> simp [Except.mapError, eq_comm]

/-- The first operand has a negative address, and the target is immediate. -/
example : (Memory.ofList [10001, -5]).decode 0 = .error ⟨.negativeAddress (-5), 0, 10001⟩ := by
  decide +kernel

/-! ## Performing what decodes -/

namespace Machine

variable {m : Machine} {i : Instruction}

/-- **All that performing a well-formed instruction can do**: it is read, and then has its
effect or is refused for want of input. -/
theorem perform_cases (hw : i.WellFormed) (m : Machine) :
    (m.starves i = true ∧
      perform i m = { result := .error (.inputRequired i.address),
                      after := { m with memory := (m.memory.touch i.reads).2 },
                      events := #[.performed i m.base] }) ∨
    (m.starves i = false ∧ ∃ next m',
      Effect i { m with memory := (m.memory.touch i.reads).2 } next m' ∧
      perform i m = { result := .ok next, after := m', events := #[.performed i m.base] }) := by
  have htouch : m.memory.touch i.reads = (none, (m.memory.touch i.reads).2) :=
    Prod.ext (Memory.touch_fst_eq_none hw.reads) rfl
  cases hs : m.starves i with
  | true =>
    obtain ⟨hinput, hpending⟩ := starves_iff.1 hs
    exact .inl ⟨rfl, perform_unfed htouch hinput hpending⟩
  | false =>
    obtain ⟨next, m', hexecute, heffect⟩ := execute_effect
      (m := { m with memory := (m.memory.touch i.reads).2 }) hw hs
    refine .inr ⟨rfl, next, m', heffect, ?_⟩
    rw [perform, htouch]
    dsimp only
    rw [hexecute]

/-- **A well-formed instruction is refused for want of input and for nothing else.** -/
theorem perform_eq_error_iff {e : MachineError} (hw : i.WellFormed) :
    (perform i m).result = .error e ↔
      i.opcode = .input ∧ m.input.pending = [] ∧ e = .inputRequired i.address := by
  rw [← and_assoc, ← starves_iff]
  rcases perform_cases hw m with ⟨hs, hperform⟩ | ⟨hs, next, m', -, hperform⟩
  · simp [hperform, hs, eq_comm]
  · simp [hperform, hs]

/-- **Faults are found in order, and what has none can be performed.** Decoding succeeds
exactly at a well-formed instruction, and otherwise names what is wrong first, with the
program counter and the word. What it gives has an operand for each place of its operation,
and no address that is read or written is negative. So any machine at all performs it, unless
it is an input instruction and nothing is pending. -/
theorem faults_are_found_in_order (memory : Memory) (pc base : Int) :
    ((∃ i, memory.decode pc base = .ok i) ↔ WellFormedAt memory.cell base pc) ∧
    (∀ e, memory.decode pc base = .error e ↔ FirstFault memory.cell base pc e) ∧
    ∀ i, memory.decode pc base = .ok i →
      i.operands.length = i.opcode.layout.length ∧
      (∀ a ∈ i.reads, 0 ≤ a) ∧
      (∀ (k : Nat) (a : Int), i.opcode.layout[k]? = some .write →
        i.operands[k]? = some a → 0 ≤ a) ∧
      ∀ (c : Machine) (e : MachineError), (perform i c).result = .error e ↔
        i.opcode = .input ∧ c.input.pending = [] ∧ e = .inputRequired pc := by
  refine ⟨exists_decodeAt_iff, fun e => decodeAt_eq_error_iff, fun i hi => ?_⟩
  have hw : i.WellFormed := wellFormed_of_decodeAt hi
  refine ⟨hw.operands.length_eq.symm, hw.reads, fun k a hrole ha => ?_, fun c e => ?_⟩
  · obtain ⟨hk, hrole⟩ := List.getElem?_eq_some_iff.1 hrole
    obtain ⟨hk', ha⟩ := List.getElem?_eq_some_iff.1 ha
    have hplace := hw.operands.get hk hk'
    simp only [List.get_eq_getElem, hrole, ha, forall_const] at hplace
    exact hplace
  · rw [perform_eq_error_iff hw, address_of_decodeAt hi]

end Machine

end IntMachine
