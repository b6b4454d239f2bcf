import IntMachine.Proofs.Step
/-!
# Performing input that is not there

`advance` does not perform an input instruction while nothing is pending. Asked
to, `perform` refuses, but only when the instruction has its effect, and by then
its reads are done: its two words have been read (`touch_ownWords`), which counts,
and makes the memory as long as the instruction reaches. That is all that changes
(`unfed_input_is_read_and_refused`).
-/

namespace IntMachine

variable {view : View} {base pc : Int} {start : Nat} {i : Instruction} {m : Machine}

namespace Memory

/-- Growing twice is growing to the larger size. -/
theorem grow_grow (m : Memory) (a b : Nat) : (m.grow a).grow b = m.grow (max a b) := by
  have hcells : ∀ s : Nat, (a - s) + (b - (s + (a - s))) = max a b - s := by omega
  simp only [grow, Array.size_append, Array.size_replicate, Array.append_assoc,
    Array.replicate_append_replicate, hcells]

/-- **Growing shows in the size only**: the cells stay exactly if there were enough. -/
theorem cells_grow_eq_iff {m : Memory} {n : Nat} : (m.grow n).cells = m.cells ↔ n ≤ m.size := by
  constructor
  · intro h
    have hsize : (m.grow n).size = m.size := congrArg Array.size h
    rw [size_grow] at hsize
    omega
  · intro h
    have hnone : n - m.cells.size = 0 := Nat.sub_eq_zero_of_le h
    simp [grow, hnone]

/-- **Reading the words of an instruction** counts each and makes the memory reach
behind the last. -/
theorem touch_ownWords (m : Memory) (start length : Nat) :
    m.touch (ownWords start (length + 1)) =
      (none, { m.grow (start + (length + 1)) with reads := m.reads + (length + 1) }) := by
  induction length generalizing m start with
  | zero => rfl
  | succ length ih =>
    have hwords :
        ownWords start (length + 2) = (start : Int) :: ownWords (start + 1) (length + 1) := rfl
    have hgrow : (m.grow (start + 1)).grow (start + 1 + (length + 1)) =
        m.grow (start + (length + 2)) := by
      rw [grow_grow]
      congr 1
      omega
    rw [hwords, touch, index_natCast]
    dsimp only
    rw [ih]
    -- the first word has been read, and the others are read of a memory that has grown
    have hfirst : (m.visit start).grow (start + 1 + (length + 1)) =
        { m.grow (start + (length + 2)) with reads := m.reads + 1 } := by
      rw [← hgrow]
      rfl
    rw [hfirst, reads_visit, Nat.add_assoc, Nat.add_comm 1]

end Memory

/-- Decoding reads the operand of an input instruction from nowhere: it is written. -/
theorem reads_of_decoded_input (h : decodeAt view base pc = .ok i) (hinput : i.opcode = .input) :
    0 ≤ pc ∧ i.reads = ownWords pc.toNat 2 := by
  obtain ⟨hpc, op, modes, operands, hparts, hoperands, rfl⟩ := decodeAt_eq_ok_iff.1 h
  obtain rfl : op = .input := hinput
  obtain ⟨-, -, -, hmodes, -⟩ := partsOfWord_eq_ok_iff.1 hparts
  obtain ⟨mode, rfl⟩ := List.length_eq_one_iff.1 hmodes
  obtain ⟨target, others, htarget, hothers, rfl⟩ := resolveAll_cons_eq_ok_iff.1 hoperands
  obtain rfl := resolveAll_nil_eq_ok_iff.1 hothers
  obtain ⟨-, a, -, rfl⟩ := resolve_write_eq_ok_iff.1 htarget
  exact ⟨hpc, List.append_nil _⟩

namespace Machine

/-- Only an instruction that decodes is fetched, and fetching it changes nothing. -/
theorem fetch_eq_ok_iff : m.fetch.result = .ok i ↔ m.memory.decode m.pc m.base = .ok i := by
  rw [fetch]
  cases m.memory.decode m.pc m.base <;> simp

theorem execute_unfed (hinput : i.opcode = .input) (hpending : m.input.pending = []) :
    m.execute i = (.error (.inputRequired i.address), m) := by
  have hnone : m.input.receive? = none := Channel.receive?_eq_none_iff.2 hpending
  simp only [execute, hinput, hnone]

/-- Performed without input, an input instruction has read and nothing more. -/
theorem perform_unfed {memory : Memory} (htouch : m.memory.touch i.reads = (none, memory))
    (hinput : i.opcode = .input) (hpending : m.input.pending = []) :
    perform i m = { result := .error (.inputRequired i.address), after := { m with memory },
                    events := #[.performed i m.base] } := by
  have hexecute : ({ m with memory } : Machine).execute i =
      (.error (.inputRequired i.address), { m with memory }) := execute_unfed hinput hpending
  rw [perform, htouch]
  dsimp only
  rw [hexecute]

/-- **An input instruction that is performed while nothing is pending is read and
refused.** Whatever the machine is doing, if an input instruction is fetched from it and
nothing is pending, performing that instruction is refused for want of input, and the
program counter, the base, the channels, the count of executed instructions and what
the machine is doing stay. Its memory does not: the two words of the instruction
count as read, and the memory is grown behind the second of them. So the machine is never
as it was, and the cells are exactly if both words lie inside the memory. -/
theorem unfed_input_is_read_and_refused (hfetch : m.fetch.result = .ok i)
    (hinput : i.opcode = .input) (hpending : m.input.pending = []) :
    m.fetch.after = m ∧
      (perform i m).result = .error (.inputRequired m.pc) ∧
      (perform i m).after = { m with memory :=
        { m.memory.grow (m.pc.toNat + 2) with reads := m.memory.reads + 2 } } ∧
      (perform i m).after ≠ m ∧
      ((perform i m).after.memory.cells = m.memory.cells ↔ m.pc + 2 ≤ m.memory.size) := by
  have hdecode := fetch_eq_ok_iff.1 hfetch
  obtain ⟨hpc, hreads⟩ := reads_of_decoded_input hdecode hinput
  have htouch := Memory.touch_ownWords m.memory m.pc.toNat 1
  rw [← hreads] at htouch
  have hperform := perform_unfed htouch hinput hpending
  rw [address_of_decodeAt hdecode] at hperform
  refine ⟨?_, by rw [hperform], by rw [hperform], ?_, ?_⟩
  · rw [fetch, hdecode]
  · intro hsame
    have hcount : m.memory.reads + 2 = m.memory.reads := by
      rw [hperform] at hsame
      exact congrArg (fun c => c.memory.reads) hsame
    omega
  · rw [hperform]
    refine Memory.cells_grow_eq_iff.trans ?_
    omega

/-- The program moves the base and then wants input, relative to it; the operand of the
input lies past the end of the memory. -/
theorem a_relative_input_at_the_end_is_read :
    (load [109, 7, 203]).step.after.fetch.result =
        .ok ⟨.input, [7], 2, 203, [.relative], [2, 3]⟩ ∧
      (load [109, 7, 203]).step.after.input.pending = [] ∧
      (perform ⟨.input, [7], 2, 203, [.relative], [2, 3]⟩ (load [109, 7, 203]).step.after).result =
        .error (.inputRequired 2) ∧
      (perform ⟨.input, [7], 2, 203, [.relative], [2, 3]⟩
        (load [109, 7, 203]).step.after).after.memory = ⟨#[109, 7, 203, 0], 4, 0⟩ := by
  have hfetch : (load [109, 7, 203]).step.after.fetch.result =
      .ok ⟨.input, [7], 2, 203, [.relative], [2, 3]⟩ := by decide +kernel
  have hpending : (load [109, 7, 203]).step.after.input.pending = [] := by decide +kernel
  obtain ⟨-, hresult, hafter, -, -⟩ := unfed_input_is_read_and_refused hfetch rfl hpending
  have hmemory := congrArg Machine.memory hafter
  exact ⟨hfetch, hpending, hresult, hmemory.trans (by decide +kernel)⟩

/-- **A refusal for want of input leaves a trace.** The program is one input word; refused,
it has been read, and so has the cell behind it, which was not there before. -/
theorem a_refused_input_leaves_a_trace :
    (load [3]).fetch.result = .ok ⟨.input, [0], 0, 3, [.position], [0, 1]⟩ ∧
      (load [3]).input.pending = [] ∧
      (perform ⟨.input, [0], 0, 3, [.position], [0, 1]⟩ (load [3])).result =
        .error (.inputRequired 0) ∧
      (load [3]).memory = ⟨#[3], 0, 0⟩ ∧
      (perform ⟨.input, [0], 0, 3, [.position], [0, 1]⟩ (load [3])).after.memory =
        ⟨#[3, 0], 2, 0⟩ := by
  decide +kernel

end Machine

end IntMachine
