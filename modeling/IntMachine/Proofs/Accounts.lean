import IntMachine.Proofs.Delivery
import IntMachine.Proofs.Footprint
/-!
# Accounts of memory use

The size of a memory and its two counters tell which instructions were executed: each makes
the memory reach the addresses it reads and writes, counts its reads, and counts one write if
it stores. `Accounts` says this of any list of instructions, and it is shown one level after
the other, for an effect, a trail, an operation and a session. Nothing else leaves a trace:
an instruction that is only looked at, that has to wait or that does not decode does not
touch the memory.
-/

namespace IntMachine

/-- Every address that an instruction accesses: those it reads, and the one it stores at. -/
def Instruction.accessed (i : Instruction) : List Int :=
  i.reads ++ if i.opcode.stores then i.target?.toList else []

/-- **Accounts.** The size and the counters of a memory have become those of the other one by
executing these instructions. -/
structure Accounts (is : List Instruction) (m m' : Memory) : Prop where
  size : m'.size = max m.size (Memory.reach (is.flatMap Instruction.accessed))
  reads : m'.reads = m.reads + (is.map fun i => i.reads.length).sum
  writes : m'.writes = m.writes + is.countP fun i => i.opcode.stores

section Accounts

variable {is js : List Instruction} {m m' m'' : Memory}

theorem Accounts.refl (m : Memory) : Accounts [] m m := ⟨by simp, by simp, by simp⟩

theorem Accounts.trans (h : Accounts is m m') (h' : Accounts js m' m'') :
    Accounts (is ++ js) m m'' where
  size := by rw [h'.size, h.size, List.flatMap_append, Memory.reach_append, max_assoc]
  reads := by rw [h'.reads, h.reads, List.map_append, List.sum_append, Nat.add_assoc]
  writes := by rw [h'.writes, h.writes, List.countP_append, Nat.add_assoc]

end Accounts

namespace Memory

variable {as : List Int}

/-- Reads make a memory reach what is read. -/
theorem size_touch (m : Memory) (h : ∀ a ∈ as, 0 ≤ a) :
    (m.touch as).2.size = max m.size (reach as) := by
  induction as generalizing m with
  | nil => simp [touch]
  | cons a as ih =>
    have ha : 0 ≤ a := h a List.mem_cons_self
    have hreach : (a + 1).toNat = a.toNat + 1 := by omega
    rw [touch, index_of_nonneg ha]
    dsimp only
    rw [ih (m.visit a.toNat) fun b hb => h b (List.mem_cons_of_mem _ hb), size_visit, reach_cons,
      hreach, max_assoc]

/-- Reads are counted one by one. -/
theorem reads_touch (m : Memory) (h : ∀ a ∈ as, 0 ≤ a) :
    (m.touch as).2.reads = m.reads + as.length := by
  induction as generalizing m with
  | nil => rfl
  | cons a as ih =>
    rw [touch, index_of_nonneg (h a List.mem_cons_self)]
    dsimp only
    rw [ih (m.visit a.toNat) fun b hb => h b (List.mem_cons_of_mem _ hb), reads_visit,
      List.length_cons]
    omega

@[simp] theorem writes_touch (m : Memory) (as : List Int) : (m.touch as).2.writes = m.writes := by
  induction as generalizing m with
  | nil => rfl
  | cons a as ih =>
    rw [touch]
    cases index a with
    | error e => rfl
    | ok n => exact ih (m.visit n)

end Memory

namespace Machine

variable {fuel : Nat} {m m' c last : Machine} {i : Instruction} {is : List Instruction}
variable {ops : List Operation} {log : List Handling} {x : Handling}

/-! ## What is executed -/

/-- **One instruction** accounts for its reads, and for one write if it stores. -/
theorem accounts_of_effect {next : Int} (hreads : ∀ a ∈ i.reads, 0 ≤ a)
    (h : Effect i (m.entering i) next m') : Accounts [i] m.memory m'.memory := by
  have hread : (m.entering i).memory = (m.memory.touch i.reads).2 := rfl
  rcases h.memory_cases with ⟨hstores, hmemory⟩ | ⟨hstores, t, v, ht, hmemory⟩
  · rw [hmemory, hread]
    exact ⟨by simp [Memory.size_touch _ hreads, Instruction.accessed, hstores],
      by simp [Memory.reads_touch _ hreads], by simp [hstores]⟩
  · have hreach : ((t : Int) + 1).toNat = t + 1 := by omega
    rw [hmemory, hread]
    exact ⟨by
        simp [Memory.size_touch _ hreads, Instruction.accessed, hstores, ht, hreach, max_assoc],
      by simp [Memory.reads_touch _ hreads], by simp [hstores]⟩

theorem accounts_of_executed (h : m.advance.result = .ok (some i)) :
    Accounts [i] m.memory m.advance.after.memory := by
  obtain ⟨next, m', hdecode, -, heffect, hadvance⟩ := effect_of_executed h
  have haccounts := accounts_of_effect (wellFormed_of_decodeAt hdecode).reads heffect
  rw [hadvance]
  exact haccounts

/-- **A trail** accounts for its instructions. -/
theorem Trail.accounts (h : Trail m is c) : Accounts is m.memory c.memory := by
  induction h with
  | nil m => exact .refl m.memory
  | cons hstep _ ih =>
    obtain ⟨hactive, hadvance⟩ := step_eq_ok_iff.1 hstep
    rw [step_after_of_active hactive] at ih
    exact (accounts_of_executed hadvance).trans ih

theorem Follows.accounts (h : m.Follows is c) : Accounts is m.memory c.memory := by
  obtain ⟨m', htrail, -, hc⟩ := h
  rw [hc]
  exact htrail.accounts

/-- Where nothing is executed, the memory is left as it is. -/
theorem Follows.memory_of_nil (h : m.Follows [] c) : c.memory = m.memory := by
  obtain ⟨m', htrail, -, hc⟩ := h
  cases htrail
  rw [hc]

/-! ## What is done -/

/-- An operation that is no request and writes nothing leaves the memory alone and executes
nothing. -/
theorem Operation.perform_keeps_memory {op : Operation}
    {out : Outcome Machine OperationError Answer} (hask : ∀ r, op ≠ .ask r)
    (hwrite : op.isWrite = false) (h : op.perform fuel m = some out) :
    instructionsOf out.events = [] ∧ out.after.memory = m.memory ∧
      out.after.executed = m.executed := by
  refine ⟨(Operation.perform_of_ne_ask hask h).1, ?_⟩
  rcases op.kinds with ⟨r, rfl⟩ | rfl | hw | hstill
  · exact absurd rfl (hask r)
  · obtain ⟨out', hout', hafter⟩ := Operation.perform_fetch fuel m
    obtain rfl := Option.some.inj (hout'.symm.trans h)
    rw [hafter]
    exact ⟨rfl, rfl⟩
  · rw [hwrite] at hw
    cases hw
  · obtain ⟨out', input, output, hout', -, hafter⟩ := Operation.perform_of_still fuel m hstill
    obtain rfl := Option.some.inj (hout'.symm.trans h)
    rw [hafter]
    exact ⟨rfl, rfl⟩

/-- The instructions executed during an operation. -/
def Handling.executed (x : Handling) : List Instruction := instructionsOf x.outcome.events

/-- **An operation accounts for what was executed during it**, and leaves the memory as it is if
nothing was. -/
theorem Handling.Done.accounts (hx : x.Done fuel) (hwrite : x.operation.isWrite = false) :
    Accounts x.executed x.before.memory x.outcome.after.memory ∧
      x.outcome.after.executed = x.before.executed + x.executed.length ∧
      (x.executed = [] → x.outcome.after.memory = x.before.memory) := by
  by_cases hask : ∃ r, x.operation = .ask r
  · obtain ⟨r, hop⟩ := hask
    have hfollows := hx.follows hop
    refine ⟨hfollows.accounts, hfollows.executed, fun hnone => ?_⟩
    rw [Handling.executed] at hnone
    rw [hnone] at hfollows
    exact hfollows.memory_of_nil
  · obtain ⟨hsilent, hmemory, hcount⟩ :=
      Operation.perform_keeps_memory (not_exists.1 hask) hwrite hx
    rw [Handling.executed, hsilent, hmemory, hcount]
    exact ⟨.refl _, rfl, fun _ => rfl⟩

/-- **A session accounts for what was executed in it.** -/
theorem accounts_of_handle (hwrite : ∀ x ∈ log, x.operation.isWrite = false)
    (h : handle fuel ops m = some (log, last)) :
    Accounts (log.flatMap Handling.executed) m.memory last.memory ∧
      last.executed = m.executed + (log.flatMap Handling.executed).length := by
  refine handle_induction (P := fun c log => (∀ x ∈ log, x.operation.isWrite = false) →
      Accounts (log.flatMap Handling.executed) c.memory last.memory ∧
        last.executed = c.executed + (log.flatMap Handling.executed).length)
    (fun _ => ⟨.refl _, rfl⟩) (fun op c out log hout ih hwrite => ?_) h hwrite
  obtain ⟨haccounts, hcount, -⟩ := Handling.Done.accounts (x := ⟨op, c, out⟩) hout
    (hwrite _ List.mem_cons_self)
  obtain ⟨hrest, hlast⟩ := ih fun x hx => hwrite x (List.mem_cons_of_mem _ hx)
  rw [List.flatMap_cons]
  refine ⟨haccounts.trans hrest, ?_⟩
  rw [hlast, hcount, List.length_append, Nat.add_assoc]

/-- **Memory accounts for exactly what was executed.** Load a program and do with the machine
whatever does not write to its memory from outside, in any order and also after refusals. Then
the memory is as long as the program, or as the greatest address read or written by an
executed instruction asks for; its reads are those of the executed instructions, and its writes
are the executed instructions that store. The same holds of every operation by itself, and one
during which nothing was executed, be it that it only looked, had to wait or met an instruction
that does not decode, leaves the memory as it was. -/
theorem memory_accounts_for_the_executed {program : Program} {inputs : List Int}
    (hwrite : ∀ op ∈ ops, op.isWrite = false)
    (h : handle fuel ops (load program inputs) = some (log, last)) :
    last.executed = (log.flatMap Handling.executed).length ∧
    last.memory.size = max program.length
      (Memory.reach ((log.flatMap Handling.executed).flatMap Instruction.accessed)) ∧
    last.memory.reads = ((log.flatMap Handling.executed).map fun i => i.reads.length).sum ∧
    last.memory.writes = (log.flatMap Handling.executed).countP (fun i => i.opcode.stores) ∧
    ∀ x ∈ log, Accounts x.executed x.before.memory x.outcome.after.memory ∧
      (x.executed = [] → x.outcome.after.memory = x.before.memory) := by
  obtain ⟨hoperations, -, -⟩ :=
    handle_preserves (P := fun _ => True) (fun _ _ _ _ _ _ => trivial) trivial h
  have hall : ∀ x ∈ log, x.operation.isWrite = false := fun x hx =>
    hwrite x.operation (hoperations ▸ List.mem_map_of_mem hx)
  obtain ⟨⟨hsize, hreads, hwrites⟩, hcount⟩ := accounts_of_handle hall h
  refine ⟨by simpa [load] using hcount, by simpa [load] using hsize,
    by simpa [load, Memory.ofList] using hreads, by simpa [load, Memory.ofList] using hwrites,
    fun x hx => ?_⟩
  obtain ⟨haccounts, -, hidle⟩ := (done_of_handle h x hx).accounts (hall x hx)
  exact ⟨haccounts, hidle⟩

/-- An output behind the end of the memory makes it grow. A fetch, an input that has to wait, and
a word that does not decode behind it, which ends the last run, do not show. -/
theorem a_failed_session_accounts :
    ∃ log last,
      handle 9 [.fetch, .ask .step, .ask (.run .toInput none), .feed [5], .ask (.run .toHalt none)]
        (load [3, 20, 4, 30, 3, 5, 98] [1]) = some (log, last) ∧
      (log.flatMap Handling.executed).map (·.opcode) = [.input, .output, .input] ∧
      last.memory.size = 31 ∧ last.memory.reads = 7 ∧ last.memory.writes = 2 := by
  have hseen : (handle 9 [.fetch, .ask .step, .ask (.run .toInput none), .feed [5],
        .ask (.run .toHalt none)] (load [3, 20, 4, 30, 3, 5, 98] [1])).map
      (fun done => done.1.flatMap Handling.executed) =
        some [⟨.input, [20], 0, 3, [.position], [0, 1]⟩,
          ⟨.output, [0], 2, 4, [.position], [2, 3, 30]⟩,
          ⟨.input, [5], 4, 3, [.position], [4, 5]⟩] := by
    decide +kernel
  obtain ⟨⟨log, last⟩, hlog, hexecuted⟩ := Option.map_eq_some_iff.1 hseen
  obtain ⟨-, hsize, hreads, hwrites, -⟩ := memory_accounts_for_the_executed (by decide) hlog
  dsimp only at hexecuted
  rw [hexecuted] at hsize hreads hwrites
  exact ⟨log, last, hlog, by rw [hexecuted]; rfl, hsize.trans (by decide), hreads, hwrites⟩

end Machine

end IntMachine
