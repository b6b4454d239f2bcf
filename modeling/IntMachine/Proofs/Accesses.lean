import IntMachine.Memory.Listing
import Mathlib.Algebra.Order.Group.Nat
/-!
# Accesses to a memory

All that can be asked of a memory, in any order, also after refusals, and with copies of it
going on beside it. What was asked of a memory is its past, and the past tells all about the
memory (`Agrees`): a cell holds the value last written at it, or else the one it held at
first, or else zero, and the memory is as long as the greatest address read or written
makes it (`reach`). So a memory is a map from addresses to integers that is zero at first
outside some cells, and how it is stored and grows shows in its size only.
-/

namespace IntMachine.Memory

variable {m : Memory} {cells as bs : List Int}

/-! ## The size that addresses ask for -/

/-- One more than the greatest of some addresses. Negative ones do not count. -/
def reach (as : List Int) : Nat := (as.map fun a => (a + 1).toNat).foldr max 0

@[simp] theorem reach_nil : reach [] = 0 := rfl

@[simp] theorem reach_cons (a : Int) (as : List Int) :
    reach (a :: as) = max (a + 1).toNat (reach as) := rfl

@[simp] theorem reach_append (as bs : List Int) : reach (as ++ bs) = max (reach as) (reach bs) := by
  induction as with
  | nil => simp
  | cons a as ih => rw [List.cons_append, reach_cons, ih, reach_cons, max_assoc]

/-! ## One access -/

/-- What can be asked of a memory. -/
inductive Access where
  | read (address : Int)
  | write (address value : Int)
  | peek (address : Int)
  | toList
  | window (start : Int) (count : Option Int)
  | listing (width : Int)
  | copy
  deriving DecidableEq, Repr

/-- What an access that was not refused gives back. -/
inductive Reply where
  | written
  | value (v : Int)
  | values (vs : List Int)
  | cells (cells : List (Nat × Int))
  | text (text : String)
  | memory (m : Memory)
  deriving DecidableEq, Repr

/-- Why an access was refused. -/
inductive Refusal where
  | address (error : InvalidAddress)
  | listing (error : ListingError)
  deriving DecidableEq, Repr

namespace Access

/-- Makes an access: what it gives back, and the memory that it leaves. -/
def perform : Access → Memory → Except Refusal Reply × Memory
  | .read a, m =>
    match m.read a with
    | .error e => (.error (.address e), m)
    | .ok (v, after) => (.ok (.value v), after)
  | .write a v, m =>
    match m.write a v with
    | .error e => (.error (.address e), m)
    | .ok after => (.ok .written, after)
  | .peek a, m => (((m.peek a).map .value).mapError .address, m)
  | .toList, m => (.ok (.values m.toList), m)
  | .window start count, m => (.ok (.cells (m.window start count)), m)
  | .listing width, m => (((m.listing width).map .text).mapError .listing, m)
  | .copy, m => (.ok (.memory m), m)

/-- The address up to which the memory is to grow. -/
def reached? : Access → Option Int
  | .read a | .write a _ => some a
  | _ => none

/-- The value that is to be stored at an address. -/
def stored? (a : Nat) : Access → Option Int
  | .write b v => if b = a then some v else none
  | _ => none

def isRead : Access → Bool
  | .read _ => true
  | _ => false

def isWrite : Access → Bool
  | .write _ _ => true
  | _ => false

/-- Whether an access is there to look at the memory as it is. -/
def isLook : Access → Bool
  | .read _ | .write _ _ => false
  | _ => true

end Access

theorem peek_of_nonneg {a : Int} (h : 0 ≤ a) : m.peek a = .ok (m.cell a.toNat) := by
  rw [peek, index_of_nonneg h]
  rfl

/-- **A negative address is refused.** -/
theorem perform_of_neg {a : Int} (h : a < 0) (access : Access) (v : Int)
    (haccess : access ∈ [.read a, .write a v, .peek a]) :
    access.perform m = (.error (.address ⟨a⟩), m) := by
  simp only [List.mem_cons, List.not_mem_nil, or_false] at haccess
  rcases haccess with rfl | rfl | rfl
  · rw [Access.perform, read, index_of_neg h]
  · rw [Access.perform, write, index_of_neg h]
  · rw [Access.perform, peek, index_of_neg h]
    rfl

theorem perform_read {a : Int} (h : 0 ≤ a) :
    (Access.read a).perform m = (.ok (.value (m.cell a.toNat)), m.visit a.toNat) := by
  rw [Access.perform, read, index_of_nonneg h]

theorem perform_write {a : Int} (h : 0 ≤ a) (v : Int) :
    (Access.write a v).perform m = (.ok .written, m.put a.toNat v) := by
  rw [Access.perform, write, index_of_nonneg h]

theorem perform_of_isLook {access : Access} (h : access.isLook = true) :
    (access.perform m).2 = m := by
  cases access with
  | read | write => cases h
  | peek | toList | window | listing | copy => rfl

/-! ## What the past tells -/

/-- An access that was made, with the memory before and after it. -/
structure Accessed where
  access : Access
  before : Memory
  reply : Except Refusal Reply
  after : Memory

/-- What an access to a memory comes to. -/
def Accessed.of (access : Access) (m : Memory) : Accessed where
  access
  before := m
  reply := (access.perform m).1
  after := (access.perform m).2

/-- The value at an address of a memory with this past, which held these cells at first: the
last one written there, or else the first one. -/
def valueAt (cells : List Int) (past : List Accessed) (a : Nat) : Int :=
  (past.filterMap fun x => x.access.stored? a).getLast?.getD (cells[a]?.getD 0)

/-- **What the past of a memory tells about it**: every value, its size, and how many reads
and writes have succeeded. -/
structure Agrees (cells : List Int) (past : List Accessed) (m : Memory) : Prop where
  cell : ∀ a, m.cell a = valueAt cells past a
  size : m.size = max cells.length (reach (past.filterMap fun x => x.access.reached?))
  reads : m.reads = past.countP fun x => x.access.isRead && x.reply.isOk
  writes : m.writes = past.countP fun x => x.access.isWrite && x.reply.isOk

variable {past : List Accessed} {access : Access}

theorem agrees_ofList (cells : List Int) : Agrees cells [] (ofList cells) where
  cell a := cell_ofList cells a
  size := by simp
  reads := rfl
  writes := rfl

theorem valueAt_concat (cells : List Int) (past : List Accessed) (x : Accessed) (a : Nat) :
    valueAt cells (past ++ [x]) a = (x.access.stored? a).getD (valueAt cells past a) := by
  rw [valueAt, List.filterMap_append]
  cases h : x.access.stored? a with
  | none => simp [h, valueAt]
  | some v => simp [h]

/-- One more access is told of by what it stores, by how far it reaches, and by its success. -/
theorem Agrees.concat (h : Agrees cells past m) {x : Accessed} {after : Memory}
    (hcell : ∀ a, after.cell a = (x.access.stored? a).getD (m.cell a))
    (hsize : after.size = max m.size (reach x.access.reached?.toList))
    (hreads : after.reads = m.reads + if x.access.isRead && x.reply.isOk then 1 else 0)
    (hwrites : after.writes = m.writes + if x.access.isWrite && x.reply.isOk then 1 else 0) :
    Agrees cells (past ++ [x]) after where
  cell a := by rw [hcell, valueAt_concat, h.cell]
  size := by
    have hlast : [x].filterMap (fun x => x.access.reached?) = x.access.reached?.toList := by
      cases hr : x.access.reached? <;> simp [hr]
    rw [hsize, h.size, List.filterMap_append, hlast, reach_append, max_assoc]
  reads := by rw [hreads, h.reads, List.countP_append, List.countP_singleton]
  writes := by rw [hwrites, h.writes, List.countP_append, List.countP_singleton]

/-- **Every access leaves a memory that agrees with its past.** -/
theorem Agrees.perform (h : Agrees cells past m) (access : Access) :
    Agrees cells (past ++ [.of access m]) (access.perform m).2 := by
  cases access with
  | read a =>
    rcases Int.lt_or_le a 0 with ha | ha
    · have hreach : (a + 1).toNat = 0 := by omega
      rw [Accessed.of, perform_of_neg ha (.read a) 0 (by simp)]
      exact h.concat (fun _ => rfl) (by simp [Access.reached?, hreach]) rfl rfl
    · have hreach : (a + 1).toNat = a.toNat + 1 := by omega
      rw [Accessed.of, perform_read ha]
      exact h.concat (by simp [Access.stored?]) (by simp [Access.reached?, hreach]) rfl rfl
  | write a v =>
    rcases Int.lt_or_le a 0 with ha | ha
    · have hreach : (a + 1).toNat = 0 := by omega
      have hstored : ∀ b, (Access.write a v).stored? b = none := fun b => if_neg (by omega)
      rw [Accessed.of, perform_of_neg ha (.write a v) v (by simp)]
      exact h.concat (fun b => by rw [hstored, Option.getD_none])
        (by simp [Access.reached?, hreach]) rfl rfl
    · have hreach : (a + 1).toNat = a.toNat + 1 := by omega
      have hstored : ∀ b : Nat,
          (Access.write a v).stored? b = if b = a.toNat then some v else none :=
        fun b => if_congr (by omega) rfl rfl
      rw [Accessed.of, perform_write ha]
      refine h.concat (fun b => ?_) (by simp [Access.reached?, hreach]) rfl rfl
      rw [hstored, cell_put]
      split <;> rfl
  | peek a | toList | window start count | listing width | copy =>
    rw [perform_of_isLook rfl]
    exact h.concat (fun _ => rfl) (by simp [Accessed.of, Access.reached?]) rfl rfl

/-- **An access that did what its past asks for.** Here `past` is what was asked before it. -/
structure Accessed.Right (cells : List Int) (past : List Accessed) (x : Accessed) : Prop where
  before : Agrees cells past x.before
  performed : x.access.perform x.before = (x.reply, x.after)
  value : ∀ a, 0 ≤ a → x.access = .read a ∨ x.access = .peek a →
    x.reply = .ok (.value (valueAt cells past a.toNat))
  written : ∀ a v, 0 ≤ a → x.access = .write a v → x.reply = .ok .written
  refused : ∀ a v, a < 0 → x.access ∈ [.read a, .write a v, .peek a] →
    x.reply = .error (.address ⟨a⟩) ∧ x.after = x.before
  listed : x.access = .toList → ∃ vs, x.reply = .ok (.values vs) ∧ vs.length = x.before.size ∧
    ∀ (a : Nat) v, vs[a]? = some v → x.before.peek a = .ok v
  copied : x.access = .copy → x.reply = .ok (.memory x.before)
  kept : x.access.isLook = true → x.after = x.before
  grown : x.before.size ≤ x.after.size

/-- The cells listed are those that are peeked at. -/
theorem peek_of_getElem?_toList {a : Nat} {v : Int} (h : m.toList[a]? = some v) :
    m.peek a = .ok v := by
  have hcell : m.cells[a]? = some v := by simpa [toList] using h
  rw [peek_of_nonneg (Int.natCast_nonneg a), Int.toNat_natCast, cell, hcell, Option.getD_some]

theorem size_le_perform (m : Memory) (access : Access) : m.size ≤ (access.perform m).2.size := by
  cases access with
  | read a =>
    rcases Int.lt_or_le a 0 with ha | ha
    · rw [perform_of_neg ha (.read a) 0 (by simp)]
    · rw [perform_read ha, size_visit]
      omega
  | write a v =>
    rcases Int.lt_or_le a 0 with ha | ha
    · rw [perform_of_neg ha (.write a v) v (by simp)]
    · rw [perform_write ha, size_put]
      omega
  | peek a | toList | window start count | listing width | copy => rw [perform_of_isLook rfl]

/-- **Every access does what the past asks for**, and all that it does shows in what the past
tells afterwards. -/
theorem Agrees.right (h : Agrees cells past m) (access : Access) :
    (Accessed.of access m).Right cells past where
  before := h
  performed := rfl
  value := by
    rintro a ha (rfl | rfl)
    · simp only [Accessed.of, perform_read ha, h.cell]
    · simp only [Accessed.of, Access.perform, peek_of_nonneg ha, h.cell]
      rfl
  written := by
    rintro a v ha rfl
    simp only [Accessed.of, perform_write ha]
  refused := fun a v ha haccess => by
    have hrefused := perform_of_neg (m := m) ha access v haccess
    exact ⟨congrArg Prod.fst hrefused, congrArg Prod.snd hrefused⟩
  listed := by
    rintro rfl
    exact ⟨m.toList, rfl, Array.length_toList, fun a v => peek_of_getElem?_toList⟩
  copied := by
    rintro rfl
    rfl
  kept := perform_of_isLook
  grown := size_le_perform m access

/-! ## A memory and its copies -/

/-- A memory with its past. A copy has the past of what it was copied from. -/
structure Traced where
  memory : Memory
  past : List Accessed

def Traced.ofList (cells : List Int) : Traced := ⟨.ofList cells, []⟩

def Traced.make (t : Traced) (access : Access) : Traced where
  memory := (access.perform t.memory).2
  past := t.past ++ [.of access t.memory]

/-- The memory that is given back by a copy. -/
def copied? : Except Refusal Reply → Option Memory
  | .ok (.memory m) => some m
  | _ => none

/-- Makes an access to one of several memories. A copy joins them as the last. -/
def make (ts : List Traced) (k : Nat) (access : Access) : List Traced :=
  match ts[k]? with
  | none => ts
  | some t =>
    ts.set k (t.make access) ++
      ((copied? (access.perform t.memory).1).map fun m => { t.make access with memory := m }).toList

/-- Accesses to a memory and its copies, each to the one with the given number. -/
def makeAll (cells : List Int) (accesses : List (Nat × Access)) : List Traced :=
  accesses.foldl (fun ts (k, access) => make ts k access) [.ofList cells]

/-- Only a copy gives back a memory, the one that is there. -/
theorem eq_copy_of_copied? {c : Memory} (h : copied? (access.perform m).1 = some c) :
    access = .copy ∧ c = m := by
  cases access with
  | read a =>
    simp only [Access.perform] at h
    split at h <;> cases h
  | write a v =>
    simp only [Access.perform] at h
    split at h <;> cases h
  | peek a =>
    simp only [Access.perform] at h
    cases hp : m.peek a <;> simp [hp, Except.map, Except.mapError, copied?] at h
  | listing width =>
    simp only [Access.perform] at h
    cases hl : m.listing width <;> simp [hl, Except.map, Except.mapError, copied?] at h
  | toList | window start count => cases h
  | copy => exact ⟨rfl, (Option.some.inj h).symm⟩

section Preserves

variable {P : Traced → Prop} (hmake : ∀ t access, P t → P (t.make access))
include hmake

/-- What accesses keep, one access to one of several memories keeps of all. -/
theorem make_preserves {ts : List Traced} (k : Nat) (access : Access) (hts : ∀ t ∈ ts, P t) :
    ∀ t ∈ make ts k access, P t := by
  rw [make]
  cases hk : ts[k]? with
  | none => exact hts
  | some t =>
    have hnext : P (t.make access) := hmake t access (hts t (List.mem_of_getElem? hk))
    intro s hs
    rcases List.mem_append.1 hs with hs | hs
    · rcases List.mem_or_eq_of_mem_set hs with hs | rfl
      · exact hts s hs
      · exact hnext
    · -- a copy has joined them, and it is as the memory is that was copied
      obtain ⟨c, hc, rfl⟩ := Option.map_eq_some_iff.1 (Option.mem_toList.1 hs)
      obtain ⟨rfl, rfl⟩ := eq_copy_of_copied? hc
      exact hnext

/-- **What accesses keep holds of a memory and of all its copies.** -/
theorem makeAll_preserves (hstart : P (.ofList cells)) (accesses : List (Nat × Access)) :
    ∀ t ∈ makeAll cells accesses, P t := by
  have hall : ∀ ts : List Traced, (∀ t ∈ ts, P t) →
      ∀ t ∈ accesses.foldl (fun ts (k, access) => make ts k access) ts, P t := by
    induction accesses with
    | nil => exact fun ts hts => hts
    | cons first others ih => exact fun ts hts => ih _ (make_preserves hmake _ _ hts)
  exact hall _ (by simpa using hstart)

end Preserves

/-- What is asked of the memory with a number goes behind its past, and nothing else does. -/
theorem getElem?_make (ts : List Traced) (k : Nat) (access : Access) {j : Nat} {t : Traced}
    (hj : ts[j]? = some t) :
    (make ts k access)[j]? = some (if k = j then t.make access else t) := by
  have hlt : j < ts.length := (List.getElem?_eq_some_iff.1 hj).1
  rw [make]
  split
  · rename_i hk
    have hne : k ≠ j := by
      rintro rfl
      rw [hj] at hk
      cases hk
    rw [if_neg hne, hj]
  · rename_i s hk
    rw [List.getElem?_append_left (by simpa using hlt), List.getElem?_set]
    by_cases hkj : k = j
    · subst hkj
      obtain rfl : t = s := by simpa [hj] using hk
      simp [hlt]
    · simp [hkj, hj]

/-- **The past of the first memory is all that was asked of it**, in order. -/
theorem past_of_makeAll (cells : List Int) (accesses : List (Nat × Access)) :
    ∃ t, (makeAll cells accesses)[0]? = some t ∧
      t.past.map (·.access) = (accesses.filter fun x => x.1 = 0).map (·.2) := by
  have hall : ∀ (ts : List Traced) (t : Traced), ts[0]? = some t →
      ∃ s, (accesses.foldl (fun ts (k, access) => make ts k access) ts)[0]? = some s ∧
        s.past.map (·.access) =
          t.past.map (·.access) ++ (accesses.filter fun x => x.1 = 0).map (·.2) := by
    induction accesses with
    | nil => exact fun ts t ht => ⟨t, ht, by simp⟩
    | cons first others ih =>
      obtain ⟨k, access⟩ := first
      intro ts t ht
      obtain ⟨s, hs, hpast⟩ := ih _ _ (getElem?_make ts k access ht)
      refine ⟨s, hs, ?_⟩
      rw [hpast]
      by_cases hk : k = 0 <;> simp [hk, Traced.make, Accessed.of]
  obtain ⟨s, hs, hpast⟩ := hall [.ofList cells] (.ofList cells) rfl
  exact ⟨s, hs, by simpa [Traced.ofList] using hpast⟩

/-- **A memory is a map that is zero at first outside some cells, and as long as it was
reached.** Whatever is asked of a memory and of its copies, in any order and also after
refusals, each of them agrees with its past: every cell holds the value last written there,
or else the one it held at first, or zero; the size is what the greatest address read or
written asks for, and no less than at first; and the reads and writes that succeeded are
counted. Every access does what the past before it asks for: a read or a peek gives the
value, a negative address is refused and changes nothing, the list of all cells is what
peeking shows, and looking and copying change nothing. -/
theorem memory_agrees_with_its_past (cells : List Int) (accesses : List (Nat × Access)) :
    (∃ t, (makeAll cells accesses)[0]? = some t ∧
      t.past.map (·.access) = (accesses.filter fun x => x.1 = 0).map (·.2)) ∧
    ∀ t ∈ makeAll cells accesses, Agrees cells t.past t.memory ∧
      ∀ (k : Nat) (x : Accessed), t.past[k]? = some x → x.Right cells (t.past.take k) := by
  refine ⟨past_of_makeAll cells accesses, makeAll_preserves (fun t access ht => ?_)
    ⟨agrees_ofList cells, fun k x hx => by simp [Traced.ofList] at hx⟩ accesses⟩
  obtain ⟨hagrees, hpast⟩ := ht
  refine ⟨hagrees.perform access, fun k x hx => ?_⟩
  rcases Nat.lt_trichotomy k t.past.length with hk | hk | hk
  · rw [Traced.make, List.getElem?_append_left hk] at hx
    rw [Traced.make, List.take_append_of_le_length (by omega)]
    exact hpast k x hx
  · subst hk
    obtain rfl : Accessed.of access t.memory = x := by simpa [Traced.make] using hx
    simpa [Traced.make] using hagrees.right access
  · have hnone : (t.make access).past[k]? = none :=
      List.getElem?_eq_none (by simp [Traced.make]; omega)
    simp [hnone] at hx

/-- A memory of two cells is written behind its end, copied, and read where the copy is
written; a negative address is refused, and a peek far away changes nothing. -/
theorem a_copy_goes_its_own_way :
    ∃ t ∈ makeAll [5, 6] [(0, .write 4 7), (0, .copy), (1, .write 1 9), (0, .read 1),
        (0, .read (-1)), (0, .peek 9), (1, .read 1)],
      t.memory.cell 1 = 6 ∧ t.memory.size = 5 ∧ t.memory.reads = 1 ∧
      ∃ x, t.past[2]? = some x ∧ x.access = .read 1 ∧ x.reply = .ok (.value 6) := by
  have hseen : (makeAll [5, 6] [(0, .write 4 7), (0, .copy), (1, .write 1 9), (0, .read 1),
        (0, .read (-1)), (0, .peek 9), (1, .read 1)])[0]?.map (fun t =>
      (valueAt [5, 6] t.past 1, reach (t.past.filterMap fun x => x.access.reached?),
        t.past.countP fun x => x.access.isRead && x.reply.isOk,
        t.past[2]?.map (fun x => x.access), valueAt [5, 6] (t.past.take 2) 1)) =
        some (6, 5, 1, some (.read 1), 6) := by
    decide +kernel
  obtain ⟨t, ht, htold⟩ := Option.map_eq_some_iff.1 hseen
  simp only [Prod.mk.injEq] at htold
  obtain ⟨hcell, hsize, hreads, hread, hvalue⟩ := htold
  obtain ⟨x, hx, haccess⟩ := Option.map_eq_some_iff.1 hread
  have hmem := List.mem_of_getElem? ht
  obtain ⟨hagrees, hpast⟩ := (memory_agrees_with_its_past _ _).2 t hmem
  refine ⟨t, hmem, by rw [hagrees.cell, hcell], by rw [hagrees.size, hsize]; rfl,
    by rw [hagrees.reads, hreads], x, hx, haccess, ?_⟩
  have hreply := (hpast 2 x hx).value 1 (by decide) (.inl haccess)
  rwa [Int.toNat_one, hvalue] at hreply

end IntMachine.Memory
