import IntMachine.Forest.Query
import Mathlib.Data.Fintype.Card
import Mathlib.Logic.Relation
/-!
# Parent links

What the parent links of a forest say by themselves, without the depths its
nodes remember: how many links lead from a node to a root (`LinksUp`), which
nodes are above which (`Above`), and the walk that finds them (`walk?`). In a
forest whose links stay inside it, a walk of as many links as there are nodes
finds every root there is (`walk?_size_isSome_iff`).
-/

namespace IntMachine.Forest

variable {f g : Forest} {a k p m n fuel : Nat} {as : List Nat}

/-- So many parent links lead from a node to a root. -/
inductive LinksUp (f : Forest) : Nat → Nat → Prop
  | root {k : Nat} : f.parent? k = none → LinksUp f k 0
  | link {k p n : Nat} : f.parent? k = some p → LinksUp f p n → LinksUp f k (n + 1)

/-- Node `a` is above node `k`: parent links, one or more, lead from `k` to
`a`. -/
def Above (f : Forest) (a k : Nat) : Prop :=
  Relation.TransGen (fun x y => f.parent? x = some y) k a

/-- Every parent is a node of the forest. -/
def Linked (f : Forest) : Prop := ∀ k p, f.parent? k = some p → p < f.size

/-- The nodes above node `k`, the nearest first, if no more than `fuel` links
lead to a root. -/
def walk? (f : Forest) : (fuel k : Nat) → Option (List Nat)
  | fuel, k =>
    match f.parent? k with
    | none => some []
    | some p =>
      match fuel with
      | 0 => none
      | fuel + 1 => (walk? f fuel p).map (p :: ·)

/-! ## Counting links -/

/-- **A node has one distance to its root.** -/
theorem LinksUp.unique (h : f.LinksUp k m) (h' : f.LinksUp k n) : m = n := by
  induction h generalizing n with
  | root hroot =>
    cases h' with
    | root _ => rfl
    | link hlink _ => simp [hroot] at hlink
  | link hlink _ ih =>
    cases h' with
    | root hroot => simp [hroot] at hlink
    | link hlink' hup =>
      obtain rfl := Option.some.inj (hlink.symm.trans hlink')
      rw [ih hup]

/-- On the way to a root every smaller distance occurs. -/
theorem LinksUp.exists_of_le (hf : f.Linked) (hk : k < f.size) (h : f.LinksUp k n) (hm : m ≤ n) :
    ∃ x < f.size, f.LinksUp x m := by
  induction h with
  | root hroot =>
    obtain rfl : m = 0 := by omega
    exact ⟨_, hk, .root hroot⟩
  | @link k p n hlink hup ih =>
    rcases Nat.lt_or_ge n m with hlt | hge
    · obtain rfl : m = n + 1 := by omega
      exact ⟨k, hk, .link hlink hup⟩
    · exact ih (hf k p hlink) hge

/-- **Fewer links than nodes lead to a root.** The nodes on the way have
different distances, so they are different. -/
theorem LinksUp.lt_size (hf : f.Linked) (hk : k < f.size) (h : f.LinksUp k n) : n < f.size := by
  have hnodes : ∀ m : Fin (n + 1), ∃ x : Fin f.size, f.LinksUp x m := by
    intro m
    obtain ⟨x, hx, hup⟩ := h.exists_of_le hf hk (Nat.le_of_lt_succ m.isLt)
    exact ⟨⟨x, hx⟩, hup⟩
  choose node hnode using hnodes
  have hinjective : Function.Injective node := by
    intro i j hij
    have hj := hnode j
    rw [← hij] at hj
    exact Fin.ext ((hnode i).unique hj)
  have hcard := Fintype.card_le_of_injective node hinjective
  simp only [Fintype.card_fin] at hcard
  omega

/-! ## Above and below -/

theorem not_above_of_root (h : f.parent? k = none) : ¬ f.Above a k := by
  intro ha
  obtain ⟨p, hp, -⟩ := Relation.TransGen.head'_iff.1 ha
  simp [h] at hp

/-- A node with another above it is in the forest. -/
theorem Above.lt_size (h : f.Above a k) : k < f.size := by
  obtain ⟨p, hp, -⟩ := Relation.TransGen.head'_iff.1 h
  rw [parent?, Option.bind_eq_some_iff] at hp
  obtain ⟨n, hn, -⟩ := hp
  exact (Array.getElem?_eq_some_iff.1 hn).1

/-- Above a node are its parent and what is above its parent. -/
theorem above_iff_of_link (h : f.parent? k = some p) : f.Above a k ↔ a = p ∨ f.Above a p := by
  rw [Above, Relation.TransGen.head'_iff]
  constructor
  · rintro ⟨q, hq, hqa⟩
    obtain rfl := Option.some.inj (h.symm.trans hq)
    exact Relation.reflTransGen_iff_eq_or_transGen.1 hqa
  · intro ha
    exact ⟨p, h, Relation.reflTransGen_iff_eq_or_transGen.2 ha⟩

/-- A node above another is nearer to the root. -/
theorem LinksUp.exists_of_above (h : f.LinksUp k n) (ha : f.Above a k) :
    ∃ m < n, f.LinksUp a m := by
  induction h with
  | root hroot => exact absurd ha (not_above_of_root hroot)
  | @link k p n hlink hup ih =>
    rcases (above_iff_of_link hlink).1 ha with rfl | ha
    · exact ⟨n, Nat.lt_succ_self n, hup⟩
    · obtain ⟨m, hm, hup⟩ := ih ha
      exact ⟨m, by omega, hup⟩

/-- A node from which links lead to a root is not above itself. -/
theorem LinksUp.not_above_self (h : f.LinksUp k n) : ¬ f.Above k k := by
  intro ha
  obtain ⟨m, hm, hup⟩ := h.exists_of_above ha
  have hsame := h.unique hup
  omega

/-! ## Walking up -/

theorem walk?_of_root (h : f.parent? k = none) : f.walk? fuel k = some [] := by
  unfold walk?
  rw [h]

theorem walk?_of_link (h : f.parent? k = some p) :
    f.walk? (fuel + 1) k = (f.walk? fuel p).map (p :: ·) := by
  rw [walk?, h]

/-- A walk of enough links comes to the root. -/
theorem LinksUp.walk? (h : f.LinksUp k n) (hfuel : n ≤ fuel) : (f.walk? fuel k).isSome := by
  induction h generalizing fuel with
  | root hroot => rw [walk?_of_root hroot]; rfl
  | @link k p n hlink _ ih =>
    obtain ⟨fuel, rfl⟩ := Nat.exists_eq_add_one_of_ne_zero (by omega : fuel ≠ 0)
    rw [walk?_of_link hlink, Option.isSome_map]
    exact ih (by omega)

/-- **What a walk finds**: the nodes above, as many as links lead to the root,
each once. -/
theorem walk?_spec (h : f.walk? fuel k = some as) :
    f.LinksUp k as.length ∧ (∀ a, a ∈ as ↔ f.Above a k) ∧ as.Nodup := by
  induction fuel generalizing k as with
  | zero =>
    cases hk : f.parent? k with
    | none =>
      obtain rfl : [] = as := by simpa [walk?, hk] using h
      exact ⟨.root hk, fun a => by simp [not_above_of_root hk], List.nodup_nil⟩
    | some p => simp [Forest.walk?, hk] at h
  | succ fuel ih =>
    cases hk : f.parent? k with
    | none =>
      obtain rfl : [] = as := by simpa [walk?_of_root hk] using h
      exact ⟨.root hk, fun a => by simp [not_above_of_root hk], List.nodup_nil⟩
    | some p =>
      rw [walk?_of_link hk] at h
      obtain ⟨rest, hrest, rfl⟩ := Option.map_eq_some_iff.1 h
      obtain ⟨hup, hmem, hnodup⟩ := ih hrest
      refine ⟨.link hk hup, fun a => ?_, List.nodup_cons.2 ⟨?_, hnodup⟩⟩
      · rw [List.mem_cons, hmem, above_iff_of_link hk]
      · rw [hmem]
        exact hup.not_above_self

/-- The walk of the queries, which does not say whether it came to a root, finds
the same nodes. -/
theorem above_of_walk? (h : f.walk? fuel k = some as) : f.above fuel k = as := by
  induction fuel generalizing k as with
  | zero =>
    cases hk : f.parent? k with
    | none => simpa [walk?_of_root hk, above] using h
    | some p => simp [Forest.walk?, hk] at h
  | succ fuel ih =>
    cases hk : f.parent? k with
    | none => simpa [walk?_of_root hk, above, hk] using h
    | some p =>
      rw [walk?_of_link hk] at h
      obtain ⟨rest, hrest, rfl⟩ := Option.map_eq_some_iff.1 h
      rw [above, hk]
      exact congrArg (p :: ·) (ih hrest)

/-- **A walk of as many links as there are nodes finds every root there is.** -/
theorem walk?_size_isSome_iff (hf : f.Linked) (hk : k < f.size) :
    (f.walk? f.size k).isSome ↔ ∃ n, f.LinksUp k n := by
  constructor
  · intro h
    obtain ⟨as, has⟩ := Option.isSome_iff_exists.1 h
    exact ⟨as.length, (walk?_spec has).1⟩
  · rintro ⟨n, hup⟩
    exact hup.walk? (Nat.le_of_lt (hup.lt_size hf hk))

end IntMachine.Forest
