import IntMachine.Proofs.Kinship
import Mathlib.Data.Fintype.Pigeonhole
/-!
# Cycles

Links that never lead to a root run into a cycle (`exists_linksUp_iff`). Two loops
follow links, and neither is cut off before its end. The one that measures a depth is
guarded by the number of nodes, so it ends in every forest (`climbing_climb`); the one
that collects the nodes above a node is not, and ends exactly where there is a root above
(`exists_collecting_iff`), which the measuring before it has made sure of. So a cycle is
reported exactly where links never lead to a root (`cycles_are_found_exactly`).
-/

namespace IntMachine.Forest

variable {f : Forest} {name x : String} {xs : List String}
variable {a b k p m n fuel : Nat} {cur : Option Nat}
variable {as bs passed : List Nat} {found found' : Option (List Nat × Option Nat)}

/-! ## Following so many links -/

/-- So many parent links lead from a node to another. -/
inductive Up (f : Forest) : (k n a : Nat) → Prop
  | here {k : Nat} : Up f k 0 k
  | link {k p n a : Nat} : f.parent? k = some p → Up f p n a → Up f k (n + 1) a

/-- The links from a node come to a node that is above itself. -/
def RunsIntoCycle (f : Forest) (k : Nat) : Prop := ∃ a, (a = k ∨ f.Above a k) ∧ f.Above a a

theorem up_zero_iff : f.Up k 0 a ↔ a = k := by
  constructor
  · intro h
    cases h
    rfl
  · rintro rfl
    exact .here

theorem up_succ_iff : f.Up k (n + 1) a ↔ ∃ p, f.parent? k = some p ∧ f.Up p n a := by
  constructor
  · intro h
    obtain - | ⟨hlink, hup⟩ := h
    exact ⟨_, hlink, hup⟩
  · rintro ⟨p, hlink, hup⟩
    exact .link hlink hup

/-- The first link leads to the parent. -/
theorem up_succ_iff_of_link (hlink : f.parent? k = some p) : f.Up k (n + 1) a ↔ f.Up p n a := by
  simp [up_succ_iff, hlink]

/-- **So many links lead to one node.** -/
theorem Up.unique (h : f.Up k n a) (h' : f.Up k n b) : a = b := by
  induction h with
  | here => exact (up_zero_iff.1 h').symm
  | link hlink _ ih => exact ih ((up_succ_iff_of_link hlink).1 h')

/-- On the way up every number of links on the way leads somewhere. -/
theorem Up.split (h : f.Up k (m + n) b) : ∃ a, f.Up k m a ∧ f.Up a n b := by
  induction m generalizing k with
  | zero =>
    rw [Nat.zero_add] at h
    exact ⟨k, .here, h⟩
  | succ m ih =>
    rw [Nat.add_right_comm] at h
    obtain ⟨p, hlink, hup⟩ := up_succ_iff.1 h
    obtain ⟨a, hlow, hhigh⟩ := ih hup
    exact ⟨a, .link hlink hlow, hhigh⟩

/-- Of two nodes up from one, the further is up from the nearer. -/
theorem Up.of_le (h : f.Up k m a) (h' : f.Up k n b) (hle : m ≤ n) : f.Up a (n - m) b := by
  obtain ⟨d, rfl⟩ := Nat.exists_eq_add_of_le hle
  obtain ⟨c, hlow, hhigh⟩ := h'.split
  obtain rfl := h.unique hlow
  rwa [Nat.add_sub_cancel_left]

theorem Up.lt_size (h : f.Up k n a) (hf : f.Linked) (hk : k < f.size) : a < f.size := by
  induction h with
  | here => exact hk
  | link hlink _ ih => exact ih (hf _ _ hlink)

/-- **A node above another is some links up from it.** -/
theorem above_iff_exists_up : f.Above a k ↔ ∃ n, f.Up k (n + 1) a := by
  constructor
  · intro h
    induction h using Relation.TransGen.head_induction_on with
    | single hlink => exact ⟨0, .link hlink .here⟩
    | head hlink _ ih =>
      obtain ⟨n, hup⟩ := ih
      exact ⟨n + 1, .link hlink hup⟩
  · rintro ⟨n, hup⟩
    induction n generalizing k with
    | zero =>
      obtain ⟨p, hlink, hup⟩ := up_succ_iff.1 hup
      obtain rfl := up_zero_iff.1 hup
      exact .single hlink
    | succ n ih =>
      obtain ⟨p, hlink, hup⟩ := up_succ_iff.1 hup
      exact .head hlink (ih hup)

/-- Whoever has a root above has the same root above all nodes on the way. -/
theorem LinksUp.of_up (h : f.LinksUp k n) (hup : f.Up k m a) : m ≤ n ∧ f.LinksUp a (n - m) := by
  induction hup generalizing n with
  | here => exact ⟨Nat.zero_le n, h⟩
  | link hlink _ ih =>
    cases h with
    | root hroot => simp [hroot] at hlink
    | link hlink' hrest =>
      obtain rfl := Option.some.inj (hlink.symm.trans hlink')
      obtain ⟨hle, hroot⟩ := ih hrest
      rw [Nat.add_sub_add_right]
      exact ⟨Nat.succ_le_succ hle, hroot⟩

/-- Where no root is ever reached, any number of links can be followed. -/
theorem exists_up_of_unrooted (h : ∀ m, ¬ f.LinksUp k m) (n : Nat) : ∃ a, f.Up k n a := by
  induction n generalizing k with
  | zero => exact ⟨k, .here⟩
  | succ n ih =>
    cases hlink : f.parent? k with
    | none => exact absurd (.root hlink) (h 0)
    | some p =>
      have hparent : ∀ m, ¬ f.LinksUp p m := fun m hup => h (m + 1) (.link hlink hup)
      obtain ⟨a, hup⟩ := ih hparent
      exact ⟨a, .link hlink hup⟩

/-- A node that is met twice on the way up is above itself. -/
theorem Up.runsIntoCycle (h : f.Up k m a) (h' : f.Up k n a) (hlt : m < n) : f.RunsIntoCycle k := by
  have hround : f.Above a a := by
    obtain ⟨d, rfl⟩ := Nat.exists_eq_add_of_lt hlt
    have hup := h.of_le h' (Nat.le_of_lt hlt)
    rw [Nat.add_assoc, Nat.add_sub_cancel_left] at hup
    exact above_iff_exists_up.2 ⟨d, hup⟩
  cases m with
  | zero => exact ⟨a, .inl (up_zero_iff.1 h), hround⟩
  | succ m => exact ⟨a, .inr (above_iff_exists_up.2 ⟨m, h⟩), hround⟩

/-- **Links lead to a root unless they run into a cycle.** If there were no root, as many
links could be followed as there are nodes, and one node would be met twice. -/
theorem exists_linksUp_iff (hf : f.Linked) (hk : k < f.size) :
    (∃ n, f.LinksUp k n) ↔ ¬ f.RunsIntoCycle k := by
  constructor
  · rintro ⟨n, hup⟩ ⟨a, hway, hround⟩
    rcases hway with rfl | habove
    · exact hup.not_above_self hround
    · obtain ⟨m, -, hrest⟩ := hup.exists_of_above habove
      exact hrest.not_above_self hround
  · intro hcycle
    by_contra hroot
    have hnodes : ∀ i : Fin (f.size + 1), ∃ x : Fin f.size, f.Up k i x := by
      intro i
      obtain ⟨x, hup⟩ := exists_up_of_unrooted (not_exists.1 hroot) i
      exact ⟨⟨x, hup.lt_size hf hk⟩, hup⟩
    choose node hnode using hnodes
    obtain ⟨i, j, hij, hsame⟩ := Fintype.exists_ne_map_eq_of_card_lt node (by simp)
    have hi := hnode i
    rw [hsame] at hi
    rcases Nat.lt_or_gt_of_ne (Fin.val_ne_of_ne hij) with hlt | hgt
    · exact hcycle (hi.runsIntoCycle (hnode j) hlt)
    · exact hcycle ((hnode j).runsIntoCycle hi hgt)

/-! ## The loop that measures -/

/-- The loop that climbs to where a depth is known. It has come to node `cur`, if there is
one, and passed the nodes of the list, the last first; what it ends with are the nodes
passed and the depth it has found, or nothing. -/
inductive Climbing (f : Forest) :
    (cur : Option Nat) → (passed : List Nat) → Option (List Nat × Option Nat) → Prop
  /-- It is above a root. -/
  | top {passed : List Nat} : Climbing f none passed (some (passed, none))
  /-- It has come to a node that remembers its depth. -/
  | known {k d : Nat} {passed : List Nat} :
      f.depth? k = some d → Climbing f (some k) passed (some (passed, some d))
  /-- With this node it has passed more than there are. -/
  | tooMany {k : Nat} {passed : List Nat} :
      f.depth? k = none → f.size < passed.length + 1 → Climbing f (some k) passed none
  | on {k : Nat} {passed : List Nat} {found : Option (List Nat × Option Nat)} :
      f.depth? k = none → passed.length + 1 ≤ f.size →
      Climbing f (f.parent? k) (k :: passed) found → Climbing f (some k) passed found

/-- **The loop that climbs ends**, wherever it starts, and with what climbing gives: the
guard leaves it as many nodes as have not been passed. -/
theorem climbing_climb (f : Forest) (cur : Option Nat) (passed : List Nat)
    (h : passed.length + fuel = f.size) : f.Climbing cur passed (f.climb fuel cur passed) := by
  fun_induction climb f fuel cur passed with
  | case1 fuel passed => exact .top
  | case2 fuel k passed d hd => exact .known hd
  | case3 k passed hd => exact .tooMany hd (by omega)
  | case4 k passed hd fuel ih =>
    refine .on hd (by omega) (ih ?_)
    rw [List.length_cons]
    omega

/-- It ends in one way. -/
theorem Climbing.unique (h : f.Climbing cur passed found) (h' : f.Climbing cur passed found') :
    found = found' := by
  induction h with
  | top =>
    cases h'
    rfl
  | known hd =>
    cases h' with
    | known hd' => rw [Option.some.inj (hd.symm.trans hd')]
    | tooMany hd' _ | on hd' _ _ => simp [hd] at hd'
  | tooMany hd hmany =>
    cases h' with
    | known hd' => simp [hd] at hd'
    | tooMany _ _ => rfl
    | on _ hfew _ => omega
  | on hd hfew _ ih =>
    cases h' with
    | known hd' => simp [hd] at hd'
    | tooMany _ hmany => omega
    | on _ _ hrest => exact ih hrest

/-- A node is measured by that loop, and on a cycle if the loop ends with nothing. -/
theorem Climbing.measure (h : f.Climbing (some k) [] found) :
    (f.measure k).1 = .error (.cycle (f.name k)) ↔ found = none := by
  obtain rfl := h.unique (climbing_climb f (some k) [] (Nat.zero_add f.size))
  rw [Forest.measure]
  cases f.climb f.size (some k) [] <;> simp

/-! ## The loop that collects -/

/-- The loop that collects the nodes above a node, with nothing to guard it. It has come to
node `cur`, if there is one, and collects the nodes of the list from there to its
end. -/
inductive Collecting (f : Forest) : (cur : Option Nat) → List Nat → Prop
  | top : Collecting f none []
  | on {k : Nat} {as : List Nat} :
      Collecting f (f.parent? k) as → Collecting f (some k) (k :: as)

theorem Collecting.linksUp (h : f.Collecting cur as) (hcur : f.parent? k = cur) :
    f.LinksUp k as.length := by
  induction h generalizing k with
  | top => exact .root hcur
  | on _ ih => exact .link hcur (ih rfl)

theorem collecting_of_walk? (h : f.walk? fuel k = some as) : f.Collecting (f.parent? k) as := by
  induction fuel generalizing k as with
  | zero =>
    cases hk : f.parent? k with
    | none =>
      obtain rfl : [] = as := by simpa [walk?_of_root hk] using h
      exact .top
    | some p => simp [Forest.walk?, hk] at h
  | succ fuel ih =>
    cases hk : f.parent? k with
    | none =>
      obtain rfl : [] = as := by simpa [walk?_of_root hk] using h
      exact .top
    | some p =>
      rw [walk?_of_link hk] at h
      obtain ⟨rest, hrest, rfl⟩ := Option.map_eq_some_iff.1 h
      exact .on (ih hrest)

/-- **The loop that collects ends exactly where there is a root above.** -/
theorem exists_collecting_iff : (∃ as, f.Collecting (f.parent? k) as) ↔ ∃ n, f.LinksUp k n := by
  constructor
  · rintro ⟨as, has⟩
    exact ⟨as.length, has.linksUp rfl⟩
  · rintro ⟨n, hup⟩
    obtain ⟨as, has⟩ := Option.isSome_iff_exists.1 (hup.walk? (Nat.le_refl n))
    exact ⟨as, collecting_of_walk? has⟩

/-! ## Where a cycle is reported -/

theorem Coherent.name_of_find? (hf : f.Coherent) (hk : f.find? name = some k) :
    f.name k = name := by
  rw [name_eq_getD, hf.find?_eq_some_iff.1 hk, Option.getD_some]

theorem ancestorsUp_eq_ok_iff : f.ancestorsUp name = .ok xs ↔
    ∃ k as, f.find? name = some k ∧ f.walk? f.size k = some as ∧ xs = as.map f.name := by
  rw [ancestorsUp]
  cases f.find? name with
  | none => simp
  | some k =>
    dsimp only
    rw [pathUp]
    cases hwalk : f.walk? f.size k <;> simp [hwalk, Except.map, eq_comm]

/-- **There are names above a node exactly where links lead to a root**, none if it is a root
itself. -/
theorem Coherent.exists_ancestorsUp_iff (hf : f.Coherent) (hk : f.find? name = some k) :
    (∃ xs, f.ancestorsUp name = .ok xs) ↔ ∃ n, f.LinksUp k n := by
  rw [← walk?_size_isSome_iff hf.linked (lt_size_of_find? hk), Option.isSome_iff_exists]
  constructor
  · rintro ⟨xs, hxs⟩
    obtain ⟨k', as, hk', has, -⟩ := ancestorsUp_eq_ok_iff.1 hxs
    obtain rfl := Option.some.inj (hk.symm.trans hk')
    exact ⟨as, has⟩
  · rintro ⟨as, has⟩
    exact ⟨as.map f.name, ancestorsUp_eq_ok_iff.2 ⟨k, as, hk, has, rfl⟩⟩

/-- **A cycle is reported above a node exactly where links never lead to a root**, and it is
reported at that node. -/
theorem Coherent.ancestorsUp_eq_cycle_iff (hf : f.Coherent) (hk : f.find? name = some k) :
    f.ancestorsUp name = .error (.cycle x) ↔ x = name ∧ ∀ n, ¬ f.LinksUp k n := by
  rw [← not_exists, ← walk?_size_isSome_iff hf.linked (lt_size_of_find? hk), ancestorsUp, hk]
  dsimp only
  rw [pathUp, hf.name_of_find? hk]
  cases f.walk? f.size k <;> simp [Except.map, eq_comm]

theorem Coherent.depth_eq_cycle_iff (hf : f.Coherent) (hk : f.find? name = some k) :
    (f.depth name).1 = .error (.cycle x) ↔ x = name ∧ ∀ n, ¬ f.LinksUp k n := by
  rw [(hf.depth name).answer_eq, ← hf.ancestorsUp_eq_cycle_iff hk]
  cases f.ancestorsUp name <;> simp [Except.map]

/-- **The sum of all depths meets a cycle exactly if some node has no root above it.** -/
theorem Coherent.exists_depthSum_eq_cycle_iff (hf : f.Coherent) :
    (∃ x, f.depthSum.1 = .error (.cycle x)) ↔ ∃ k < f.size, ∀ n, ¬ f.LinksUp k n := by
  have hrooted : (∃ n, f.depthSumUp = .ok n) ↔ ∀ k < f.size, ∃ n, f.LinksUp k n := by
    have hwalks : (∀ k ∈ List.range f.size, (f.walk? f.size k).isSome) ↔
        ∀ k < f.size, ∃ n, f.LinksUp k n := by
      simp only [List.mem_range]
      exact forall₂_congr fun k hk => walk?_size_isSome_iff hf.linked hk
    rw [← hwalks, depthSumUp]
    cases hpaths : (List.range f.size).mapM f.pathUp with
    | ok paths => exact iff_of_true ⟨_, rfl⟩ (mapM_pathUp_eq_ok_iff.1 hpaths).2
    | error e =>
      refine iff_of_false (by simp [Except.map]) fun hall => ?_
      rw [mapM_pathUp_eq_ok_iff.2 ⟨rfl, hall⟩] at hpaths
      cases hpaths
  rw [hf.depthSum.answer_eq]
  constructor
  · rintro ⟨x, hx⟩
    by_contra hall
    push Not at hall
    obtain ⟨n, hn⟩ := hrooted.2 hall
    rw [hn] at hx
    cases hx
  · rintro ⟨k, hk, hroot⟩
    cases hsum : f.depthSumUp with
    | ok n =>
      obtain ⟨d, hup⟩ := hrooted.1 ⟨n, hsum⟩ k hk
      exact absurd hup (hroot d)
    | error e =>
      obtain ⟨x, rfl⟩ := exists_cycle_of_depthSumUp hsum
      exact ⟨x, rfl⟩

/-- **Cycles are found exactly, and both loops end.** Take a forest built by any
operations, with links that close cycles and with queries before and after them, and a
node of it. The loop that measures it ends, and with nothing exactly if the depth is
refused for a cycle. If the depth is given, the loop that collects the names above ends
too, on the forest as the measuring has left it, and they are the answer. Depth and
names are refused for a cycle, at that node, exactly if the links from it never lead to a
root, and the sum of all depths exactly if those of some node never do. -/
theorem cycles_are_found_exactly (ops : List Operation) :
    (∀ name k, (built ops).find? name = some k →
      (∃ found, (built ops).Climbing (some k) [] found ∧
        (((built ops).depth name).1 = .error (.cycle name) ↔ found = none)) ∧
      (∀ d, ((built ops).depth name).1 = .ok d →
        ∃ as, ((built ops).depth name).2.Collecting (((built ops).depth name).2.parent? k) as ∧
          ((built ops).ancestors name).1 = .ok (as.map (built ops).name)) ∧
      (∀ x, ((built ops).depth name).1 = .error (.cycle x) ↔
        x = name ∧ ∀ n, ¬ (built ops).LinksUp k n) ∧
      (∀ x, ((built ops).ancestors name).1 = .error (.cycle x) ↔
        x = name ∧ ∀ n, ¬ (built ops).LinksUp k n)) ∧
    ((∃ x, (built ops).depthSum.1 = .error (.cycle x)) ↔
      ∃ k < (built ops).size, ∀ n, ¬ (built ops).LinksUp k n) := by
  have hf : (built ops).Coherent := coherent_empty.run ops
  refine ⟨fun name k hk => ⟨?_, fun d hd => ?_, fun x => hf.depth_eq_cycle_iff hk, fun x => ?_⟩,
    hf.exists_depthSum_eq_cycle_iff⟩
  · have hloop := climbing_climb (built ops) (some k) [] (Nat.zero_add (built ops).size)
    have hdepth : (built ops).depth name = (built ops).measure k := by rw [Forest.depth, hk]
    have hmeasure := hloop.measure
    rw [hf.name_of_find? hk, ← hdepth] at hmeasure
    exact ⟨_, hloop, hmeasure⟩
  · have hroot : ∃ n, (built ops).LinksUp k n := ⟨d, (hf.depth_eq_ok_iff hk).1 hd⟩
    obtain ⟨as, has⟩ := Option.isSome_iff_exists.1
      ((walk?_size_isSome_iff hf.linked (lt_size_of_find? hk)).2 hroot)
    refine ⟨as, collecting_of_walk? ((walk?_eq (hf.depth name).links).trans has), ?_⟩
    rw [(hf.ancestors name).answer_eq]
    exact ancestorsUp_eq_ok_iff.2 ⟨k, as, hk, has, rfl⟩
  · rw [(hf.ancestors name).answer_eq]
    exact hf.ancestorsUp_eq_cycle_iff hk

end IntMachine.Forest
