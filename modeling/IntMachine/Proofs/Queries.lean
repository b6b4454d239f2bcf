import IntMachine.Proofs.Memo
import Mathlib.Data.Set.Card
/-!
# Queries

Every query of a forest, next to what it answers when the parent links alone
are walked (`Query.walk`). In a forest that was built from nothing by any
operations the two are the same (`remembered_depths_do_not_show`), so no answer
shows which depths a forest happens to remember.
-/

namespace IntMachine.Forest

variable {f g : Forest} {name : String} {k n : Nat} {list : List Nat} {paths : List (List Nat)}

/-! ## Answers from the links alone -/

/-- The names above the node with a name, from its parent to its root. -/
def ancestorsUp (f : Forest) (name : String) : Except ForestError (List String) :=
  match f.find? name with
  | none => .error (.unknownNode name)
  | some k => (f.pathUp k).map (·.map f.name)

/-- The sum, over the nodes, of the numbers of nodes above them. -/
def depthSumUp (f : Forest) : Except ForestError Nat :=
  ((List.range f.size).mapM f.pathUp).map fun paths => (paths.map List.length).sum

/-- The number of links between the parents of two nodes: both paths are walked
as far as the first name that they share. -/
def distanceUp (f : Forest) (source target : String) : Except ForestError Nat := do
  let xs ← f.ancestorsUp source
  let ys ← f.ancestorsUp target
  if xs = [] ∨ ys = [] then .error .noParent
  else match ys.find? (· ∈ xs) with
    | some meeting => .ok (ys.idxOf meeting + xs.idxOf meeting)
    | none => .error (.differentTrees source target)

/-- A question to a forest. -/
inductive Query where
  | contains (name : String)
  | depth (name : String)
  | ancestors (name : String)
  | depthSum
  | distance (source target : String)
  deriving DecidableEq, Repr

inductive Answer where
  | truth (b : Bool)
  | number (r : Except ForestError Nat)
  | names (r : Except ForestError (List String))
  deriving DecidableEq, Repr

/-- What a forest answers, and what it is then. -/
def Query.ask (f : Forest) : Query → Answer × Forest
  | .contains name => (.truth (f.contains name), f)
  | .depth name => ((f.depth name).map .number id)
  | .ancestors name => ((f.ancestors name).map .names id)
  | .depthSum => (f.depthSum.map .number id)
  | .distance source target => ((f.distance source target).map .number id)

/-- The answer that walking the parent links gives. -/
def Query.walk (f : Forest) : Query → Answer
  | .contains name => .truth (f.find? name).isSome
  | .depth name => .number ((f.ancestorsUp name).map List.length)
  | .ancestors name => .names (f.ancestorsUp name)
  | .depthSum => .number f.depthSumUp
  | .distance source target => .number (f.distanceUp source target)

/-! ## Every query answers what the walk finds -/

/-- A depth is measured from a name. -/
theorem Coherent.depth (hf : f.Coherent) (name : String) :
    Faithful f (f.depth name) ((f.ancestorsUp name).map List.length) := by
  rw [Forest.depth, ancestorsUp]
  cases hk : f.find? name with
  | none => exact ⟨hf, rfl, rfl⟩
  | some k =>
    have hmeasure := hf.measure (lt_size_of_find? hk)
    refine ⟨hmeasure.coherent, hmeasure.links, hmeasure.answer_eq.trans ?_⟩
    dsimp only
    cases f.pathUp k with
    | error e => rfl
    | ok as => simp [Except.map]

/-- **A depth counts the links to a root**, and there is one wherever links lead
to a root. -/
theorem Coherent.depth_eq_ok_iff (hf : f.Coherent) (hk : f.find? name = some k) :
    (f.depth name).1 = .ok n ↔ f.LinksUp k n := by
  have hanswer : (f.depth name).1 = ((f.pathUp k).map (·.map f.name)).map List.length := by
    rw [(hf.depth name).answer_eq, ancestorsUp, hk]
  rw [hanswer]
  constructor
  · intro h
    cases hup : f.pathUp k with
    | error e => simp [hup, Except.map] at h
    | ok as =>
      obtain rfl : as.length = n := by simpa [hup, Except.map] using h
      exact (walk?_spec (pathUp_eq_ok_iff.1 hup)).1
  · intro h
    have hlt := h.lt_size hf.linked (lt_size_of_find? hk)
    obtain ⟨as, has⟩ := Option.isSome_iff_exists.1 (h.walk? (Nat.le_of_lt hlt))
    obtain rfl := (walk?_spec has).1.unique h
    simp [pathUp_eq_ok_iff.2 has, Except.map]

/-- The names above a node are read off the links, once measuring has found a
root. -/
theorem Coherent.ancestors (hf : f.Coherent) (name : String) :
    Faithful f (f.ancestors name) (f.ancestorsUp name) := by
  rw [Forest.ancestors, ancestorsUp]
  cases hk : f.find? name with
  | none => exact ⟨hf, rfl, rfl⟩
  | some k =>
    have hmeasure := hf.measure (lt_size_of_find? hk)
    have hlinks := hmeasure.links
    dsimp only
    rw [hmeasure.eq]
    cases hup : f.pathUp k with
    | error e => exact ⟨hmeasure.coherent, hlinks, rfl⟩
    | ok as =>
      have hwalk : (f.measure k).2.walk? (f.measure k).2.size k = some as := by
        rw [walk?_eq hlinks, size_eq hlinks]
        exact pathUp_eq_ok_iff.1 hup
      refine ⟨hmeasure.coherent, hlinks, ?_⟩
      change Except.ok _ = Except.ok _
      rw [above_of_walk? hwalk, name_eq hlinks]

/-- Depths are summed over a list of nodes; the sum fails at the first node
without a root above. -/
theorem Coherent.sumDepths (hf : f.Coherent) (list : List Nat) (hlist : ∀ k ∈ list, k < f.size)
    (sum : Nat) :
    Faithful f (f.sumDepths list sum)
      ((list.mapM f.pathUp).map fun paths => sum + (paths.map List.length).sum) := by
  induction list generalizing f sum with
  | nil => exact ⟨hf, rfl, rfl⟩
  | cons k rest ih =>
    have hmeasure := hf.measure (hlist k List.mem_cons_self)
    have hlinks := hmeasure.links
    rw [Forest.sumDepths, hmeasure.eq, List.mapM_cons]
    cases hup : f.pathUp k with
    | error e => exact ⟨hmeasure.coherent, hlinks, rfl⟩
    | ok as =>
      have hrest : ∀ x ∈ rest, x < (f.measure k).2.size := by
        intro x hx
        rw [size_eq hlinks]
        exact hlist x (List.mem_cons_of_mem k hx)
      have hsum := (ih hmeasure.coherent hrest (sum + as.length)).of_forget_eq hlinks
      refine ⟨hsum.coherent, hsum.links, hsum.answer_eq.trans ?_⟩
      rw [pathUp_eq hlinks]
      cases rest.mapM f.pathUp with
      | error e => rfl
      | ok paths => exact congrArg Except.ok (by simp [Nat.add_assoc])

theorem Coherent.depthSum (hf : f.Coherent) : Faithful f f.depthSum f.depthSumUp := by
  have hsum := hf.sumDepths (List.range f.size) (fun k hk => List.mem_range.1 hk) 0
  simpa only [Nat.zero_add, depthSumUp, Forest.depthSum] using hsum

theorem meetAt_cons_of_mem {xs : List String} {y : String} (hy : y ∈ xs) (ys : List String)
    (passed : Nat) : meetAt xs (y :: ys) passed = some (passed + xs.idxOf y) := by
  have hfound : xs.findIdx? (· = y) = some (xs.idxOf y) :=
    List.findIdx?_eq_some_of_exists ⟨y, hy, by simp⟩
  rw [meetAt, hfound]

theorem meetAt_cons_of_not_mem {xs : List String} {y : String} (hy : y ∉ xs) (ys : List String)
    (passed : Nat) : meetAt xs (y :: ys) passed = meetAt xs ys (passed + 1) := by
  have hnone : xs.findIdx? (· = y) = none := by
    rw [List.findIdx?_eq_none_iff]
    intro x hx
    simpa using ne_of_mem_of_not_mem hx hy
  rw [meetAt, hnone]

/-- Where two lists meet: at the first element of the second that the first
holds, counted in both. -/
theorem meetAt_eq (xs ys : List String) (passed : Nat) :
    meetAt xs ys passed =
      (ys.find? (· ∈ xs)).map fun y => passed + (ys.idxOf y + xs.idxOf y) := by
  induction ys generalizing passed with
  | nil => rfl
  | cons y ys ih =>
    by_cases hy : y ∈ xs
    · rw [meetAt_cons_of_mem hy, List.find?_cons_of_pos (by simpa using hy), Option.map_some,
        List.idxOf_cons_self, Nat.zero_add]
    · rw [meetAt_cons_of_not_mem hy, List.find?_cons_of_neg (by simpa using hy), ih]
      cases hfirst : ys.find? (· ∈ xs) with
      | none => rfl
      | some z =>
        have hz : z ∈ xs := by simpa using List.find?_some hfirst
        have hne : y ≠ z := (ne_of_mem_of_not_mem hz hy).symm
        rw [Option.map_some, Option.map_some, List.idxOf_cons_ne ys hne]
        exact congrArg some (by omega)

theorem ancestorsUp_eq (h : g.forget = f.forget) : g.ancestorsUp name = f.ancestorsUp name := by
  rw [ancestorsUp, ancestorsUp, find?_eq h, pathUp_eq h, name_eq h]

theorem Coherent.distance (hf : f.Coherent) (source target : String) :
    Faithful f (f.distance source target) (f.distanceUp source target) := by
  have hsource := hf.ancestors source
  have htarget := (hsource.coherent.ancestors target).of_forget_eq hsource.links
  rw [ancestorsUp_eq hsource.links] at htarget
  rw [Forest.distance, distanceUp, hsource.eq]
  cases f.ancestorsUp source with
  | error e => exact ⟨hsource.coherent, hsource.links, rfl⟩
  | ok xs =>
    dsimp only
    rw [htarget.eq]
    cases f.ancestorsUp target with
    | error e => exact ⟨htarget.coherent, htarget.links, rfl⟩
    | ok ys =>
      dsimp only [bind, Except.bind]
      by_cases hempty : xs = [] ∨ ys = []
      · rw [if_pos hempty, if_pos hempty]
        exact ⟨htarget.coherent, htarget.links, rfl⟩
      · rw [if_neg hempty, if_neg hempty, meetAt_eq]
        cases ys.find? (· ∈ xs) with
        | none => exact ⟨htarget.coherent, htarget.links, rfl⟩
        | some z => exact ⟨htarget.coherent, htarget.links, congrArg Except.ok (by simp)⟩

/-- **A query of a coherent forest answers what walking its links finds**, and
leaves the links. -/
theorem Coherent.ask (hf : f.Coherent) (q : Query) : Faithful f (q.ask f) (q.walk f) := by
  cases q with
  | contains name => exact ⟨hf, rfl, rfl⟩
  | depth name => exact (hf.depth name).map Answer.number
  | ancestors name => exact (hf.ancestors name).map Answer.names
  | depthSum => exact hf.depthSum.map Answer.number
  | distance source target => exact (hf.distance source target).map Answer.number

/-! ## The sum of all depths -/

/-- The nodes above node `k`, or none if there is no root above. -/
def pathOf (f : Forest) (k : Nat) : List Nat := (f.walk? f.size k).getD []

/-- The pairs of a node above another and that other, for the others in a
list. -/
def pairs (f : Forest) (list : List Nat) : List (Nat × Nat) :=
  list.flatMap fun k => (f.pathOf k).map (·, k)

theorem mem_pairs_iff {x : Nat × Nat} : x ∈ f.pairs list ↔ x.2 ∈ list ∧ x.1 ∈ f.pathOf x.2 := by
  obtain ⟨a, k⟩ := x
  simp only [pairs, List.mem_flatMap, List.mem_map, Prod.mk.injEq]
  constructor
  · rintro ⟨k, hk, a, ha, rfl, rfl⟩
    exact ⟨hk, ha⟩
  · rintro ⟨hk, ha⟩
    exact ⟨k, hk, a, ha, rfl, rfl⟩

theorem mem_pathOf_iff {a : Nat} (h : (f.walk? f.size k).isSome) :
    a ∈ f.pathOf k ↔ f.Above a k := by
  obtain ⟨as, has⟩ := Option.isSome_iff_exists.1 h
  rw [pathOf, has]
  exact (walk?_spec has).2.1 a

theorem nodup_pathOf : (f.pathOf k).Nodup := by
  rw [pathOf]
  cases hwalk : f.walk? f.size k with
  | none => exact List.nodup_nil
  | some as => exact (walk?_spec hwalk).2.2

theorem length_pairs : (f.pairs list).length = ((list.map f.pathOf).map List.length).sum := by
  simp [pairs, List.length_flatMap, Function.comp_def]

theorem nodup_pairs (hlist : list.Nodup) : (f.pairs list).Nodup := by
  refine List.nodup_flatMap.2 ⟨fun k _ => ?_, hlist.imp fun {i j} hij => ?_⟩
  · exact nodup_pathOf.map fun a b hab => congrArg Prod.fst hab
  · rintro ⟨a, k⟩ hi hj
    obtain ⟨_, _, hik⟩ := List.mem_map.1 hi
    obtain ⟨_, _, hjk⟩ := List.mem_map.1 hj
    exact hij ((congrArg Prod.snd hik).trans (congrArg Prod.snd hjk).symm)

/-- The paths up from the nodes of a list are found only if there is a root
above each. -/
theorem paths_of_mapM (h : list.mapM f.pathUp = .ok paths) :
    paths = list.map f.pathOf ∧ ∀ k ∈ list, (f.walk? f.size k).isSome := by
  induction list generalizing paths with
  | nil =>
    obtain rfl : [] = paths := by simpa [pure, Except.pure] using h
    exact ⟨rfl, by simp⟩
  | cons k rest ih =>
    rw [List.mapM_cons] at h
    cases hk : f.pathUp k with
    | error e => simp [hk, bind, Except.bind] at h
    | ok as =>
      cases hrest : rest.mapM f.pathUp with
      | error e => simp [hk, hrest, bind, Except.bind] at h
      | ok others =>
        obtain rfl : as :: others = paths := by
          simpa [hk, hrest, bind, Except.bind, pure, Except.pure] using h
        obtain ⟨rfl, hroots⟩ := ih hrest
        have hwalk := pathUp_eq_ok_iff.1 hk
        exact ⟨by simp [pathOf, hwalk], by simpa [hwalk] using hroots⟩

/-- **The sum of all depths counts pairs**: a node, and a node above it. -/
theorem eq_ncard_of_depthSumUp (h : f.depthSumUp = .ok n) :
    n = {x : Nat × Nat | f.Above x.1 x.2}.ncard := by
  rw [depthSumUp] at h
  cases hpaths : (List.range f.size).mapM f.pathUp with
  | error e => simp [hpaths, Except.map] at h
  | ok paths =>
    obtain rfl : (paths.map List.length).sum = n := by simpa [hpaths, Except.map] using h
    obtain ⟨rfl, hroots⟩ := paths_of_mapM hpaths
    have habove : {x : Nat × Nat | f.Above x.1 x.2} = (f.pairs (List.range f.size)).toFinset := by
      ext ⟨a, k⟩
      simp only [Set.mem_ofPred_eq, Finset.mem_coe, List.mem_toFinset, mem_pairs_iff]
      constructor
      · intro ha
        have hk := List.mem_range.2 ha.lt_size
        exact ⟨hk, (mem_pathOf_iff (hroots k hk)).2 ha⟩
      · rintro ⟨hk, ha⟩
        exact (mem_pathOf_iff (hroots k hk)).1 ha
    rw [habove, Set.ncard_coe_finset, List.toFinset_card_of_nodup (nodup_pairs List.nodup_range),
      length_pairs]

/-! ## Forests that are built -/

/-- What can be done with a forest. -/
inductive Operation where
  | node (name : String)
  | link (parent child : String)
  | ask (q : Query)
  deriving DecidableEq, Repr

/-- The forest after an operation, whether or not the operation succeeds. -/
def Operation.perform (f : Forest) : Operation → Forest
  | .node name => (f.intern name).2
  | .link parent child => (f.link parent child).2
  | .ask q => (q.ask f).2

/-- The forest that operations build from nothing. -/
def built (ops : List Operation) : Forest := ops.foldl Operation.perform .empty

/-- An operation keeps a forest coherent. -/
theorem Coherent.perform (hf : f.Coherent) (op : Operation) : (op.perform f).Coherent := by
  cases op with
  | node name => exact (hf.intern name).1
  | link parent child => exact hf.link parent child
  | ask q => exact (hf.ask q).coherent

theorem coherent_empty : empty.Coherent :=
  ⟨by simp [empty, size], by simp [Linked, empty, parent?], by simp [empty, depth?]⟩

/-- Operations keep a forest coherent, by induction on the operations. -/
theorem Coherent.run (hf : f.Coherent) (ops : List Operation) :
    (ops.foldl Operation.perform f).Coherent := by
  induction ops generalizing f with
  | nil => exact hf
  | cons op rest ih => exact ih (hf.perform op)

/-- **What a forest remembers is never observed.** In a forest built from
nothing by any operations, also by links that were refused and by queries that
met a cycle, names and numbers of nodes are inverse to each other, parents are
nodes and remembered depths count the links to a root. (A node is one record,
so there are as many names as parents and depths.) So every query answers what
walking the parent links finds, and links are made and refused as if nothing
were remembered: a depth is the number of links to a root and of names above,
and the sum of all depths is the number of pairs of a node and a node above
it. -/
theorem remembered_depths_do_not_show (ops : List Operation) :
    (∀ name k, (built ops).find? name = some k ↔ (built ops).nameAt? k = some name) ∧
      (∀ k p, (built ops).parent? k = some p → p < (built ops).size) ∧
      (∀ k d, (built ops).depth? k = some d → (built ops).LinksUp k d) ∧
      (∀ q : Query, (q.ask (built ops)).1 = q.walk (built ops)) ∧
      (∀ parent child, ((built ops).link parent child).1
        = ((built ops).forget.link parent child).1) ∧
      (∀ name k n, (built ops).find? name = some k →
        (((built ops).depth name).1 = .ok n ↔ (built ops).LinksUp k n)) ∧
      (∀ name, ((built ops).depth name).1 = ((built ops).ancestors name).1.map List.length) ∧
      ∀ n, (built ops).depthSum.1 = .ok n →
        n = {x : Nat × Nat | (built ops).Above x.1 x.2}.ncard := by
  have hf : (built ops).Coherent := coherent_empty.run ops
  refine ⟨fun name k => hf.find?_eq_some_iff, hf.linked, hf.exact, fun q => (hf.ask q).answer_eq,
    fun parent child => (link_forget parent child).symm, fun name k n hk => hf.depth_eq_ok_iff hk,
    fun name => ?_, fun n hn => ?_⟩
  · rw [(hf.depth name).answer_eq, (hf.ancestors name).answer_eq]
  · rw [hf.depthSum.answer_eq] at hn
    exact eq_ncard_of_depthSumUp hn

/-- Three nodes in a chain and one apart: there are three pairs, and the sum of
all depths is three, also after a depth was remembered and a link refused. -/
theorem depths_of_a_chain_and_a_node :
    (built [.link "A" "B", .link "B" "C", .ask (.depth "B"), .link "C" "B", .node "D"]).depthSum.1
        = .ok 3 ∧
      3 = {x : Nat × Nat |
        (built [.link "A" "B", .link "B" "C", .ask (.depth "B"), .link "C" "B", .node "D"]).Above
          x.1 x.2}.ncard := by
  have hsum : (built [.link "A" "B", .link "B" "C", .ask (.depth "B"), .link "C" "B",
      .node "D"]).depthSum.1 = .ok 3 := by decide +kernel
  obtain ⟨-, -, -, -, -, -, -, hpairs⟩ := remembered_depths_do_not_show
    [.link "A" "B", .link "B" "C", .ask (.depth "B"), .link "C" "B", .node "D"]
  exact ⟨hsum, hpairs 3 hsum⟩

end IntMachine.Forest
