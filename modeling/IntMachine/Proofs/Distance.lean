import IntMachine.Proofs.Cycles
import Mathlib.Combinatorics.SimpleGraph.Metric
/-!
# Distances

The distance of two nodes is that of their parents in the graph of all links, read both
ways. A query finds it without that graph: it takes the first node above the one that is
also above the other (`Meeting`), and counts the links up to it. A walk in the graph that
turns down and up again only gets longer (`exists_up_of_walk`), and among nodes above
both, the first on one way up is also the first on the other, so no walk is shorter
(`Meeting.dist_eq`).
-/

namespace IntMachine.Forest

variable {f : Forest} {a b d e i j k m n p q : Nat} {as : List Nat} {cur : Option Nat}
variable {source target x : String} {xs ys : List String}

/-! ## The graph of all links -/

/-- The nodes, each joined to its parent. -/
def graph (f : Forest) : SimpleGraph Nat := SimpleGraph.fromRel fun k p => f.parent? k = some p

theorem LinksUp.adj_parent (h : f.LinksUp k n) (hlink : f.parent? k = some p) :
    f.graph.Adj k p := by
  refine (SimpleGraph.fromRel_adj _ k p).2 ⟨?_, .inl hlink⟩
  rintro rfl
  exact h.not_above_self (.single hlink)

/-- A way up can be taken one link further. -/
theorem Up.snoc (h : f.Up k n a) (hlink : f.parent? a = some p) : f.Up k (n + 1) p := by
  induction h with
  | here => exact .link hlink .here
  | link hfirst _ ih => exact .link hfirst (ih hlink)

/-- A way up is a walk. -/
theorem LinksUp.exists_walk (h : f.LinksUp k d) (hup : f.Up k n a) :
    ∃ w : f.graph.Walk k a, w.length = n := by
  induction hup generalizing d with
  | here => exact ⟨.nil, rfl⟩
  | link hlink _ ih =>
    obtain ⟨-, hrest⟩ := h.of_up (.link hlink .here)
    obtain ⟨w, hw⟩ := ih hrest
    exact ⟨.cons (h.adj_parent hlink) w, by rw [SimpleGraph.Walk.length_cons, hw]⟩

/-- **A walk is no shorter than a way up and a way down.** A first step to a parent makes
the way up longer. A first step to a child is taken back by the way up, or, where the rest
of the walk only leads down, makes the way down longer. -/
theorem exists_up_of_walk (w : f.graph.Walk p q) :
    ∃ m a b, f.Up p a m ∧ f.Up q b m ∧ a + b ≤ w.length := by
  induction w with
  | nil => exact ⟨_, 0, 0, .here, .here, Nat.le_refl 0⟩
  | @cons p x q hadj w ih =>
    obtain ⟨m, a, b, hx, hq, hlen⟩ := ih
    rw [SimpleGraph.Walk.length_cons]
    rcases ((SimpleGraph.fromRel_adj _ p x).1 hadj).2 with hparent | hchild
    · exact ⟨m, a + 1, b, .link hparent hx, hq, by omega⟩
    · cases a with
      | zero =>
        obtain rfl := up_zero_iff.1 hx
        exact ⟨p, 0, b + 1, .here, hq.snoc hchild, by omega⟩
      | succ a => exact ⟨m, a, b, (up_succ_iff_of_link hchild).1 hx, hq, by omega⟩

/-! ## Where two ways up meet -/

/-- The ways up from two nodes meet after so many links from each, and not before on the
second. -/
structure Meeting (f : Forest) (p q a b m : Nat) : Prop where
  source : f.Up p a m
  target : f.Up q b m
  first : ∀ m' a' b', f.Up p a' m' → f.Up q b' m' → b ≤ b'

theorem Meeting.exists_walk (h : f.Meeting p q a b m) (hp : f.LinksUp p d) (hq : f.LinksUp q e) :
    ∃ w : f.graph.Walk p q, w.length = a + b := by
  obtain ⟨up, hup⟩ := hp.exists_walk h.source
  obtain ⟨down, hdown⟩ := hq.exists_walk h.target
  refine ⟨up.append down.reverse, ?_⟩
  rw [SimpleGraph.Walk.length_append, SimpleGraph.Walk.length_reverse, hup, hdown]

/-- **Where two ways up first meet is on a shortest walk.** Another walk goes up to a node
above both and down again. That node is no nearer to the second, and as far from the root as
it is seen from either, so it is no nearer to the first. -/
theorem Meeting.dist_eq (h : f.Meeting p q a b m) (hp : f.LinksUp p d) (hq : f.LinksUp q e) :
    f.graph.dist p q = a + b := by
  obtain ⟨w, hw⟩ := h.exists_walk hp hq
  have hle : f.graph.dist p q ≤ a + b := by
    rw [← hw]
    exact SimpleGraph.dist_le w
  have hge : a + b ≤ f.graph.dist p q := by
    have hjoined : f.graph.Reachable p q := ⟨w⟩
    obtain ⟨shortest, hshortest⟩ := hjoined.exists_walk_length_eq_dist
    obtain ⟨m', a', b', hpm, hqm, hlen⟩ := exists_up_of_walk shortest
    have hfirst : b ≤ b' := h.first m' a' b' hpm hqm
    obtain ⟨ha, hm⟩ := hp.of_up h.source
    obtain ⟨hb, hm'⟩ := hq.of_up h.target
    obtain ⟨ha', hother⟩ := hp.of_up hpm
    obtain ⟨hb', hother'⟩ := hq.of_up hqm
    have hheight := hm.unique hm'
    have hheight' := hother.unique hother'
    omega
  exact Nat.le_antisymm hle hge

/-! ## What a query counts -/

/-- The nodes above a node are listed by the links that lead to them. -/
theorem Collecting.getElem?_eq_some_iff (h : f.Collecting cur as) (hcur : f.parent? k = cur) :
    as[n]? = some a ↔ f.Up k (n + 1) a := by
  induction h generalizing k n with
  | top => simp [up_succ_iff, hcur]
  | on _ ih =>
    rw [up_succ_iff_of_link hcur]
    cases n with
    | zero => rw [List.getElem?_cons_zero, Option.some.injEq, up_zero_iff, eq_comm]
    | succ n =>
      rw [List.getElem?_cons_succ]
      exact ih rfl

/-- **The names above a node are listed by the links that lead to them.** -/
theorem Coherent.getElem?_ancestorsUp (hf : f.Coherent) (hi : f.find? source = some i)
    (h : f.ancestorsUp source = .ok xs) :
    xs[n]? = some x ↔ ∃ a, f.Up i (n + 1) a ∧ f.nameAt? a = some x := by
  obtain ⟨i', as, hi', has, rfl⟩ := ancestorsUp_eq_ok_iff.1 h
  obtain rfl := Option.some.inj (hi.symm.trans hi')
  have hlist : ∀ a, as[n]? = some a ↔ f.Up i (n + 1) a := fun a =>
    (collecting_of_walk? has).getElem?_eq_some_iff rfl
  rw [List.getElem?_map, Option.map_eq_some_iff]
  constructor
  · rintro ⟨a, ha, rfl⟩
    have hup := (hlist a).1 ha
    exact ⟨a, hup, exists_nameAt? (hup.lt_size hf.linked (lt_size_of_find? hi))⟩
  · rintro ⟨a, hup, hname⟩
    exact ⟨a, (hlist a).2 hup, by rw [name_eq_getD, hname, Option.getD_some]⟩

/-- The first element of a list that another list holds. -/
theorem find?_mem_eq_some (h : ys.find? (· ∈ xs) = some x) :
    xs[xs.idxOf x]? = some x ∧ ys[ys.idxOf x]? = some x ∧
      ∀ (a b : Nat) (y : String), xs[a]? = some y → ys[b]? = some y → ys.idxOf x ≤ b := by
  obtain ⟨hmem, before, after, rfl, hbefore⟩ := List.find?_eq_some_iff_append.1 h
  have hx : x ∈ xs := by simpa using hmem
  have hnew : x ∉ before := fun hold => by simpa [hx] using hbefore x hold
  refine ⟨List.getElem?_idxOf hx, List.getElem?_idxOf (by simp), fun a b y ha hb => ?_⟩
  rw [List.idxOf_append_of_notMem hnew, List.idxOf_cons_self, Nat.add_zero]
  by_contra hlt
  rw [List.getElem?_append_left (Nat.lt_of_not_le hlt)] at hb
  have hold := hbefore y (List.mem_of_getElem? hb)
  simp [List.mem_of_getElem? ha] at hold

theorem distanceUp_eq_ok_iff : f.distanceUp source target = .ok n ↔
    ∃ xs ys x, f.ancestorsUp source = .ok xs ∧ f.ancestorsUp target = .ok ys ∧
      ys.find? (· ∈ xs) = some x ∧ n = ys.idxOf x + xs.idxOf x := by
  rw [distanceUp]
  cases f.ancestorsUp source with
  | error e => simp [bind, Except.bind]
  | ok xs =>
    cases f.ancestorsUp target with
    | error e => simp [bind, Except.bind]
    | ok ys =>
      dsimp only [bind, Except.bind]
      cases hfirst : ys.find? (· ∈ xs) with
      | none => split_ifs <;> simp [hfirst]
      | some x =>
        have hx : x ∈ xs := by simpa using List.find?_some hfirst
        have hy : x ∈ ys := List.mem_of_find?_eq_some hfirst
        rw [if_neg (not_or.2 ⟨List.ne_nil_of_mem hx, List.ne_nil_of_mem hy⟩)]
        simp [hfirst, eq_comm]

/-- **What a query counts are the links up to where two ways up meet.** -/
theorem Coherent.meeting_of_distanceUp (hf : f.Coherent) (hi : f.find? source = some i)
    (hj : f.find? target = some j) (h : f.distanceUp source target = .ok n) :
    ∃ p q a b m, f.parent? i = some p ∧ f.parent? j = some q ∧ f.Meeting p q a b m ∧
      n = a + b := by
  obtain ⟨xs, ys, x, hxs, hys, hfirst, rfl⟩ := distanceUp_eq_ok_iff.1 h
  obtain ⟨hsource, htarget, hfirst⟩ := find?_mem_eq_some hfirst
  obtain ⟨m, hup, hname⟩ := (hf.getElem?_ancestorsUp hi hxs).1 hsource
  obtain ⟨m', hup', hname'⟩ := (hf.getElem?_ancestorsUp hj hys).1 htarget
  -- both ways up come to the name that was found, so they come to one node
  obtain rfl : m = m' := hf.distinct m m' (lt_size_of_nameAt? hname) (hname.trans hname'.symm)
  obtain ⟨p, hp, hpm⟩ := up_succ_iff.1 hup
  obtain ⟨q, hq, hqm⟩ := up_succ_iff.1 hup'
  refine ⟨p, q, _, _, m, hp, hq, ⟨hpm, hqm, fun m' a' b' hpm' hqm' => ?_⟩, Nat.add_comm _ _⟩
  have hnode : m' < f.size := hpm'.lt_size hf.linked (hf.linked i p hp)
  have hshared := exists_nameAt? hnode
  exact hfirst a' b' (f.name m')
    ((hf.getElem?_ancestorsUp hi hxs).2 ⟨m', .link hp hpm', hshared⟩)
    ((hf.getElem?_ancestorsUp hj hys).2 ⟨m', .link hq hqm', hshared⟩)

theorem Coherent.dist_of_distanceUp (hf : f.Coherent) (hi : f.find? source = some i)
    (hj : f.find? target = some j) (hiroot : f.LinksUp i d) (hjroot : f.LinksUp j e)
    (h : f.distanceUp source target = .ok n) :
    ∃ p q, f.parent? i = some p ∧ f.parent? j = some q ∧ f.graph.Reachable i j ∧
      n = f.graph.dist p q := by
  obtain ⟨p, q, a, b, m, hp, hq, hmeeting, rfl⟩ := hf.meeting_of_distanceUp hi hj h
  obtain ⟨-, hproot⟩ := hiroot.of_up (.link hp .here)
  obtain ⟨-, hqroot⟩ := hjroot.of_up (.link hq .here)
  have hjoined : f.graph.Reachable p q := by
    obtain ⟨w, -⟩ := hmeeting.exists_walk hproot hqroot
    exact ⟨w⟩
  refine ⟨p, q, hp, hq, ?_, (hmeeting.dist_eq hproot hqroot).symm⟩
  exact (hiroot.adj_parent hp).reachable.trans
    (hjoined.trans (hjroot.adj_parent hq).reachable.symm)

/-- There is an answer if a node is above both. -/
theorem Coherent.exists_distanceUp (hf : f.Coherent) (hi : f.find? source = some i)
    (hj : f.find? target = some j) (hiroot : f.LinksUp i d) (hjroot : f.LinksUp j e)
    (him : f.Up i (a + 1) m) (hjm : f.Up j (b + 1) m) :
    ∃ n, f.distanceUp source target = .ok n := by
  obtain ⟨xs, hxs⟩ := (hf.exists_ancestorsUp_iff hi).2 ⟨d, hiroot⟩
  obtain ⟨ys, hys⟩ := (hf.exists_ancestorsUp_iff hj).2 ⟨e, hjroot⟩
  have hname := exists_nameAt? (him.lt_size hf.linked (lt_size_of_find? hi))
  have hx : f.name m ∈ xs :=
    List.mem_of_getElem? ((hf.getElem?_ancestorsUp hi hxs).2 ⟨m, him, hname⟩)
  have hy : f.name m ∈ ys :=
    List.mem_of_getElem? ((hf.getElem?_ancestorsUp hj hys).2 ⟨m, hjm, hname⟩)
  have hshared : (ys.find? (· ∈ xs)).isSome := List.find?_isSome.2 ⟨f.name m, hy, by simpa using hx⟩
  obtain ⟨x, hfirst⟩ := Option.isSome_iff_exists.1 hshared
  exact ⟨_, distanceUp_eq_ok_iff.2 ⟨xs, ys, x, hxs, hys, hfirst, rfl⟩⟩

/-- **A distance is given exactly where both nodes have parents in one tree**, and it is the
distance of the parents. -/
theorem Coherent.distance_eq_ok_iff (hf : f.Coherent) : (f.distance source target).1 = .ok n ↔
    ∃ i j p q, f.find? source = some i ∧ f.find? target = some j ∧
      f.parent? i = some p ∧ f.parent? j = some q ∧
      ¬ f.RunsIntoCycle i ∧ ¬ f.RunsIntoCycle j ∧
      f.graph.Reachable i j ∧ n = f.graph.dist p q := by
  rw [(hf.distance source target).answer_eq]
  constructor
  · intro h
    obtain ⟨xs, ys, x, hxs, hys, -, -⟩ := distanceUp_eq_ok_iff.1 h
    obtain ⟨i, -, hi, -, -⟩ := ancestorsUp_eq_ok_iff.1 hxs
    obtain ⟨j, -, hj, -, -⟩ := ancestorsUp_eq_ok_iff.1 hys
    obtain ⟨d, hiroot⟩ := (hf.exists_ancestorsUp_iff hi).1 ⟨xs, hxs⟩
    obtain ⟨e, hjroot⟩ := (hf.exists_ancestorsUp_iff hj).1 ⟨ys, hys⟩
    obtain ⟨p, q, hp, hq, hjoined, hn⟩ := hf.dist_of_distanceUp hi hj hiroot hjroot h
    have hicycle := (exists_linksUp_iff hf.linked (lt_size_of_find? hi)).1 ⟨_, hiroot⟩
    have hjcycle := (exists_linksUp_iff hf.linked (lt_size_of_find? hj)).1 ⟨_, hjroot⟩
    exact ⟨i, j, p, q, hi, hj, hp, hq, hicycle, hjcycle, hjoined, hn⟩
  · rintro ⟨i, j, p, q, hi, hj, hp, hq, hicycle, hjcycle, hjoined, rfl⟩
    obtain ⟨d, hiroot⟩ := (exists_linksUp_iff hf.linked (lt_size_of_find? hi)).2 hicycle
    obtain ⟨e, hjroot⟩ := (exists_linksUp_iff hf.linked (lt_size_of_find? hj)).2 hjcycle
    have hparents : f.graph.Reachable p q :=
      (hiroot.adj_parent hp).reachable.symm.trans
        (hjoined.trans (hjroot.adj_parent hq).reachable)
    -- where a walk between the parents turns down is a node above both
    obtain ⟨w⟩ := hparents
    obtain ⟨m, a, b, hpm, hqm, -⟩ := exists_up_of_walk w
    obtain ⟨n, hn⟩ := hf.exists_distanceUp hi hj hiroot hjroot (.link hp hpm) (.link hq hqm)
    obtain ⟨p', q', hp', hq', -, rfl⟩ := hf.dist_of_distanceUp hi hj hiroot hjroot hn
    obtain rfl := Option.some.inj (hp.symm.trans hp')
    obtain rfl := Option.some.inj (hq.symm.trans hq')
    exact hn

theorem Coherent.distance_eq_ok_symm (hf : f.Coherent) (h : (f.distance source target).1 = .ok n) :
    (f.distance target source).1 = .ok n := by
  obtain ⟨i, j, p, q, hi, hj, hp, hq, hicycle, hjcycle, hjoined, rfl⟩ := hf.distance_eq_ok_iff.1 h
  exact hf.distance_eq_ok_iff.2 ⟨j, i, q, p, hj, hi, hq, hp, hjcycle, hicycle, hjoined.symm,
    SimpleGraph.dist_comm⟩

/-- **The distance of two nodes is that of their parents.** Take a forest built by any
operations and two names, which may be one, or one above the other. The query gives a number
exactly if both name nodes with parents, no way up from them runs into a cycle, and
links, followed up and down, lead from one to the other. The number is then the length of a
shortest walk between the parents in the graph of all links, so it is the same either
way. -/
theorem distance_is_dist_of_parents (ops : List Operation) (source target : String) (n : Nat) :
    (((built ops).distance source target).1 = .ok n ↔
      ∃ i j p q, (built ops).find? source = some i ∧ (built ops).find? target = some j ∧
        (built ops).parent? i = some p ∧ (built ops).parent? j = some q ∧
        ¬ (built ops).RunsIntoCycle i ∧ ¬ (built ops).RunsIntoCycle j ∧
        (built ops).graph.Reachable i j ∧ n = (built ops).graph.dist p q) ∧
    (((built ops).distance source target).1 = .ok n ↔
      ((built ops).distance target source).1 = .ok n) := by
  have hf : (built ops).Coherent := coherent_empty.run ops
  exact ⟨hf.distance_eq_ok_iff, hf.distance_eq_ok_symm, hf.distance_eq_ok_symm⟩

/-- From a node to one above it, the way counted starts and ends one link higher. -/
example : ((built [.link "A" "B", .link "B" "C", .link "C" "D"]).distance "D" "B").1 = .ok 2 := by
  decide +kernel

end IntMachine.Forest
