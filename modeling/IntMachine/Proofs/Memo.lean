import IntMachine.Proofs.Links
/-!
# Remembered depths

A forest is coherent when its names are distinct, its parents are nodes, and
every depth it remembers counts the links to a root. Making nodes, making
links and measuring depths keep a forest coherent, and a depth measured in a
coherent forest is the one that counting the links gives (`Coherent.measure`):
what is remembered changes the way to it only.
-/

namespace IntMachine.Forest

variable {f g : Forest} {name : String} {k p q x d fuel : Nat} {cur above : Option Nat}
variable {passed passed' list : List Nat}

/-- The name of a node, if there is such a node. -/
def nameAt? (f : Forest) (k : Nat) : Option String := f.nodes[k]?.map (·.name)

/-- What the operations on a forest preserve. -/
structure Coherent (f : Forest) : Prop where
  distinct : ∀ i j, i < f.size → f.nameAt? i = f.nameAt? j → i = j
  linked : f.Linked
  exact : ∀ k d, f.depth? k = some d → f.LinksUp k d

/-- The forest with `d` remembered as the depth of node `k`. -/
def setDepth (f : Forest) (k d : Nat) : Forest :=
  ⟨f.nodes.modify k fun n => { n with depth := some d }⟩

/-! ## Forests with the same links

Two forests differ in what they remember and nothing else when they are the
same once everything is forgotten. -/

@[simp] theorem size_forget : f.forget.size = f.size := by simp [forget, size]

@[simp] theorem parent?_forget : f.forget.parent? k = f.parent? k := by
  simp [forget, parent?, Option.bind_map]

@[simp] theorem depth?_forget : f.forget.depth? k = none := by
  simp [forget, depth?, Option.bind_map]

@[simp] theorem nameAt?_forget : f.forget.nameAt? k = f.nameAt? k := by
  simp [forget, nameAt?, Function.comp_def]

@[simp] theorem forget_forget : f.forget.forget = f.forget := by
  simp [forget, Function.comp_def]

theorem size_eq (h : g.forget = f.forget) : g.size = f.size := by
  rw [← size_forget, h, size_forget]

theorem parent?_eq (h : g.forget = f.forget) : g.parent? k = f.parent? k := by
  rw [← parent?_forget, h, parent?_forget]

theorem nameAt?_eq (h : g.forget = f.forget) : g.nameAt? k = f.nameAt? k := by
  rw [← nameAt?_forget, h, nameAt?_forget]

theorem name_eq_getD : f.name k = (f.nameAt? k).getD "" := rfl

theorem name_eq (h : g.forget = f.forget) : g.name = f.name := by
  funext k
  rw [name_eq_getD, name_eq_getD, nameAt?_eq h]

/-- Counting links depends on the links only. -/
theorem LinksUp.congr (h : ∀ x, f.parent? x = g.parent? x) (hup : g.LinksUp k d) :
    f.LinksUp k d := by
  induction hup with
  | root hroot => exact .root ((h _).trans hroot)
  | link hlink _ ih => exact .link ((h _).trans hlink) ih

theorem LinksUp.of_forget_eq (h : f.forget = g.forget) (hup : g.LinksUp k d) : f.LinksUp k d :=
  hup.congr fun _ => parent?_eq h

theorem walk?_eq (h : g.forget = f.forget) : g.walk? fuel k = f.walk? fuel k := by
  induction fuel generalizing k with
  | zero => rw [Forest.walk?, Forest.walk?, parent?_eq h]
  | succ fuel ih =>
    rw [Forest.walk?, Forest.walk?, parent?_eq h]
    simp only [ih]

/-- Coherence but for the remembered depths is a matter of the links. -/
theorem Coherent.of_forget_eq (hf : f.Coherent) (h : g.forget = f.forget)
    (hexact : ∀ k d, g.depth? k = some d → f.LinksUp k d) : g.Coherent where
  distinct i j hi hij := by
    rw [size_eq h] at hi
    rw [nameAt?_eq h, nameAt?_eq h] at hij
    exact hf.distinct i j hi hij
  linked k p hp := by
    rw [size_eq h]
    rw [parent?_eq h] at hp
    exact hf.linked k p hp
  exact k d hd := (hexact k d hd).of_forget_eq h

/-- A forest may forget. -/
theorem Coherent.forget (hf : f.Coherent) : f.forget.Coherent :=
  hf.of_forget_eq forget_forget (by simp)

/-! ## Names -/

/-- **Names and numbers of nodes are inverse to each other.** -/
theorem Coherent.find?_eq_some_iff (hf : f.Coherent) :
    f.find? name = some k ↔ f.nameAt? k = some name := by
  rw [find?, Array.findIdx?_eq_some_iff_getElem]
  constructor
  · rintro ⟨hk, hname, -⟩
    simpa [nameAt?, hk] using hname
  · intro h
    obtain ⟨n, hn, rfl⟩ := Option.map_eq_some_iff.1 h
    obtain ⟨hk, rfl⟩ := Array.getElem?_eq_some_iff.1 hn
    refine ⟨hk, by simp, fun j hjk => ?_⟩
    have hj : j < f.nodes.size := hjk.trans hk
    have hne : f.nameAt? j ≠ f.nameAt? k := fun heq => hjk.ne (hf.distinct j k hj heq)
    simpa [nameAt?, hj, hk] using hne

theorem lt_size_of_find? (h : f.find? name = some k) : k < f.size := by
  obtain ⟨hk, -⟩ := Array.findIdx?_eq_some_iff_getElem.1 h
  exact hk

theorem nameAt?_ne_of_find?_eq_none (h : f.find? name = none) : f.nameAt? k ≠ some name := by
  intro hk
  obtain ⟨n, hn, rfl⟩ := Option.map_eq_some_iff.1 hk
  have hne := Array.findIdx?_eq_none_iff.1 h n (Array.mem_of_getElem? hn)
  simp at hne

theorem find?_eq (h : g.forget = f.forget) : g.find? name = f.find? name := by
  have hnames : ∀ e : Forest, e.find? name = e.forget.find? name := by
    intro e
    simp [find?, Forest.forget, Array.findIdx?_map, Function.comp_def]
  rw [hnames, h, ← hnames]

/-! ## Making nodes and links -/

/-- The forest with one more node. -/
def addNode (f : Forest) (name : String) : Forest := ⟨f.nodes.push { name }⟩

@[simp] theorem size_addNode : (f.addNode name).size = f.size + 1 := Array.size_push _

theorem nameAt?_addNode :
    (f.addNode name).nameAt? k = if k = f.size then some name else f.nameAt? k := by
  rw [nameAt?, nameAt?, size, addNode, Array.getElem?_push]
  split
  · rfl
  · rfl

theorem parent?_addNode : (f.addNode name).parent? k = f.parent? k := by
  rw [parent?, parent?, addNode, Array.getElem?_push]
  split
  · next hk => simp [hk]
  · rfl

theorem depth?_addNode : (f.addNode name).depth? k = f.depth? k := by
  rw [depth?, depth?, addNode, Array.getElem?_push]
  split
  · next hk => simp [hk]
  · rfl

/-- A node with a new name keeps a forest coherent. -/
theorem Coherent.addNode (hf : f.Coherent) (h : f.find? name = none) :
    (f.addNode name).Coherent where
  distinct i j hi hij := by
    rw [size_addNode] at hi
    rw [nameAt?_addNode, nameAt?_addNode] at hij
    split at hij <;> split at hij
    · next hik hjk => exact hik.trans hjk.symm
    · exact absurd hij.symm (nameAt?_ne_of_find?_eq_none h)
    · exact absurd hij (nameAt?_ne_of_find?_eq_none h)
    · next hik _ => exact hf.distinct i j (by omega) hij
  linked k p hp := by
    rw [parent?_addNode] at hp
    have hlt := hf.linked k p hp
    rw [size_addNode]
    omega
  exact k d hd := by
    rw [depth?_addNode] at hd
    exact (hf.exact k d hd).congr fun _ => parent?_addNode

/-- What making a node does: the forest stays coherent and grows, and the
number is the node's. -/
theorem Coherent.intern (hf : f.Coherent) (name : String) :
    (f.intern name).2.Coherent ∧ (f.intern name).1 < (f.intern name).2.size ∧
      f.size ≤ (f.intern name).2.size := by
  unfold Forest.intern
  split
  · next k hk => exact ⟨hf, lt_size_of_find? hk, Nat.le_refl _⟩
  · next h => exact ⟨hf.addNode h, by simp [size], by simp [size]⟩

theorem size_setParent : (f.setParent k p).size = f.size := Array.size_modify

theorem nameAt?_setParent : (f.setParent k p).nameAt? x = f.nameAt? x := by
  rw [nameAt?, nameAt?, setParent, Array.getElem?_modify]
  split
  · simp [Function.comp_def]
  · rfl

/-- A parent is an old one or the new one. -/
theorem parent?_setParent (h : (f.setParent k p).parent? x = some q) :
    q = p ∨ f.parent? x = some q := by
  rw [parent?, setParent, Array.getElem?_modify] at h
  split at h
  · rw [Option.bind_map, Option.bind_eq_some_iff] at h
    obtain ⟨n, -, hn⟩ := h
    exact .inl (Option.some.inj hn).symm
  · exact .inr h

theorem parent?_setParent_self (hk : k < f.size) : (f.setParent k p).parent? k = some p := by
  have hnode : f.nodes[k]? = some f.nodes[k] := Array.getElem?_eq_getElem hk
  simp [parent?, setParent, Array.getElem?_modify, hnode]

theorem parent?_setParent_of_ne (h : x ≠ k) :
    (f.setParent k p).parent? x = f.parent? x := by
  simp [parent?, setParent, Array.getElem?_modify, h.symm]

/-- A link to a node keeps a forest coherent if all is forgotten. -/
theorem Coherent.setParent (hf : f.Coherent) (hp : p < f.size) :
    (f.setParent k p).forget.Coherent where
  distinct i j hi hij := by
    rw [size_forget, size_setParent] at hi
    rw [nameAt?_forget, nameAt?_forget, nameAt?_setParent, nameAt?_setParent] at hij
    exact hf.distinct i j hi hij
  linked x q hq := by
    rw [size_forget, size_setParent]
    rw [parent?_forget] at hq
    rcases parent?_setParent hq with rfl | hold
    · exact hp
    · exact hf.linked x q hold
  exact x d hd := by simp at hd

theorem intern_forget :
    f.forget.intern name = ((f.intern name).1, (f.intern name).2.forget) := by
  rw [Forest.intern, Forest.intern, find?_eq forget_forget]
  split
  · rfl
  · simp [Forest.forget]

/-- Whether a link is made does not depend on what is remembered. -/
theorem link_forget (parent child : String) :
    (f.forget.link parent child).1 = (f.link parent child).1 := by
  simp only [Forest.link, intern_forget, parent?_forget, name_eq forget_forget]
  split
  · split <;> rfl
  · rfl

/-- A link keeps a forest coherent, made or refused. -/
theorem Coherent.link (hf : f.Coherent) (parent child : String) :
    (f.link parent child).2.Coherent := by
  have hparent := hf.intern parent
  rcases hp : f.intern parent with ⟨p, f₁⟩
  rw [hp] at hparent
  have hchild := hparent.1.intern child
  rcases hk : f₁.intern child with ⟨k, f₂⟩
  rw [hk] at hchild
  simp only [Forest.link, hp, hk]
  split
  · split
    · exact hchild.1.forget
    · exact hchild.1
  · exact hchild.1.setParent (hparent.2.1.trans_le hchild.2.2)

/-! ## Remembering -/

@[simp] theorem forget_setDepth : (f.setDepth k d).forget = f.forget := by
  refine congrArg Forest.mk (Array.ext_getElem? fun i => ?_)
  simp only [setDepth, Array.getElem?_map, Array.getElem?_modify]
  split
  · simp [Function.comp_def]
  · rfl

theorem depth?_setDepth_self (h : k < f.size) : (f.setDepth k d).depth? k = some d := by
  have hk : f.nodes[k]? = some f.nodes[k] := Array.getElem?_eq_getElem h
  simp [depth?, setDepth, Array.getElem?_modify, hk]

theorem depth?_setDepth_of_ne (h : x ≠ k) : (f.setDepth k d).depth? x = f.depth? x := by
  simp [depth?, setDepth, Array.getElem?_modify, h.symm]

theorem remember_cons :
    f.remember above (k :: list) =
      (f.setDepth k (above.elim 0 (· + 1))).remember (some (above.elim 0 (· + 1))) list := rfl

/-- A coherent forest may remember a depth that counts the links. -/
theorem Coherent.setDepth (hf : f.Coherent) (h : f.LinksUp k d) : (f.setDepth k d).Coherent := by
  refine hf.of_forget_eq forget_setDepth fun x e he => ?_
  rcases eq_or_ne x k with rfl | hne
  · rcases Nat.lt_or_ge x f.size with hx | hx
    · obtain rfl := Option.some.inj ((depth?_setDepth_self hx).symm.trans he)
      exact h
    · have hout : (f.setDepth x d).nodes.size ≤ x := by simpa [Forest.setDepth, size] using hx
      simp [depth?, Array.getElem?_eq_none hout] at he
  · rw [depth?_setDepth_of_ne hne] at he
    exact hf.exact x e he

/-- The nodes of a list are `d`, `d + 1` and so on links from a root. -/
def CountFrom (f : Forest) : (d : Nat) → List Nat → Prop
  | _, [] => True
  | d, k :: rest => (k < f.size ∧ f.LinksUp k d) ∧ CountFrom f (d + 1) rest

theorem CountFrom.of_forget_eq (h : g.forget = f.forget) (hlist : f.CountFrom d list) :
    g.CountFrom d list := by
  induction list generalizing d with
  | nil => trivial
  | cons k rest ih =>
    obtain ⟨⟨hk, hup⟩, hrest⟩ := hlist
    exact ⟨⟨(size_eq h).symm ▸ hk, hup.of_forget_eq h⟩, ih hrest⟩

/-- **What remembering does** to a coherent forest, for nodes that count from
one below the node above them: the links stay, what is remembered counts them,
and the nodes of the list remember, as do those that did before. -/
theorem remember_spec (above : Option Nat) (hf : f.Coherent)
    (hlist : f.CountFrom (above.elim 0 (· + 1)) list) :
    (f.remember above list).Coherent ∧ (f.remember above list).forget = f.forget ∧
      ∀ x, (x ∈ list ∨ (f.depth? x).isSome) → ((f.remember above list).depth? x).isSome := by
  induction list generalizing f above with
  | nil => exact ⟨hf, rfl, fun x hx => by simpa [remember] using hx⟩
  | cons k rest ih =>
    obtain ⟨⟨hk, hup⟩, hrest⟩ := hlist
    obtain ⟨hcoherent, hlinks, hknown⟩ :=
      ih (some (above.elim 0 (· + 1))) (hf.setDepth hup) (hrest.of_forget_eq forget_setDepth)
    rw [remember_cons]
    refine ⟨hcoherent, hlinks.trans forget_setDepth, fun x hx => hknown x ?_⟩
    rcases eq_or_ne x k with rfl | hne
    · exact .inr (by rw [depth?_setDepth_self hk]; rfl)
    · rw [depth?_setDepth_of_ne hne]
      simpa [hne] using hx

/-! ## Climbing -/

/-- **Where a climb ends, counting starts**: the passed nodes, the last first,
count from one below the remembered depth, or from zero at a root. The
invariant of the climb is that they would count from wherever the children of
the current node do. -/
theorem countFrom_of_climb (hf : f.Coherent)
    (h : f.climb fuel cur passed = some (passed', above))
    (hcur : ∀ k, cur = some k → k < f.size)
    (hpassed : ∀ d, (∀ x, f.parent? x = cur → f.LinksUp x d) → f.CountFrom d passed) :
    f.CountFrom (above.elim 0 (· + 1)) passed' := by
  fun_induction climb f fuel cur passed with
  | case1 fuel passed =>
    obtain ⟨rfl, rfl⟩ : passed = passed' ∧ none = above := by simpa using h
    exact hpassed 0 fun x hx => .root hx
  | case2 fuel k passed d hd =>
    obtain ⟨rfl, rfl⟩ : passed = passed' ∧ some d = above := by simpa using h
    exact hpassed (d + 1) fun x hx => .link hx (hf.exact k d hd)
  | case3 k passed hd => simp at h
  | case4 k passed hd fuel ih =>
    refine ih h (fun p hp => hf.linked k p hp) fun d hchildren => ?_
    -- the nodes below `k` are one link further from the root than `k`
    have hup : f.LinksUp k d := hchildren k rfl
    exact ⟨⟨hcur k rfl, hup⟩, hpassed (d + 1) fun x hx => .link hx hup⟩

/-- A climb keeps the nodes it has passed. -/
theorem mem_of_climb (h : f.climb fuel cur passed = some (passed', above)) (hx : x ∈ passed) :
    x ∈ passed' := by
  fun_induction climb f fuel cur passed with
  | case1 fuel passed =>
    obtain ⟨rfl, -⟩ : passed = passed' ∧ none = above := by simpa using h
    exact hx
  | case2 fuel k passed d hd =>
    obtain ⟨rfl, -⟩ : passed = passed' ∧ some d = above := by simpa using h
    exact hx
  | case3 k passed hd => simp at h
  | case4 k passed hd fuel ih => exact ih h (List.mem_cons_of_mem k hx)

/-- The node a climb starts from is passed unless it remembers. -/
theorem start_of_climb (h : f.climb fuel (some k) passed = some (passed', above)) :
    k ∈ passed' ∨ (f.depth? k).isSome := by
  rw [climb.eq_def] at h
  cases hd : f.depth? k with
  | some d => exact .inr rfl
  | none =>
    simp only [hd] at h
    cases fuel with
    | zero => simp at h
    | succ fuel => exact .inl (mem_of_climb h List.mem_cons_self)

/-- **A climb with a root above comes to an end**: it passes no more nodes than
there are links, and one. -/
theorem LinksUp.climb (h : f.LinksUp k d) (passed : List Nat) (hfuel : d < fuel) :
    (f.climb fuel (some k) passed).isSome := by
  induction h generalizing fuel passed with
  | @root k hroot =>
    obtain ⟨fuel, rfl⟩ := Nat.exists_eq_add_one_of_ne_zero (by omega : fuel ≠ 0)
    rw [Forest.climb, hroot]
    split <;> simp [Forest.climb]
  | @link k p d hlink _ ih =>
    obtain ⟨fuel, rfl⟩ := Nat.exists_eq_add_one_of_ne_zero (by omega : fuel ≠ 0)
    rw [Forest.climb, hlink]
    split
    · rfl
    · exact ih _ (by omega)

/-! ## Measuring -/

/-- The nodes above node `k`, the nearest first, found without what the forest
remembers. -/
def pathUp (f : Forest) (k : Nat) : Except ForestError (List Nat) :=
  match f.walk? f.size k with
  | some as => .ok as
  | none => .error (.cycle (f.name k))

theorem pathUp_eq (h : g.forget = f.forget) : g.pathUp = f.pathUp := by
  funext k
  rw [pathUp, pathUp, size_eq h, walk?_eq h, name_eq h]

theorem pathUp_eq_ok_iff : f.pathUp k = .ok list ↔ f.walk? f.size k = some list := by
  rw [pathUp]
  split
  · next as has => rw [has, Except.ok.injEq, Option.some.injEq]
  · next hnone => simp [hnone]

/-- A forest was asked, stays coherent with the links it had, and the answer is
the given one. -/
structure Faithful {α : Type} (f : Forest) (result : α × Forest) (answer : α) : Prop where
  coherent : result.2.Coherent
  links : result.2.forget = f.forget
  answer_eq : result.1 = answer

theorem Faithful.eq {α : Type} {result : α × Forest} {answer : α}
    (h : Faithful f result answer) : result = (answer, result.2) := Prod.ext h.answer_eq rfl

/-- What is asked after links that did not change is asked of the same links. -/
theorem Faithful.of_forget_eq {α : Type} {result : α × Forest} {answer : α}
    (h : Faithful g result answer) (hlinks : g.forget = f.forget) : Faithful f result answer :=
  ⟨h.coherent, h.links.trans hlinks, h.answer_eq⟩

theorem Faithful.map {α β : Type} {result : α × Forest} {answer : α}
    (h : Faithful f result answer) (report : α → β) :
    Faithful f (result.map report id) (report answer) :=
  ⟨h.coherent, h.links, congrArg report h.answer_eq⟩

/-- **What measuring does** to a coherent forest: the depth is the length of
the path up, or there is no root above. -/
theorem Coherent.measure (hf : f.Coherent) (hk : k < f.size) :
    Faithful f (f.measure k) ((f.pathUp k).map List.length) := by
  have hroot := walk?_size_isSome_iff hf.linked hk
  cases hclimb : f.climb f.size (some k) [] with
  | none =>
    -- a root above would have ended the climb
    have hcycle : f.walk? f.size k = none := by
      rw [← Option.not_isSome_iff_eq_none, hroot]
      rintro ⟨d, hup⟩
      have hends := hup.climb [] (hup.lt_size hf.linked hk)
      simp [hclimb] at hends
    rw [Forest.measure, hclimb, pathUp, hcycle]
    exact ⟨hf, rfl, rfl⟩
  | some result =>
    -- the climb ended, so the node remembers now, and what it remembers is exact
    obtain ⟨passed, above⟩ := result
    have hcount := countFrom_of_climb hf hclimb (by rintro _ ⟨⟩; exact hk) fun _ _ => trivial
    obtain ⟨hcoherent, hlinks, hknown⟩ := remember_spec above hf hcount
    obtain ⟨d, hd⟩ := Option.isSome_iff_exists.1 (hknown k (start_of_climb hclimb))
    have hup : f.LinksUp k d := (hcoherent.exact k d hd).of_forget_eq hlinks.symm
    obtain ⟨as, has⟩ := Option.isSome_iff_exists.1 (hroot.2 ⟨d, hup⟩)
    obtain rfl := (walk?_spec has).1.unique hup
    rw [Forest.measure, hclimb, pathUp, has]
    exact ⟨hcoherent, hlinks, by simp [hd, Except.map]⟩

end IntMachine.Forest
