import IntMachine.Proofs.Kinship
/-!
# Forests built in another order

A forest that was built without a refused link has the names that were mentioned,
and the parents that were given (`mem_names_run_iff`, `parentOf_run_iff`); and no link
is refused if none gives a node a second parent (`accepts_iff`). Neither depends on
the order of the links, nor on queries in between, so neither do the answers
(`order_does_not_show`).
-/

namespace IntMachine.Forest

variable {f : Forest} {x y name parent child : String} {k p : Nat}
variable {ops ops' : List Operation} {op : Operation}

/-! ## Making nodes and links, by name -/

theorem mem_names_addNode_iff : x ∈ (f.addNode name).names ↔ x ∈ f.names ∨ x = name := by
  simp [names, addNode]

theorem lt_size_of_parent? (h : f.parent? k = some p) : k < f.size :=
  Above.lt_size (Relation.TransGen.single h)

theorem Coherent.parentOf_addNode (hf : f.Coherent) (h : f.find? name = none) :
    (f.addNode name).parentOf x = f.parentOf x := by
  refine Option.ext fun y => ?_
  rw [(hf.addNode h).parentOf_eq_some_iff, hf.parentOf_eq_some_iff]
  refine exists₂_congr fun k p => ?_
  rw [parent?_addNode, nameAt?_addNode, nameAt?_addNode]
  by_cases hp : f.parent? k = some p
  · -- neither end of a link is the node that is new
    rw [if_neg (lt_size_of_parent? hp).ne, if_neg (hf.linked k p hp).ne]
  · simp [hp]

/-- The forest has become another one in which node `k` has the name; no name has
changed its number or its parent. -/
structure Interned (f : Forest) (name : String) (k : Nat) (g : Forest) : Prop where
  coherent : g.Coherent
  nameAt?_eq : g.nameAt? k = some name
  nameAt?_mono : ∀ j x, f.nameAt? j = some x → g.nameAt? j = some x
  mem_names_iff : ∀ x, x ∈ g.names ↔ x ∈ f.names ∨ x = name
  parentOf_eq : ∀ x, g.parentOf x = f.parentOf x

theorem Coherent.interned (hf : f.Coherent) (name : String) :
    Interned f name (f.intern name).1 (f.intern name).2 := by
  unfold Forest.intern
  split
  · rename_i k hk
    have hname := hf.find?_eq_some_iff.1 hk
    refine ⟨hf, hname, fun _ _ h => h, fun x => (or_iff_left_of_imp ?_).symm, fun _ => rfl⟩
    rintro rfl
    exact Forest.mem_names_iff.2 ⟨k, hname⟩
  · rename_i hnone
    refine ⟨hf.addNode hnone, ?_, fun j x hj => ?_, fun x => mem_names_addNode_iff,
      fun x => hf.parentOf_addNode hnone⟩
    · exact (nameAt?_addNode (f := f)).trans (if_pos rfl)
    · exact (nameAt?_addNode (f := f)).trans (by rwa [if_neg (lt_size_of_nameAt? hj).ne])

theorem names_setParent : (f.setParent k p).forget.names = f.names := by
  refine List.ext_getElem? fun j => ?_
  rw [getElem?_names, getElem?_names, nameAt?_forget, nameAt?_setParent]

theorem Coherent.parentOf_setParent (hf : f.Coherent) (hk : f.nameAt? k = some child)
    (hp : f.nameAt? p = some parent) :
    (f.setParent k p).forget.parentOf x = if x = child then some parent else f.parentOf x := by
  have hg := hf.setParent (k := k) (lt_size_of_nameAt? hp)
  have hnames : (f.setParent k p).forget.nameAt? = f.nameAt? :=
    funext fun j => by rw [nameAt?_forget, nameAt?_setParent]
  have hfind : (f.setParent k p).forget.find? x = f.find? x :=
    Option.ext fun j => by rw [hg.find?_eq_some_iff, hf.find?_eq_some_iff, hnames]
  rw [parentOf, hfind, hnames]
  split
  · rename_i heq
    rw [heq, hf.find?_eq_some_iff.2 hk, Option.bind_some, parent?_forget,
      parent?_setParent_self (lt_size_of_nameAt? hk), Option.bind_some, hp]
  · rename_i hne
    rw [parentOf]
    refine Option.bind_congr fun j hj => ?_
    have hjk : j ≠ k := by
      rintro rfl
      exact hne (Option.some.inj ((hf.find?_eq_some_iff.1 hj).symm.trans hk))
    rw [parent?_forget, parent?_setParent_of_ne hjk]

/-- Puts node `k`, which has a name, below node `p`: what a link does once both nodes
are there. -/
def attach (f : Forest) (k p : Nat) (child : String) : Except ForestError Unit × Forest :=
  match f.parent? k with
  | some q =>
    if q = p then (.ok (), f.forget) else (.error (.secondParent child (f.name q)), f)
  | none => (.ok (), (f.setParent k p).forget)

theorem link_eq (f : Forest) (parent child : String) :
    f.link parent child =
      ((f.intern parent).2.intern child).2.attach ((f.intern parent).2.intern child).1
        (f.intern parent).1 child := rfl

theorem names_attach : (f.attach k p child).2.names = f.names := by
  unfold attach
  split
  · split
    · exact names_eq_of_forget_eq forget_forget
    · rfl
  · exact names_setParent

/-- **A node is attached if it has no other parent.** -/
theorem Coherent.attach_eq_ok_iff (hf : f.Coherent) (hk : f.nameAt? k = some child)
    (hp : f.nameAt? p = some parent) :
    (f.attach k p child).1 = .ok () ↔ ∀ y, f.parentOf child = some y → y = parent := by
  rw [hf.parentOf_eq hk, attach]
  cases hq : f.parent? k with
  | none => simp
  | some q =>
    have hsame : f.name q = parent ↔ q = p := by
      have hqname := exists_nameAt? (hf.linked k q hq)
      constructor
      · rintro rfl
        exact hf.distinct q p (hf.linked k q hq) (hqname.trans hp.symm)
      · rintro rfl
        exact Option.some.inj (hqname.symm.trans hp)
    rcases eq_or_ne q p with rfl | hne
    · simp [hsame]
    · simp [hne, hsame]

theorem Coherent.parentOf_attach (hf : f.Coherent) (hk : f.nameAt? k = some child)
    (hp : f.nameAt? p = some parent) (hok : (f.attach k p child).1 = .ok ()) :
    (f.attach k p child).2.parentOf x = some y ↔
      f.parentOf x = some y ∨ x = child ∧ y = parent := by
  have hfits := (hf.attach_eq_ok_iff hk hp).1 hok
  have hold := hf.parentOf_eq hk
  unfold attach at hok ⊢
  cases hq : f.parent? k with
  | none =>
    rw [hq, Option.map_none] at hold
    dsimp only
    rw [hf.parentOf_setParent hk hp]
    split
    · rename_i heq
      simp [heq, hold, eq_comm]
    · rename_i hne
      simp [hne]
  | some q =>
    rw [hq, Option.map_some] at hold
    have hgiven : f.parentOf child = some parent := by rw [hold, hfits _ hold]
    by_cases hqp : q = p
    · dsimp only
      rw [if_pos hqp, (Akin.of_forget_eq forget_forget).parentOf_eq]
      refine (or_iff_left_of_imp ?_).symm
      rintro ⟨rfl, rfl⟩
      exact hgiven
    · simp [hq, hqp] at hok

/-- **What a link does**, by name. It is refused if the lower node has another parent,
and makes the nodes nonetheless. -/
structure Linking (f : Forest) (parent child : String)
    (result : Except ForestError Unit × Forest) : Prop where
  mem_names_iff : ∀ x, x ∈ result.2.names ↔ x ∈ f.names ∨ x = parent ∨ x = child
  eq_ok_iff : result.1 = .ok () ↔ ∀ y, f.parentOf child = some y → y = parent
  parentOf_iff : result.1 = .ok () → ∀ x y, result.2.parentOf x = some y ↔
    f.parentOf x = some y ∨ x = child ∧ y = parent

theorem Coherent.linking (hf : f.Coherent) (parent child : String) :
    Linking f parent child (f.link parent child) := by
  have hupper := hf.interned parent
  have hlower := hupper.coherent.interned child
  have hchild := hlower.nameAt?_eq
  have hparent := hlower.nameAt?_mono _ _ hupper.nameAt?_eq
  have hparents : ∀ x, ((f.intern parent).2.intern child).2.parentOf x = f.parentOf x := fun x =>
    (hlower.parentOf_eq x).trans (hupper.parentOf_eq x)
  rw [link_eq]
  refine ⟨fun x => ?_, ?_, fun hok x y => ?_⟩
  · rw [names_attach, hlower.mem_names_iff, hupper.mem_names_iff, or_assoc]
  · rw [hlower.coherent.attach_eq_ok_iff hchild hparent, hparents]
  · rw [hlower.coherent.parentOf_attach hchild hparent hok, hparents]

/-! ## What operations build -/

/-- The operation mentions the name, so that a node is made for it. -/
def Operation.Mentions (x : String) : Operation → Prop
  | .node name => x = name
  | .link parent child => x = parent ∨ x = child
  | .ask _ => False

/-- The operation is not a link that is refused. -/
def Operation.Succeeds (f : Forest) : Operation → Prop
  | .link parent child => (f.link parent child).1 = .ok ()
  | .node _ | .ask _ => True

/-- None of the operations is a link that is refused when its turn comes. -/
def Accepts (f : Forest) : List Operation → Prop
  | [] => True
  | op :: rest => op.Succeeds f ∧ (op.perform f).Accepts rest

instance (f : Forest) : (op : Operation) → Decidable (op.Succeeds f)
  | .link parent child => inferInstanceAs (Decidable ((f.link parent child).1 = .ok ()))
  | .node _ | .ask _ => inferInstanceAs (Decidable True)

instance decidableAccepts : (f : Forest) → (ops : List Operation) → Decidable (f.Accepts ops)
  | _, [] => inferInstanceAs (Decidable True)
  | f, op :: rest =>
    have := decidableAccepts (op.perform f) rest
    inferInstanceAs (Decidable (op.Succeeds f ∧ (op.perform f).Accepts rest))

/-- The operations that a forest is built by: all but the queries. -/
def changes (ops : List Operation) : List Operation :=
  ops.filter fun
    | .ask _ => false
    | _ => true

/-- The node has the parent, or one of the operations puts it below it. -/
def Assigns (f : Forest) (ops : List Operation) (x y : String) : Prop :=
  f.parentOf x = some y ∨ .link y x ∈ ops

theorem Coherent.mem_names_perform_iff (hf : f.Coherent) :
    x ∈ (op.perform f).names ↔ x ∈ f.names ∨ op.Mentions x := by
  cases op with
  | node name => exact (hf.interned name).mem_names_iff x
  | link parent child => exact (hf.linking parent child).mem_names_iff x
  | ask q =>
    rw [Operation.perform, names_eq_of_forget_eq (hf.ask q).links]
    simp [Operation.Mentions]

theorem Coherent.assigns_perform_iff (hf : f.Coherent) (hop : op.Succeeds f) :
    (op.perform f).Assigns ops x y ↔ f.Assigns (op :: ops) x y := by
  unfold Assigns
  cases op with
  | node name =>
    rw [Operation.perform, (hf.interned name).parentOf_eq]
    simp
  | link parent child =>
    have hlink : (Operation.perform f (.link parent child)).parentOf x = some y ↔
        f.parentOf x = some y ∨ x = child ∧ y = parent :=
      (hf.linking parent child).parentOf_iff hop x y
    rw [hlink, List.mem_cons, Operation.link.injEq, or_assoc, and_comm]
  | ask q =>
    rw [Operation.perform, (Akin.of_forget_eq (hf.ask q).links).parentOf_eq]
    simp

/-- **A forest has the names that were mentioned.** -/
theorem Coherent.mem_names_run_iff (hf : f.Coherent) :
    x ∈ (ops.foldl Operation.perform f).names ↔ x ∈ f.names ∨ ∃ op ∈ ops, op.Mentions x := by
  induction ops generalizing f with
  | nil => simp
  | cons op rest ih =>
    rw [List.foldl_cons, ih (hf.perform op), hf.mem_names_perform_iff, or_assoc]
    simp

/-- **Where no link is refused, a node has the parent it was put below.** -/
theorem Coherent.parentOf_run_iff (hf : f.Coherent) (hops : f.Accepts ops) :
    (ops.foldl Operation.perform f).parentOf x = some y ↔ f.Assigns ops x y := by
  induction ops generalizing f with
  | nil => simp [Assigns]
  | cons op rest ih =>
    obtain ⟨hop, hrest⟩ := hops
    rw [List.foldl_cons, ih (hf.perform op) hrest, hf.assigns_perform_iff hop]

/-- **No link is refused if no node gets two parents.** -/
theorem Coherent.accepts_iff (hf : f.Coherent) :
    f.Accepts ops ↔ ∀ x y z, f.Assigns ops x y → f.Assigns ops x z → y = z := by
  induction ops generalizing f with
  | nil =>
    refine iff_of_true trivial fun x y z hy hz => ?_
    have hone : f.parentOf x = some y := by simpa [Assigns] using hy
    have hother : f.parentOf x = some z := by simpa [Assigns] using hz
    exact Option.some.inj (hone.symm.trans hother)
  | cons op rest ih =>
    have hrest : op.Succeeds f → ((op.perform f).Accepts rest ↔
        ∀ x y z, f.Assigns (op :: rest) x y → f.Assigns (op :: rest) x z → y = z) := by
      intro hop
      rw [ih (hf.perform op)]
      simp only [hf.assigns_perform_iff hop]
    refine ⟨fun h => (hrest h.1).1 h.2, fun h => ?_⟩
    have hop : op.Succeeds f := by
      cases op with
      | node | ask => trivial
      | link parent child =>
        -- an older parent of the lower node is assigned as well as the new one
        refine (hf.linking parent child).eq_ok_iff.2 fun y hy => ?_
        exact h child y parent (.inl hy) (.inr List.mem_cons_self)
    exact ⟨hop, (hrest hop).2 h⟩

/-! ## Orders -/

theorem mem_changes_iff : op ∈ changes ops ↔ op ∈ ops ∧ ∀ q, op ≠ .ask q := by
  cases op <;> simp [changes]

theorem exists_mentions_iff (ops : List Operation) :
    (∃ op ∈ ops, op.Mentions x) ↔ ∃ op ∈ changes ops, op.Mentions x := by
  constructor
  · rintro ⟨op, hop, hx⟩
    refine ⟨op, mem_changes_iff.2 ⟨hop, ?_⟩, hx⟩
    rintro q rfl
    exact hx
  · rintro ⟨op, hop, hx⟩
    exact ⟨op, (mem_changes_iff.1 hop).1, hx⟩

/-- What is assigned is the same in every order. -/
theorem assigns_iff_of_perm (hperm : (changes ops).Perm (changes ops')) :
    f.Assigns ops x y ↔ f.Assigns ops' x y := by
  have hmem := hperm.mem_iff (a := .link y x)
  simp only [mem_changes_iff] at hmem
  simpa [Assigns] using or_congr_right (a := f.parentOf x = some y) hmem

theorem accepts_of_perm (hperm : (changes ops).Perm (changes ops')) (hops : empty.Accepts ops) :
    empty.Accepts ops' := by
  rw [coherent_empty.accepts_iff] at hops ⊢
  simpa only [assigns_iff_of_perm hperm] using hops

/-- **Forests built in two orders are akin.** -/
theorem akin_of_perm (hperm : (changes ops).Perm (changes ops')) (hops : empty.Accepts ops) :
    (built ops).Akin (built ops') where
  contains_eq x := by
    rw [Bool.eq_iff_iff, contains_iff_mem_names, contains_iff_mem_names, built, built,
      coherent_empty.mem_names_run_iff, coherent_empty.mem_names_run_iff,
      exists_mentions_iff ops, exists_mentions_iff ops']
    simp only [hperm.mem_iff]
  parentOf_eq x := by
    refine Option.ext fun y => ?_
    rw [built, built, coherent_empty.parentOf_run_iff hops,
      coherent_empty.parentOf_run_iff (accepts_of_perm hperm hops), assigns_iff_of_perm hperm]

/-- **The order of links does not show.** Take two lists of operations on the empty
forest that differ in the order of the nodes and links they make, and in the queries
asked in between. If no link of the first is refused, none of the second is. Then
every query gets the same answer from both forests, value or error; only where the
sum of all depths meets a cycle may each name another node on one. -/
theorem order_does_not_show (hperm : (changes ops).Perm (changes ops'))
    (hops : empty.Accepts ops) :
    empty.Accepts ops' ∧ ∀ q : Query,
      (q.ask (built ops)).1 = (q.ask (built ops')).1 ∨
        q = .depthSum ∧ ∃ y z, (q.ask (built ops)).1 = .number (.error (.cycle y)) ∧
          (q.ask (built ops')).1 = .number (.error (.cycle z)) :=
  ⟨accepts_of_perm hperm hops,
    (akin_of_perm hperm hops).ask (coherent_empty.run ops) (coherent_empty.run ops')⟩

/-- A chain of two links, made from the top and from the bottom, with a query in
between that meets an unknown name. -/
theorem a_chain_in_two_orders :
    empty.Accepts [.link "B" "C", .ask (.depth "A"), .link "A" "B"] ∧
      (Query.ask (built [.link "B" "C", .ask (.depth "A"), .link "A" "B"]) .depthSum).1 =
        .number (.ok 3) ∧
      (Query.ask (built [.link "B" "C", .ask (.depth "A"), .link "A" "B"]) (.ancestors "C")).1 =
        .names (.ok ["B", "A"]) := by
  have hperm : (changes [.link "A" "B", .link "B" "C"]).Perm
      (changes [.link "B" "C", .ask (.depth "A"), .link "A" "B"]) := List.Perm.swap ..
  have hops : empty.Accepts [.link "A" "B", .link "B" "C"] := by decide +kernel
  have hsum : (Query.ask (built [.link "A" "B", .link "B" "C"]) .depthSum).1 =
      .number (.ok 3) := by decide +kernel
  have habove : (Query.ask (built [.link "A" "B", .link "B" "C"]) (.ancestors "C")).1 =
      .names (.ok ["B", "A"]) := by decide +kernel
  obtain ⟨haccepts, hanswers⟩ := order_does_not_show hperm hops
  refine ⟨haccepts, ?_, ?_⟩
  · rcases hanswers .depthSum with hsame | ⟨-, y, z, hcycle, -⟩
    · rw [← hsame, hsum]
    · simp [hsum] at hcycle
  · rcases hanswers (.ancestors "C") with hsame | ⟨hquery, -⟩
    · rw [← hsame, habove]
    · cases hquery

end IntMachine.Forest
