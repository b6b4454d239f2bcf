import IntMachine.Proofs.Queries
/-!
# Forests by name

Two forests may number the same nodes differently. They are akin when they have
the same names, and every name has the same parent in both (`Akin`). Then the same
names stand above each name, so every query gets the same answer from both; only
where the sum of all depths meets a cycle may each name another node on one
(`Akin.ask`).
-/

namespace IntMachine.Forest

variable {f g : Forest} {x y name : String} {j k p fuel n : Nat} {list : List Nat}
variable {paths : List (List Nat)} {e : ForestError}

/-! ## Names and parents -/

/-- The names of the nodes, in the order of their numbers. -/
def names (f : Forest) : List String := f.nodes.toList.map (·.name)

/-- The name of the parent of the node with a name. -/
def parentOf (f : Forest) (x : String) : Option String :=
  (f.find? x).bind fun k => (f.parent? k).bind f.nameAt?

@[simp] theorem length_names : f.names.length = f.size := by simp [names, size]

theorem getElem?_names : f.names[k]? = f.nameAt? k := by simp [names, nameAt?]

theorem mem_names_iff : x ∈ f.names ↔ ∃ k, f.nameAt? k = some x := by
  simp [List.mem_iff_getElem?, getElem?_names]

theorem lt_size_of_nameAt? (h : f.nameAt? k = some x) : k < f.size := by
  rw [← getElem?_names, List.getElem?_eq_some_iff] at h
  obtain ⟨hk, -⟩ := h
  rwa [length_names] at hk

theorem exists_nameAt? (hk : k < f.size) : f.nameAt? k = some (f.name k) := by
  have hnode : f.nodes[k]? = some f.nodes[k] := Array.getElem?_eq_getElem hk
  simp [nameAt?, name, hnode]

theorem names_eq_map : f.names = (List.range f.size).map f.name := by
  refine List.ext_getElem? fun k => ?_
  rw [getElem?_names, List.getElem?_map]
  rcases Nat.lt_or_ge k f.size with hk | hk
  · rw [exists_nameAt? hk, List.getElem?_range hk, Option.map_some]
  · have hnone : f.nodes[k]? = none := Array.getElem?_eq_none hk
    simp [nameAt?, hnone, hk]

theorem contains_iff_mem_names : f.contains x ↔ x ∈ f.names := by
  simp [contains, find?, names, Array.mem_iff_getElem]

/-- **A forest holds each name once.** -/
theorem Coherent.nodup_names (hf : f.Coherent) : f.names.Nodup := by
  rw [List.nodup_iff_getElem?_ne_getElem?]
  intro i j hij hj hsame
  rw [getElem?_names, getElem?_names] at hsame
  rw [length_names] at hj
  exact hij.ne (hf.distinct i j (hij.trans hj) hsame)

/-- **A parent by name is a parent link.** -/
theorem Coherent.parentOf_eq_some_iff (hf : f.Coherent) :
    f.parentOf x = some y ↔
      ∃ k p, f.nameAt? k = some x ∧ f.parent? k = some p ∧ f.nameAt? p = some y := by
  simp only [parentOf, Option.bind_eq_some_iff, hf.find?_eq_some_iff]
  constructor
  · rintro ⟨k, hk, p, hp, hy⟩
    exact ⟨k, p, hk, hp, hy⟩
  · rintro ⟨k, p, hk, hp, hy⟩
    exact ⟨k, hk, p, hp, hy⟩

theorem Coherent.parentOf_eq (hf : f.Coherent) (hk : f.nameAt? k = some x) :
    f.parentOf x = (f.parent? k).map f.name := by
  rw [parentOf, hf.find?_eq_some_iff.2 hk, Option.bind_some]
  cases hp : f.parent? k with
  | none => rfl
  | some p => rw [Option.bind_some, Option.map_some, exists_nameAt? (hf.linked k p hp)]

/-! ## Forests that are akin -/

/-- The forests have the same names, with the same parents. -/
structure Akin (f g : Forest) : Prop where
  contains_eq : ∀ x, f.contains x = g.contains x
  parentOf_eq : ∀ x, f.parentOf x = g.parentOf x

theorem names_eq_of_forget_eq (h : g.forget = f.forget) : g.names = f.names := by
  refine List.ext_getElem? fun k => ?_
  rw [getElem?_names, getElem?_names, nameAt?_eq h]

theorem Akin.of_forget_eq (h : g.forget = f.forget) : g.Akin f where
  contains_eq x := by rw [contains, contains, find?_eq h]
  parentOf_eq x := by
    have hparents : ∀ k, (g.parent? k).bind g.nameAt? = (f.parent? k).bind f.nameAt? := by
      intro k
      rw [parent?_eq h]
      exact congrArg _ (funext fun p => nameAt?_eq h)
    rw [parentOf, parentOf, find?_eq h]
    exact congrArg _ (funext hparents)

theorem Akin.perm_names (h : f.Akin g) (hf : f.Coherent) (hg : g.Coherent) :
    f.names.Perm g.names := by
  rw [List.perm_ext_iff_of_nodup hf.nodup_names hg.nodup_names]
  intro x
  rw [← contains_iff_mem_names, ← contains_iff_mem_names, h.contains_eq]

theorem Akin.size_eq (h : f.Akin g) (hf : f.Coherent) (hg : g.Coherent) : f.size = g.size := by
  rw [← length_names, ← length_names, (h.perm_names hf hg).length_eq]

/-- Nodes with one name are both roots, or have parents with one name. -/
theorem Akin.parent?_cases (h : f.Akin g) (hf : f.Coherent) (hg : g.Coherent)
    (hk : f.nameAt? k = some x) (hj : g.nameAt? j = some x) :
    f.parent? k = none ∧ g.parent? j = none ∨
      ∃ p q y, f.parent? k = some p ∧ g.parent? j = some q ∧
        f.nameAt? p = some y ∧ g.nameAt? q = some y := by
  have hparents : (f.parent? k).map f.name = (g.parent? j).map g.name := by
    rw [← hf.parentOf_eq hk, h.parentOf_eq, hg.parentOf_eq hj]
  cases hp : f.parent? k with
  | none => exact .inl ⟨rfl, by simpa [hp, eq_comm] using hparents⟩
  | some p =>
    cases hq : g.parent? j with
    | none => simp [hp, hq] at hparents
    | some q =>
      have hname : f.name p = g.name q := by simpa [hp, hq] using hparents
      refine .inr ⟨p, q, f.name p, rfl, rfl, exists_nameAt? (hf.linked k p hp), ?_⟩
      rw [hname]
      exact exists_nameAt? (hg.linked j q hq)

/-- **Walks up from one name pass the same names.** -/
theorem Akin.walk?_eq (h : f.Akin g) (hf : f.Coherent) (hg : g.Coherent)
    (hk : f.nameAt? k = some x) (hj : g.nameAt? j = some x) :
    (f.walk? fuel k).map (·.map f.name) = (g.walk? fuel j).map (·.map g.name) := by
  induction fuel generalizing k j x with
  | zero =>
    rcases h.parent?_cases hf hg hk hj with ⟨hp, hq⟩ | ⟨p, q, y, hp, hq, -, -⟩
    · rw [walk?_of_root hp, walk?_of_root hq, Option.map_some, Option.map_some]
      rfl
    · simp [Forest.walk?, hp, hq]
  | succ fuel ih =>
    rcases h.parent?_cases hf hg hk hj with ⟨hp, hq⟩ | ⟨p, q, y, hp, hq, hpname, hqname⟩
    · rw [walk?_of_root hp, walk?_of_root hq, Option.map_some, Option.map_some]
      rfl
    · have hsame : f.name p = g.name q := by
        rw [name_eq_getD, name_eq_getD, hpname, hqname]
      have hpush : ∀ (e : Forest) (r : Nat) (found : Option (List Nat)),
          (found.map (r :: ·)).map (·.map e.name) =
            (found.map (·.map e.name)).map (e.name r :: ·) := by
        intro e r found
        cases found <;> rfl
      rw [walk?_of_link hp, walk?_of_link hq, hpush, hpush, ih hpname hqname, hsame]

theorem Akin.find?_cases (h : f.Akin g) (hf : f.Coherent) (hg : g.Coherent) (x : String) :
    f.find? x = none ∧ g.find? x = none ∨
      ∃ k j, f.find? x = some k ∧ g.find? x = some j ∧
        f.nameAt? k = some x ∧ g.nameAt? j = some x := by
  have hboth := h.contains_eq x
  unfold contains at hboth
  cases hk : f.find? x with
  | none =>
    rw [hk] at hboth
    exact .inl ⟨rfl, by simpa using hboth.symm⟩
  | some k =>
    rw [hk] at hboth
    obtain ⟨j, hj⟩ := Option.isSome_iff_exists.1 hboth.symm
    exact .inr ⟨k, j, rfl, hj, hf.find?_eq_some_iff.1 hk, hg.find?_eq_some_iff.1 hj⟩

theorem pathUp_map_eq (hk : f.nameAt? k = some x) :
    (f.pathUp k).map (·.map f.name) =
      match (f.walk? f.size k).map (·.map f.name) with
      | some names => .ok names
      | none => .error (.cycle x) := by
  rw [pathUp]
  cases f.walk? f.size k with
  | some as => rfl
  | none => simp [name_eq_getD, hk, Except.map]

/-- **The same names stand above a name.** -/
theorem Akin.ancestorsUp (h : f.Akin g) (hf : f.Coherent) (hg : g.Coherent) (x : String) :
    f.ancestorsUp x = g.ancestorsUp x := by
  unfold Forest.ancestorsUp
  rcases h.find?_cases hf hg x with ⟨hk, hj⟩ | ⟨k, j, hk, hj, hkname, hjname⟩
  · rw [hk, hj]
  · rw [hk, hj]
    dsimp only
    rw [pathUp_map_eq hkname, pathUp_map_eq hjname, h.size_eq hf hg, h.walk?_eq hf hg hkname hjname]

theorem Akin.distanceUp (h : f.Akin g) (hf : f.Coherent) (hg : g.Coherent)
    (source target : String) : f.distanceUp source target = g.distanceUp source target := by
  unfold Forest.distanceUp
  rw [h.ancestorsUp hf hg, h.ancestorsUp hf hg]

/-! ## Sums over names -/

/-- How many names stand above a name; none if no root does. -/
def height (f : Forest) (x : String) : Nat :=
  match f.ancestorsUp x with
  | .ok as => as.length
  | .error _ => 0

theorem ancestorsUp_name (hf : f.Coherent) (hk : k < f.size) :
    f.ancestorsUp (f.name k) = (f.pathUp k).map (·.map f.name) := by
  rw [ancestorsUp, hf.find?_eq_some_iff.2 (exists_nameAt? hk)]

theorem height_name (hf : f.Coherent) (hk : k < f.size) :
    f.height (f.name k) = (f.pathOf k).length := by
  rw [height, ancestorsUp_name hf hk, pathUp, pathOf]
  cases f.walk? f.size k <;> simp [Except.map]

theorem mapM_pathUp_eq_ok_iff : list.mapM f.pathUp = .ok paths ↔
    paths = list.map f.pathOf ∧ ∀ k ∈ list, (f.walk? f.size k).isSome := by
  refine ⟨paths_of_mapM, ?_⟩
  rintro ⟨rfl, hroots⟩
  induction list with
  | nil => rfl
  | cons k rest ih =>
    obtain ⟨as, has⟩ := Option.isSome_iff_exists.1 (hroots k List.mem_cons_self)
    rw [List.mapM_cons, pathUp_eq_ok_iff.2 has, ih fun x hx => hroots x (List.mem_cons_of_mem k hx)]
    simp [pathOf, has, bind, Except.bind, pure, Except.pure]

theorem exists_cycle_of_mapM (h : list.mapM f.pathUp = .error e) : ∃ y, e = .cycle y := by
  induction list with
  | nil => cases h
  | cons k rest ih =>
    rw [List.mapM_cons, pathUp] at h
    cases hk : f.walk? f.size k with
    | none =>
      rw [hk] at h
      exact ⟨f.name k, (Except.error.inj h).symm⟩
    | some as =>
      rw [hk] at h
      cases hrest : rest.mapM f.pathUp with
      | error e' =>
        rw [hrest] at h
        obtain rfl : e' = e := Except.error.inj h
        exact ih hrest
      | ok others =>
        rw [hrest] at h
        cases h

theorem Coherent.map_height_names (hf : f.Coherent) :
    f.names.map f.height = ((List.range f.size).map f.pathOf).map List.length := by
  rw [names_eq_map, List.map_map, List.map_map]
  exact List.map_congr_left fun k hk => height_name hf (List.mem_range.1 hk)

theorem Coherent.walk?_isSome_iff (hf : f.Coherent) (hk : k < f.size) :
    (f.walk? f.size k).isSome ↔ ∃ as, f.ancestorsUp (f.name k) = .ok as := by
  rw [ancestorsUp_name hf hk, pathUp]
  cases f.walk? f.size k <;> simp [Except.map]

/-- **The sum of all depths is a sum over the names**, and there is one if there is a
root above every name. -/
theorem Coherent.depthSumUp_eq_ok_iff (hf : f.Coherent) :
    f.depthSumUp = .ok n ↔
      (∀ x ∈ f.names, ∃ as, f.ancestorsUp x = .ok as) ∧ n = (f.names.map f.height).sum := by
  have hroots : (∀ k ∈ List.range f.size, (f.walk? f.size k).isSome) ↔
      ∀ x ∈ f.names, ∃ as, f.ancestorsUp x = .ok as := by
    rw [names_eq_map, List.forall_mem_map]
    exact forall₂_congr fun k hk => hf.walk?_isSome_iff (List.mem_range.1 hk)
  rw [← hroots, hf.map_height_names, depthSumUp]
  constructor
  · intro h
    cases hpaths : (List.range f.size).mapM f.pathUp with
    | error e => simp [hpaths, Except.map] at h
    | ok paths =>
      obtain rfl : (paths.map List.length).sum = n := by simpa [hpaths, Except.map] using h
      obtain ⟨rfl, hsome⟩ := paths_of_mapM hpaths
      exact ⟨hsome, rfl⟩
  · rintro ⟨hsome, rfl⟩
    rw [mapM_pathUp_eq_ok_iff.2 ⟨rfl, hsome⟩]
    rfl

theorem exists_cycle_of_depthSumUp (h : f.depthSumUp = .error e) : ∃ y, e = .cycle y := by
  unfold depthSumUp at h
  cases hpaths : (List.range f.size).mapM f.pathUp with
  | error e' =>
    obtain rfl : e' = e := by simpa [hpaths, Except.map] using h
    exact exists_cycle_of_mapM hpaths
  | ok paths => simp [hpaths, Except.map] at h

theorem Akin.height (h : f.Akin g) (hf : f.Coherent) (hg : g.Coherent) : f.height = g.height := by
  funext x
  rw [Forest.height, Forest.height, h.ancestorsUp hf hg]

theorem Akin.depthSumUp_of_ok (h : f.Akin g) (hf : f.Coherent) (hg : g.Coherent)
    (hsum : f.depthSumUp = .ok n) : g.depthSumUp = .ok n := by
  obtain ⟨hroots, rfl⟩ := hf.depthSumUp_eq_ok_iff.1 hsum
  have hnames := h.perm_names hf hg
  refine hg.depthSumUp_eq_ok_iff.2 ⟨fun x hx => ?_, ?_⟩
  · rw [← h.ancestorsUp hf hg]
    exact hroots x (hnames.mem_iff.2 hx)
  · rw [← h.height hf hg]
    exact (hnames.map f.height).sum_eq

theorem Akin.symm (h : f.Akin g) : g.Akin f :=
  ⟨fun x => (h.contains_eq x).symm, fun x => (h.parentOf_eq x).symm⟩

/-- **Both sums are there, and the same, or both meet a cycle.** -/
theorem Akin.depthSumUp_cases (h : f.Akin g) (hf : f.Coherent) (hg : g.Coherent) :
    f.depthSumUp = g.depthSumUp ∨
      ∃ y z, f.depthSumUp = .error (.cycle y) ∧ g.depthSumUp = .error (.cycle z) := by
  cases hsum : f.depthSumUp with
  | ok n => exact .inl (h.depthSumUp_of_ok hf hg hsum).symm
  | error e =>
    cases hsum' : g.depthSumUp with
    | ok n => exact absurd (h.symm.depthSumUp_of_ok hg hf hsum') (by simp [hsum])
    | error e' =>
      obtain ⟨y, rfl⟩ := exists_cycle_of_depthSumUp hsum
      obtain ⟨z, rfl⟩ := exists_cycle_of_depthSumUp hsum'
      exact .inr ⟨y, z, rfl, rfl⟩

/-- **Forests that are akin give the same answers**, but that each may name a node of
its own on a cycle. -/
theorem Akin.ask (h : f.Akin g) (hf : f.Coherent) (hg : g.Coherent) (q : Query) :
    (q.ask f).1 = (q.ask g).1 ∨
      q = .depthSum ∧ ∃ y z, (q.ask f).1 = .number (.error (.cycle y)) ∧
        (q.ask g).1 = .number (.error (.cycle z)) := by
  rw [(hf.ask q).answer_eq, (hg.ask q).answer_eq]
  cases q with
  | contains x => exact .inl (congrArg Answer.truth (h.contains_eq x))
  | depth x =>
    refine .inl ?_
    rw [Query.walk, Query.walk, h.ancestorsUp hf hg]
  | ancestors x =>
    refine .inl ?_
    rw [Query.walk, Query.walk, h.ancestorsUp hf hg]
  | depthSum =>
    rcases h.depthSumUp_cases hf hg with hsame | ⟨y, z, hy, hz⟩
    · exact .inl (congrArg Answer.number hsame)
    · exact .inr ⟨rfl, y, z, congrArg Answer.number hy, congrArg Answer.number hz⟩
  | distance source target =>
    refine .inl ?_
    rw [Query.walk, Query.walk, h.distanceUp hf hg]

end IntMachine.Forest
