import IntMachine.Proofs.Rearranged
/-!
# Operations that fail

A query that fails leaves the names and the links as they were, and whatever it lets
nodes remember does not show (`ask_eq`). A link that is refused changes no link either,
but the name it would have put the node below is made a node before it is refused
(`link_of_error`). So a failed operation is as good as never made unless it is a link
below a name that was new, and then it shows (`failure_shows_iff`).
-/

namespace IntMachine.Forest

variable {f g : Forest} {parent child name : String} {k p : Nat}
variable {ops : List Operation} {op : Operation} {e : ForestError}

/-- Why a query has no value, if it has none. -/
def Answer.error? : Answer → Option ForestError
  | .truth _ | .number (.ok _) | .names (.ok _) => none
  | .number (.error e) | .names (.error e) => some e

/-- Why an operation fails, if it does. -/
def Operation.error? (f : Forest) : Operation → Option ForestError
  | .node _ => none
  | .link parent child =>
    match (f.link parent child).1 with
    | .ok () => none
    | .error e => some e
  | .ask q => (q.ask f).1.error?

/-- The operation puts a node below a name that no node has. -/
def Operation.IntroducesParent (f : Forest) : Operation → Prop
  | .link parent _ => f.contains parent = false
  | .node _ | .ask _ => False

/-! ## What is remembered does not show later

Two forests with the same links stay so under the same operations, and give the same
answers. -/

theorem setParent_forget : (f.forget.setParent k p).forget = (f.setParent k p).forget := by
  refine congrArg Forest.mk (Array.ext_getElem? fun i => ?_)
  simp only [setParent, forget, Array.getElem?_map, Array.getElem?_modify]
  split <;> simp [Function.comp_def]

theorem attach_forget :
    (f.forget.attach k p child).2.forget = (f.attach k p child).2.forget := by
  unfold attach
  rw [parent?_forget]
  split
  · split
    · rw [forget_forget]
    · exact forget_forget
  · rw [forget_forget, forget_forget]
    exact setParent_forget

theorem link_forget_forget (f : Forest) (parent child : String) :
    (f.forget.link parent child).2.forget = (f.link parent child).2.forget := by
  simp only [link_eq, intern_forget]
  exact attach_forget

/-- Operations do to the links what the links say. -/
theorem forget_perform_eq (hf : f.Coherent) (hg : g.Coherent) (h : g.forget = f.forget)
    (op : Operation) : (op.perform g).forget = (op.perform f).forget := by
  cases op with
  | node name =>
    have hnode : ∀ e : Forest, (e.forget.intern name).2 = (e.intern name).2.forget := fun e => by
      rw [intern_forget]
    rw [Operation.perform, Operation.perform, ← hnode, ← hnode, h]
  | link parent child =>
    rw [Operation.perform, Operation.perform, ← link_forget_forget g, ← link_forget_forget f, h]
  | ask q => exact (hg.ask q).links.trans (h.trans (hf.ask q).links.symm)

theorem forget_run_eq (hf : f.Coherent) (hg : g.Coherent) (h : g.forget = f.forget)
    (ops : List Operation) :
    (ops.foldl Operation.perform g).forget = (ops.foldl Operation.perform f).forget := by
  induction ops generalizing f g with
  | nil => exact h
  | cons op rest ih => exact ih (hf.perform op) (hg.perform op) (forget_perform_eq hf hg h op)

theorem walk_eq (h : g.forget = f.forget) (q : Query) : q.walk g = q.walk f := by
  cases q with
  | contains name => rw [Query.walk, Query.walk, find?_eq h]
  | depth name => rw [Query.walk, Query.walk, ancestorsUp_eq h]
  | ancestors name => rw [Query.walk, Query.walk, ancestorsUp_eq h]
  | depthSum => rw [Query.walk, Query.walk, depthSumUp, depthSumUp, pathUp_eq h, size_eq h]
  | distance source target =>
    rw [Query.walk, Query.walk, distanceUp, distanceUp, ancestorsUp_eq h, ancestorsUp_eq h]

/-- **Forests with the same links answer alike**, now and after any further
operations. -/
theorem ask_eq (hf : f.Coherent) (hg : g.Coherent) (h : g.forget = f.forget)
    (later : List Operation) (q : Query) :
    (q.ask (later.foldl Operation.perform g)).1 = (q.ask (later.foldl Operation.perform f)).1 := by
  rw [((hg.run later).ask q).answer_eq, ((hf.run later).ask q).answer_eq]
  exact walk_eq (forget_run_eq hf hg h later) q

/-! ## What a failure leaves -/

theorem intern_of_contains (h : f.contains name = true) : (f.intern name).2 = f := by
  obtain ⟨k, hk⟩ := Option.isSome_iff_exists.1 h
  rw [Forest.intern, hk]

theorem intern_of_not_contains (h : f.contains name = false) :
    f.intern name = (f.size, f.addNode name) := by
  have hnone : f.find? name = none := by simpa [contains] using h
  rw [Forest.intern, hnone]
  rfl

/-- **What a refused link leaves**: a node for the upper name. The lower node was there,
since a new one would have had no other parent. -/
theorem link_of_error (h : (f.link parent child).1 = .error e) :
    (f.link parent child).2 = (f.intern parent).2 := by
  rw [link_eq] at h ⊢
  cases hchild : (f.intern parent).2.contains child with
  | false =>
    have hout : (f.intern parent).2.parent? (f.intern parent).2.size = none := by
      simp [parent?, size]
    rw [intern_of_not_contains hchild, attach, parent?_addNode, hout] at h
    cases h
  | true =>
    rw [intern_of_contains hchild] at h ⊢
    unfold attach at h ⊢
    split at h
    · split at h
      · cases h
      · next hne => rw [if_neg hne]
    · cases h

theorem link_of_error? (h : (Operation.link parent child).error? f = some e) :
    (f.link parent child).1 = .error e := by
  rw [Operation.error?] at h
  cases hfail : (f.link parent child).1 with
  | ok =>
    rw [hfail] at h
    cases h
  | error cause =>
    rw [hfail] at h
    rw [Option.some.inj h]

/-- **A failed operation leaves the links**, unless it is a link below a new name. -/
theorem forget_perform_of_error (hf : f.Coherent) (h : op.error? f = some e)
    (hnew : ¬ op.IntroducesParent f) : (op.perform f).forget = f.forget := by
  cases op with
  | node name => cases h
  | link parent child =>
    have hknown : f.contains parent = true := by simpa [Operation.IntroducesParent] using hnew
    rw [Operation.perform, link_of_error (link_of_error? h), intern_of_contains hknown]
  | ask q => exact (hf.ask q).links

/-- **A link that is refused below a new name has made it a node.** -/
theorem contains_perform_of_error (h : op.error? f = some e) (hnew : op.IntroducesParent f) :
    ∃ name, f.contains name = false ∧ (op.perform f).contains name = true := by
  cases op with
  | node name => cases h
  | link parent child =>
    have hunknown : f.contains parent = false := hnew
    refine ⟨parent, hunknown, ?_⟩
    rw [Operation.perform, link_of_error (link_of_error? h), intern_of_not_contains hunknown,
      contains_iff_mem_names, mem_names_addNode_iff]
    exact .inr rfl
  | ask q => exact hnew.elim

/-- **A failed operation shows exactly if it is a link below a name that was new.** In any
other case names, parents and numbers of nodes are what they were, and all later answers
are as if the operation had never been made, whatever is done in between: neither a
query that fails, also one that meets a cycle halfway, nor a link that is refused below
a known name leaves a trace. A link that is refused leaves the forest as if the upper name
had been made a node and nothing else. -/
theorem failure_shows_iff (h : op.error? (built ops) = some e) :
    (((built (ops ++ [op])).names = (built ops).names ∧
        (∀ k, (built (ops ++ [op])).parent? k = (built ops).parent? k) ∧
        (∀ name, (built (ops ++ [op])).find? name = (built ops).find? name) ∧
        (built (ops ++ [op])).size = (built ops).size) ↔
      ¬ op.IntroducesParent (built ops)) ∧
    ((∀ later q, (Query.ask (built (ops ++ op :: later)) q).1 =
        (Query.ask (built (ops ++ later)) q).1) ↔
      ¬ op.IntroducesParent (built ops)) ∧
    ∀ parent child, op = .link parent child →
      built (ops ++ [op]) = built (ops ++ [.node parent]) := by
  have hf : (built ops).Coherent := coherent_empty.run ops
  have hnext : built (ops ++ [op]) = op.perform (built ops) := List.foldl_concat ..
  have hsame := forget_perform_of_error hf h
  have hshows := contains_perform_of_error h
  refine ⟨⟨fun hkept hnew => ?_, fun hnew => ?_⟩, ⟨fun hanswers hnew => ?_, fun hnew later q => ?_⟩,
    fun parent child hlink => ?_⟩
  · obtain ⟨name, hbefore, hafter⟩ := hshows hnew
    obtain ⟨-, -, hfind, -⟩ := hkept
    rw [contains, ← hnext, hfind name] at hafter
    exact absurd hafter (by simpa [contains] using hbefore)
  · have hlinks := hsame hnew
    rw [hnext]
    exact ⟨names_eq_of_forget_eq hlinks, fun k => parent?_eq hlinks, fun name => find?_eq hlinks,
      size_eq hlinks⟩
  · -- whether the forest holds the new name is an answer, too
    obtain ⟨name, hbefore, hafter⟩ := hshows hnew
    have htruth := hanswers [] (.contains name)
    rw [hnext, List.append_nil] at htruth
    have hcontains : (op.perform (built ops)).contains name = (built ops).contains name :=
      Answer.truth.inj htruth
    simp [hbefore, hafter] at hcontains
  · have hsplit : built (ops ++ op :: later) =
        later.foldl Operation.perform (op.perform (built ops)) := List.foldl_append ..
    have hwithout : built (ops ++ later) = later.foldl Operation.perform (built ops) :=
      List.foldl_append ..
    rw [hsplit, hwithout]
    exact ask_eq hf (hf.perform op) (hsame hnew) later q
  · subst hlink
    have hnode : built (ops ++ [.node parent]) = ((built ops).intern parent).2 :=
      List.foldl_concat ..
    rw [hnext, hnode]
    exact link_of_error (link_of_error? h)

/-- The sum of all depths has measured the node apart when it meets the cycle. The depth
that node remembers from then on does not show. -/
theorem a_sum_that_meets_a_cycle_does_not_show :
    (Operation.ask .depthSum).error? (built [.node "R", .link "A" "B", .link "B" "A"]) =
        some (.cycle "A") ∧
      (built [.node "R", .link "A" "B", .link "B" "A"]).depth? 0 = none ∧
      (built [.node "R", .link "A" "B", .link "B" "A", .ask .depthSum]).depth? 0 = some 0 ∧
      ∀ later q,
        (Query.ask (built (.node "R" :: .link "A" "B" :: .link "B" "A" :: .ask .depthSum :: later))
          q).1 =
        (Query.ask (built (.node "R" :: .link "A" "B" :: .link "B" "A" :: later)) q).1 := by
  have hfails : (Operation.ask .depthSum).error?
      (built [.node "R", .link "A" "B", .link "B" "A"]) = some (.cycle "A") := by decide +kernel
  obtain ⟨-, hanswers, -⟩ := failure_shows_iff hfails
  exact ⟨hfails, by decide +kernel, by decide +kernel, hanswers.2 id⟩

/-- **A refused link shows**: the name it would have put the node below is a node from then
on. -/
theorem a_refused_link_makes_a_node :
    (Operation.link "X" "B").error? (built [.link "A" "B"]) = some (.secondParent "B" "A") ∧
      (built [.link "A" "B"]).names = ["A", "B"] ∧
      (built [.link "A" "B", .link "X" "B"]).names = ["A", "B", "X"] ∧
      (Query.ask (built [.link "A" "B"]) (.depth "X")).1 =
        .number (.error (.unknownNode "X")) ∧
      (Query.ask (built [.link "A" "B", .link "X" "B"]) (.depth "X")).1 = .number (.ok 0) := by
  decide +kernel

end IntMachine.Forest
