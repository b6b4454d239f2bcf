import IntMachine.Forest.Basic
/-!
# Depths and distances

The depth of a node, the sum of all depths, the names above a node, and the
distance between the parents of two nodes. A query climbs parent links until it
comes to a root or to a node that remembers its depth, and then lets every node
on the way remember. More links than there are nodes mean a cycle.
-/

namespace IntMachine.Forest

/-- Climbs from node `k` over nodes that do not remember their depth, at most
`fuel` of them: the nodes passed, the last first, and the depth of the node
above them, if there is one. -/
def climb (f : Forest) : (fuel : Nat) → (k : Option Nat) → (passed : List Nat) →
    Option (List Nat × Option Nat)
  | _, none, passed => some (passed, none)
  | fuel, some k, passed =>
    match f.depth? k with
    | some d => some (passed, some d)
    | none =>
      match fuel with
      | 0 => none
      | fuel + 1 => climb f fuel (f.parent? k) (k :: passed)

/-- Lets nodes remember their depths, each one more than the node before it in
the list; `above` is the depth of the node before the first. -/
def remember (f : Forest) : (above : Option Nat) → List Nat → Forest
  | _, [] => f
  | above, k :: rest =>
    let d := above.elim 0 (· + 1)
    remember ⟨f.nodes.modify k fun n => { n with depth := some d }⟩ (some d) rest

/-- The depth of node `k`. -/
def measure (f : Forest) (k : Nat) : Except ForestError Nat × Forest :=
  match f.climb f.size (some k) [] with
  | none => (.error (.cycle (f.name k)), f)
  | some (passed, above) =>
    let f := f.remember above passed
    (.ok ((f.depth? k).getD 0), f)

/-- The depth of the node with a name. -/
def depth (f : Forest) (name : String) : Except ForestError Nat × Forest :=
  match f.find? name with
  | none => (.error (.unknownNode name), f)
  | some k => f.measure k

/-- Adds the depths of the nodes in a list to a sum. -/
def sumDepths (f : Forest) : List Nat → (sum : Nat) → Except ForestError Nat × Forest
  | [], sum => (.ok sum, f)
  | k :: rest, sum =>
    match f.measure k with
    | (.error e, f) => (.error e, f)
    | (.ok d, f) => sumDepths f rest (sum + d)

/-- The sum of the depths of all nodes. -/
def depthSum (f : Forest) : Except ForestError Nat × Forest :=
  f.sumDepths (List.range f.size) 0

/-- The nodes above node `k`, the nearest first, as far as `fuel` links go. -/
def above (f : Forest) : (fuel : Nat) → (k : Nat) → List Nat
  | 0, _ => []
  | fuel + 1, k =>
    match f.parent? k with
    | none => []
    | some p => p :: above f fuel p

/-- The names above the node with a name, from its parent to its root. -/
def ancestors (f : Forest) (name : String) : Except ForestError (List String) × Forest :=
  match f.find? name with
  | none => (.error (.unknownNode name), f)
  | some k =>
    match f.measure k with
    | (.error e, f) => (.error e, f)
    | (.ok _, f) => (.ok ((f.above f.size k).map f.name), f)

/-- The sum of the positions, in two lists, of the first element of the second
list that the first list holds; `passed` counts the elements of the second list
before. -/
def meetAt (xs : List String) : List String → (passed : Nat) → Option Nat
  | [], _ => none
  | y :: ys, passed =>
    match xs.findIdx? (· = y) with
    | some k => some (passed + k)
    | none => meetAt xs ys (passed + 1)

/-- The number of links between the parents of two nodes. -/
def distance (f : Forest) (source target : String) : Except ForestError Nat × Forest :=
  match f.ancestors source with
  | (.error e, f) => (.error e, f)
  | (.ok xs, f) =>
    match f.ancestors target with
    | (.error e, f) => (.error e, f)
    | (.ok ys, f) =>
      if xs = [] ∨ ys = [] then (.error .noParent, f)
      else match meetAt xs ys 0 with
        | some n => (.ok n, f)
        | none => (.error (.differentTrees source target), f)

end IntMachine.Forest
