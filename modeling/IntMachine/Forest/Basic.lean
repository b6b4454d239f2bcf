import IntMachine.Text.Quoted
/-!
# Forests

Named nodes, each with at most one parent, addressed by the order in which they
were first named. A node may remember its depth, the number of parent links
from it to a root; every change of a link makes all nodes forget. Links are not
checked for cycles when they are made, so a forest may hold some; the queries
find them.
-/

namespace IntMachine

/-- A node: its name, its parent's number if it has a parent, and its depth if
that is remembered. -/
structure Forest.Node where
  name : String
  parent : Option Nat := none
  depth : Option Nat := none
  deriving DecidableEq, Repr

structure Forest where
  nodes : Array Forest.Node := #[]
  deriving DecidableEq, Repr

/-- Why a forest gave no answer. -/
inductive ForestError where
  | unknownNode (name : String)
  /-- A second parent for a node that has one. -/
  | secondParent (child parent : String)
  /-- The parent links from the node never come to a root. -/
  | cycle (name : String)
  | noParent
  | differentTrees (source target : String)
  deriving DecidableEq, Repr

def ForestError.message : ForestError → String
  | .unknownNode name => s!"Unknown node {Text.quoted name}"
  | .secondParent child parent =>
    s!"{Text.quoted child} already has parent {Text.quoted parent}"
  | .cycle name => s!"Cycle detected at {Text.quoted name}"
  | .noParent => "Both nodes need a parent"
  | .differentTrees source target =>
    s!"{Text.quoted source} and {Text.quoted target} are in different trees"

namespace Forest

/-- The forest without nodes. -/
def empty : Forest := {}

def size (f : Forest) : Nat := f.nodes.size

/-- The number of the node with a name. -/
def find? (f : Forest) (name : String) : Option Nat := f.nodes.findIdx? (·.name = name)

def contains (f : Forest) (name : String) : Bool := (f.find? name).isSome

/-- The parent of a node, by number. -/
def parent? (f : Forest) (k : Nat) : Option Nat := f.nodes[k]?.bind (·.parent)

/-- The depth a node remembers. -/
def depth? (f : Forest) (k : Nat) : Option Nat := f.nodes[k]?.bind (·.depth)

/-- The name of a node. -/
def name (f : Forest) (k : Nat) : String := (f.nodes[k]?.map (·.name)).getD ""

/-- The number of the node with a name, which is made if there is none. -/
def intern (f : Forest) (name : String) : Nat × Forest :=
  match f.find? name with
  | some k => (k, f)
  | none => (f.nodes.size, ⟨f.nodes.push { name }⟩)

/-- The forest with nothing remembered. -/
def forget (f : Forest) : Forest := ⟨f.nodes.map fun n => { n with depth := none }⟩

/-- The forest with node `k` below node `p`. -/
def setParent (f : Forest) (k p : Nat) : Forest :=
  ⟨f.nodes.modify k fun n => { n with parent := some p }⟩

/-- Puts one node below another. Both are made if they are not there, also
when the link is refused because the lower one has another parent. -/
def link (f : Forest) (parent child : String) : Except ForestError Unit × Forest :=
  let (p, f) := f.intern parent
  let (k, f) := f.intern child
  match f.parent? k with
  | some q =>
    if q = p then (.ok (), f.forget) else (.error (.secondParent child (f.name q)), f)
  | none => (.ok (), (f.setParent k p).forget)

end Forest

end IntMachine
