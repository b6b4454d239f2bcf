/-!
# Memory

A growing row of integer cells with counters of the accesses made. Reading or
writing past the end first extends the row with zeros up to the address;
peeking never does. `Memory.cell` is the view through which the rest of the
library sees a memory: a function that is zero past the end. One equation per
operation says what it does to the view, the size and the counters.

A row can always be extended: that storage runs out, as it does for an access
at a very high address, is outside the model.
-/

namespace IntMachine

/-- An address below zero, which no cell has. -/
structure InvalidAddress where
  address : Int
  deriving DecidableEq, Repr

def InvalidAddress.message (e : InvalidAddress) : String := s!"Invalid memory address: {e.address}"

structure Memory where
  cells : Array Int := #[]
  /-- How many reads have succeeded. -/
  reads : Nat := 0
  /-- How many writes have succeeded. -/
  writes : Nat := 0
  deriving DecidableEq, Repr

namespace Memory

/-- A memory holding the given cells, not yet accessed. -/
def ofList (cells : List Int) : Memory := { cells := cells.toArray }

def size (m : Memory) : Nat := m.cells.size

def toList (m : Memory) : List Int := m.cells.toList

/-- The value at an address: zero past the end. -/
def cell (m : Memory) (a : Nat) : Int := m.cells[a]?.getD 0

/-- Extends the row with zeros so that it has at least `n` cells. -/
def grow (m : Memory) (n : Nat) : Memory :=
  { m with cells := m.cells ++ Array.replicate (n - m.cells.size) 0 }

/-- The number of the cell an address names. -/
def index (a : Int) : Except InvalidAddress Nat :=
  if a < 0 then .error ⟨a⟩ else .ok a.toNat

/-- The memory after a read of cell `n`. -/
def visit (m : Memory) (n : Nat) : Memory :=
  let m := m.grow (n + 1)
  { m with reads := m.reads + 1 }

/-- The memory after a write of cell `n`. -/
def put (m : Memory) (n : Nat) (v : Int) : Memory :=
  match m.grow (n + 1) with
  | ⟨cells, reads, writes⟩ => ⟨cells.setIfInBounds n v, reads, writes + 1⟩

/-- Reads a cell, growing the memory up to it. -/
def read (m : Memory) (a : Int) : Except InvalidAddress (Int × Memory) :=
  match index a with
  | .error e => .error e
  | .ok n => .ok (m.cell n, m.visit n)

/-- Writes a cell, growing the memory up to it. -/
def write (m : Memory) (a : Int) (v : Int) : Except InvalidAddress Memory :=
  match index a with
  | .error e => .error e
  | .ok n => .ok (m.put n v)

/-- The value a read would return, with no growth and no access counted. -/
def peek (m : Memory) (a : Int) : Except InvalidAddress Int :=
  (index a).map m.cell

/-- Reads several cells for their effect on size and counters, stopping at the
first invalid address. -/
def touch : Memory → List Int → Option InvalidAddress × Memory
  | m, [] => (none, m)
  | m, a :: rest =>
    match index a with
    | .error e => (some e, m)
    | .ok n => touch (m.visit n) rest

/-! ## The view of each operation -/

@[simp] theorem index_natCast (n : Nat) : index (n : Int) = .ok n := by simp [index]

theorem index_of_neg {a : Int} (h : a < 0) : index a = .error ⟨a⟩ := by simp [index, h]

theorem index_of_nonneg {a : Int} (h : 0 ≤ a) : index a = .ok a.toNat := by
  simp [index, Int.not_lt.2 h]

@[simp] theorem size_ofList (cells : List Int) : (ofList cells).size = cells.length := by
  simp [ofList, size]

@[simp] theorem toList_ofList (cells : List Int) : (ofList cells).toList = cells := by
  simp [ofList, toList]

@[simp] theorem cell_ofList (cells : List Int) (a : Nat) :
    (ofList cells).cell a = cells[a]?.getD 0 := by
  simp [ofList, cell]

theorem cell_eq_zero {m : Memory} {a : Nat} (h : m.size ≤ a) : m.cell a = 0 := by
  have hnone : m.cells[a]? = none := Array.getElem?_eq_none h
  rw [cell, hnone, Option.getD_none]

@[simp] theorem size_grow (m : Memory) (n : Nat) : (m.grow n).size = max m.size n := by
  simp [grow, size]; omega

/-- Growth shows in the size only. -/
@[simp] theorem cell_grow (m : Memory) (n a : Nat) : (m.grow n).cell a = m.cell a := by
  simp only [grow, cell, Array.getElem?_append]
  split
  · rfl
  · rename_i h
    have hm : m.cells[a]? = none := Array.getElem?_eq_none (by omega)
    rw [hm, Array.getElem?_replicate]
    split <;> rfl

@[simp] theorem reads_grow (m : Memory) (n : Nat) : (m.grow n).reads = m.reads := rfl

@[simp] theorem writes_grow (m : Memory) (n : Nat) : (m.grow n).writes = m.writes := rfl

@[simp] theorem cell_visit (m : Memory) (n a : Nat) : (m.visit n).cell a = m.cell a :=
  cell_grow m (n + 1) a

@[simp] theorem size_visit (m : Memory) (n : Nat) : (m.visit n).size = max m.size (n + 1) :=
  size_grow m (n + 1)

@[simp] theorem reads_visit (m : Memory) (n : Nat) : (m.visit n).reads = m.reads + 1 := rfl

@[simp] theorem writes_visit (m : Memory) (n : Nat) : (m.visit n).writes = m.writes := rfl

/-- A write changes the view at one address. -/
@[simp] theorem cell_put (m : Memory) (n : Nat) (v : Int) (a : Nat) :
    (m.put n v).cell a = if a = n then v else m.cell a := by
  have hn : n < (m.grow (n + 1)).cells.size := by
    have := size_grow m (n + 1)
    simp only [size] at this; omega
  simp only [put, cell]
  split
  · subst a; simp [Array.getElem?_setIfInBounds_self_of_lt hn]
  · rename_i h
    rw [Array.getElem?_setIfInBounds_ne (Ne.symm h)]
    exact cell_grow m (n + 1) a

@[simp] theorem size_put (m : Memory) (n : Nat) (v : Int) :
    (m.put n v).size = max m.size (n + 1) := by
  simpa [put, size] using size_grow m (n + 1)

@[simp] theorem reads_put (m : Memory) (n : Nat) (v : Int) : (m.put n v).reads = m.reads := rfl

@[simp] theorem writes_put (m : Memory) (n : Nat) (v : Int) : (m.put n v).writes = m.writes + 1 :=
  rfl

end Memory

end IntMachine
