import IntMachine.Memory.Basic
/-!
# Memory listings

Two ways to show a memory: `window` lists the cells of a range with their
addresses, and `listing` writes all cells in rows of a fixed width, each row
headed by the address of its first cell.
-/

namespace IntMachine.Memory

/-- The cells with `start ≤ address < start + count`, or with
`start ≤ address` if no count is given, in ascending order. -/
def window (m : Memory) (start : Int := 0) (count : Option Int := none) : List (Nat × Int) :=
  let first := start.toNat
  let stop := match count with
    | none => m.size
    | some n => min (start + n).toNat m.size
  (List.range' first (stop - first)).map fun a => (a, m.cell a)

/-- A listing was asked for with rows of no width. -/
inductive ListingError where
  | zeroWidth
  deriving DecidableEq, Repr

def ListingError.message : ListingError → String
  | .zeroWidth => "range() arg 3 must not be zero"

/-- One row of a listing: `width` cells from address `base` on, or as many as
there are. -/
def row (m : Memory) (width base : Nat) : String :=
  s!"{base}: " ++ " ".intercalate ((m.cells.extract base (base + width)).toList.map toString)

/-- The rows of a listing, from address 0 on. -/
def rows (m : Memory) (width : Nat) : List String :=
  (List.range ((m.size + width - 1) / width)).map fun k => m.row width (k * width)

/-- All cells, `width` to a row. Rows of negative width hold nothing, so there
are none. -/
def listing (m : Memory) (width : Int := 10) : Except ListingError String :=
  if width = 0 then .error .zeroWidth
  else .ok ("\n".intercalate (if width < 0 then [] else m.rows width.toNat))

end IntMachine.Memory
