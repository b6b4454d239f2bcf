import IntMachine.Session.Basic
/-!
# The breakpoints of a session

The breakpoints are kept in ascending order without repetition, so that equal
sets of addresses are equal lists.
-/

namespace IntMachine

/-- Puts an address into an ascending list, unless it is there. -/
def insertAddress (a : Int) : List Int → List Int
  | [] => [a]
  | b :: rest =>
    if a < b then a :: b :: rest
    else if a = b then b :: rest
    else b :: insertAddress a rest

@[simp] theorem mem_insertAddress {a b : Int} {l : List Int} :
    b ∈ insertAddress a l ↔ b = a ∨ b ∈ l := by
  induction l with
  | nil => simp [insertAddress]
  | cons c rest ih =>
    unfold insertAddress
    split
    · simp
    · split
      · rename_i h; subst h; simp
      · simp [ih, or_left_comm]

theorem pairwise_insertAddress {a : Int} {l : List Int} (h : l.Pairwise (· < ·)) :
    (insertAddress a l).Pairwise (· < ·) := by
  induction l with
  | nil => simp [insertAddress]
  | cons c rest ih =>
    obtain ⟨hc, hrest⟩ := List.pairwise_cons.1 h
    unfold insertAddress
    split
    · rename_i hac
      refine List.pairwise_cons.2 ⟨fun b hb => ?_, h⟩
      rcases List.mem_cons.1 hb with rfl | hb
      · exact hac
      · exact Int.lt_trans hac (hc b hb)
    · split
      · exact h
      · refine List.pairwise_cons.2 ⟨fun b hb => ?_, ih hrest⟩
        rcases mem_insertAddress.1 hb with rfl | hb
        · omega
        · exact hc b hb

namespace Session

def addBreakpoint (s : Session) (a : Int) : Session :=
  { s with breakpoints := insertAddress a s.breakpoints }

def dropBreakpoint (s : Session) (a : Int) : Session :=
  { s with breakpoints := s.breakpoints.filter (· ≠ a) }

def dropBreakpoints (s : Session) : Session := { s with breakpoints := [] }

end Session

end IntMachine
