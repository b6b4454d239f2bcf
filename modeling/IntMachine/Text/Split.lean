/-!
# Splitting at a separator

`splitOn sep text` cuts a text at every occurrence of a non-empty separator,
taking occurrences from the left and never overlapping. An empty text has one
empty piece.
-/

namespace IntMachine.Text

/-- Walks over the text. `skip` counts the characters of the current separator
still to be passed over, `piece` is the reversed piece under way and `done`
holds the pieces before it. -/
def splitOnFrom (sep : List Char) :
    List Char → (skip : Nat) → (piece : List Char) → (done : Array (List Char)) → List (List Char)
  | [], _, piece, done => (done.push piece.reverse).toList
  | _ :: rest, skip + 1, piece, done => splitOnFrom sep rest skip piece done
  | c :: rest, 0, piece, done =>
    if sep.isPrefixOf (c :: rest) then
      splitOnFrom sep rest (sep.length - 1) [] (done.push piece.reverse)
    else splitOnFrom sep rest 0 (c :: piece) done

/-- The pieces of a text between the leftmost non-overlapping occurrences of
`sep`. -/
def splitOn (sep text : List Char) : List (List Char) := splitOnFrom sep text 0 [] #[]

@[simp] theorem splitOn_nil (sep : List Char) : splitOn sep [] = [[]] := rfl

end IntMachine.Text
