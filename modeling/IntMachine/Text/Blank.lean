/-!
# Blank characters

The characters that count as white space in program text and on command
lines, with the two operations built on them: `trim` takes blanks off both
ends of a text, and `words` cuts a text into its maximal blank-free runs.
-/

namespace IntMachine.Text

/-- The characters with the white-space property, and the four information
separators U+001C to U+001F. -/
def isBlank (c : Char) : Bool :=
  let n := c.toNat
  (0x09 ≤ n && n ≤ 0x0D) || (0x1C ≤ n && n ≤ 0x20) || n == 0x85 || n == 0xA0 || n == 0x1680 ||
    (0x2000 ≤ n && n ≤ 0x200A) || n == 0x2028 || n == 0x2029 || n == 0x202F || n == 0x205F ||
    n == 0x3000

/-- A text without the characters satisfying `p` at its two ends. -/
def trimWhere (p : Char → Bool) (s : List Char) : List Char :=
  ((s.dropWhile p).reverse.dropWhile p).reverse

/-- A text without the blanks at its two ends. -/
def trim (s : List Char) : List Char := trimWhere isBlank s

@[simp] theorem trim_nil : trim [] = [] := rfl

/-- The pieces of a text between the characters satisfying `p`, empty pieces
included; `piece` is the reversed piece under way and `done` the pieces
before it. -/
def splitWhere (p : Char → Bool) :
    List Char → (piece : List Char) → (done : Array (List Char)) → List (List Char)
  | [], piece, done => (done.push piece.reverse).toList
  | c :: rest, piece, done =>
    if p c then splitWhere p rest [] (done.push piece.reverse)
    else splitWhere p rest (c :: piece) done

/-- The maximal blank-free runs of a text, in order. -/
def words (s : List Char) : List (List Char) :=
  (splitWhere isBlank s [] #[]).filter (· ≠ [])

@[simp] theorem words_nil : words [] = [] := rfl

end IntMachine.Text
