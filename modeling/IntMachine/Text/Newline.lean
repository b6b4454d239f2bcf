/-!
# Line ends

A text file may end its lines with LF, CR LF or a lone CR. `unifyLines` turns
all three into LF; `linesOf` cuts a text at LF only, which is how typed input
arrives.
-/

namespace IntMachine.Text

/-- Writes LF for every line end. `afterCR` records that the character before
was a CR, whose LF is then already written. -/
def unifyLinesFrom : List Char → (afterCR : Bool) → (done : Array Char) → List Char
  | [], _, done => done.toList
  | c :: rest, afterCR, done =>
    if c = '\r' then unifyLinesFrom rest true (done.push '\n')
    else if c = '\n' ∧ afterCR then unifyLinesFrom rest false done
    else unifyLinesFrom rest false (done.push c)

/-- The text with CR LF and lone CR replaced by LF. -/
def unifyLines (s : List Char) : List Char := unifyLinesFrom s false #[]

/-- Cuts after every LF; `line` is the reversed line under way. A last line
without LF counts, an empty one does not. -/
def linesFrom : List Char → (line : List Char) → (done : Array (List Char)) → List (List Char)
  | [], [], done => done.toList
  | [], line, done => (done.push line.reverse).toList
  | c :: rest, line, done =>
    if c = '\n' then linesFrom rest [] (done.push line.reverse)
    else linesFrom rest (c :: line) done

/-- The lines of a text, without their line ends. -/
def linesOf (s : String) : List String :=
  (linesFrom s.toList [] #[]).map String.ofList

end IntMachine.Text
