import IntMachine.Files
import IntMachine.Program.Basic
import IntMachine.Text.Newline
import IntMachine.Text.Utf8
/-!
# Programs from files

A program file holds program text in UTF-8, with lines ended in any of the
usual ways.
-/

namespace IntMachine.Program

/-- Why a file gave no program. -/
inductive FileError where
  | cannotOpen (error : OpenError)
  | notUtf8 (error : Text.Utf8.Malformed)
  | malformed (error : ParseError)
  deriving DecidableEq, Repr

def FileError.message : FileError → String
  | .cannotOpen e => e.message
  | .notUtf8 e => e.message
  | .malformed e => e.message

/-- The text of a file. -/
def textOfBytes (bytes : List UInt8) : Except Text.Utf8.Malformed String :=
  (Text.Utf8.decode bytes).map fun cs => String.ofList (Text.unifyLines cs)

/-- The program in a file. -/
def ofBytes (bytes : List UInt8) (sep : Separator := .comma) : Except FileError Program :=
  match textOfBytes bytes with
  | .error e => .error (.notUtf8 e)
  | .ok text => (parse text sep).mapError .malformed

/-- What opening a file gives. -/
abbrev Opened := Except OpenError (List UInt8)

/-- The program in an opened file. -/
def ofFile (opened : Opened) (sep : Separator := .comma) : Except FileError Program :=
  match opened with
  | .error e => .error (.cannotOpen e)
  | .ok bytes => ofBytes bytes sep

/-- The number of digits of the token in an opened file that has too many, if
reading comes to it. -/
def longTokenIn? (opened : Opened) : Option Nat := do
  let bytes ← opened.toOption
  let text ← (textOfBytes bytes).toOption
  let pieces ← (Separator.comma.pieces text.toList).toOption
  longToken? pieces

end IntMachine.Program
