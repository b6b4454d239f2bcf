import IntMachine.Text.Integer
import IntMachine.Text.Quoted
import IntMachine.Text.Split
/-!
# Program text

A program is a list of cells, written as decimal integers between separators,
commas unless another separator is chosen. `render` writes the canonical text;
`parse` reads it and also admits blanks around the line and around each
integer, a plus sign, and leading zeros. A cell that is read must fit in 64
bits, signed; a cell that is written need not.

Neither `parse` nor `render` limits the digits of an integer: such a limit is
outside them. A command that has one breaks off at a token of more than
`Text.digitLimit` digits, zeros included, before the range of the token is
looked at; `longToken?` finds this token.
-/

namespace IntMachine

/-- The cells a machine starts from. -/
abbrev Program := List Int

namespace Program

/-- What stands between two integers of a program text: a text, or any run of
blanks. -/
inductive Separator where
  | text (s : String)
  | blanks
  deriving DecidableEq, Repr

/-- The usual separator. -/
def Separator.comma : Separator := .text ","

/-- What is wrong with a token. -/
inductive Fault where
  | notInteger
  | outOfRange
  deriving DecidableEq, Repr

def Fault.message : Fault → String
  | .notInteger => "not an integer"
  | .outOfRange => "outside signed 64-bit range"

/-- A program text that cannot be read: the separator is empty, or the token
at some position, counted from zero, is not a cell. -/
inductive ParseError where
  | emptySeparator
  | badToken (token : String) (index : Nat) (fault : Fault)
  deriving DecidableEq, Repr

def ParseError.message : ParseError → String
  | .emptySeparator => "empty separator"
  | .badToken token index fault =>
    s!"Invalid program token {Text.quoted token} at position {index}: {fault.message}"

/-- Whether an integer fits in 64 bits, signed. -/
def inRange (v : Int) : Bool := -0x8000000000000000 ≤ v && v < 0x8000000000000000

/-- Reads one token, which has no blanks at its ends. -/
def parseToken (token : List Char) : Except Fault Int :=
  match Text.readPlain? token with
  | none => .error .notInteger
  | some v => if inRange v then .ok v else .error .outOfRange

/-- Reads the tokens from position `index` on, after the cells in `done`. -/
def parseTokens : List (List Char) → (index : Nat) → (done : Array Int) → Except ParseError Program
  | [], _, done => .ok done.toList
  | piece :: rest, index, done =>
    let token := Text.trim piece
    match parseToken token with
    | .ok v => parseTokens rest (index + 1) (done.push v)
    | .error fault => .error (.badToken (String.ofList token) index fault)

/-- The tokens of a program text, blanks around them included. -/
def Separator.pieces (sep : Separator) (text : List Char) : Except ParseError (List (List Char)) :=
  match sep with
  | .text s =>
    if s.isEmpty then .error .emptySeparator else .ok (Text.splitOn s.toList (Text.trim text))
  | .blanks => .ok (Text.words text)

/-- Reads a program text. -/
def parse (text : String) (sep : Separator := .comma) : Except ParseError Program :=
  match sep.pieces text.toList with
  | .ok pieces => parseTokens pieces 0 #[]
  | .error e => .error e

/-- The number of digits of a token, a sign apart. -/
def digitCount (token : List Char) : Nat := (Text.splitSign token).2.length

/-- The number of digits of the first token that has too many, unless a token
before it is no cell. -/
def longToken? : (pieces : List (List Char)) → Option Nat
  | [] => none
  | piece :: rest =>
    let token := Text.trim piece
    match Text.readPlain? token with
    | none => none
    | some v =>
      if Text.digitLimit < digitCount token then some (digitCount token)
      else if inRange v then longToken? rest else none

/-- Writes a program text. -/
def render (cells : Program) : String := ",".intercalate (cells.map toString)

end Program

end IntMachine
