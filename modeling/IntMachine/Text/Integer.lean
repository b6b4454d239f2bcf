import IntMachine.Text.Blank
import IntMachine.Text.Digit
/-!
# Integers in text

Two readers of signed decimal integers. `readPlain?` takes ASCII digits with
an optional sign and nothing else: it is what program text is made of.
`readLoose?` is for what people type: blanks around the number, decimal digits
of any script, and single underscores between digits.

An integer that is typed has `digitLimit` digits at most. Plain integers are
read, and all integers are written, whatever their length. The runner as a
command has the same limit for the tokens of its program file and for what it
prints; elsewhere a limit on the digits of an integer text is outside the model.
-/

namespace IntMachine.Text

/-- The value of a run of digits and single underscores. `value` belongs to
the digits read so far, and `afterDigit` records that the last character was a
digit, so that an underscore may follow or the run may end. -/
def readGrouped? : List Char → (afterDigit : Bool) → (value : Nat) → Option Nat
  | [], afterDigit, value => if afterDigit then some value else none
  | c :: rest, afterDigit, value =>
    if c = '_' then if afterDigit then readGrouped? rest false value else none
    else match digitValue? c with
      | some d => readGrouped? rest true (10 * value + d)
      | none => none

/-- A sign and the text behind it; without a sign the number is positive. -/
def splitSign : List Char → Bool × List Char
  | '+' :: rest => (false, rest)
  | '-' :: rest => (true, rest)
  | s => (false, s)

/-- The integer with the given sign and magnitude. -/
def signed (negative : Bool) (magnitude : Nat) : Int :=
  if negative then -(magnitude : Int) else magnitude

/-- Reads a non-empty run of ASCII digits after an optional sign. -/
def readPlain? (s : List Char) : Option Int :=
  let (negative, digits) := splitSign s
  if digits ≠ [] ∧ digits.all Char.isDigit then
    some (signed negative (Nat.ofDigitChars 10 digits 0))
  else none

/-- The largest number of digits that a command reads or writes in an integer. -/
def digitLimit : Nat := 4300

/-- Whether a text holds more than `digitLimit` digits in a row, where `run`
digits stand right before it. -/
def holdsLong : List Char → (run : Nat) → Bool
  | [], run => digitLimit < run
  | c :: rest, run =>
    if c.isDigit then holdsLong rest (run + 1) else digitLimit < run || holdsLong rest 0

/-- Blanks that may surround a typed integer: all but the information
separators. -/
def isMargin (c : Char) : Bool :=
  isBlank c && !(0x1C ≤ c.toNat && c.toNat ≤ 0x1F)

/-- Reads a typed integer. Underscores do not count as digits. -/
def readLoose? (s : List Char) : Option Int :=
  let (negative, digits) := splitSign (trimWhere isMargin s)
  if digits.countP (· ≠ '_') ≤ digitLimit then
    (readGrouped? digits false 0).map (signed negative)
  else none

end IntMachine.Text
