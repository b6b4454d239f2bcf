import IntMachine.Text.Printable
/-!
# Quoted text

How a message shows a text it complains about: between quotes, on one line,
with every character that has no visible form escaped. Single quotes are used
unless the text holds a single quote and no double quote.
-/

namespace IntMachine.Text

/-- The last `width` hexadecimal digits of a number, in lower case. -/
def hex : (width : Nat) → Nat → List Char
  | 0, _ => []
  | width + 1, n => hex width (n / 16) ++ [(n % 16).digitChar]

/-- One character inside quotes: a backslash or the quote in use is escaped,
and so is a character without a visible form, by the shortest escape that
holds its number. -/
def escape (quote c : Char) : List Char :=
  if c = quote ∨ c = '\\' then ['\\', c]
  else if c = '\n' then ['\\', 'n']
  else if c = '\r' then ['\\', 'r']
  else if c = '\t' then ['\\', 't']
  else if isPrintable c then [c]
  else if c.toNat < 0x100 then '\\' :: 'x' :: hex 2 c.toNat
  else if c.toNat < 0x10000 then '\\' :: 'u' :: hex 4 c.toNat
  else '\\' :: 'U' :: hex 8 c.toNat

/-- The quote that encloses a text. -/
def quoteFor (s : List Char) : Char :=
  if '\'' ∈ s ∧ '"' ∉ s then '"' else '\''

/-- A text between quotes. -/
def quoteChars (s : List Char) : List Char :=
  let quote := quoteFor s
  quote :: (s.flatMap (escape quote) ++ [quote])

/-- A text between quotes. -/
def quoted (s : String) : String := String.ofList (quoteChars s.toList)

end IntMachine.Text
