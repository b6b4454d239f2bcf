import IntMachine.Text.Quoted
/-!
# UTF-8

Reads a sequence of bytes as UTF-8, one byte at a time, and says where and why
it is none. Between characters a byte is an ASCII character or a lead byte
(`Lead.ofByte?`); a lead byte announces how many bytes follow and what range
the first of them has, which rules out overlong forms, surrogates and numbers
past U+10FFFF.
-/

namespace IntMachine.Text.Utf8

/-- Why bytes are not UTF-8. -/
inductive Reason where
  | invalidStart
  | invalidContinuation
  | unexpectedEnd
  deriving DecidableEq, Repr

/-- The offending bytes `start … stop - 1`, the first of them, and the reason. -/
structure Malformed where
  reason : Reason
  start : Nat
  stop : Nat
  byte : UInt8
  deriving DecidableEq, Repr

def Reason.text : Reason → String
  | .invalidStart => "invalid start byte"
  | .invalidContinuation => "invalid continuation byte"
  | .unexpectedEnd => "unexpected end of data"

/-- One offending byte is shown with its value, several with their range. -/
def Malformed.message (e : Malformed) : String :=
  let found :=
    if e.stop = e.start + 1 then
      s!"byte 0x{String.ofList (hex 2 e.byte.toNat)} in position {e.start}"
    else s!"bytes in position {e.start}-{e.stop - 1}"
  s!"'utf-8' codec can't decode {found}: {e.reason.text}"

/-- A character under way: where its lead byte stands and what that byte is,
how many bytes are owed, the range of the next one, and the payload so far. -/
structure Lead where
  start : Nat
  byte : UInt8
  owed : Nat
  low : UInt8
  high : UInt8
  payload : Nat
  deriving DecidableEq, Repr

/-- The character that a lead byte at `start` announces. -/
def Lead.ofByte? (start : Nat) (b : UInt8) : Option Lead :=
  if b < 0xC2 then none
  else if b < 0xE0 then some ⟨start, b, 1, 0x80, 0xBF, b.toNat % 0x20⟩
  else if b < 0xF0 then
    some ⟨start, b, 2, if b = 0xE0 then 0xA0 else 0x80, if b = 0xED then 0x9F else 0xBF,
      b.toNat % 0x10⟩
  else if b < 0xF5 then
    some ⟨start, b, 3, if b = 0xF0 then 0x90 else 0x80, if b = 0xF4 then 0x8F else 0xBF,
      b.toNat % 0x08⟩
  else none

/-- The character under way after a continuation byte in range. -/
def Lead.extend (l : Lead) (b : UInt8) : Lead :=
  { l with owed := l.owed - 1, low := 0x80, high := 0xBF, payload := l.payload * 0x40 + b.toNat % 0x40 }

/-- Decodes the bytes from position `pos` on, with `lead` the character under
way, if any, and `done` the characters before it. -/
def decodeFrom :
    List UInt8 → (pos : Nat) → (lead : Option Lead) → (done : Array Char) →
      Except Malformed (List Char)
  | [], _, none, done => .ok done.toList
  | [], pos, some l, _ => .error ⟨.unexpectedEnd, l.start, pos, l.byte⟩
  | b :: rest, pos, none, done =>
    if b < 0x80 then decodeFrom rest (pos + 1) none (done.push (Char.ofNat b.toNat))
    else match Lead.ofByte? pos b with
      | none => .error ⟨.invalidStart, pos, pos + 1, b⟩
      | some l => decodeFrom rest (pos + 1) (some l) done
  | b :: rest, pos, some l, done =>
    if l.low ≤ b ∧ b ≤ l.high then
      let l' := l.extend b
      if l'.owed = 0 then decodeFrom rest (pos + 1) none (done.push (Char.ofNat l'.payload))
      else decodeFrom rest (pos + 1) (some l') done
    else .error ⟨.invalidContinuation, l.start, pos, l.byte⟩

/-- The text that the bytes are the UTF-8 of. -/
def decode (bytes : List UInt8) : Except Malformed (List Char) := decodeFrom bytes 0 none #[]

end IntMachine.Text.Utf8
