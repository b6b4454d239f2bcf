import IntMachine.Text.Utf8
import Mathlib.Tactic.Conv
/-!
# Decoding inverts encoding

The bytes of a character in UTF-8 are a lead byte and up to three continuation
bytes, each with six bits of the character's number. The decoder, between two
characters, reads the bytes of any character as that character
(`decodeFrom_utf8EncodeChar`), so it reads the bytes of every text as the text
(`decode_toUTF8`).
-/

namespace IntMachine.Text.Utf8

variable {b : UInt8} {l : Lead} {rest : List UInt8} {pos n m : Nat} {done : Array Char}

/-! ## Bytes as numbers -/

theorem toNat_ofNat (h : n < 0x100) : (UInt8.ofNat n).toNat = n := by
  simpa using Nat.mod_eq_of_lt h

/-- The continuation byte that holds the low six bits of a number. -/
def continuation (n : Nat) : UInt8 := .ofNat (n % 0x40 + 0x80)

theorem toNat_continuation (n : Nat) : (continuation n).toNat = n % 0x40 + 0x80 :=
  toNat_ofNat (by omega)

/-! ## One byte -/

theorem decodeFrom_ascii (h : b.toNat < 0x80) :
    decodeFrom (b :: rest) pos none done =
      decodeFrom rest (pos + 1) none (done.push (Char.ofNat b.toNat)) := by
  rw [decodeFrom, if_pos (UInt8.lt_iff_toNat_lt.2 h)]

theorem decodeFrom_lead (hlow : 0x80 ≤ n) (hhigh : n < 0x100)
    (hl : Lead.ofByte? pos (.ofNat n) = some l) :
    decodeFrom (.ofNat n :: rest) pos none done = decodeFrom rest (pos + 1) (some l) done := by
  have hlead : ¬ UInt8.ofNat n < 0x80 := by
    simp only [UInt8.lt_iff_toNat_lt, toNat_ofNat hhigh, UInt8.reduceToNat]
    omega
  rw [decodeFrom, if_neg hlead, hl]

/-- The next byte may be the continuation byte of a number. -/
def Lead.Admits (l : Lead) (n : Nat) : Prop :=
  l.low.toNat ≤ n % 0x40 + 0x80 ∧ n % 0x40 + 0x80 ≤ l.high.toNat

/-- Every continuation byte is in the widest range. -/
theorem Lead.admits_of_widest (hlow : l.low = 0x80) (hhigh : l.high = 0xBF) (n : Nat) :
    l.Admits n := by
  simp only [Lead.Admits, hlow, hhigh, UInt8.reduceToNat]
  omega

theorem Lead.Admits.range (h : l.Admits n) : l.low ≤ continuation n ∧ continuation n ≤ l.high := by
  simp only [UInt8.le_iff_toNat_le, toNat_continuation]
  exact h

/-- A continuation byte adds its six bits. -/
theorem Lead.extend_continuation (l : Lead) (n : Nat) :
    l.extend (continuation n) =
      ⟨l.start, l.byte, l.owed - 1, 0x80, 0xBF, l.payload * 0x40 + n % 0x40⟩ := by
  have hbits : (n % 0x40 + 0x80) % 0x40 = n % 0x40 := by omega
  rw [Lead.extend, toNat_continuation, hbits]

/-- A continuation byte that is not the last. -/
theorem decodeFrom_continuation (howed : 1 < l.owed) (h : l.Admits n) :
    decodeFrom (continuation n :: rest) pos (some l) done =
      decodeFrom rest (pos + 1)
        (some ⟨l.start, l.byte, l.owed - 1, 0x80, 0xBF, l.payload * 0x40 + n % 0x40⟩) done := by
  have hmore : l.owed - 1 ≠ 0 := by omega
  simp only [decodeFrom, if_pos h.range, Lead.extend_continuation, if_neg hmore]

/-- The last continuation byte completes the character. -/
theorem decodeFrom_last (howed : l.owed = 1) (h : l.Admits n) :
    decodeFrom (continuation n :: rest) pos (some l) done =
      decodeFrom rest (pos + 1) none (done.push (Char.ofNat (l.payload * 0x40 + n % 0x40))) := by
  have hnone : l.owed - 1 = 0 := by omega
  simp only [decodeFrom, if_pos h.range, Lead.extend_continuation, if_pos hnone]

/-! ## Lead bytes -/

theorem ofByte?_two (hlow : 0xC2 ≤ n) (hhigh : n < 0xE0) :
    Lead.ofByte? pos (.ofNat n) = some ⟨pos, .ofNat n, 1, 0x80, 0xBF, n % 0x20⟩ := by
  have hb : (UInt8.ofNat n).toNat = n := toNat_ofNat (by omega)
  simp only [Lead.ofByte?, UInt8.lt_iff_toNat_lt, hb, UInt8.reduceToNat]
  rw [if_neg (by omega), if_pos hhigh]

/-- Behind the lowest lead byte of three bytes the next has a range without overlong
forms, and behind one other a range without surrogates. -/
theorem ofByte?_three (hlow : 0xE0 ≤ n) (hhigh : n < 0xF0) :
    Lead.ofByte? pos (.ofNat n) = some ⟨pos, .ofNat n, 2, if n = 0xE0 then 0xA0 else 0x80,
      if n = 0xED then 0x9F else 0xBF, n % 0x10⟩ := by
  have hb : (UInt8.ofNat n).toNat = n := toNat_ofNat (by omega)
  simp only [Lead.ofByte?, UInt8.lt_iff_toNat_lt, ← UInt8.toNat_inj, hb, UInt8.reduceToNat]
  rw [if_neg (by omega), if_neg (by omega), if_pos hhigh]

/-- Behind the lowest and the highest lead byte of four bytes the next has a range without
overlong forms and without numbers that are too large. -/
theorem ofByte?_four (hlow : 0xF0 ≤ n) (hhigh : n < 0xF5) :
    Lead.ofByte? pos (.ofNat n) = some ⟨pos, .ofNat n, 3, if n = 0xF0 then 0x90 else 0x80,
      if n = 0xF4 then 0x8F else 0xBF, n % 0x08⟩ := by
  have hb : (UInt8.ofNat n).toNat = n := toNat_ofNat (by omega)
  simp only [Lead.ofByte?, UInt8.lt_iff_toNat_lt, ← UInt8.toNat_inj, hb, UInt8.reduceToNat]
  rw [if_neg (by omega), if_neg (by omega), if_neg (by omega), if_pos hhigh]

/-! ## One character -/

theorem decodeFrom_two (hlow : 0x7F < n) (hhigh : n ≤ 0x7FF) :
    decodeFrom (.ofNat (n / 0x40 % 0x20 + 0xC0) :: continuation n :: rest) pos none done =
      decodeFrom rest (pos + 2) none (done.push (Char.ofNat n)) := by
  have hvalue : (n / 0x40 % 0x20 + 0xC0) % 0x20 * 0x40 + n % 0x40 = n := by omega
  rw [decodeFrom_lead (by omega) (by omega) (ofByte?_two (by omega) (by omega)),
    decodeFrom_last rfl (Lead.admits_of_widest rfl rfl n), hvalue]

/-- Three bytes hold what is neither a surrogate nor has fewer bytes, so the second of them
is in its range. -/
theorem decodeFrom_three (hlow : 0x7FF < n) (hhigh : n ≤ 0xFFFF)
    (hsurrogate : n < 0xD800 ∨ 0xDFFF < n) :
    decodeFrom (.ofNat (n / 0x1000 % 0x10 + 0xE0) :: continuation (n / 0x40) :: continuation n ::
        rest) pos none done =
      decodeFrom rest (pos + 3) none (done.push (Char.ofNat n)) := by
  have hvalue :
      ((n / 0x1000 % 0x10 + 0xE0) % 0x10 * 0x40 + n / 0x40 % 0x40) * 0x40 + n % 0x40 = n := by
    omega
  rw [decodeFrom_lead (by omega) (by omega) (ofByte?_three (by omega) (by omega)),
    decodeFrom_continuation Nat.one_lt_two ?second,
    decodeFrom_last rfl (Lead.admits_of_widest rfl rfl n), hvalue]
  case second =>
    simp only [Lead.Admits, apply_ite UInt8.toNat, UInt8.reduceToNat]
    constructor
    · split <;> omega
    · split <;> omega

/-- Four bytes hold what has no fewer bytes and is not too large, so the second of them is
in its range. -/
theorem decodeFrom_four (hlow : 0xFFFF < n) (hhigh : n < 0x110000) :
    decodeFrom (.ofNat (n / 0x40000 % 0x08 + 0xF0) :: continuation (n / 0x1000) ::
        continuation (n / 0x40) :: continuation n :: rest) pos none done =
      decodeFrom rest (pos + 4) none (done.push (Char.ofNat n)) := by
  have hvalue : (((n / 0x40000 % 0x08 + 0xF0) % 0x08 * 0x40 + n / 0x1000 % 0x40) * 0x40 +
      n / 0x40 % 0x40) * 0x40 + n % 0x40 = n := by
    omega
  rw [decodeFrom_lead (by omega) (by omega) (ofByte?_four (by omega) (by omega)),
    decodeFrom_continuation (Nat.lt_succ_of_lt Nat.one_lt_two) ?second,
    decodeFrom_continuation Nat.one_lt_two (Lead.admits_of_widest rfl rfl (n / 0x40)),
    decodeFrom_last rfl (Lead.admits_of_widest rfl rfl n), hvalue]
  case second =>
    simp only [Lead.Admits, apply_ite UInt8.toNat, UInt8.reduceToNat]
    constructor
    · split <;> omega
    · split <;> omega

/-- **The bytes of a character are read as that character**, wherever it stands. -/
theorem decodeFrom_utf8EncodeChar (c : Char) (rest : List UInt8) (pos : Nat) (done : Array Char) :
    ∃ next, decodeFrom (String.utf8EncodeChar c ++ rest) pos none done =
      decodeFrom rest next none (done.push c) := by
  have hvalid : c.toNat < 0xD800 ∨ 0xDFFF < c.toNat ∧ c.toNat < 0x110000 := c.valid
  obtain ⟨n, hn⟩ : ∃ n, c.toNat = n := ⟨_, rfl⟩
  have hc : Char.ofNat n = c := hn ▸ Char.ofNat_toNat c
  have hbytes : String.utf8EncodeChar c =
      if n ≤ 0x7F then [.ofNat n]
      else if n ≤ 0x7FF then [.ofNat (n / 0x40 % 0x20 + 0xC0), continuation n]
      else if n ≤ 0xFFFF then
        [.ofNat (n / 0x1000 % 0x10 + 0xE0), continuation (n / 0x40), continuation n]
      else
        [.ofNat (n / 0x40000 % 0x08 + 0xF0), continuation (n / 0x1000), continuation (n / 0x40),
          continuation n] := by
    subst hn
    rfl
  rw [hn] at hvalid
  rw [hbytes, ← hc]
  split
  · next h =>
    have hn8 : (UInt8.ofNat n).toNat = n := toNat_ofNat (by omega)
    exact ⟨_, by rw [List.singleton_append, decodeFrom_ascii (by omega), hn8]⟩
  split
  · next hlow hhigh => exact ⟨_, decodeFrom_two (Nat.not_le.1 hlow) hhigh⟩
  split
  · next hlow hhigh => exact ⟨_, decodeFrom_three (Nat.not_le.1 hlow) hhigh (by omega)⟩
  · next hlow => exact ⟨_, decodeFrom_four (Nat.not_le.1 hlow) (by omega)⟩

/-! ## Texts -/

theorem decodeFrom_flatMap (s : List Char) (pos : Nat) (done : Array Char) :
    decodeFrom (s.flatMap String.utf8EncodeChar) pos none done = .ok (done.toList ++ s) := by
  induction s generalizing pos done with
  | nil => simp [decodeFrom]
  | cons c s ih =>
    obtain ⟨next, hnext⟩ := decodeFrom_utf8EncodeChar c (s.flatMap String.utf8EncodeChar) pos done
    rw [List.flatMap_cons, hnext, ih]
    simp

/-- **Decoding inverts encoding.** The bytes of a text in UTF-8 are read as that text. -/
theorem decode_toUTF8 (text : String) : decode text.toUTF8.data.toList = .ok text.toList := by
  have hbytes : text.toUTF8.data.toList = text.toList.flatMap String.utf8EncodeChar := by
    conv_lhs => rw [← String.ofList_toList (s := text)]
    rw [String.toUTF8, String.toByteArray_ofList, List.utf8Encode, List.data_toByteArray]
  rw [hbytes]
  exact decodeFrom_flatMap text.toList 0 #[]

end IntMachine.Text.Utf8
