/-!
# Channels

A channel carries integers in one direction: everything sent on it so far, and
how much of that has been received. A machine has one channel for its input
and one for its output. Nothing sent is ever forgotten, so `received` is the
history of a channel and `pending` its future.
-/

namespace IntMachine

structure Channel where
  /-- Everything sent so far. -/
  sent : Array Int
  /-- How many of the values sent have been received. -/
  position : Nat
  position_le : position ≤ sent.size
  deriving DecidableEq, Repr

namespace Channel

/-- A channel on which nothing has been sent. -/
def empty : Channel where
  sent := #[]
  position := 0
  position_le := Nat.le_refl _

instance : Inhabited Channel := ⟨empty⟩

/-- The values received, in order. -/
def received (c : Channel) : List Int := c.sent.toList.take c.position

/-- The values sent and not yet received, in order. -/
def pending (c : Channel) : List Int := c.sent.toList.drop c.position

/-- Sends one value. -/
def send (c : Channel) (v : Int) : Channel where
  sent := c.sent.push v
  position := c.position
  position_le := by have := c.position_le; simp; omega

/-- Sends several values. -/
def sendAll (c : Channel) (vs : List Int) : Channel where
  sent := c.sent ++ vs.toArray
  position := c.position
  position_le := by have := c.position_le; simp; omega

/-- Takes back the pending values and sends others in their place. -/
def resend (c : Channel) (vs : List Int) : Channel where
  sent := c.sent.extract 0 c.position ++ vs.toArray
  position := c.position
  position_le := by have := c.position_le; simp; omega

/-- Receives the first pending value. -/
def receive? (c : Channel) : Option (Int × Channel) :=
  if h : c.position < c.sent.size then
    some (c.sent[c.position], { sent := c.sent, position := c.position + 1, position_le := h })
  else none

/-- Receives all pending values. -/
def drain (c : Channel) : List Int × Channel :=
  (c.pending, { sent := c.sent, position := c.sent.size, position_le := Nat.le_refl _ })

/-- Whether nothing is pending. -/
def isDrained (c : Channel) : Bool := c.position == c.sent.size

/-! ## The history and the future of each operation -/

@[ext] theorem ext {c d : Channel} (hs : c.sent = d.sent) (hp : c.position = d.position) :
    c = d := by
  cases c; cases d; cases hs; cases hp; rfl

@[simp] theorem received_append_pending (c : Channel) :
    c.received ++ c.pending = c.sent.toList := List.take_append_drop ..

@[simp] theorem received_empty : empty.received = [] := rfl

@[simp] theorem pending_empty : empty.pending = [] := rfl

@[simp] theorem received_sendAll (c : Channel) (vs : List Int) :
    (c.sendAll vs).received = c.received := by
  have := c.position_le
  simp [received, sendAll, List.take_append_of_le_length, this]

@[simp] theorem pending_sendAll (c : Channel) (vs : List Int) :
    (c.sendAll vs).pending = c.pending ++ vs := by
  have := c.position_le
  simp [pending, sendAll, List.drop_append_of_le_length, this]

@[simp] theorem received_send (c : Channel) (v : Int) : (c.send v).received = c.received := by
  have := c.position_le
  simp [received, send, List.take_append_of_le_length, this]

@[simp] theorem pending_send (c : Channel) (v : Int) :
    (c.send v).pending = c.pending ++ [v] := by
  have := c.position_le
  simp [pending, send, List.drop_append_of_le_length, this]

@[simp] theorem received_resend (c : Channel) (vs : List Int) :
    (c.resend vs).received = c.received := by
  have := c.position_le
  simp [received, resend, this]

@[simp] theorem pending_resend (c : Channel) (vs : List Int) : (c.resend vs).pending = vs := by
  have := c.position_le
  simp [pending, resend, this]

theorem pending_of_receive? {c d : Channel} {v : Int} (h : c.receive? = some (v, d)) :
    c.pending = v :: d.pending := by
  unfold receive? at h
  split at h
  · rename_i hlt
    obtain ⟨rfl, rfl⟩ := by simpa using h
    have : c.position < c.sent.toList.length := by simpa using hlt
    simp only [pending]
    rw [List.drop_eq_getElem_cons this]; simp
  · simp at h

theorem received_of_receive? {c d : Channel} {v : Int} (h : c.receive? = some (v, d)) :
    d.received = c.received ++ [v] := by
  unfold receive? at h
  split at h
  · rename_i hlt
    obtain ⟨rfl, rfl⟩ := by simpa using h
    simp [received, List.take_add_one, hlt]
  · simp at h

/-- Only a channel with nothing pending has nothing to give. -/
theorem receive?_eq_none_iff {c : Channel} : c.receive? = none ↔ c.pending = [] := by
  simp [receive?, pending]

@[simp] theorem isDrained_iff {c : Channel} : c.isDrained ↔ c.pending = [] := by
  have := c.position_le
  simp [isDrained, pending]; omega

@[simp] theorem pending_drain (c : Channel) : c.drain.2.pending = [] := by
  simp [drain, pending]

@[simp] theorem received_drain (c : Channel) : c.drain.2.received = c.sent.toList := by
  have : c.sent.size = c.sent.toList.length := by simp
  simp only [drain, received]
  rw [this, List.take_length]

end Channel

end IntMachine
