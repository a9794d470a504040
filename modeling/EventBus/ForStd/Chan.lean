import Mathlib.Data.List.Basic

/-!
# Buffered channels

A Go channel with a buffer of `cap` elements: a bounded FIFO queue that can be
closed once. A send blocks while the buffer is full and panics on a closed
channel; a receive takes the oldest element, blocks on an empty open channel and
reports the end of an empty closed one; closing a closed channel panics.

The bound on the buffer is a field of the structure, so that no operation can
build a channel that holds more than its capacity.
-/

/-- The outcome of a channel operation: it completes with a result, it has to
    wait, or it panics. -/
inductive Attempt (β : Type) where
  | done (b : β)
  | blocked
  | panics
deriving DecidableEq, Repr

/-- A buffered channel. -/
structure Chan (α : Type) where
  buf : List α
  cap : Nat
  closed : Bool
  fits : buf.length ≤ cap
deriving DecidableEq, Repr

namespace Chan

variable {α : Type}

/-- `make(chan α, cap)`. -/
def make (cap : Nat) : Chan α := ⟨[], cap, false, Nat.zero_le _⟩

/-- `ch <- x`. -/
def send (ch : Chan α) (x : α) : Attempt (Chan α) :=
  if ch.closed then .panics
  else if h : ch.buf.length < ch.cap then
    .done ⟨ch.buf ++ [x], ch.cap, false, by rw [List.length_append, List.length_singleton]; omega⟩
  else .blocked

/-- `x, ok := <-ch`, with `none` for the end of a closed channel. -/
def receive (ch : Chan α) : Attempt (Option α × Chan α) :=
  match h : ch.buf with
  | x :: xs => .done (some x, ⟨xs, ch.cap, ch.closed, by
      have := ch.fits
      rw [h, List.length_cons] at this
      omega⟩)
  | [] => if ch.closed then .done (none, ch) else .blocked

/-- `close(ch)`. -/
def close (ch : Chan α) : Attempt (Chan α) :=
  if ch.closed then .panics else .done ⟨ch.buf, ch.cap, true, ch.fits⟩

/-- `for _, x := range xs { ch <- x }`. -/
def sendAll (ch : Chan α) : List α → Attempt (Chan α)
  | [] => .done ch
  | x :: xs =>
    match ch.send x with
    | .done ch' => ch'.sendAll xs
    | .blocked => .blocked
    | .panics => .panics

@[simp] theorem make_buf (cap : Nat) : (make cap : Chan α).buf = [] := rfl
@[simp] theorem make_cap (cap : Nat) : (make cap : Chan α).cap = cap := rfl
@[simp] theorem make_closed (cap : Nat) : (make cap : Chan α).closed = false := rfl

/-- A send that completes appends to the buffer of an open channel with a free slot. -/
theorem send_done {ch ch' : Chan α} {x : α} (h : ch.send x = .done ch') :
    ch.closed = false ∧ ch.buf.length < ch.cap ∧
    ch'.buf = ch.buf ++ [x] ∧ ch'.cap = ch.cap ∧ ch'.closed = false := by
  simp only [send] at h
  split at h
  · exact nomatch h
  · rename_i hopen
    split at h
    · rename_i hlt
      obtain rfl := Attempt.done.inj h
      exact ⟨by simpa using hopen, hlt, rfl, rfl, rfl⟩
    · exact nomatch h

/-- A send panics exactly on a closed channel. -/
theorem send_panics_iff (ch : Chan α) (x : α) : ch.send x = .panics ↔ ch.closed = true := by
  simp only [send]
  split
  · rename_i h
    simp [h]
  · rename_i h
    split <;> simp [h]

/-- A send blocks exactly on an open channel whose buffer is full. -/
theorem send_blocked_iff (ch : Chan α) (x : α) :
    ch.send x = .blocked ↔ ch.closed = false ∧ ch.buf.length = ch.cap := by
  have := ch.fits
  simp only [send]
  split
  · rename_i h
    simp [h]
  · rename_i h
    split
    · simp; omega
    · simp [h]; omega

/-- An open channel with a free slot accepts a send. -/
theorem exists_send_done (ch : Chan α) (x : α) (hopen : ch.closed = false)
    (hlt : ch.buf.length < ch.cap) : ∃ ch', ch.send x = .done ch' := by
  cases hs : ch.send x with
  | done ch' => exact ⟨ch', rfl⟩
  | blocked => have := ((send_blocked_iff ch x).mp hs).2; omega
  | panics => rw [send_panics_iff, hopen] at hs; exact nomatch hs

/-- A receive that yields an element takes the head of the buffer. -/
theorem receive_some {ch ch' : Chan α} {x : α} (h : ch.receive = .done (some x, ch')) :
    ch.buf = x :: ch'.buf ∧ ch'.cap = ch.cap ∧ ch'.closed = ch.closed := by
  simp only [receive] at h
  split at h
  · rename_i y ys hbuf
    simp only [Attempt.done.injEq, Prod.mk.injEq, Option.some.injEq] at h
    obtain ⟨rfl, rfl⟩ := h
    exact ⟨hbuf, rfl, rfl⟩
  · split at h <;> simp at h

/-- A receive reports the end exactly of an empty closed channel, which it leaves alone. -/
theorem receive_none {ch ch' : Chan α} (h : ch.receive = .done (none, ch')) :
    ch.buf = [] ∧ ch.closed = true ∧ ch' = ch := by
  simp only [receive] at h
  split at h
  · simp at h
  · split at h
    · rename_i hbuf hcl
      simp only [Attempt.done.injEq, Prod.mk.injEq, true_and] at h
      exact ⟨hbuf, hcl, h.symm⟩
    · exact nomatch h

/-- A receive blocks exactly on an empty open channel. -/
theorem receive_blocked_iff (ch : Chan α) :
    ch.receive = .blocked ↔ ch.buf = [] ∧ ch.closed = false := by
  simp only [receive]
  split
  · simp [*]
  · split <;> simp [*]

/-- A receive from a non-empty buffer completes. -/
theorem exists_receive_some (ch : Chan α) (hne : ch.buf ≠ []) :
    ∃ x ch', ch.receive = .done (some x, ch') := by
  simp only [receive]
  split
  · exact ⟨_, _, rfl⟩
  · exact absurd ‹_› hne

/-- A close that completes marks an open channel and keeps its buffer. -/
theorem close_done {ch ch' : Chan α} (h : ch.close = .done ch') :
    ch.closed = false ∧ ch'.buf = ch.buf ∧ ch'.cap = ch.cap ∧ ch'.closed = true := by
  simp only [close] at h
  split at h
  · exact nomatch h
  · rename_i hopen
    obtain rfl := Attempt.done.inj h
    exact ⟨by simpa using hopen, rfl, rfl, rfl⟩

/-- A close panics exactly on a closed channel. -/
theorem close_panics_iff (ch : Chan α) : ch.close = .panics ↔ ch.closed = true := by
  simp only [close]
  split <;> simp [*]

/-- Sends into an open channel with room for all of them complete, in order. -/
theorem exists_sendAll_done (ch : Chan α) (xs : List α) (hopen : ch.closed = false)
    (hroom : ch.buf.length + xs.length ≤ ch.cap) :
    ∃ ch', ch.sendAll xs = .done ch' ∧ ch'.buf = ch.buf ++ xs ∧
      ch'.cap = ch.cap ∧ ch'.closed = false := by
  induction xs generalizing ch with
  | nil => exact ⟨ch, rfl, by simp, rfl, hopen⟩
  | cons x xs ih =>
    rw [List.length_cons] at hroom
    obtain ⟨ch₁, hs⟩ := exists_send_done ch x hopen (by omega)
    obtain ⟨-, -, hbuf, hcap, hopen₁⟩ := send_done hs
    have hroom₁ : ch₁.buf.length + xs.length ≤ ch₁.cap := by
      rw [hbuf, hcap, List.length_append, List.length_singleton]; omega
    obtain ⟨ch', hall, hbuf', hcap', hopen'⟩ := ih ch₁ hopen₁ hroom₁
    refine ⟨ch', ?_, ?_, hcap'.trans hcap, hopen'⟩
    · simp only [sendAll, hs, hall]
    · rw [hbuf', hbuf, List.append_assoc, List.singleton_append]

end Chan
