import Mathlib.Data.List.Basic

/-! # Bounded single-consumer channels

A channel is the log of everything ever sent on it and how far its receiver has read. The
messages waiting in it are the unread end of that log. Dropping the receiver discards them for
the program, but not from the log.
-/

namespace Gozarbin

/-- A message may be sent while the receiver is `alive` and fewer than `capacity` messages wait. -/
structure Chan (α : Type*) where
  capacity : Nat
  sent : List α
  taken : Nat
  alive : Bool
  taken_le : taken ≤ sent.length
  waiting_le : sent.length - taken ≤ capacity
  deriving DecidableEq

/-- Why a slot could not be reserved. -/
inductive TrySendError where
  | full
  | closed
  deriving DecidableEq, Repr

namespace Chan

variable {α : Type*}

def new (capacity : Nat) : Chan α :=
  ⟨capacity, [], 0, true, Nat.le_refl 0, Nat.zero_le _⟩

def free (c : Chan α) : Nat := c.capacity - (c.sent.length - c.taken)

/-- A slot reserved in `c`: it can be used for exactly one message. -/
structure Permit (c : Chan α) : Type where
  alive : c.alive = true
  room : 0 < c.free

def tryReserve (c : Chan α) : Except TrySendError c.Permit :=
  if alive : c.alive = true then
    if room : 0 < c.free then .ok ⟨alive, room⟩ else .error .full
  else .error .closed

def send (c : Chan α) (permit : c.Permit) (message : α) : Chan α where
  capacity := c.capacity
  sent := c.sent ++ [message]
  taken := c.taken
  alive := c.alive
  taken_le := by simpa using Nat.le_succ_of_le c.taken_le
  waiting_le := by
    have room := permit.room
    have taken_le := c.taken_le
    simp only [free] at room
    simp only [List.length_append, List.length_singleton]
    omega

def trySend (c : Chan α) (message : α) : Except TrySendError (Chan α) :=
  c.tryReserve.map fun permit => c.send permit message

def recv (c : Chan α) : Chan α :=
  if waiting : c.taken < c.sent.length then
    { c with taken := c.taken + 1, taken_le := waiting
             waiting_le := by have := c.waiting_le; omega }
  else c

def offer (c : Chan α) (message : α) : Chan α :=
  match c.trySend message with
  | .ok c => c
  | .error _ => c

def front (c : Chan α) : Option α := c.sent[c.taken]?

def unread (c : Chan α) : Nat := c.sent.length - c.taken

def received (c : Chan α) : List α := c.sent.take c.taken

def dropReceiver (c : Chan α) : Chan α := { c with alive := false }

section
variable (c : Chan α) (permit : c.Permit) (message : α)

@[simp] theorem new_sent (n : Nat) : (new n : Chan α).sent = [] := rfl
@[simp] theorem send_sent : (c.send permit message).sent = c.sent ++ [message] := rfl
@[simp] theorem dropReceiver_sent : c.dropReceiver.sent = c.sent := rfl
@[simp] theorem dropReceiver_alive : c.dropReceiver.alive = false := rfl

@[simp] theorem recv_sent : c.recv.sent = c.sent := by
  unfold recv
  split <;> rfl

@[simp] theorem send_free : (c.send permit message).free = c.free - 1 := by
  have taken_le := c.taken_le
  simp only [free, send, List.length_append, List.length_singleton]
  omega

end

theorem trySend_of_permit {c : Chan α} (permit : c.Permit) (message : α) :
    c.trySend message = .ok (c.send permit message) := by
  rw [trySend, tryReserve, dif_pos permit.alive, dif_pos permit.room]
  rfl

theorem offer_sent {c : Chan α} (permit : c.Permit) (message : α) :
    (c.offer message).sent = c.sent ++ [message] := by
  rw [offer, trySend_of_permit permit]
  rfl

theorem mem_offer {c : Chan α} {message other : α} (member : other ∈ (c.offer message).sent) :
    other ∈ c.sent ∨ other = message := by
  unfold offer trySend at member
  cases reserved : c.tryReserve with
  | error e => exact .inl (by simpa [reserved, Except.map] using member)
  | ok permit => simpa [reserved, Except.map] using member

@[simp] theorem received_offer (c : Chan α) (message : α) :
    (c.offer message).received = c.received := by
  unfold offer trySend
  cases c.tryReserve with
  | error e => rfl
  | ok permit => exact List.take_append_of_le_length c.taken_le

theorem received_recv {c : Chan α} {message : α} (waits : c.front = some message) :
    c.recv.received = c.received ++ [message] := by
  obtain ⟨waiting, here⟩ := List.getElem?_eq_some_iff.mp waits
  rw [recv, dif_pos waiting, received, received, ← here]
  exact List.take_succ_eq_append_getElem waiting

theorem unread_recv {c : Chan α} {message : α} (waits : c.front = some message) :
    c.unread = c.recv.unread + 1 := by
  obtain ⟨waiting, -⟩ := List.getElem?_eq_some_iff.mp waits
  rw [recv, dif_pos waiting, unread, unread]
  simp only
  omega

theorem taken_of_front {c : Chan α} (none : c.front = none) : c.taken = c.sent.length :=
  Nat.le_antisymm c.taken_le (List.getElem?_eq_none_iff.mp none)

theorem received_eq_sent {c : Chan α} (all : c.taken = c.sent.length) : c.received = c.sent := by
  rw [received, all, List.take_length]

theorem tryReserve_full {c : Chan α} (h : c.tryReserve = .error .full) :
    c.alive = true ∧ c.free = 0 := by
  unfold tryReserve at h
  split at h
  next alive =>
    split at h
    next => cases h
    next room => exact ⟨alive, by omega⟩
  next => cases h

theorem tryReserve_closed {c : Chan α} (h : c.tryReserve = .error .closed) :
    c.alive = false := by
  unfold tryReserve at h
  split at h
  next => split at h <;> cases h
  next dead => simpa using dead

end Chan

end Gozarbin
