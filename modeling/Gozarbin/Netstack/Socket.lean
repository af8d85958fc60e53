import Gozarbin.Net.Addr

/-! # The sockets under the user-space stack

The TCP/IP engine is a library; what the stack relies on is modelled here. How many bytes a call
moves is the engine's choice, so it is an argument of the call. `received`, `rxFin` and `broken`
record the past for the specifications; no call of the stack reads them.
-/

namespace Gozarbin.Netstack

/-- The states of the TCP protocol. -/
inductive TcpPhase where
  | closed
  | listen
  | synSent
  | synReceived
  | established
  | finWait1
  | finWait2
  | closeWait
  | closing
  | lastAck
  | timeWait
  deriving DecidableEq, Repr

def TcpPhase.afterClose : TcpPhase → TcpPhase
  | .listen | .synSent => .closed
  | .synReceived | .established => .finWait1
  | .closeWait => .lastAck
  | phase => phase

structure TcpSocket where
  localPort : UInt16
  remote : SocketAddr
  phase : TcpPhase
  rx : Bytes
  tx : Bytes
  received : Bytes
  rxFin : Bool
  broken : Bool
  deriving DecidableEq

/-- What one `poll` of the engine can do to a TCP socket. Leaving TIME-WAIT takes longer than a
    pass. -/
inductive Segment where
  | synAck
  | syn
  | ack
  | payload (bytes : Bytes)
  | fin
  | finAck
  | reset
  | timeout
  deriving DecidableEq

namespace TcpSocket

def connecting (localPort : UInt16) (remote : SocketAddr) : TcpSocket :=
  { localPort, remote, phase := .synSent, rx := [], tx := [], received := [],
    rxFin := false, broken := false }

def maySend (s : TcpSocket) : Bool := s.phase = .established || s.phase = .closeWait

def canSend (s : TcpSocket) (room : Nat) : Bool := s.maySend && 0 < room

def sendSlice (s : TcpSocket) (room : Nat) (data : Bytes) : Option (Nat × TcpSocket) :=
  if s.maySend then
    let accepted := min room data.length
    some (accepted, { s with tx := s.tx ++ data.take accepted })
  else none

def canRecv (s : TcpSocket) : Bool := !s.rx.isEmpty

def recv (s : TcpSocket) (cut : Nat) : Bytes × TcpSocket :=
  (s.rx.take cut, { s with rx := s.rx.drop cut })

def close (s : TcpSocket) : TcpSocket := { s with phase := s.phase.afterClose }

def abort (s : TcpSocket) : TcpSocket := { s with phase := .closed, broken := true }

def receive (s : TcpSocket) (segment : Segment) : TcpSocket :=
  match segment, s.phase with
  | .synAck, .synSent => { s with phase := .established }
  | .syn, .synSent => { s with phase := .synReceived }
  | .ack, .synReceived => { s with phase := .established }
  | .payload bytes, .established | .payload bytes, .finWait1 | .payload bytes, .finWait2 =>
    { s with rx := s.rx ++ bytes, received := s.received ++ bytes }
  | .fin, .established | .fin, .synReceived => { s with phase := .closeWait, rxFin := true }
  | .fin, .finWait1 => { s with phase := .closing, rxFin := true }
  | .fin, .finWait2 => { s with phase := .timeWait, rxFin := true }
  | .finAck, .finWait1 => { s with phase := .finWait2 }
  | .finAck, .closing => { s with phase := .timeWait }
  | .finAck, .lastAck => { s with phase := .closed }
  | .reset, _ | .timeout, _ => { s with phase := .closed, broken := true }
  | _, _ => s

section
variable (s : TcpSocket)

@[simp] theorem close_rx : s.close.rx = s.rx := rfl
@[simp] theorem close_tx : s.close.tx = s.tx := rfl
@[simp] theorem close_received : s.close.received = s.received := rfl
@[simp] theorem close_rxFin : s.close.rxFin = s.rxFin := rfl
@[simp] theorem close_phase : s.close.phase = s.phase.afterClose := rfl
@[simp] theorem close_broken : s.close.broken = s.broken := rfl

theorem close_settled : s.close.phase ≠ .listen ∧ s.close.phase ≠ .synSent := by
  rw [close_phase]
  cases s.phase <;> decide

theorem receive_conserves (segment : Segment) :
    ∃ bytes, (s.receive segment).rx = s.rx ++ bytes ∧
      (s.receive segment).received = s.received ++ bytes := by
  unfold receive
  split
  case h_4 bytes _ | h_5 bytes _ | h_6 bytes _ => exact ⟨bytes, rfl, rfl⟩
  all_goals exact ⟨[], by simp, by simp⟩

theorem receive_settled (segment : Segment) :
    (s.receive segment).phase = s.phase ∨
      (s.receive segment).phase ≠ .listen ∧ (s.receive segment).phase ≠ .synSent := by
  unfold receive
  split <;> simp

@[simp] theorem receive_tx (segment : Segment) : (s.receive segment).tx = s.tx := by
  unfold receive
  split <;> rfl

end

end TcpSocket

/-- A bound UDP socket and the datagrams waiting in it. -/
structure UdpSocket where
  localPort : UInt16
  rx : List (SocketAddr × Bytes)
  tx : List (SocketAddr × Bytes)
  deriving DecidableEq

inductive Socket where
  | tcp (socket : TcpSocket)
  | udp (socket : UdpSocket)
  deriving DecidableEq

abbrev SocketHandle := Nat

abbrev SocketSet := List (Option Socket)

namespace SocketSet

def get? (set : SocketSet) (h : SocketHandle) : Option Socket := (set[h]?).join

def add (set : SocketSet) (socket : Socket) : SocketHandle × SocketSet :=
  match set.findIdx? Option.isNone with
  | some h => (h, set.set h (some socket))
  | none => (set.length, set ++ [some socket])

def put (set : SocketSet) (h : SocketHandle) (socket : Socket) : SocketSet :=
  set.set h (some socket)

def remove (set : SocketSet) (h : SocketHandle) : SocketSet := set.set h none

variable {set : SocketSet} {h k : SocketHandle} {socket : Socket}

theorem lt_of_get? (found : get? set h = some socket) : h < set.length := by
  by_contra outside
  simp [get?, List.getElem?_eq_none (Nat.le_of_not_lt outside)] at found

theorem get?_put_self (live : h < set.length) : get? (set.put h socket) h = some socket := by
  simp [get?, put, live]

theorem get?_put_ne (apart : k ≠ h) : get? (set.put h socket) k = get? set k := by
  simp [get?, put, apart.symm]

theorem get?_remove_self : get? (set.remove h) h = none := by
  simp only [get?, remove, List.getElem?_set, if_true]
  split <;> rfl

theorem get?_remove_ne (apart : k ≠ h) : get? (set.remove h) k = get? set k := by
  simp [get?, remove, apart.symm]

theorem get?_add_self : get? (set.add socket).2 (set.add socket).1 = some socket := by
  unfold add
  split
  next h free =>
    have inside := (List.findIdx?_eq_some_iff_getElem.mp free).1
    simp [get?, inside]
  next => simp [get?]

theorem get?_fresh : get? set (set.add socket).1 = none := by
  unfold add
  split
  next h free =>
    obtain ⟨inside, empty, -⟩ := List.findIdx?_eq_some_iff_getElem.mp free
    simpa [get?, List.getElem?_eq_getElem inside] using empty
  next => simp [get?]

theorem get?_add_ne (apart : k ≠ (set.add socket).1) :
    get? (set.add socket).2 k = get? set k := by
  unfold add at apart ⊢
  split at apart
  next h free => simp [get?, Ne.symm apart]
  next =>
    simp only [get?]
    rcases Nat.lt_trichotomy k set.length with inside | same | outside
    · rw [List.getElem?_append_left inside]
    · exact absurd same apart
    · rw [List.getElem?_eq_none (by simp; omega), List.getElem?_eq_none (by omega)]

end SocketSet

end Gozarbin.Netstack
