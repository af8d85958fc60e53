import Gozarbin.Netstack.Ownership
import Gozarbin.Netstack.Pass

/-! # What each operation of the stack does to its connections

`Moves f s t` says that an operation took the stack from `s` to `t`, kept its ownership, and did
`f` to every TCP connection. Every operation but the opening of a connection is of this form, so
what holds of all connections is proved for `f` alone.
-/

namespace Gozarbin.Netstack

open List

namespace SocketSet
variable {set : SocketSet} {h k : SocketHandle} {socket : Socket}

theorem kind?_put (found : kind? set h = some socket.kind) :
    kind? (set.put h socket) k = kind? set k := by
  by_cases same : k = h
  · subst same
    obtain ⟨old, here, -⟩ := Option.map_eq_some_iff.mp found
    rw [found]
    simp [kind?, get?_put_self (lt_of_get? here)]
  · simp [kind?, get?_put_ne same]

theorem kind?_remove_self : kind? (set.remove h) h = none := by
  simp [kind?, get?_remove_self]

theorem kind?_remove_ne (apart : k ≠ h) : kind? (set.remove h) k = kind? set k := by
  simp [kind?, get?_remove_ne apart]

theorem kind?_fresh : kind? set (set.add socket).1 = none := by
  simp [kind?, get?_fresh]

theorem kind?_add_self : kind? (set.add socket).2 (set.add socket).1 = some socket.kind := by
  simp [kind?, get?_add_self]

theorem kind?_add_ne (apart : k ≠ (set.add socket).1) :
    kind? (set.add socket).2 k = kind? set k := by
  simp [kind?, get?_add_ne apart]

end SocketSet

namespace NetStack

variable {s t u : NetStack} {id : Nat} {c : Conn}

theorem tcp?_eq_some :
    s.tcp? id = some c ↔
      s.tcpConns.lookup id = some c.1 ∧ s.sockets.get? c.1.handle = some (.tcp c.2) := by
  unfold tcp?
  constructor
  · intro found
    obtain ⟨st, here, found⟩ := Option.bind_eq_some_iff.mp found
    split at found
    next socket there =>
      cases found
      exact ⟨here, there⟩
    next => cases found
  · rintro ⟨here, there⟩
    simp [here, there]

theorem mem_keys_of_tcp? (found : s.tcp? id = some c) : id ∈ s.tcpConns.keys := by
  rw [Finmap.mem_keys, ← Finmap.lookup_isSome, (tcp?_eq_some.mp found).1]
  rfl

theorem owns_of_tcp? (found : s.tcp? id = some c) : s.Owns .tcp id c.1.handle :=
  ⟨c.1, (tcp?_eq_some.mp found).1, rfl⟩

variable {st : TcpState}

theorem Owned.tcp?_of_lookup (owned : s.Owned)
    (found : s.tcpConns.lookup id = some st) : ∃ socket, s.tcp? id = some (st, socket) := by
  have kind := owned.named (k := .tcp) ⟨st, found, rfl⟩
  obtain ⟨socket, there, kind⟩ := Option.map_eq_some_iff.mp kind
  cases socket with
  | tcp socket => exact ⟨socket, tcp?_eq_some.mpr ⟨found, there⟩⟩
  | udp socket => cases kind

theorem Owned.udp_of_lookup {st : UdpState} (owned : s.Owned)
    (found : s.udpConns.lookup id = some st) :
    ∃ socket, s.sockets.get? st.handle = some (.udp socket) := by
  have kind := owned.named (k := .udp) ⟨st, found, rfl⟩
  obtain ⟨socket, there, kind⟩ := Option.map_eq_some_iff.mp kind
  cases socket with
  | tcp socket => cases kind
  | udp socket => exact ⟨socket, there⟩

theorem tcp?_eq_none (owned : s.Owned) : s.tcp? id = none ↔ s.tcpConns.lookup id = none := by
  constructor
  · intro absent
    cases found : s.tcpConns.lookup id with
    | none => rfl
    | some st =>
      obtain ⟨socket, present⟩ := owned.tcp?_of_lookup found
      rw [absent] at present
      cases present
  · intro absent
    simp [tcp?, absent]

structure Moves (f : Nat → Conn → Option Conn) (s t : NetStack) : Prop where
  owned : t.Owned
  nextId : t.nextId = s.nextId
  tcp : ∀ id, t.tcp? id = (s.tcp? id).bind (f id)

theorem Moves.congr {f g : Nat → Conn → Option Conn} (moves : Moves f s t)
    (same : ∀ id c, s.tcp? id = some c → f id c = g id c) : Moves g s t where
  owned := moves.owned
  nextId := moves.nextId
  tcp id := by
    rw [moves.tcp]
    cases found : s.tcp? id with
    | none => rfl
    | some c => exact same id c found

theorem Moves.refl (owned : s.Owned) : Moves (fun _ c => some c) s s :=
  ⟨owned, rfl, fun _ => by simp⟩

theorem Moves.of_frame (owned : t.Owned) (nextId : t.nextId = s.nextId)
    (frame : ∀ id, t.tcp? id = s.tcp? id) : Moves (fun _ c => some c) s t :=
  ⟨owned, nextId, fun id => by simpa using frame id⟩

theorem Moves.trans {f g : Nat → Conn → Option Conn} (first : Moves f s t)
    (second : Moves g t u) : Moves (fun id c => (f id c).bind (g id)) s u where
  owned := second.owned
  nextId := second.nextId.trans first.nextId
  tcp id := by rw [second.tcp, first.tcp, Option.bind_assoc]

theorem tcp?_congr (entry : t.tcpConns.lookup id = s.tcpConns.lookup id)
    (sockets : ∀ st, s.tcpConns.lookup id = some st →
      t.sockets.get? st.handle = s.sockets.get? st.handle) : t.tcp? id = s.tcp? id := by
  unfold tcp?
  rw [entry]
  cases found : s.tcpConns.lookup id with
  | none => rfl
  | some st => simp only [Option.bind_some, sockets st found]

variable {i : Nat}

theorem Owned.handle_ne {k : Kind} {h : SocketHandle} (owned : s.Owned)
    (found : s.tcpConns.lookup i = some st) (owns : s.Owns k id h) (apart : i ≠ id) :
    st.handle ≠ h := by
  rintro rfl
  exact apart (owned.unique (k := .tcp) ⟨st, found, rfl⟩ owns)

theorem Owned.handle_ne_udp {h : SocketHandle} (owned : s.Owned)
    (found : s.tcpConns.lookup i = some st) (owns : s.Owns .udp id h) : st.handle ≠ h := by
  rintro rfl
  have tcp := owned.named (k := .tcp) ⟨st, found, rfl⟩
  rw [owned.named owns] at tcp
  cases tcp

theorem owns_insertTcp {st' : TcpState} {sockets : SocketSet}
    (found : s.tcpConns.lookup id = some st) (same : st'.handle = st.handle) (k : Kind) (i : Nat)
    (h : SocketHandle) :
    ({ s with sockets, tcpConns := s.tcpConns.insert id st' } : NetStack).Owns k i h ↔
      s.Owns k i h := by
  cases k with
  | udp => exact Iff.rfl
  | tcp =>
    by_cases here : i = id
    · subst here
      simp [Owns, found, same]
    · simp [Owns, Finmap.lookup_insert_of_ne _ here]

theorem owns_insertUdp {st st' : UdpState} {sockets : SocketSet}
    (found : s.udpConns.lookup id = some st) (same : st'.handle = st.handle) (k : Kind) (i : Nat)
    (h : SocketHandle) :
    ({ s with sockets, udpConns := s.udpConns.insert id st' } : NetStack).Owns k i h ↔
      s.Owns k i h := by
  cases k with
  | tcp => exact Iff.rfl
  | udp =>
    by_cases here : i = id
    · subst here
      simp [Owns, found, same]
    · simp [Owns, Finmap.lookup_insert_of_ne _ here]

theorem putTcp_moves {c' : Conn} (owned : s.Owned) (found : s.tcp? id = some c)
    (same : c'.1.handle = c.1.handle) :
    Moves (fun i old => if i = id then some c' else some old) s (s.putTcp id c'.1 c'.2) := by
  obtain ⟨entry, socket⟩ := tcp?_eq_some.mp found
  refine ⟨?owned, rfl, ?tcp⟩
  case owned =>
    refine owned.update (owns_insertTcp entry same) (fun h => ?_) rfl
    refine SocketSet.kind?_put ?_
    rw [same]
    exact owned.named (owns_of_tcp? found)
  case tcp =>
    intro i
    by_cases here : i = id
    · subst here
      have live := SocketSet.lt_of_get? socket
      rw [← same] at live
      rw [found]
      simp only [if_true]
      exact tcp?_eq_some.mpr ⟨by simp [putTcp], SocketSet.get?_put_self live⟩
    · have frame : (s.putTcp id c'.1 c'.2).tcp? i = s.tcp? i := by
        refine tcp?_congr (Finmap.lookup_insert_of_ne _ here) fun st other => ?_
        refine SocketSet.get?_put_ne ?_
        rw [same]
        exact owned.handle_ne other (owns_of_tcp? found) here
      rw [frame]
      simp [here]

theorem removeTcp_moves (owned : s.Owned) (found : s.tcp? id = some c) :
    Moves (fun i old => if i = id then none else some old) s (s.removeTcp id c.1.handle) := by
  refine ⟨?owned, rfl, ?tcp⟩
  case owned =>
    refine owned.remove (owns_of_tcp? found) ?_ SocketSet.kind?_remove_self
      (fun h apart => SocketSet.kind?_remove_ne apart) rfl
    intro k i h
    cases k with
    | udp => simp [Owns, removeTcp]
    | tcp =>
      by_cases here : i = id
      · subst here
        simp [Owns, removeTcp]
      · simp [Owns, removeTcp, here]
  case tcp =>
    intro i
    by_cases here : i = id
    · subst here
      simp [tcp?, removeTcp]
    · have frame : (s.removeTcp id c.1.handle).tcp? i = s.tcp? i := by
        refine tcp?_congr (Finmap.lookup_erase_ne here) fun st other => ?_
        exact SocketSet.get?_remove_ne (owned.handle_ne other (owns_of_tcp? found) here)
      rw [frame]
      simp [here]

theorem insertTcp_moves (owned : s.Owned)
    (found : s.tcpConns.lookup id = some st) (f : TcpState → TcpState)
    (keeps : (f st).handle = st.handle) :
    Moves (fun i old => if i = id then some (f old.1, old.2) else some old) s
      { s with tcpConns := s.tcpConns.insert id (f st) } := by
  refine ⟨owned.update (owns_insertTcp found keeps) (fun _ => rfl) rfl, rfl, fun i => ?_⟩
  by_cases here : i = id
  · subst here
    obtain ⟨socket, present⟩ := owned.tcp?_of_lookup found
    rw [present]
    simp only [if_true]
    refine tcp?_eq_some.mpr ⟨Finmap.lookup_insert _, ?_⟩
    rw [keeps]
    exact (tcp?_eq_some.mp present).2
  · have frame : ({ s with tcpConns := s.tcpConns.insert id (f st) } : NetStack).tcp? i =
        s.tcp? i := tcp?_congr (Finmap.lookup_insert_of_ne _ here) fun _ _ => rfl
    rw [frame]
    simp [here]

theorem ne_of_absent (absent : s.tcpConns.lookup id = none)
    (present : s.tcp? i = some c) : i ≠ id := by
  rintro rfl
  rw [(tcp?_eq_some.mp present).1] at absent
  cases absent

theorem modifyTcp_moves {f : TcpState → TcpState} (owned : s.Owned)
    (keeps : ∀ st, (f st).handle = st.handle) :
    Moves (fun i old => if i = id then some (f old.1, old.2) else some old) s
      (s.modifyTcp id f) := by
  unfold modifyTcp
  split
  next st found => exact insertTcp_moves owned found f (keeps st)
  next absent =>
    exact (Moves.refl owned).congr fun i old present => by simp [ne_of_absent absent present]

theorem putUdp_moves {st : UdpState} (owned : s.Owned)
    (found : s.udpConns.lookup id = some st) (socket : UdpSocket) :
    Moves (fun _ c => some c) s { s with sockets := s.sockets.put st.handle (.udp socket) } := by
  have owns : s.Owns .udp id st.handle := ⟨st, found, rfl⟩
  refine .of_frame (owned.update (fun _ _ _ => Iff.rfl) (fun h => ?_) rfl) rfl fun i => ?_
  · exact SocketSet.kind?_put (owned.named owns)
  · exact tcp?_congr rfl fun st other => SocketSet.get?_put_ne (owned.handle_ne_udp other owns)

theorem insertUdp_moves {st st' : UdpState} (owned : s.Owned)
    (found : s.udpConns.lookup id = some st) (same : st'.handle = st.handle) :
    Moves (fun _ c => some c) s { s with udpConns := s.udpConns.insert id st' } :=
  .of_frame (owned.update (owns_insertUdp found same) (fun _ => rfl) rfl) rfl fun _ =>
    tcp?_congr rfl fun _ _ => rfl

theorem removeUdp_moves {st : UdpState} (owned : s.Owned)
    (found : s.udpConns.lookup id = some st) :
    Moves (fun _ c => some c) s (s.removeUdp id st.handle) := by
  have owns : s.Owns .udp id st.handle := ⟨st, found, rfl⟩
  refine .of_frame ?owned rfl ?tcp
  case owned =>
    refine owned.remove owns ?_ SocketSet.kind?_remove_self
      (fun h apart => SocketSet.kind?_remove_ne apart) rfl
    intro k i h
    cases k with
    | tcp => simp [Owns, removeUdp]
    | udp =>
      by_cases here : i = id
      · subst here
        simp [Owns, removeUdp]
      · simp [Owns, removeUdp, here]
  case tcp =>
    intro i
    exact tcp?_congr rfl fun st other => SocketSet.get?_remove_ne (owned.handle_ne_udp other owns)

theorem modifyUdp_moves {f : Chan (SocketAddr × Bytes) → Chan (SocketAddr × Bytes)}
    (owned : s.Owned) : Moves (fun _ c => some c) s (s.modifyUdp id f) := by
  unfold modifyUdp
  split
  next st found => exact insertUdp_moves owned found rfl
  next => exact .refl owned

end NetStack

open NetStack

variable {cfg : Config} {s : NetStack}

theorem serviceUdpId_moves (owned : s.Owned) (id : Nat) :
    ∃ t busy, serviceUdpId s id = some (t, busy) ∧ Moves (fun _ c => some c) s t := by
  unfold serviceUdpId
  cases found : s.udpConns.lookup id with
  | none => exact ⟨s, false, rfl, .refl owned⟩
  | some st =>
    obtain ⟨socket, there⟩ := owned.udp_of_lookup found
    simp only [there]
    split
    · exact ⟨_, _, rfl, removeUdp_moves owned found⟩
    · have put := putUdp_moves owned found (drainUdp maxRecvChunks st.toApp socket).2.1
      exact ⟨_, _, rfl, put.trans (insertUdp_moves put.owned found rfl)⟩

theorem serviceUdp_moves (owned : s.Owned) (ids : List Nat) :
    ∃ t busy, serviceUdp s ids = some (t, busy) ∧ Moves (fun _ c => some c) s t := by
  apply serviceUdp_loop (I := NetStack.Owned) .refl .trans ?body owned ids
  intro s owned id
  obtain ⟨t, busy, served, moved⟩ := serviceUdpId_moves owned id
  exact ⟨t, busy, served, moved.owned, moved⟩

def PollItem.onConn (c : Conn) : PollItem → Conn
  | .tcp handle segment => if handle = c.1.handle then (c.1, c.2.receive segment) else c
  | .udp _ _ _ => c

theorem pollItem_moves (owned : s.Owned) (item : PollItem) :
    Moves (fun _ c => some (item.onConn c)) s { s with sockets := pollItem s.sockets item } := by
  have unchanged : ∀ {same : SocketSet}, same = s.sockets →
      (∀ i c, s.tcp? i = some c → item.onConn c = c) →
      Moves (fun _ c => some (item.onConn c)) s { s with sockets := same } := by
    rintro _ rfl idle
    exact (Moves.refl owned).congr fun i c found => by rw [idle i c found]
  cases item with
  | udp handle source data =>
    simp only [pollItem]
    split
    next socket there =>
      have kind : s.sockets.kind? handle = some .udp := by simp [SocketSet.kind?, there, Socket.kind]
      obtain ⟨id, st, found, rfl⟩ := owned.covered kind
      exact putUdp_moves owned found _
    next => exact unchanged rfl fun _ _ _ => rfl
  | tcp handle segment =>
    simp only [pollItem]
    split
    next socket there =>
      have kind : s.sockets.kind? handle = some .tcp := by simp [SocketSet.kind?, there, Socket.kind]
      refine ⟨owned.update (fun _ _ _ => Iff.rfl) (fun h => SocketSet.kind?_put kind) rfl, rfl,
        fun i => ?_⟩
      cases found : s.tcp? i with
      | none =>
        rw [tcp?_eq_none owned] at found
        simp [tcp?, found]
      | some c =>
        obtain ⟨entry, here⟩ := tcp?_eq_some.mp found
        by_cases same : handle = c.1.handle
        · have socket_eq : socket = c.2 := by
            rw [same, here] at there
            cases there
            rfl
          subst same
          simp only [Option.bind_some, PollItem.onConn]
          refine tcp?_eq_some.mpr ⟨entry, ?_⟩
          rw [socket_eq]
          exact SocketSet.get?_put_self (SocketSet.lt_of_get? here)
        · simp only [Option.bind_some, PollItem.onConn, same]
          refine tcp?_eq_some.mpr ⟨entry, ?_⟩
          exact (SocketSet.get?_put_ne (Ne.symm same)).trans here
    next other =>
      refine unchanged rfl fun i c found => ?_
      have elsewhere : handle ≠ c.1.handle := by
        rintro rfl
        exact other _ (tcp?_eq_some.mp found).2
      simp [PollItem.onConn, elsewhere]

theorem poll_moves (owned : s.Owned) (items : List PollItem) :
    Moves (fun _ c => some (items.foldl PollItem.onConn c)) s
      { s with sockets := items.foldl pollItem s.sockets } := by
  induction items generalizing s with
  | nil => exact .refl owned
  | cons item items ih =>
    have first := pollItem_moves owned item
    exact first.trans (ih first.owned)

section serviceTcp
variable (cfg) (now : Nat)

def servedEntry (cfg : Config) (now : Nat) (io : Nat → PassIo) (id : Nat) (c : Conn) : Option Conn :=
  (serviceEntry cfg now (io id) id c.1 c.2).entry

def servedEffects (cfg : Config) (now : Nat) (io : Nat → PassIo) (id : Nat) (c : Conn) :
    List Effect :=
  (serviceEntry cfg now (io id) id c.1 c.2).effects

theorem serviceId_moves (owned : s.Owned) (io : Nat → PassIo) (id : Nat) :
    ∃ t effects busy, serviceId cfg now (io id) s id = some (t, effects, busy) ∧
      Moves (fun i c => if i = id then servedEntry cfg now io i c else some c) s t ∧
      ∀ effect, effect ∈ effects ↔
        ∃ c, s.tcp? id = some c ∧ effect ∈ servedEffects cfg now io id c := by
  unfold serviceId
  cases found : s.tcpConns.lookup id with
  | none =>
    have absent := (tcp?_eq_none owned).mpr found
    refine ⟨s, [], false, rfl, (Moves.refl owned).congr fun i c present => ?_, by simp [absent]⟩
    have elsewhere : i ≠ id := by
      rintro rfl
      rw [absent] at present
      cases present
    simp [elsewhere]
  | some st =>
    obtain ⟨socket, present⟩ := owned.tcp?_of_lookup found
    have here : ∀ i c, s.tcp? i = some c → i = id → c = (st, socket) := by
      rintro i c same rfl
      exact Option.some.inj (same.symm.trans present)
    simp only [(tcp?_eq_some.mp present).2, present, Option.some.injEq, exists_eq_left']
    cases kept : (serviceEntry cfg now (io id) id st socket).entry with
    | some c =>
      refine ⟨_, _, _, rfl, ?_, fun _ => Iff.rfl⟩
      refine (putTcp_moves owned present (serviceEntry_carries kept).handle).congr
        fun i old same => ?_
      split
      next this =>
        rw [here i old same this, this]
        exact kept.symm
      next => rfl
    | none =>
      refine ⟨_, _, _, rfl, ?_, fun _ => Iff.rfl⟩
      refine (removeTcp_moves owned present).congr fun i old same => ?_
      split
      next this =>
        rw [here i old same this, this]
        exact kept.symm
      next => rfl

theorem serviceTcp_moves (owned : s.Owned) (io : Nat → PassIo) {ids : List Nat}
    (once : ids.Nodup) :
    ∃ t effects busy, serviceTcp cfg now io s ids = some (t, effects, busy) ∧
      Moves (fun i c => if i ∈ ids then servedEntry cfg now io i c else some c) s t ∧
      ∀ effect, effect ∈ effects ↔
        ∃ id ∈ ids, ∃ c, s.tcp? id = some c ∧ effect ∈ servedEffects cfg now io id c := by
  induction ids generalizing s with
  | nil => exact ⟨s, [], false, rfl, by simpa using Moves.refl owned, by simp⟩
  | cons id ids ih =>
    obtain ⟨fresh, once⟩ := nodup_cons.mp once
    obtain ⟨t, effects, busy, first, moved, here⟩ := serviceId_moves cfg now owned io id
    obtain ⟨u, effects', busy', rest, moved', later⟩ := ih moved.owned once
    refine ⟨u, effects ++ effects', busy || busy', by simp [serviceTcp, first, rest], ?_, ?_⟩
    · refine (moved.trans moved').congr fun i c _ => ?_
      by_cases this : i = id
      · subst this
        simp [fresh]
      · simp [this]
    · intro effect
      -- The connections served later are still as they were before the pass.
      have same : ∀ i ∈ ids, t.tcp? i = s.tcp? i := by
        intro i member
        have apart : i ≠ id := fun this => fresh (this ▸ member)
        rw [moved.tcp]
        simp [apart]
      simp only [mem_append, here, later, mem_cons, or_and_right, exists_or,
        exists_eq_left]
      refine or_congr Iff.rfl (exists_congr fun i => and_congr_right fun member => ?_)
      rw [same i member]

theorem serviceTcp_all (owned : s.Owned) (io : Nat → PassIo) {ids : List Nat}
    (once : ids.Nodup) (all : ids.toFinset = s.tcpConns.keys) :
    ∃ t effects busy, serviceTcp cfg now io s ids = some (t, effects, busy) ∧
      Moves (servedEntry cfg now io) s t ∧
      ∀ effect, effect ∈ effects ↔
        ∃ id c, s.tcp? id = some c ∧ effect ∈ servedEffects cfg now io id c := by
  have listed : ∀ {i c}, s.tcp? i = some c → i ∈ ids := by
    intro i c found
    rw [← mem_toFinset, all]
    exact mem_keys_of_tcp? found
  obtain ⟨t, effects, busy, served, moved, effect_iff⟩ := serviceTcp_moves cfg now owned io once
  refine ⟨t, effects, busy, served, moved.congr fun i c found => if_pos (listed found), ?_⟩
  intro effect
  rw [effect_iff]
  constructor
  · rintro ⟨id, -, c, found, member⟩
    exact ⟨id, c, found, member⟩
  · rintro ⟨id, c, found, member⟩
    exact ⟨id, listed found, c, found, member⟩

end serviceTcp

def DataIn.payload (id : Nat) : DataIn → Bytes
  | .tcp i data => if i = id then data else []
  | _ => []

def payloads (id : Nat) (messages : List DataIn) : Bytes := messages.flatMap (DataIn.payload id)

@[simp] theorem payloads_nil (id : Nat) : payloads id [] = [] := rfl

@[simp] theorem payloads_cons (id : Nat) (message : DataIn) (messages : List DataIn) :
    payloads id (message :: messages) = message.payload id ++ payloads id messages := by
  simp [payloads]

@[simp] theorem payloads_append (id : Nat) (left right : List DataIn) :
    payloads id (left ++ right) = payloads id left ++ payloads id right := by
  simp [payloads]

def DataIn.isTcp : DataIn → Bool
  | .tcp _ _ => true
  | _ => false

structure Fed (cfg : Config) (id : Nat) (before after : List DataIn) (c c' : Conn) : Prop where
  socket : c'.2 = c.2
  entry : ∃ pending halfClosed, c'.1 = { c.1 with pending, halfClosed }
  pending : c.1.pending <+: c'.1.pending
  bytes : c'.upload ++ payloads id after = c.upload ++ payloads id before
  bounded : c.1.pending.length ≤ maxTcpPending cfg → c'.1.pending.length ≤ maxTcpPending cfg
  halfClosed : c'.1.halfClosed = (c.1.halfClosed || decide (.tcpClose id ∈ before))

variable {before after : List DataIn}

theorem Fed.idle {id : Nat} (c : Conn)
    (bytes : payloads id after = payloads id before) (open_ : .tcpClose id ∉ before) :
    Fed cfg id before after c c where
  socket := rfl
  entry := ⟨_, _, rfl⟩
  pending := prefix_refl _
  bytes := by rw [bytes]
  bounded := fun small => small
  halfClosed := by simp [open_]

theorem Fed.frame {id : Nat} {rest : List DataIn} {c c' : Conn}
    (fed : Fed cfg id before after c c') (open_ : .tcpClose id ∉ rest) :
    Fed cfg id (before ++ rest) (after ++ rest) c c' where
  socket := fed.socket
  entry := fed.entry
  pending := fed.pending
  bytes := by
    rw [payloads_append, payloads_append, ← append_assoc, ← append_assoc, fed.bytes]
  bounded := fed.bounded
  halfClosed := by simp [fed.halfClosed, open_]

theorem Fed.trans {id : Nat} {between : List DataIn} {c c' c'' : Conn}
    (first : Fed cfg id before between c c') (second : Fed cfg id between after c' c'')
    (open_ : .tcpClose id ∉ between) : Fed cfg id before after c c'' where
  socket := second.socket.trans first.socket
  entry := by
    obtain ⟨pending, halfClosed, entry⟩ := first.entry
    obtain ⟨pending', halfClosed', entry'⟩ := second.entry
    exact ⟨pending', halfClosed', by rw [entry', entry]⟩
  pending := first.pending.trans second.pending
  bytes := second.bytes.trans first.bytes
  bounded := second.bounded ∘ first.bounded
  halfClosed := by simp [second.halfClosed, open_, first.halfClosed]

theorem not_mem_of_isTcp {messages : List DataIn} (tcp : ∀ d ∈ messages, d.isTcp = true)
    (id : Nat) : .tcpClose id ∉ messages := by
  intro member
  cases tcp _ member

def DataIn.onConn (cfg : Config) (message : DataIn) (i : Nat) (c : Conn) : Conn :=
  match message with
  | .tcp id data =>
    if i = id then
      ({ c.1 with pending := c.1.pending ++ data.take (maxTcpPending cfg - c.1.pending.length) },
        c.2)
    else c
  | .tcpClose id => if i = id then ({ c.1 with halfClosed := true }, c.2) else c
  | _ => c

def DataIn.left (cfg : Config) (message : DataIn) (i : Nat) (c : Conn) : Bytes :=
  (message.payload i).drop (maxTcpPending cfg - c.1.pending.length)

theorem DataIn.onConn_fed {i : Nat} {message : DataIn} {back : List DataIn} (c : Conn)
    (rest : payloads i back = message.left cfg i c) :
    Fed cfg i [message] back c (message.onConn cfg i c) := by
  have idle : message.payload i = [] → .tcpClose i ∉ [message] → Fed cfg i [message] back c c := by
    intro nothing open_
    exact .idle c (by simp [rest, DataIn.left, nothing]) open_
  cases message with
  | tcp id data =>
    simp only [DataIn.onConn]
    split
    next here =>
      subst here
      simp only [DataIn.left] at rest
      refine ⟨rfl, ⟨_, _, rfl⟩, prefix_append _ _, ?_, ?_, by simp⟩
      · simp [Conn.upload, rest, DataIn.payload]
      · intro small
        simp only [length_append, length_take]
        omega
    next apart => exact idle (by simp [DataIn.payload, Ne.symm apart]) (by simp)
  | tcpClose id =>
    simp only [DataIn.onConn]
    split
    next here =>
      subst here
      refine ⟨rfl, ⟨_, _, rfl⟩, prefix_refl _, ?_, fun small => small, by simp⟩
      simp [Conn.upload, rest, DataIn.left, DataIn.payload]
    next apart => exact idle rfl (by simpa using apart)
  | udp id dst data => exact idle rfl (by simp)
  | udpClose id => exact idle rfl (by simp)

section tryHandleData
variable (cfg)

theorem tryHandleData_tcp (owned : s.Owned) (id : Nat) (data : Bytes) :
    ∃ t back, tryHandleData cfg s (.tcp id data) = some (t, back) ∧
      Moves (fun i c => some ((DataIn.tcp id data).onConn cfg i c)) s t ∧
      (∀ d ∈ back, d.isTcp = true ∧ d.id = id) ∧
      ∀ i c, s.tcp? i = some c → payloads i back.toList = (DataIn.tcp id data).left cfg i c := by
  have apart : ∀ i c, i ≠ id → (DataIn.tcp id data).left cfg i c = [] :=
    fun i c apart => by simp [DataIn.left, DataIn.payload, Ne.symm apart]
  have back_for : ∀ rest i, i ≠ id → payloads i [DataIn.tcp id rest] = [] :=
    fun rest i apart => by simp [DataIn.payload, Ne.symm apart]
  simp only [tryHandleData]
  cases found : s.tcpConns.lookup id with
  | none =>
    refine ⟨s, none, rfl, (Moves.refl owned).congr fun i c present => ?_, by simp, ?_⟩
    · simp [DataIn.onConn, ne_of_absent found present]
    · exact fun i c present => (apart i c (ne_of_absent found present)).symm
  | some st =>
    have here : ∀ {c}, s.tcp? id = some c → c.1 = st :=
      fun present => Option.some.inj ((tcp?_eq_some.mp present).1.symm.trans found)
    by_cases full : st.pending.length ≥ maxTcpPending cfg
    · have nothing : maxTcpPending cfg - st.pending.length = 0 := by omega
      refine ⟨s, some (.tcp id data), if_pos full, (Moves.refl owned).congr ?_,
        by simp [DataIn.isTcp, DataIn.id], ?_⟩
      · rintro i ⟨st', socket⟩ present
        by_cases same : i = id
        · subst same
          obtain rfl : st' = st := here present
          simp [DataIn.onConn, nothing]
        · simp [DataIn.onConn, same]
      · intro i c present
        by_cases same : i = id
        · subst same
          simp [DataIn.left, here present, nothing]
        · exact (back_for data i same).trans (apart i c same).symm
    · have moves := (insertTcp_moves owned found (fun st => { st with
        pending := st.pending ++ data.take (maxTcpPending cfg - st.pending.length) }) rfl).congr
        (g := fun i c => some ((DataIn.tcp id data).onConn cfg i c))
        fun i c _ => by simp only [DataIn.onConn]; split <;> rfl
      by_cases fits : data.length ≤ maxTcpPending cfg - st.pending.length
      · refine ⟨_, none, (if_neg full).trans (if_pos fits), moves, by simp, fun i c present => ?_⟩
        by_cases same : i = id
        · subst same
          simp [DataIn.left, DataIn.payload, here present, fits]
        · exact (apart i c same).symm
      · refine ⟨_, some _, (if_neg full).trans (if_neg fits), moves,
          by simp [DataIn.isTcp, DataIn.id], fun i c present => ?_⟩
        by_cases same : i = id
        · subst same
          simp [DataIn.left, DataIn.payload, here present]
        · exact (back_for _ i same).trans (apart i c same).symm

theorem tryHandleData_moves (owned : s.Owned) (message : DataIn) :
    ∃ t back, tryHandleData cfg s message = some (t, back) ∧
      Moves (fun i c => some (message.onConn cfg i c)) s t ∧
      (∀ d ∈ back, d.isTcp = true ∧ d.id = message.id) ∧
      ∀ i c, s.tcp? i = some c → payloads i back.toList = message.left cfg i c := by
  cases message with
  | tcp id data => exact tryHandleData_tcp cfg owned id data
  | tcpClose id =>
    simp only [tryHandleData]
    cases found : s.tcpConns.lookup id with
    | none =>
      refine ⟨s, none, rfl, (Moves.refl owned).congr fun i c present => ?_, by simp, ?_⟩
      · simp [DataIn.onConn, ne_of_absent found present]
      · simp [DataIn.left, DataIn.payload]
    | some st =>
      refine ⟨_, none, rfl, (insertTcp_moves owned found (fun st => { st with
        halfClosed := true }) rfl).congr fun i c _ => ?_, by simp,
        by simp [DataIn.left, DataIn.payload]⟩
      simp only [DataIn.onConn]
      split <;> rfl
  | udp id dst data =>
    simp only [tryHandleData]
    cases found : s.udpConns.lookup id with
    | none => exact ⟨s, none, rfl, .refl owned, by simp, by simp [DataIn.left, DataIn.payload]⟩
    | some st =>
      obtain ⟨socket, there⟩ := owned.udp_of_lookup found
      simp only [there]
      exact ⟨_, none, rfl, putUdp_moves owned found _, by simp,
        by simp [DataIn.left, DataIn.payload]⟩
  | udpClose id =>
    simp only [tryHandleData]
    cases found : s.udpConns.lookup id with
    | none => exact ⟨s, none, rfl, .refl owned, by simp, by simp [DataIn.left, DataIn.payload]⟩
    | some st =>
      obtain ⟨socket, there⟩ := owned.udp_of_lookup found
      simp only [there]
      exact ⟨_, none, rfl, removeUdp_moves owned found, by simp,
        by simp [DataIn.left, DataIn.payload]⟩

theorem retryDeferred_moves (owned : s.Owned) {messages : List DataIn}
    (tcp : ∀ d ∈ messages, d.isTcp = true) :
    ∃ t rest, ∃ f : Nat → Conn → Conn, retryDeferred cfg s messages = some (t, rest) ∧
      Moves (fun i c => some (f i c)) s t ∧ rest.length ≤ messages.length ∧
      (∀ d ∈ rest, d.isTcp = true ∧ ∃ d' ∈ messages, d.id = d'.id) ∧
      ∀ i c, s.tcp? i = some c → Fed cfg i messages rest c (f i c) := by
  induction messages generalizing s with
  | nil =>
    exact ⟨s, [], fun _ c => c, rfl, .refl owned, Nat.le_refl _, by simp,
      fun i c _ => .idle c rfl (by simp)⟩
  | cons d messages ih =>
    have later : ∀ d ∈ messages, d.isTcp = true := fun d member => tcp d (.tail _ member)
    obtain ⟨t, back, handled, moved, back_tcp, fits⟩ := tryHandleData_moves cfg owned d
    have fed : ∀ i c, s.tcp? i = some c →
        Fed cfg i (d :: messages) (back.toList ++ messages) c (d.onConn cfg i c) :=
      fun i c present => (d.onConn_fed c (fits i c present)).frame (not_mem_of_isTcp later i)
    cases back with
    | some d' =>
      refine ⟨t, d' :: messages, d.onConn cfg, by simp [retryDeferred, handled], moved,
        by simp, ?_, fed⟩
      intro e member
      rcases mem_cons.mp member with rfl | member
      · exact ⟨(back_tcp _ rfl).1, d, .head _, (back_tcp _ rfl).2⟩
      · exact ⟨later e member, e, .tail _ member, rfl⟩
    | none =>
      obtain ⟨u, rest, f, retried, moved', shorter, rest_tcp, fed'⟩ := ih moved.owned later
      refine ⟨u, rest, fun i c => f i (d.onConn cfg i c), by simp [retryDeferred, handled, retried],
        moved.trans moved', Nat.le_succ_of_le shorter, ?_, fun i c present => ?_⟩
      · intro e member
        obtain ⟨is_tcp, d', known, same⟩ := rest_tcp e member
        exact ⟨is_tcp, d', .tail _ known, same⟩
      · refine (fed i c present).trans (fed' i _ ?_) (not_mem_of_isTcp later i)
        rw [moved.tcp, present]
        rfl

end tryHandleData

theorem NetStack.Owned.get?_add {k : Kind} {id : Nat} {h : SocketHandle} (owned : s.Owned)
    (owns : s.Owns k id h) (socket : Socket) :
    (s.sockets.add socket).2.get? h = s.sockets.get? h := by
  refine SocketSet.get?_add_ne ?_
  rintro rfl
  have kind := owned.named owns
  rw [SocketSet.kind?_fresh] at kind
  cases kind

theorem NetStack.Owned.nextId_fresh {k : Kind} {h : SocketHandle} (owned : s.Owned) :
    ¬ s.Owns k s.nextId h :=
  fun owns => Nat.lt_irrefl _ (owned.below owns)

theorem NetStack.Owned.opens {t : NetStack} {socket : Socket} (owned : s.Owned)
    (slots : t.sockets = (s.sockets.add socket).2)
    (owns : ∀ k id h, t.Owns k id h ↔ s.Owns k id h ∨
      (k = socket.kind ∧ id = s.nextId ∧ h = (s.sockets.add socket).1))
    (nextId : t.nextId = s.nextId + 1) : t.Owned := by
  refine owned.add SocketSet.kind?_fresh owns ?here ?kinds nextId
  case here =>
    rw [slots]
    exact SocketSet.kind?_add_self
  case kinds =>
    intro h apart
    rw [slots]
    exact SocketSet.kind?_add_ne apart

section commands
variable (cfg : Config) (now : Nat) (owned : s.Owned)
include owned

theorem NetStack.Owned.tcp?_nextId : s.tcp? s.nextId = none := by
  cases found : s.tcp? s.nextId with
  | none => rfl
  | some c => exact absurd (owns_of_tcp? found) owned.nextId_fresh

theorem openTcp_tcp? (dst : SocketAddr) (resp : OpenTcpResp) (id : Nat) :
    (handleCmd cfg now s (.openTcp dst resp (.ok ()))).1.tcp? id =
      if id = s.nextId then
        some (newTcpState cfg now (s.sockets.add (.tcp (.connecting s.nextPort dst))).1 resp,
          .connecting s.nextPort dst)
      else s.tcp? id := by
  split
  next here =>
    subst here
    exact tcp?_eq_some.mpr ⟨Finmap.lookup_insert _, SocketSet.get?_add_self⟩
  next here =>
    refine tcp?_congr (Finmap.lookup_insert_of_ne _ here) fun st found => ?_
    exact owned.get?_add (k := .tcp) ⟨st, found, rfl⟩ _

theorem openUdp_tcp? (resp : Nat) (id : Nat) :
    (handleCmd cfg now s (.openUdp resp (.ok ()))).1.tcp? id = s.tcp? id :=
  tcp?_congr rfl fun st found => owned.get?_add (k := .tcp) ⟨st, found, rfl⟩ _

theorem openTcp_owned (dst : SocketAddr) (resp : OpenTcpResp) :
    (handleCmd cfg now s (.openTcp dst resp (.ok ()))).1.Owned := by
  have absent : s.tcpConns.lookup s.nextId = none := (tcp?_eq_none owned).mp owned.tcp?_nextId
  apply owned.opens rfl _ rfl
  intro k i h
  cases k with
  | udp => simp [Owns, handleCmd, Socket.kind]
  | tcp =>
    by_cases here : i = s.nextId
    · subst here
      simp [Owns, handleCmd, Socket.kind, absent, newTcpState, allocPort, eq_comm]
    · simp [Owns, handleCmd, Socket.kind, here]

theorem openUdp_owned (resp : Nat) :
    (handleCmd cfg now s (.openUdp resp (.ok ()))).1.Owned := by
  have absent : s.udpConns.lookup s.nextId = none := Option.eq_none_iff_forall_ne_some.mpr
    fun st found => owned.nextId_fresh (k := .udp) ⟨st, found, rfl⟩
  apply owned.opens rfl _ rfl
  intro k i h
  cases k with
  | tcp => simp [Owns, handleCmd, Socket.kind]
  | udp =>
    by_cases here : i = s.nextId
    · subst here
      simp [Owns, handleCmd, Socket.kind, absent, allocPort, eq_comm]
    · simp [Owns, handleCmd, here]

theorem handleCmd_conns (cmd : Cmd) :
    (handleCmd cfg now s cmd).1.Owned ∧ s.nextId ≤ (handleCmd cfg now s cmd).1.nextId ∧
      ∀ id c, (handleCmd cfg now s cmd).1.tcp? id = some c →
        s.tcp? id = some c ∨ id = s.nextId ∧ ∃ handle resp localPort dst,
          c = (newTcpState cfg now handle resp, .connecting localPort dst) := by
  -- a command that fails may still have moved on to the next local port
  have renamed : ∀ nextPort iface, ({ s with nextPort, iface } : NetStack).Owned := fun _ _ =>
    owned.update (fun k _ _ => by cases k <;> rfl) (fun _ => rfl) rfl
  cases cmd with
  | setAddrs v4 v6 => exact ⟨renamed _ _, Nat.le_refl _, fun _ _ same => .inl same⟩
  | openTcp dst resp connect =>
    cases connect with
    | error e => exact ⟨renamed _ _, Nat.le_refl _, fun _ _ same => .inl same⟩
    | ok =>
      refine ⟨openTcp_owned cfg now owned dst resp, Nat.le_succ _, fun id c present => ?_⟩
      rw [openTcp_tcp? cfg now owned] at present
      split at present
      next here =>
        cases present
        exact .inr ⟨here, _, _, _, _, rfl⟩
      next => exact .inl present
  | openUdp resp bind =>
    cases bind with
    | error e => exact ⟨renamed _ _, Nat.le_refl _, fun _ _ same => .inl same⟩
    | ok =>
      refine ⟨openUdp_owned cfg now owned resp, Nat.le_succ _, fun id c present => .inl ?_⟩
      rw [openUdp_tcp? cfg now owned] at present
      exact present

end commands

end Gozarbin.Netstack
