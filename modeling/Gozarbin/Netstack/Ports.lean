import Gozarbin.Netstack.Moves

/-! # The sockets of a run: who owns them, and their local ports

A step opens at most one socket, and every other step keeps the end points of each socket it
leaves (`Keeps`). So the local ports of a run can only start to collide when a socket is opened.
`allocPort` hands them out in turn and starts over after 65000 without looking who still has
one.
-/

namespace Gozarbin.Netstack

def Socket.address : Socket → Option SocketAddr × UInt16
  | .tcp socket => (some socket.remote, socket.localPort)
  | .udp socket => (none, socket.localPort)

namespace SocketSet

def address? (set : SocketSet) (h : SocketHandle) : Option (Option SocketAddr × UInt16) :=
  (set.get? h).map Socket.address

variable {set : SocketSet} {h k : SocketHandle} {socket : Socket}

theorem address?_put {old : Socket} (found : get? set h = some old)
    (same : socket.address = old.address) : address? (set.put h socket) k = address? set k := by
  by_cases here : k = h
  · subst here
    simp [address?, get?_put_self (lt_of_get? found), found, same]
  · simp [address?, get?_put_ne here]

theorem address?_remove {a : Option SocketAddr × UInt16}
    (left : address? (set.remove h) k = some a) : address? set k = some a := by
  by_cases here : k = h
  · subst here
    simp [address?, get?_remove_self] at left
  · simpa [address?, get?_remove_ne here] using left

theorem address?_add {a : Option SocketAddr × UInt16} :
    address? (set.add socket).2 k = some a ↔
      address? set k = some a ∨ k = (set.add socket).1 ∧ a = socket.address := by
  by_cases here : k = (set.add socket).1
  · subst here
    simp [address?, get?_add_self, get?_fresh, eq_comm]
  · simp [address?, get?_add_ne here, here]

end SocketSet

section address
variable {cfg : Config} {now : Nat} {io : PassIo} {id : Nat} {st : TcpState} {socket : TcpSocket}
  {effects : List Effect} {busy : Bool} {c : Conn}

theorem TcpSocket.receive_address (segment : Segment) :
    (Socket.tcp (socket.receive segment)).address = (Socket.tcp socket).address := by
  unfold TcpSocket.receive
  split <;> rfl

theorem moveBytes_address :
    (Socket.tcp (moveBytes io id st socket).1.2).address = (Socket.tcp socket).address := by
  obtain ⟨n, pushed⟩ := pushPending_eq io st socket
  obtain ⟨rx, moved⟩ := moveBytes_socket io id st socket
  rw [moved]
  simp only [halfClose, pushed]
  split <;> rfl

theorem finish_address (established : st.established = true)
    (kept : (finish id st socket effects busy).entry = some c) :
    (Socket.tcp c.2).address = (Socket.tcp socket).address := by
  cases ended : socket.phase.over with
  | true =>
    obtain ⟨pending, removed⟩ := finish_over id st socket effects busy ended established
    rw [removed] at kept
    cases kept
  | false =>
    rw [finish_on _ _ _ _ _ ended] at kept
    split at kept <;> cases kept <;> rfl

theorem serviceOrphan_address (established : st.established = true)
    (kept : (serviceOrphan cfg now id st socket effects).entry = some c) :
    (Socket.tcp c.2).address = (Socket.tcp socket).address := by
  simp only [serviceOrphan] at kept
  split at kept
  · cases kept
    split <;> rfl
  · exact (finish_address (by exact established) kept).trans rfl

theorem serviceEntry_address :
    (serviceEntry cfg now io id st socket).entry = some c →
      (Socket.tcp c.2).address = (Socket.tcp socket).address := by
  refine serviceEntry_outcome (motive := fun served => served.entry = some c → _)
    ?aborted ?waiting ?failed ?orphan ?present
  case aborted =>
    intro _ kept
    cases kept
  case waiting =>
    intro _ _ kept
    cases kept
    rfl
  case failed =>
    intro _ _ _ kept
    cases kept
  case orphan =>
    intro _ established _ kept
    exact (serviceOrphan_address ((moveBytes_established _ _ _ _).trans established) kept).trans
      moveBytes_address
  case present =>
    intro _ established _ _ kept
    exact (finish_address ((moveBytes_established _ _ _ _).trans established) kept).trans
      moveBytes_address

theorem drainUdp_localPort (fuel : Nat) (toApp : Chan (SocketAddr × Bytes)) (socket : UdpSocket) :
    (drainUdp fuel toApp socket).2.1.localPort = socket.localPort := by
  induction fuel generalizing toApp socket with
  | zero => rfl
  | succ fuel ih =>
    simp only [drainUdp]
    split
    · rfl
    · rfl
    · split
      · rfl
      · exact ih _ _

end address

namespace NetStack

structure Keeps (s t : NetStack) : Prop where
  owned : t.Owned
  nextId : t.nextId = s.nextId
  addresses : ∀ {h a}, t.sockets.address? h = some a → s.sockets.address? h = some a

variable {s t u : NetStack} {id : Nat}

theorem Keeps.refl (owned : s.Owned) : s.Keeps s := ⟨owned, rfl, fun here => here⟩

theorem Keeps.trans (first : s.Keeps t) (second : t.Keeps u) : s.Keeps u :=
  ⟨second.owned, second.nextId.trans first.nextId, first.addresses ∘ second.addresses⟩

theorem Moves.keeps {f : Nat → Conn → Option Conn} (moves : Moves f s t)
    (addresses : ∀ {h a}, t.sockets.address? h = some a → s.sockets.address? h = some a) :
    s.Keeps t :=
  ⟨moves.owned, moves.nextId, addresses⟩

theorem modifyTcp_keeps {f : TcpState → TcpState} (owned : s.Owned)
    (keeps : ∀ st, (f st).handle = st.handle) : s.Keeps (s.modifyTcp id f) := by
  apply (modifyTcp_moves owned keeps).keeps
  intro h a here
  unfold modifyTcp at here
  split at here <;> exact here

theorem modifyUdp_keeps {f : Chan (SocketAddr × Bytes) → Chan (SocketAddr × Bytes)}
    (owned : s.Owned) : s.Keeps (s.modifyUdp id f) := by
  apply (modifyUdp_moves owned).keeps
  intro h a here
  unfold modifyUdp at here
  split at here <;> exact here

end NetStack

open NetStack

variable {cfg : Config} {s : NetStack}

theorem poll_keeps (owned : s.Owned) (items : List PollItem) :
    s.Keeps { s with sockets := items.foldl pollItem s.sockets } := by
  apply (poll_moves owned items).keeps
  intro h a
  -- an item writes a socket back to where it was, with its end points
  have item_same : ∀ set item, (pollItem set item).address? h = set.address? h := by
    intro set item
    cases item with
    | tcp handle segment =>
      simp only [pollItem]
      split
      next socket there => exact SocketSet.address?_put there (TcpSocket.receive_address segment)
      next => rfl
    | udp handle source data =>
      simp only [pollItem]
      split
      next socket there => exact SocketSet.address?_put there rfl
      next => rfl
  have all_same : (items.foldl pollItem s.sockets).address? h = s.sockets.address? h := by
    generalize s.sockets = set
    induction items generalizing set with
    | nil => rfl
    | cons item items ih => exact (ih (pollItem set item)).trans (item_same set item)
  intro here
  exact all_same.symm.trans here

theorem serviceId_keeps (cfg : Config) (now : Nat) (owned : s.Owned) (io : Nat → PassIo) (id : Nat) :
    ∃ t effects busy, serviceId cfg now (io id) s id = some (t, effects, busy) ∧ s.Keeps t := by
  obtain ⟨t, effects, busy, served, moved, -⟩ := serviceId_moves cfg now owned io id
  refine ⟨t, effects, busy, served, moved.keeps ?_⟩
  intro h a here
  simp only [serviceId] at served
  split at served
  next => cases served; exact here
  next st entry =>
    split at served
    next socket there =>
      split at served
      next st' socket' kept =>
        cases served
        have handle := (serviceEntry_carries kept).handle
        simp only [putTcp] at here
        rw [handle, SocketSet.address?_put there (serviceEntry_address kept)] at here
        exact here
      next =>
        cases served
        exact SocketSet.address?_remove here
    next => cases served

theorem serviceTcp_keeps (cfg : Config) (now : Nat) (owned : s.Owned) (io : Nat → PassIo) (ids : List Nat) :
    ∃ t effects busy, serviceTcp cfg now io s ids = some (t, effects, busy) ∧ s.Keeps t := by
  apply serviceTcp_loop (I := NetStack.Owned) (R := fun _ => Keeps) .refl .trans ?body owned ids
  intro s owned id
  obtain ⟨t, effects, busy, served, keeps⟩ := serviceId_keeps cfg now owned io id
  exact ⟨t, effects, busy, served, keeps.owned, keeps⟩

theorem serviceUdpId_keeps (owned : s.Owned) (id : Nat) :
    ∃ t busy, serviceUdpId s id = some (t, busy) ∧ s.Keeps t := by
  obtain ⟨t, busy, served, moved⟩ := serviceUdpId_moves owned id
  refine ⟨t, busy, served, moved.keeps ?_⟩
  intro h a here
  simp only [serviceUdpId] at served
  split at served
  next => cases served; exact here
  next st entry =>
    split at served
    next socket there =>
      split at served
      · cases served
        exact SocketSet.address?_remove here
      · cases served
        have same : (Socket.udp (drainUdp maxRecvChunks st.toApp socket).2.1).address =
            (Socket.udp socket).address :=
          congrArg (Prod.mk none) (drainUdp_localPort _ _ _)
        rw [SocketSet.address?_put there same] at here
        exact here
    next => cases served

theorem serviceUdp_keeps (owned : s.Owned) (ids : List Nat) :
    ∃ t busy, serviceUdp s ids = some (t, busy) ∧ s.Keeps t := by
  apply serviceUdp_loop (I := NetStack.Owned) .refl .trans ?body owned ids
  intro s owned id
  obtain ⟨t, busy, served, keeps⟩ := serviceUdpId_keeps owned id
  exact ⟨t, busy, served, keeps.owned, keeps⟩

theorem tryHandleData_keeps (cfg : Config) (owned : s.Owned) (message : DataIn) :
    ∃ t back, tryHandleData cfg s message = some (t, back) ∧ s.Keeps t := by
  obtain ⟨t, back, handled, moved, -⟩ := tryHandleData_moves cfg owned message
  refine ⟨t, back, handled, moved.keeps ?_⟩
  intro h a here
  cases message with
  | tcp id data =>
    simp only [tryHandleData] at handled
    split at handled
    next => cases handled; exact here
    next st found =>
      split at handled
      · cases handled; exact here
      · split at handled <;> cases handled <;> exact here
  | tcpClose id =>
    simp only [tryHandleData] at handled
    split at handled <;> cases handled <;> exact here
  | udp id dst data =>
    simp only [tryHandleData] at handled
    split at handled
    next => cases handled; exact here
    next st found =>
      split at handled
      next socket there =>
        cases handled
        have same : (Socket.udp { socket with tx := socket.tx ++ [(dst, data)] }).address =
            (Socket.udp socket).address := rfl
        exact (SocketSet.address?_put there same).symm.trans here
      next => cases handled
  | udpClose id =>
    simp only [tryHandleData] at handled
    split at handled
    next => cases handled; exact here
    next st found =>
      split at handled
      · cases handled
        exact SocketSet.address?_remove here
      · cases handled

theorem retryDeferred_keeps (cfg : Config) (owned : s.Owned) (messages : List DataIn) :
    ∃ t rest, retryDeferred cfg s messages = some (t, rest) ∧ s.Keeps t := by
  apply retryDeferred_loop (I := NetStack.Owned) .refl .trans ?body owned messages
  intro s owned d
  obtain ⟨t, back, handled, keeps⟩ := tryHandleData_keeps cfg owned d
  exact ⟨t, back, handled, keeps.owned, keeps⟩

def Event.opened (s : NetStack) : Event → Option Socket
  | .command _ (.openTcp dst _ (.ok ())) => some (.tcp (.connecting s.nextPort dst))
  | .command _ (.openUdp _ (.ok ())) => some (.udp ⟨s.nextPort, [], []⟩)
  | _ => none

structure NetStack.Opens (socket : Socket) (s t : NetStack) : Prop where
  owned : t.Owned
  nextId : t.nextId = s.nextId + 1
  sockets : t.sockets = (s.sockets.add socket).2

variable {w w' : World} {e : Event}

theorem step_sockets (cfg : Config) (owned : w.stack.Owned) (e : Event) :
    ∃ w', step cfg w e = some w' ∧
      match e.opened w.stack with
      | none => w.stack.Keeps w'.stack
      | some socket => w.stack.Opens socket w'.stack := by
  cases e with
  | poll items => exact ⟨_, rfl, poll_keeps owned items⟩
  | serviceTcp ids now io =>
    obtain ⟨t, effects, busy, served, keeps⟩ := serviceTcp_keeps cfg now owned io ids
    exact ⟨{ w with stack := t, log := w.log ++ effects }, by simp [step, served], keeps⟩
  | serviceUdp ids =>
    obtain ⟨t, busy, served, keeps⟩ := serviceUdp_keeps owned ids
    exact ⟨{ w with stack := t }, by simp [step, served], keeps⟩
  | retryDeferred =>
    obtain ⟨t, rest, retried, keeps⟩ := retryDeferred_keeps cfg owned w.deferred
    exact ⟨{ w with stack := t, deferred := rest }, by simp [step, retried], keeps⟩
  | command now cmd =>
    have still := (handleCmd_conns cfg now owned cmd).1
    refine ⟨_, rfl, ?_⟩
    cases cmd with
    | setAddrs v4 v6 => exact ⟨still, rfl, fun here => here⟩
    | openTcp dst resp connect =>
      cases connect with
      | error e => exact ⟨still, rfl, fun here => here⟩
      | ok => exact ⟨still, rfl, rfl⟩
    | openUdp resp bind =>
      cases bind with
      | error e => exact ⟨still, rfl, fun here => here⟩
      | ok => exact ⟨still, rfl, rfl⟩
  | dataIn message =>
    by_cases idle : w.deferred = []
    · obtain ⟨t, back, handled, keeps⟩ := tryHandleData_keeps cfg owned message
      exact ⟨{ w with
        stack := t, deferred := w.deferred ++ back.toList, taken := w.taken ++ [message] },
        by simp [step, idle, handled], keeps⟩
    · exact ⟨w, by simp [step, idle], .refl owned⟩
  | appTake id | appDrop id =>
    refine ⟨_, rfl, modifyTcp_keeps owned fun st => ?_⟩
    split <;> rfl
  | requesterDrop id => exact ⟨_, rfl, modifyTcp_keeps owned fun st => rfl⟩
  | udpTake id | udpDrop id => exact ⟨_, rfl, modifyUdp_keeps owned⟩

theorem step_owned (cfg : Config) (owned : w.stack.Owned) (e : Event) :
    ∃ w', step cfg w e = some w' ∧ w'.stack.Owned ∧ w'.stack.nextId ≤ w.stack.nextId + 1 := by
  obtain ⟨w', next, outcome⟩ := step_sockets cfg owned e
  refine ⟨w', next, ?_⟩
  split at outcome
  · exact ⟨outcome.owned, outcome.nextId ▸ Nat.le_succ _⟩
  · exact ⟨outcome.owned, outcome.nextId.le⟩

theorem run_owned (cfg : Config) (owned : w.stack.Owned) (events : List Event) :
    ∃ w', Runs.run (step cfg) w events = some w' ∧ w'.stack.Owned ∧
      w'.stack.nextId ≤ w.stack.nextId + events.length := by
  induction events generalizing w with
  | nil => exact ⟨w, rfl, owned, Nat.le_refl _⟩
  | cons e events ih =>
    obtain ⟨w₁, next, still, small⟩ := step_owned cfg owned e
    obtain ⟨w₂, reached, still, later⟩ := ih still
    refine ⟨w₂, by rw [Runs.run_cons, next]; exact reached, still, ?_⟩
    rw [List.length_cons]
    omega

/-- Whatever the engine and the applications do, no call through a handle fails and every state
    is owned. The counter of ids has no bound here; how far it can get says when a machine word
    would come round. -/
theorem sockets_owned (cfg : Config) (iface : Iface) (events : List Event) :
    ∃ w, Runs.run (step cfg) (World.initial iface) events = some w ∧ w.stack.Owned ∧
      w.stack.nextId ≤ events.length + 1 := by
  obtain ⟨w, reached, owned, small⟩ :=
    run_owned cfg (w := World.initial iface) (initial_owned iface) events
  refine ⟨w, reached, owned, ?_⟩
  rw [Nat.add_comm]
  exact small

/-- Of the sockets open at one time two of UDP differ in their local port, and so do two of TCP
    to the same remote end. -/
structure PortsApart (set : SocketSet) : Prop where
  udp : ∀ {h k a b}, set.get? h = some (.udp a) → set.get? k = some (.udp b) → h ≠ k →
    a.localPort ≠ b.localPort
  tcp : ∀ {h k a b}, set.get? h = some (.tcp a) → set.get? k = some (.tcp b) → h ≠ k →
    a.remote = b.remote → a.localPort ≠ b.localPort

/-- The local port a step gives out is used by no UDP socket, or by no TCP socket to the same
    remote end. -/
def PortFree (w : World) : Event → Prop
  | .command _ (.openTcp dst _ (.ok ())) => ∀ h socket,
      w.stack.sockets.get? h = some (.tcp socket) → socket.remote = dst →
        socket.localPort ≠ w.stack.nextPort
  | .command _ (.openUdp _ (.ok ())) => ∀ h socket,
      w.stack.sockets.get? h = some (.udp socket) → socket.localPort ≠ w.stack.nextPort
  | _ => True

theorem portsApart_iff {set : SocketSet} :
    PortsApart set ↔
      ∀ h k a, set.address? h = some a → set.address? k = some a → h = k := by
  constructor
  · intro apart h k a here there
    obtain ⟨first, at_h, rfl⟩ := Option.map_eq_some_iff.mp here
    obtain ⟨second, at_k, same⟩ := Option.map_eq_some_iff.mp there
    by_contra distinct
    cases first <;> cases second <;> simp only [Socket.address, Prod.mk.injEq, Option.some.injEq,
      reduceCtorEq, false_and, true_and] at same
    · exact apart.tcp at_k at_h (Ne.symm distinct) same.1 same.2
    · exact apart.udp at_k at_h (Ne.symm distinct) same
  · intro injective
    constructor
    · intro h k a b here there distinct same
      refine distinct (injective h k (none, a.localPort) ?_ ?_)
      · simp [SocketSet.address?, here, Socket.address]
      · simp [SocketSet.address?, there, Socket.address, same]
    · intro h k a b here there distinct remote same
      refine distinct (injective h k (some a.remote, a.localPort) ?_ ?_)
      · simp [SocketSet.address?, here, Socket.address]
      · simp [SocketSet.address?, there, Socket.address, remote, same]

theorem portFree_iff :
    PortFree w e ↔
      ∀ socket ∈ e.opened w.stack, ∀ h, w.stack.sockets.address? h ≠ some socket.address := by
  have tcp : ∀ dst localPort h, w.stack.sockets.address? h ≠
        some (Socket.tcp (.connecting localPort dst)).address ↔
      ∀ socket, w.stack.sockets.get? h = some (.tcp socket) → socket.remote = dst →
        socket.localPort ≠ localPort := by
    intro dst localPort h
    cases found : w.stack.sockets.get? h with
    | none => simp [SocketSet.address?, found]
    | some socket => cases socket <;>
        simp [SocketSet.address?, found, Socket.address, TcpSocket.connecting]
  have udp : ∀ localPort h, w.stack.sockets.address? h ≠
        some (Socket.udp ⟨localPort, [], []⟩).address ↔
      ∀ socket, w.stack.sockets.get? h = some (.udp socket) → socket.localPort ≠ localPort := by
    intro localPort h
    cases found : w.stack.sockets.get? h with
    | none => simp [SocketSet.address?, found]
    | some socket => cases socket <;> simp [SocketSet.address?, found, Socket.address]
  cases e with
  | command now cmd =>
    cases cmd with
    | setAddrs v4 v6 => simp [PortFree, Event.opened]
    | openTcp dst resp connect =>
      cases connect with
      | error e => simp [PortFree, Event.opened]
      | ok =>
        simp only [PortFree, Event.opened, Option.mem_some_iff, forall_eq', tcp]
    | openUdp resp bind =>
      cases bind with
      | error e => simp [PortFree, Event.opened]
      | ok =>
        simp only [PortFree, Event.opened, Option.mem_some_iff, forall_eq', udp]
  | _ => simp [PortFree, Event.opened]

theorem portsApart_add {set : SocketSet} {socket : Socket} (apart : PortsApart set) :
    PortsApart (set.add socket).2 ↔ ∀ h, set.address? h ≠ some socket.address := by
  rw [portsApart_iff] at apart ⊢
  constructor
  · intro injective h here
    have same := injective h (set.add socket).1 socket.address
      (SocketSet.address?_add.mpr (.inl here)) (SocketSet.address?_add.mpr (.inr ⟨rfl, rfl⟩))
    rw [same] at here
    simp [SocketSet.address?, SocketSet.get?_fresh] at here
  · intro fresh h k a here there
    rcases SocketSet.address?_add.mp here with here | ⟨rfl, rfl⟩
    · rcases SocketSet.address?_add.mp there with there | ⟨rfl, rfl⟩
      · exact apart h k a here there
      · exact absurd here (fresh h)
    · rcases SocketSet.address?_add.mp there with there | ⟨rfl, -⟩
      · exact absurd there (fresh k)
      · rfl

/-- The local ports of a run never collide precisely if every port was free when
    it was given out. -/
theorem portsApart_iff_portFree (cfg : Config) (iface : Iface) (events : List Event) :
    Runs.Always (step cfg) (fun w => PortsApart w.stack.sockets) (World.initial iface) events ↔
      Runs.Each (step cfg) PortFree (World.initial iface) events := by
  refine Runs.always_iff_each (I := fun w => w.stack.Owned)
    ?kept ?proceeds ?exact_step (initial_owned iface) ?holds (.of_forall fun _ _ => trivial)
  case kept =>
    intro w e w' owned _ next
    obtain ⟨w'', next', still, -⟩ := step_owned cfg owned e
    cases next.symm.trans next'
    exact still
  case proceeds =>
    intro w e owned _
    obtain ⟨w', next, -⟩ := step_owned cfg owned e
    exact ⟨w', next⟩
  case exact_step =>
    intro w e w' owned _ next apart
    obtain ⟨w'', next', outcome⟩ := step_sockets cfg owned e
    cases next.symm.trans next'
    rw [portFree_iff]
    cases opens : e.opened w.stack with
    | none =>
      rw [opens] at outcome
      have still : PortsApart w'.stack.sockets := by
        rw [portsApart_iff] at apart ⊢
        intro h k a here there
        exact apart h k a (outcome.addresses here) (outcome.addresses there)
      simp [still]
    | some socket =>
      rw [opens] at outcome
      rw [outcome.sockets, portsApart_add apart]
      simp
  case holds =>
    constructor <;> simp [World.initial, NetStack.initial, SocketSet.get?]

theorem allocPort_cycle {port : UInt16} {n : Nat} (turn : port.toNat = 49152 + n % 15849) :
    (allocPort port).2.toNat = 49152 + (n + 1) % 15849 := by
  simp only [allocPort]
  split
  next last =>
    have : 65000 ≤ port.toNat := last
    have : (49152 : UInt16).toNat = 49152 := rfl
    omega
  next inside =>
    have : ¬ 65000 ≤ port.toNat := inside
    have : (port + 1).toNat = (port.toNat + 1) % 2 ^ 16 := UInt16.toNat_add port 1
    omega

def openUdp : Event := .command 0 (.openUdp 0 (.ok ()))

def churn : (n id : Nat) → List Event
  | 0, _ => []
  | n + 1, id => openUdp :: .dataIn (.udpClose id) :: churn n (id + 1)

def portRun : List Event := openUdp :: (churn 15848 2 ++ [openUdp])

theorem churn_run (cfg : Config) (n : Nat) (owned : w.stack.Owned) (idle : w.deferred = []) {m : Nat}
    (turn : w.stack.nextPort.toNat = 49152 + m % 15849) :
    ∃ w', Runs.run (step cfg) w (churn n w.stack.nextId) = some w' ∧
      w'.stack.nextPort.toNat = 49152 + (m + n) % 15849 ∧
      ∀ h, w'.stack.sockets.get? h = w.stack.sockets.get? h := by
  induction n generalizing w m with
  | zero => exact ⟨w, rfl, turn, fun _ => rfl⟩
  | succ n ih =>
    let socket : Socket := .udp ⟨w.stack.nextPort, [], []⟩
    let opened : NetStack := (handleCmd cfg 0 w.stack (.openUdp 0 (.ok ()))).1
    let log := w.log ++ [.replyUdp 0 (.ok w.stack.nextId)]
    have open_step : step cfg w openUdp = some { w with stack := opened, log } := rfl
    have entry : opened.udpConns.lookup w.stack.nextId =
        some ⟨(w.stack.sockets.add socket).1, Chan.new cfg.appQueue⟩ := Finmap.lookup_insert _
    have live : opened.sockets.get? (w.stack.sockets.add socket).1 = some socket :=
      SocketSet.get?_add_self
    let closed : NetStack := opened.removeUdp w.stack.nextId (w.stack.sockets.add socket).1
    let w₂ : World := { w with
      stack := closed, log, taken := w.taken ++ [.udpClose w.stack.nextId] }
    have close_step : step cfg { w with stack := opened, log }
        (.dataIn (.udpClose w.stack.nextId)) = some w₂ := by
      simp [step, idle, tryHandleData, entry, live, w₂, closed]
    have still : closed.Owned := by
      have open_owned := (handleCmd_conns cfg 0 owned (.openUdp 0 (.ok ()))).1
      exact (removeUdp_moves open_owned entry).owned
    have same : ∀ h, closed.sockets.get? h = w.stack.sockets.get? h := by
      intro h
      by_cases here : h = (w.stack.sockets.add socket).1
      · subst here
        exact SocketSet.get?_remove_self.trans SocketSet.get?_fresh.symm
      · exact (SocketSet.get?_remove_ne here).trans (SocketSet.get?_add_ne here)
    obtain ⟨w', reached, turn', frame⟩ := ih (w := w₂) still idle (allocPort_cycle turn)
    refine ⟨w', ?_, by rw [turn', Nat.add_right_comm, Nat.add_assoc], fun h => ?_⟩
    · rw [churn, Runs.run_cons, open_step, Option.bind_some, Runs.run_cons, close_step]
      exact reached
    · exact (frame h).trans (same h)

theorem portRun_collides :
    ∃ w, Runs.run (step lowTier) (World.initial localIface) portRun = some w ∧
      ¬ PortsApart w.stack.sockets := by
  let first : World :=
    ⟨(handleCmd lowTier 0 (.initial localIface) (.openUdp 0 (.ok ()))).1, [], [],
      [.replyUdp 0 (.ok 1)]⟩
  have open_step : step lowTier (World.initial localIface) openUdp = some first := rfl
  have owned : first.stack.Owned := (handleCmd_conns lowTier 0 (initial_owned _) _).1
  have kept : first.stack.sockets.get? 0 = some (.udp ⟨49152, [], []⟩) := rfl
  obtain ⟨w, reached, turn, frame⟩ :=
    churn_run lowTier 15848 owned rfl (m := 1) (by decide)
  have port : w.stack.nextPort = 49152 := UInt16.toNat_inj.mp turn
  let socket : Socket := .udp ⟨w.stack.nextPort, [], []⟩
  have elsewhere : 0 ≠ (w.stack.sockets.add socket).1 := by
    intro same
    have taken := (frame 0).trans kept
    rw [same, SocketSet.get?_fresh] at taken
    cases taken
  let last : World := { w with
    stack := (handleCmd lowTier 0 w.stack (.openUdp 0 (.ok ()))).1
    log := w.log ++ [.replyUdp 0 (.ok w.stack.nextId)] }
  refine ⟨last, ?run, ?collides⟩
  case run =>
    rw [portRun, Runs.run_cons, open_step, Option.bind_some, Runs.run_append,
      show (2 : Nat) = first.stack.nextId from rfl, reached]
    rfl
  case collides =>
    intro apart
    have old : (w.stack.sockets.add socket).2.get? 0 = some (.udp ⟨49152, [], []⟩) := by
      rw [SocketSet.get?_add_ne elsewhere, frame, kept]
    have new : (w.stack.sockets.add socket).2.get? (w.stack.sockets.add socket).1 = some socket :=
      SocketSet.get?_add_self
    exact apart.udp old new elsewhere port.symm

end Gozarbin.Netstack
