import Gozarbin.Lib.Runs
import Gozarbin.Netstack.Service

/-! # Runs of the stack

The loop of `run` polls the engine, makes a service pass, retries what it had to defer and then
takes one packet, command or message. Here each of these, and each act of an application, is an
event, and a run is any list of them, so it covers every order.
-/

namespace Gozarbin.Netstack

/-- What the engine does to one socket while it polls. -/
inductive PollItem where
  | tcp (handle : SocketHandle) (segment : Segment)
  | udp (handle : SocketHandle) (source : SocketAddr) (data : Bytes)

inductive Event where
  | poll (items : List PollItem)
  | serviceTcp (ids : List Nat) (now : Nat) (io : Nat → PassIo)
  | serviceUdp (ids : List Nat)
  | retryDeferred
  | command (now : Nat) (cmd : Cmd)
  | dataIn (message : DataIn)
  | appTake (id : Nat)
  | appDrop (id : Nat)
  | requesterDrop (id : Nat)
  | udpTake (id : Nat)
  | udpDrop (id : Nat)

/-- The stack with the `deferred` queue of `run`, every message taken off `data_in_rx` and every
    effect so far. -/
structure World where
  stack : NetStack
  deferred : List DataIn
  taken : List DataIn
  log : List Effect

def World.initial (iface : Iface) : World := ⟨.initial iface, [], [], []⟩

def pollItem (sockets : SocketSet) : PollItem → SocketSet
  | .tcp handle segment =>
    match sockets.get? handle with
    | some (.tcp socket) => sockets.put handle (.tcp (socket.receive segment))
    | _ => sockets
  | .udp handle source data =>
    match sockets.get? handle with
    | some (.udp socket) =>
      sockets.put handle (.udp { socket with rx := socket.rx ++ [(source, data)] })
    | _ => sockets

def NetStack.modifyTcp (s : NetStack) (id : Nat) (f : TcpState → TcpState) : NetStack :=
  match s.tcpConns.lookup id with
  | some st => { s with tcpConns := s.tcpConns.insert id (f st) }
  | none => s

def NetStack.modifyUdp (s : NetStack) (id : Nat)
    (f : Chan (SocketAddr × Bytes) → Chan (SocketAddr × Bytes)) : NetStack :=
  match s.udpConns.lookup id with
  | some st => { s with udpConns := s.udpConns.insert id { st with toApp := f st.toApp } }
  | none => s

def retryDeferred (cfg : Config) : NetStack → List DataIn → Option (NetStack × List DataIn)
  | s, [] => some (s, [])
  | s, d :: rest => do
      let (s, back) ← tryHandleData cfg s d
      match back with
      | some d => return (s, d :: rest)
      | none => retryDeferred cfg s rest

theorem retryDeferred_loop {cfg : Config} {I : NetStack → Prop} {R : NetStack → NetStack → Prop}
    (refl : ∀ {s}, I s → R s s) (trans : ∀ {s t u}, R s t → R t u → R s u)
    (body : ∀ {s}, I s → ∀ d, ∃ t back, tryHandleData cfg s d = some (t, back) ∧ I t ∧ R s t)
    {s : NetStack} (start : I s) (messages : List DataIn) :
    ∃ t rest, retryDeferred cfg s messages = some (t, rest) ∧ R s t := by
  induction messages generalizing s with
  | nil => exact ⟨s, [], rfl, refl start⟩
  | cons d messages ih =>
    obtain ⟨t, back, handled, kept, here⟩ := body start d
    cases back with
    | some d' => exact ⟨t, d' :: messages, by simp [retryDeferred, handled], here⟩
    | none =>
      obtain ⟨u, rest, retried, later⟩ := ih kept
      exact ⟨u, rest, by simp [retryDeferred, handled, retried], trans here later⟩

def step (cfg : Config) (w : World) : Event → Option World
  | .poll items => some { w with stack.sockets := items.foldl pollItem w.stack.sockets }
  | .serviceTcp ids now io => do
      let (stack, effects, _) ← serviceTcp cfg now io w.stack ids
      return { w with stack, log := w.log ++ effects }
  | .serviceUdp ids => do
      let (stack, _) ← serviceUdp w.stack ids
      return { w with stack }
  | .retryDeferred => do
      let (stack, deferred) ← retryDeferred cfg w.stack w.deferred
      return { w with stack, deferred }
  | .command now cmd =>
    let (stack, effects) := handleCmd cfg now w.stack cmd
    some { w with stack, log := w.log ++ effects }
  | .dataIn message =>
    -- The arm of the `select!` is off while something is deferred.
    if w.deferred.isEmpty then do
      let (stack, back) ← tryHandleData cfg w.stack message
      return { w with stack, deferred := w.deferred ++ back.toList, taken := w.taken ++ [message] }
    else some w
  | .appTake id => some { w with stack := w.stack.modifyTcp id fun st =>
    if st.fromStackRx then st else { st with toApp := st.toApp.recv } }
  | .appDrop id => some { w with stack := w.stack.modifyTcp id fun st =>
    if st.fromStackRx then st else { st with toApp := st.toApp.dropReceiver } }
  | .requesterDrop id => some { w with stack := w.stack.modifyTcp id fun st =>
    { st with connectResp := st.connectResp.map fun resp => { resp with requesterGone := true } } }
  | .udpTake id => some { w with stack := w.stack.modifyUdp id Chan.recv }
  | .udpDrop id => some { w with stack := w.stack.modifyUdp id Chan.dropReceiver }

/-- A pass lists the keys of the map, in some order, and a message names a connection that was
    opened. -/
def Enabled (w : World) : Event → Prop
  | .serviceTcp ids _ _ => ids.Nodup ∧ ids.toFinset = w.stack.tcpConns.keys
  | .serviceUdp ids => ids.Nodup ∧ ids.toFinset = w.stack.udpConns.keys
  | .dataIn message => message.id < w.stack.nextId
  | _ => True

instance (w : World) : (e : Event) → Decidable (Enabled w e)
  | .serviceTcp ids _ _ =>
    inferInstanceAs (Decidable (ids.Nodup ∧ ids.toFinset = w.stack.tcpConns.keys))
  | .serviceUdp ids =>
    inferInstanceAs (Decidable (ids.Nodup ∧ ids.toFinset = w.stack.udpConns.keys))
  | .dataIn message => inferInstanceAs (Decidable (message.id < w.stack.nextId))
  | .poll _ | .retryDeferred | .command _ _ | .appTake _ | .appDrop _ | .requesterDrop _
  | .udpTake _ | .udpDrop _ => .isTrue trivial

end Gozarbin.Netstack
