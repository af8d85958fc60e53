import Gozarbin.Netstack.Stack

/-! # One service pass over the connections

`service_tcp` moves every connection on by one pass: it answers the waiting `open_tcp`, feeds
the socket from `pending`, hands received bytes to the application and follows the closing of
either side. What it does to one connection is a function of its entry and its socket
(`serviceConn`).
-/

namespace Gozarbin.Netstack

/-- The engine's choices: the free space of the send buffer, and how much each `recv` returns. -/
structure PassIo where
  room : Nat
  cut : Nat → Nat

/-- What a pass leaves of a connection, and what it did on the way. -/
structure Served where
  entry : Option (TcpState × TcpSocket)
  effects : List Effect
  backpressured : Bool

def markConnected (id : Nat) (phase : TcpPhase) (st : TcpState) : TcpState × List Effect :=
  if !st.established && (phase = .established || phase = .closeWait) then
    match st.connectResp, st.fromStackRx with
    | some resp, true =>
      ({ st with
          established := true
          connectResp := none
          fromStackRx := false
          toApp := if resp.requesterGone then st.toApp.dropReceiver else st.toApp },
        [.replyTcp resp (.ok id)])
    | _, _ =>
      -- Both are taken before they are looked at: a receiver alone is dropped.
      ({ st with
          established := true
          connectResp := none
          fromStackRx := false
          toApp := if st.fromStackRx then st.toApp.dropReceiver else st.toApp }, [])
  else (st, [])

def failConnect (st : TcpState) (reason : String) : List Effect :=
  match st.connectResp with
  | some resp => [.replyTcp resp (.error reason)]
  | none => []

def pushPending (io : PassIo) (st : TcpState) (socket : TcpSocket) : TcpState × TcpSocket :=
  if socket.canSend io.room then
    if st.pending.isEmpty then (st, socket)
    else
      match socket.sendSlice io.room st.pending with
      | some (sent, socket) => ({ st with pending := st.pending.drop sent }, socket)
      | none => (st, socket)
  else (st, socket)

def closeSocket (id : Nat) (st : TcpState) (socket : TcpSocket) : TcpSocket × List Effect :=
  (socket.close, [.close id st.pending socket.tx st.toApp.alive])

def halfClose (id : Nat) (st : TcpState) (socket : TcpSocket) : TcpSocket × List Effect :=
  if st.halfClosed && st.pending.isEmpty then closeSocket id st socket else (socket, [])

/-- Why the loop that hands bytes to the application ended. -/
inductive DrainEnd where
  | done
  | backpressured
  | appGone
  deriving DecidableEq

structure Drained where
  toApp : Chan Bytes
  socket : TcpSocket
  why : DrainEnd

def drainToApp (cut : Nat → Nat) : (fuel delivered : Nat) → Chan Bytes → TcpSocket → Drained
  | 0, _, toApp, socket => ⟨toApp, socket, .done⟩
  | fuel + 1, delivered, toApp, socket =>
    match toApp.tryReserve with
    | .error .full => ⟨toApp, socket, .backpressured⟩
    | .error .closed => ⟨toApp, socket, .appGone⟩
    | .ok permit =>
      if socket.canRecv then
        let (chunk, socket) := socket.recv (cut delivered)
        -- An empty chunk is not sent: the reserved slot is given back.
        if chunk.isEmpty then ⟨toApp, socket, .done⟩
        else drainToApp cut fuel (delivered + 1) (toApp.send permit chunk) socket
      else ⟨toApp, socket, .done⟩

def finish (id : Nat) (st : TcpState) (socket : TcpSocket) (effects : List Effect)
    (backpressured : Bool) : Served :=
  let (closedSocket, closing) :=
    if socket.phase = .closeWait then closeSocket id st socket else (socket, [])
  let st := if socket.phase = .timeWait then { st with pending := [] } else st
  if (socket.phase = .closed || socket.phase = .timeWait) && st.established then
    ⟨none, effects ++ closing ++ [.removeTcp id st closedSocket], backpressured⟩
  else ⟨some (st, closedSocket), effects ++ closing, backpressured⟩

def serviceOrphan (cfg : Config) (now : Nat) (id : Nat) (st : TcpState) (socket : TcpSocket)
    (effects : List Effect) : Served :=
  let orphanedAt := st.orphanedAt.getD now
  let st := { st with orphanedAt := some orphanedAt }
  if socket.canRecv || now - orphanedAt ≥ cfg.orphanLinger then
    let socket := if socket.phase = .closed then socket else socket.abort
    ⟨some ({ st with aborted := true }, socket), effects, false⟩
  else
    let (socket, closing) := closeSocket id st socket
    finish id st socket (effects ++ closing) false

def moveBytes (io : PassIo) (id : Nat) (st : TcpState) (socket : TcpSocket) :
    (TcpState × TcpSocket) × List Effect × DrainEnd :=
  let (st, socket) := pushPending io st socket
  let (socket, closing) := halfClose id st socket
  let drained := drainToApp io.cut maxRecvChunks 0 st.toApp socket
  (({ st with toApp := drained.toApp }, drained.socket), closing, drained.why)

def serviceEstablished (cfg : Config) (now : Nat) (io : PassIo) (id : Nat) (st : TcpState)
    (socket : TcpSocket) (effects : List Effect) : Served :=
  let ((st, socket), closing, why) := moveBytes io id st socket
  match why with
  | .appGone => serviceOrphan cfg now id st socket (effects ++ closing)
  | .backpressured => finish id st socket (effects ++ closing) true
  | .done => finish id st socket (effects ++ closing) false

def serviceConn (cfg : Config) (now : Nat) (io : PassIo) (id : Nat) (st : TcpState)
    (socket : TcpSocket) : Served :=
  let (st, effects) := markConnected id socket.phase st
  if st.established then serviceEstablished cfg now io id st socket effects
  else if socket.phase = .closed || socket.phase = .timeWait then
    ⟨none, failConnect st "connection refused" ++ [.removeTcp id st socket], false⟩
  else if (st.connectResp.all fun resp => resp.requesterGone) || now ≥ st.connectDeadline then
    ⟨none, failConnect st "connection timed out" ++ [.removeTcp id st socket], false⟩
  else ⟨some (st, socket), [], false⟩

def serviceEntry (cfg : Config) (now : Nat) (io : PassIo) (id : Nat) (st : TcpState)
    (socket : TcpSocket) : Served :=
  if st.aborted then ⟨none, [.removeTcp id st socket], false⟩
  else serviceConn cfg now io id st socket

def serviceId (cfg : Config) (now : Nat) (io : PassIo) (s : NetStack) (id : Nat) :
    Option (NetStack × List Effect × Bool) :=
  match s.tcpConns.lookup id with
  | none => some (s, [], false)
  | some st =>
    match s.sockets.get? st.handle with
    | some (.tcp socket) =>
      let served := serviceEntry cfg now io id st socket
      match served.entry with
      | some (st', socket') => some (s.putTcp id st' socket', served.effects, served.backpressured)
      | none => some (s.removeTcp id st.handle, served.effects, served.backpressured)
    | _ => none

def serviceTcp (cfg : Config) (now : Nat) (io : Nat → PassIo) :
    NetStack → List Nat → Option (NetStack × List Effect × Bool)
  | s, [] => some (s, [], false)
  | s, id :: ids => do
      let (s, effects, busy) ← serviceId cfg now (io id) s id
      let (s, effects', busy') ← serviceTcp cfg now io s ids
      return (s, effects ++ effects', busy || busy')

theorem serviceTcp_loop {cfg : Config} {now : Nat} {io : Nat → PassIo} {I : NetStack → Prop}
    {R : List Effect → NetStack → NetStack → Prop} (refl : ∀ {s}, I s → R [] s s)
    (trans : ∀ {first later s t u}, R first s t → R later t u → R (first ++ later) s u)
    (body : ∀ {s}, I s → ∀ id, ∃ t effects busy,
      serviceId cfg now (io id) s id = some (t, effects, busy) ∧ I t ∧ R effects s t)
    {s : NetStack} (start : I s) (ids : List Nat) :
    ∃ t effects busy, serviceTcp cfg now io s ids = some (t, effects, busy) ∧ R effects s t := by
  induction ids generalizing s with
  | nil => exact ⟨s, [], false, rfl, refl start⟩
  | cons id ids ih =>
    obtain ⟨t, effects, busy, first, kept, here⟩ := body start id
    obtain ⟨u, effects', busy', rest, later⟩ := ih kept
    exact ⟨u, effects ++ effects', busy || busy', by simp [serviceTcp, first, rest],
      trans here later⟩

def drainUdp : (fuel : Nat) → Chan (SocketAddr × Bytes) → UdpSocket →
    Chan (SocketAddr × Bytes) × UdpSocket × DrainEnd
  | 0, toApp, socket => (toApp, socket, .done)
  | fuel + 1, toApp, socket =>
    match toApp.tryReserve with
    | .error .full => (toApp, socket, .backpressured)
    | .error .closed => (toApp, socket, .appGone)
    | .ok permit =>
      match socket.rx with
      | [] => (toApp, socket, .done)
      | datagram :: rest =>
        drainUdp fuel (toApp.send permit datagram) { socket with rx := rest }

def serviceUdpId (s : NetStack) (id : Nat) : Option (NetStack × Bool) :=
  match s.udpConns.lookup id with
  | none => some (s, false)
  | some st =>
    match s.sockets.get? st.handle with
    | some (.udp socket) =>
      let (toApp, socket, why) := drainUdp maxRecvChunks st.toApp socket
      if why = .appGone then some (s.removeUdp id st.handle, false)
      else
        some ({ s with
          sockets := s.sockets.put st.handle (.udp socket)
          udpConns := s.udpConns.insert id { st with toApp } }, why = .backpressured)
    | _ => none

def serviceUdp : NetStack → List Nat → Option (NetStack × Bool)
  | s, [] => some (s, false)
  | s, id :: ids => do
      let (s, busy) ← serviceUdpId s id
      let (s, busy') ← serviceUdp s ids
      return (s, busy || busy')

theorem serviceUdp_loop {I : NetStack → Prop} {R : NetStack → NetStack → Prop}
    (refl : ∀ {s}, I s → R s s) (trans : ∀ {s t u}, R s t → R t u → R s u)
    (body : ∀ {s}, I s → ∀ id, ∃ t busy, serviceUdpId s id = some (t, busy) ∧ I t ∧ R s t)
    {s : NetStack} (start : I s) (ids : List Nat) :
    ∃ t busy, serviceUdp s ids = some (t, busy) ∧ R s t := by
  induction ids generalizing s with
  | nil => exact ⟨s, false, rfl, refl start⟩
  | cons id ids ih =>
    obtain ⟨t, busy, first, kept, here⟩ := body start id
    obtain ⟨u, busy', rest, later⟩ := ih kept
    exact ⟨u, busy || busy', by simp [serviceUdp, first, rest], trans here later⟩

end Gozarbin.Netstack
