import Mathlib.Data.Finmap
import Gozarbin.Lib.Channel
import Gozarbin.Netstack.Socket

/-! # The state of the user-space stack and its commands

`NetStack` owns the sockets; a connection is an entry of `tcpConns` or `udpConns` that names its
socket by handle. A call through a handle that names no socket panics, so operations on handles
return an `Option`. Whether the engine accepts a `connect` or a `bind` is an argument of the
command.
-/

namespace Gozarbin.Netstack

/-- The width of a machine word, the receive buffer, the queue of an application and two time
    limits. -/
structure Config where
  usizeBits : Nat
  tcpRxBuf : Nat
  appQueue : Nat
  connect : Nat
  orphanLinger : Nat

def lowTier : Config where
  usizeBits := 64
  tcpRxBuf := 256 * 1024
  appQueue := 128
  connect := 30000
  orphanLinger := 10000

def maxRecvChunks : Nat := 128

def maxTcpPending (cfg : Config) : Nat :=
  max (min (cfg.tcpRxBuf * 2) (2 ^ cfg.usizeBits - 1)) (64 * 1024)

/-- The sending half of the oneshot of an `open_tcp`; `requesterGone` is what `is_closed`
    answers. -/
structure OpenTcpResp where
  token : Nat
  requesterGone : Bool
  deriving DecidableEq

/-- An entry of `tcp_conns`; with `fromStackRx` the receiver of `toApp` is not handed over yet. -/
structure TcpState where
  handle : SocketHandle
  toApp : Chan Bytes
  fromStackRx : Bool
  connectResp : Option OpenTcpResp
  connectDeadline : Nat
  pending : Bytes
  established : Bool
  halfClosed : Bool
  orphanedAt : Option Nat
  aborted : Bool

structure UdpState where
  handle : SocketHandle
  toApp : Chan (SocketAddr × Bytes)

/-- The addresses of the interface, each with its prefix length. -/
structure Iface where
  v4 : Option (Ipv4Addr × Nat)
  v6 : Option (Ipv6Addr × Nat)

def localIface : Iface := ⟨some (⟨0x0a000002#32⟩, 24), none⟩

structure NetStack where
  iface : Iface
  sockets : SocketSet
  tcpConns : Finmap fun _ : Nat => TcpState
  udpConns : Finmap fun _ : Nat => UdpState
  nextId : Nat
  nextPort : UInt16

inductive ConnectError where
  | invalidState
  | unaddressable
  deriving DecidableEq

inductive BindError where
  | invalidState
  | unaddressable
  deriving DecidableEq

def ConnectError.debug : ConnectError → String
  | .invalidState => "InvalidState"
  | .unaddressable => "Unaddressable"

def BindError.debug : BindError → String
  | .invalidState => "InvalidState"
  | .unaddressable => "Unaddressable"

/-- A command, with the engine's answer to the `connect` or `bind` it leads to. -/
inductive Cmd where
  | openTcp (dst : SocketAddr) (resp : OpenTcpResp) (connect : Except ConnectError Unit)
  | openUdp (resp : Nat) (bind : Except BindError Unit)
  | setAddrs (v4 : Option (Ipv4Addr × Nat)) (v6 : Option (Ipv6Addr × Nat))

inductive DataIn where
  | tcp (id : Nat) (data : Bytes)
  | tcpClose (id : Nat)
  | udp (id : Nat) (dst : SocketAddr) (data : Bytes)
  | udpClose (id : Nat)
  deriving DecidableEq

def DataIn.id : DataIn → Nat
  | .tcp id _ | .tcpClose id | .udp id _ _ | .udpClose id => id

/-- What the stack does that can be seen from outside its own state. -/
inductive Effect where
  | replyTcp (resp : OpenTcpResp) (answer : Except String Nat)
  | replyUdp (resp : Nat) (answer : Except String Nat)
  | close (id : Nat) (pending accepted : Bytes) (appOpen : Bool)
  | removeTcp (id : Nat) (entry : TcpState) (socket : TcpSocket)

def Effect.isReply : Effect → Bool
  | .replyTcp _ _ | .replyUdp _ _ => true
  | .close _ _ _ _ | .removeTcp _ _ _ => false

def allocPort (port : UInt16) : UInt16 × UInt16 :=
  (port, if port ≥ 65000 then 49152 else port + 1)

def routablePrefixV4 (p : Nat) : Nat := if p ≥ 31 then 24 else p

def routablePrefixV6 (p : Nat) : Nat := if p ≥ 127 then 64 else p

def applyAddrs (v4 : Option (Ipv4Addr × Nat)) (v6 : Option (Ipv6Addr × Nat)) : Iface where
  v4 := v4.map fun (ip, p) => (ip, routablePrefixV4 p)
  v6 := v6.map fun (ip, p) => (ip, routablePrefixV6 p)

namespace NetStack

def initial (iface : Iface) : NetStack where
  iface
  sockets := []
  tcpConns := ∅
  udpConns := ∅
  nextId := 1
  nextPort := 49152

def tcp? (s : NetStack) (id : Nat) : Option (TcpState × TcpSocket) :=
  (s.tcpConns.lookup id).bind fun st =>
    match s.sockets.get? st.handle with
    | some (.tcp socket) => some (st, socket)
    | _ => none

def putTcp (s : NetStack) (id : Nat) (st : TcpState) (socket : TcpSocket) : NetStack :=
  { s with sockets := s.sockets.put st.handle (.tcp socket), tcpConns := s.tcpConns.insert id st }

def removeTcp (s : NetStack) (id : Nat) (handle : SocketHandle) : NetStack :=
  { s with sockets := s.sockets.remove handle, tcpConns := s.tcpConns.erase id }

def removeUdp (s : NetStack) (id : Nat) (handle : SocketHandle) : NetStack :=
  { s with sockets := s.sockets.remove handle, udpConns := s.udpConns.erase id }

end NetStack

def newTcpState (cfg : Config) (now : Nat) (handle : SocketHandle) (resp : OpenTcpResp) :
    TcpState where
  handle
  toApp := Chan.new cfg.appQueue
  fromStackRx := true
  connectResp := some resp
  connectDeadline := now + cfg.connect
  pending := []
  established := false
  halfClosed := false
  orphanedAt := none
  aborted := false

def handleCmd (cfg : Config) (now : Nat) (s : NetStack) : Cmd → NetStack × List Effect
  | .openTcp dst resp connect =>
    let (localPort, nextPort) := allocPort s.nextPort
    let s := { s with nextPort }
    match connect with
    | .error e => (s, [.replyTcp resp (.error ("connect: " ++ e.debug))])
    | .ok () =>
      let (handle, sockets) := s.sockets.add (.tcp (.connecting localPort dst))
      ({ s with
          sockets
          nextId := s.nextId + 1
          tcpConns := s.tcpConns.insert s.nextId (newTcpState cfg now handle resp) }, [])
  | .openUdp resp bind =>
    let (localPort, nextPort) := allocPort s.nextPort
    let s := { s with nextPort }
    match bind with
    | .error e => (s, [.replyUdp resp (.error ("bind: " ++ e.debug))])
    | .ok () =>
      let (handle, sockets) := s.sockets.add (.udp ⟨localPort, [], []⟩)
      ({ s with
          sockets
          nextId := s.nextId + 1
          udpConns := s.udpConns.insert s.nextId ⟨handle, Chan.new cfg.appQueue⟩ },
        [.replyUdp resp (.ok s.nextId)])
  | .setAddrs v4 v6 =>
    ({ s with iface := applyAddrs (v4.or s.iface.v4) (v6.or s.iface.v6) }, [])

def tryHandleData (cfg : Config) (s : NetStack) : DataIn → Option (NetStack × Option DataIn)
  | .tcp id data =>
    match s.tcpConns.lookup id with
    | none => some (s, none)
    | some st =>
      let max := maxTcpPending cfg
      if st.pending.length ≥ max then some (s, some (.tcp id data))
      else
        let space := max - st.pending.length
        let st' := { st with pending := st.pending ++ data.take space }
        let s := { s with tcpConns := s.tcpConns.insert id st' }
        if data.length ≤ space then some (s, none)
        else some (s, some (.tcp id (data.drop space)))
  | .tcpClose id =>
    match s.tcpConns.lookup id with
    | none => some (s, none)
    | some st => some ({ s with tcpConns := s.tcpConns.insert id { st with halfClosed := true } }, none)
  | .udp id dst data =>
    match s.udpConns.lookup id with
    | none => some (s, none)
    | some st =>
      match s.sockets.get? st.handle with
      | some (.udp socket) =>
        let socket := { socket with tx := socket.tx ++ [(dst, data)] }
        some ({ s with sockets := s.sockets.put st.handle (.udp socket) }, none)
      | _ => none
  | .udpClose id =>
    match s.udpConns.lookup id with
    | none => some (s, none)
    | some st =>
      if (s.sockets.get? st.handle).isSome then some (s.removeUdp id st.handle, none)
      else none

end Gozarbin.Netstack
