import Gozarbin.Lib.Varint
import Gozarbin.Socks.Gateway

/-! # The replies to a CONNECT

A SOCKS5 client gets a reply, and from then on the bytes of the far end. When names are to be
read off the first bytes of a connection, the success reply goes out before the route is known,
and the handlers are to send no other. What the surroundings answer is collected in `Outside`.
-/

namespace Gozarbin.Socks

open Routing

namespace Reply

def ver : UInt8 := 0x05
def atypV4 : UInt8 := 0x01
def atypV6 : UInt8 := 0x04
def ok : UInt8 := 0x00
def general : UInt8 := 0x01
def notAllowed : UInt8 := 0x02

end Reply

open Reply

def peekBudget : Nat := 4096

def reply (code : UInt8) : Bytes := [ver, code, 0x00, atypV4, 0, 0, 0, 0, 0, 0]

def replyBound (bound : SocketAddr) : Bytes :=
  let address := match bound.ip with
    | .v4 v4 => atypV4 :: BigEndian.toBytes 4 v4.bits.toNat
    | .v6 v6 => atypV6 :: BigEndian.toBytes 16 v6.bits.toNat
  [ver, Reply.ok, 0x00] ++ address ++ BigEndian.toBytes 2 bound.port.toNat

def unspecified : SocketAddr := ⟨.v4 ⟨0⟩, 0⟩

def hasDomainRules {Regex : Type} (set : RuleSet Regex) : Bool :=
  (set.block ++ set.direct).any fun rule =>
    match rule with
    | .domainSuffix _ | .domainFull _ | .domainKeyword _ | .domainRegex _ => true
    | .net _ | .ports _ _ | .private_ => false

/-- Why a direct connection was not made. -/
inductive DirectError where
  | permissionDenied
  | other
  deriving DecidableEq

/-- What the surroundings answer to the calls of one connection. -/
structure Outside (ε : Type) where
  sniffEnabled : Bool
  sniffRead : Option (Except ε Bytes)
  hostname : Bytes → Option Text
  replyWritten : Except ε Unit
  gatewayProxy : Option SocketAddr
  openThroughGateway : SocketAddr → Target → UInt16 → Except ε Bytes
  dnsResolve : Text → Except ε IpAddr
  openTcp : SocketAddr → Except ε Unit
  peerAddr : Except ε IpAddr
  connectDirect : Target → UInt16 → IpAddr → Option (Except DirectError Unit)
  headSent : Bool
  leftoverWritten : Bool
  relayed : List Bytes

/-- What is written to the client. -/
inductive Sent where
  | reply (message : Bytes)
  | far (bytes : Bytes)
  deriving DecidableEq

def Sent.isReply : Sent → Bool
  | .reply _ => true
  | .far _ => false

section
variable {Regex ε : Type} (env : Patterns Regex) (routes : RuleSet Regex) (io : Outside ε)

def readSniffHead : Option Bytes :=
  match io.sniffRead with
  | some (.ok bytes) => if bytes.isEmpty then none else some (bytes.take peekBudget)
  | some (.error _) => none
  | none => some []

def announced (head : Bytes) : Option Text := if head.isEmpty then none else io.hostname head

def handleDirect (target : Target) (port : UInt16) (head : Bytes) (replied : Bool) :
    List Sent × Except ε Unit :=
  match io.peerAddr with
  | .error e => ([], .error e)
  | .ok client =>
    match io.connectDirect target port client with
    | some (.ok ()) =>
      if !head.isEmpty && !io.headSent then ([], .ok ())
      else if replied then (io.relayed.map .far, .ok ())
      else
        match io.replyWritten with
        | .error e => ([.reply (replyBound unspecified)], .error e)
        | .ok () => (.reply (replyBound unspecified) :: io.relayed.map .far, .ok ())
    | some (.error kind) =>
      let code := if kind = .permissionDenied then notAllowed else general
      (if replied then [] else [.reply (reply code)], .ok ())
    | none => (if replied then [] else [.reply (reply general)], .ok ())

def openResolved (target : Target) (port : UInt16) : Except ε Unit := do
  let ip ← resolve io.dnsResolve target
  io.openTcp ⟨ip, port⟩

def openTunneled (target : Target) (port : UInt16) : Except ε Bytes :=
  match io.gatewayProxy.filter fun _ => shouldUseGateway port with
  | some proxy =>
    match io.openThroughGateway proxy target port with
    | .ok leftover => .ok leftover
    | .error _ => (openResolved io target port).map fun _ => []
  | none => (openResolved io target port).map fun _ => []

def routeConnect (target : Target) (port : UInt16) (head : Bytes) (replied : Bool)
    (named : Option Text) : List Sent × Except ε Unit :=
  match decideRoute env routes target named port with
  | .block => (if replied then [] else [.reply (reply notAllowed)], .ok ())
  | .direct => handleDirect io target port head replied
  | .proxy =>
    match openTunneled io target port with
    -- Here `replied` is not looked at.
    | .error e => ([.reply (reply general)], .error e)
    | .ok leftover =>
      let relay : List Sent × Except ε Unit :=
        if !head.isEmpty && !io.headSent then ([], .ok ())
        else if leftover.isEmpty then (io.relayed.map .far, .ok ())
        else if !io.leftoverWritten then ([.far leftover], .ok ())
        else (.far leftover :: io.relayed.map .far, .ok ())
      if replied then relay
      else
        match io.replyWritten with
        | .error e => ([.reply (replyBound unspecified)], .error e)
        | .ok () => (.reply (replyBound unspecified) :: relay.1, relay.2)

def sniffs (target : Target) : Bool :=
  match target with
  | .ip _ => io.sniffEnabled && hasDomainRules routes
  | .domain _ => false

def handleConnect (target : Target) (port : UInt16) : List Sent × Except ε Unit :=
  if sniffs routes io target then
    match io.replyWritten with
    | .error e => ([.reply (replyBound unspecified)], .error e)
    | .ok () =>
      match readSniffHead io with
      | none => ([.reply (replyBound unspecified)], .ok ())
      | some head =>
        let (sent, result) := routeConnect env routes io target port head true (announced io head)
        (.reply (replyBound unspecified) :: sent, result)
  else routeConnect env routes io target port [] false none

def replyCount (sent : List Sent) : Nat := sent.countP Sent.isReply

/-- At most one message is the proxy's own, so whatever comes after it is from the far end. -/
def OneReply (sent : List Sent) : Prop := replyCount sent ≤ 1

/-- The success reply went out before the route was known, the route is the tunnel, and that
    could not be opened. -/
def FailsAfterReply (target : Target) (port : UInt16) : Prop :=
  ∃ ip head e, target = .ip ip ∧ sniffs routes io target = true ∧ io.replyWritten = .ok () ∧
    readSniffHead io = some head ∧
    decideRoute env routes target (announced io head) port = .proxy ∧
    (∀ proxy, io.gatewayProxy = some proxy → shouldUseGateway port = true →
      ∃ e', io.openThroughGateway proxy target port = .error e') ∧
    io.openTcp ⟨ip, port⟩ = .error e

section replyCount
variable (message bytes : Bytes) (sent : List Sent)

@[simp] theorem replyCount_nil : replyCount [] = 0 := rfl

@[simp] theorem replyCount_reply : replyCount (.reply message :: sent) = replyCount sent + 1 :=
  List.countP_cons_of_pos rfl

@[simp] theorem replyCount_far : replyCount (.far bytes :: sent) = replyCount sent := by
  simp [replyCount, Sent.isReply]

@[simp] theorem replyCount_relayed (chunks : List Bytes) : replyCount (chunks.map .far) = 0 := by
  induction chunks with
  | nil => rfl
  | cons chunk chunks ih => simp [ih]

end replyCount

theorem handleDirect_replies (target : Target) (port : UInt16) (head : Bytes) (replied : Bool) :
    replyCount (handleDirect io target port head replied).1 ≤ if replied then 0 else 1 := by
  unfold handleDirect
  cases io.peerAddr with
  | error e => exact Nat.zero_le _
  | ok client =>
    dsimp only
    cases io.connectDirect target port client with
    | none => cases replied <;> simp
    | some answer =>
      cases answer with
      | error kind => cases replied <;> simp
      | ok =>
        dsimp only
        split
        · exact Nat.zero_le _
        · cases replied with
          | true => simp
          | false => cases io.replyWritten <;> simp

theorem openTunneled_ip_eq_error (ip : IpAddr) (port : UInt16) (e : ε) :
    openTunneled io (.ip ip) port = .error e ↔
      (∀ proxy, io.gatewayProxy = some proxy → shouldUseGateway port = true →
        ∃ e', io.openThroughGateway proxy (.ip ip) port = .error e') ∧
      io.openTcp ⟨ip, port⟩ = .error e := by
  have resolved : openResolved io (.ip ip) port = io.openTcp ⟨ip, port⟩ := rfl
  have failed : (openResolved io (.ip ip) port).map (fun _ => ([] : Bytes)) = .error e ↔
      io.openTcp ⟨ip, port⟩ = .error e := by
    rw [resolved]
    cases io.openTcp ⟨ip, port⟩ <;> simp [Except.map]
  unfold openTunneled
  cases gateway : io.gatewayProxy with
  | none => simp [failed]
  | some proxy =>
    cases web : shouldUseGateway port with
    | false => simp [failed]
    | true =>
      cases opened : io.openThroughGateway proxy (.ip ip) port <;>
        simp [Option.filter, failed, opened]

theorem routeConnect_replies (target : Target) (port : UInt16) (head : Bytes)
    (named : Option Text) :
    OneReply (routeConnect env routes io target port head false named).1 := by
  unfold routeConnect
  cases decideRoute env routes target named port with
  | block => exact Nat.le_refl _
  | direct => exact handleDirect_replies io target port head false
  | proxy =>
    cases openTunneled io target port with
    | error e => exact Nat.le_refl _
    | ok leftover =>
      cases io.replyWritten with
      | error e => exact Nat.le_refl _
      | ok =>
        simp only [Bool.false_eq_true, if_false, OneReply]
        split_ifs <;> simp

theorem routeConnect_replied (target : Target) (port : UInt16) (head : Bytes)
    (named : Option Text) :
    replyCount (routeConnect env routes io target port head true named).1 = 0 ↔
      ¬ (decideRoute env routes target named port = .proxy ∧
        ∃ e, openTunneled io target port = .error e) := by
  unfold routeConnect
  cases decideRoute env routes target named port with
  | block => simp
  | direct => simpa using handleDirect_replies io target port head true
  | proxy =>
    cases openTunneled io target port with
    | error e => simp
    | ok leftover =>
      simp only [if_true]
      split_ifs <;> simp

/-- A client gets at most one reply, except when the tunnel fails after an early
    one. -/
theorem oneReply_iff (target : Target) (port : UInt16) :
    OneReply (handleConnect env routes io target port).1 ↔
      ¬ FailsAfterReply env routes io target port := by
  unfold OneReply handleConnect
  cases early : sniffs routes io target with
  | false =>
    have one := routeConnect_replies env routes io target port [] none
    simpa [FailsAfterReply, early, OneReply] using one
  | true =>
    rw [if_pos rfl]
    obtain ⟨ip, rfl⟩ : ∃ ip, target = .ip ip := by
      cases target with
      | ip ip => exact ⟨ip, rfl⟩
      | domain name => cases early
    cases written : io.replyWritten with
    | error e => simp [FailsAfterReply, written]
    | ok =>
      dsimp only
      cases read : readSniffHead io with
      | none => simp [FailsAfterReply, read]
      | some head =>
        have rest := routeConnect_replied env routes io (.ip ip) port head (announced io head)
        simp only [openTunneled_ip_eq_error] at rest
        have more : ∀ n, n + 1 ≤ 1 ↔ n = 0 := by omega
        simp only [replyCount_reply, more, rest, FailsAfterReply, early, written, read,
          Target.ip.injEq, Option.some.injEq]
        simp only [exists_and_left, exists_eq_left', true_and]

end

def unreachable : Outside Unit where
  sniffEnabled := true
  sniffRead := none
  hostname _ := none
  replyWritten := .ok ()
  gatewayProxy := none
  openThroughGateway _ _ _ := .error ()
  dnsResolve _ := .error ()
  openTcp _ := .error ()
  peerAddr := .ok (.v4 ⟨0x7f000001#32⟩)
  connectDirect _ _ _ := none
  headSent := true
  leftoverWritten := true
  relayed := []

theorem unreachable_replied_twice :
    ¬ OneReply (handleConnect plain blockedNet unreachable (.ip (.v4 ⟨0x5db8d822#32⟩)) 443).1 := by
  unfold OneReply
  decide

end Gozarbin.Socks
