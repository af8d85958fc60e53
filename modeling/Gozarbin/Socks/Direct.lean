import Gozarbin.Socks.Udp

/-! # Connections past the tunnel

`connect_direct` tries the addresses of a name one after the other, past those that only
clients on this machine may reach, and its callers give it ten seconds for all of them.
Times are in milliseconds.
-/

namespace Gozarbin.Socks

open Routing Runs AddrText

/-- What the resolver has for a name, and whether and when a connection to an address is made. -/
structure Network where
  lookup : Text → UInt16 → Nat × Option (List SocketAddr)
  connect : SocketAddr → Nat × Except DirectError Unit

def directConnectTimeout : Nat := 10000

/-- What came of a call: how long it took, the addresses it tried, and its result. -/
structure Dialled where
  elapsed : Nat
  dials : List SocketAddr
  result : Except DirectError Unit

namespace Network

variable (net : Network)

def lookupHost (target : Target) (port : UInt16) : Nat × Option (List SocketAddr) :=
  match target with
  | .ip ip => (0, some [⟨ip, port⟩])
  | .domain name =>
    match parseIpAddr name with
    | some ip => (0, some [⟨ip, port⟩])
    | none => net.lookup name port

def connectEach (client : IpAddr) : List SocketAddr → Option DirectError → Dialled
  | [], lastError => ⟨0, [], .error (lastError.getD .other)⟩
  | address :: rest, _ =>
    if !directTargetAllowed client address.ip then
      connectEach client rest (some .permissionDenied)
    else
      match net.connect address with
      | (took, .ok ()) => ⟨took, [address], .ok ()⟩
      | (took, .error error) =>
        let later := connectEach client rest (some error)
        ⟨took + later.elapsed, address :: later.dials, later.result⟩

def connectDirect (target : Target) (port : UInt16) (client : IpAddr) : Dialled :=
  match net.lookupHost target port with
  | (took, none) => ⟨took, [], .error .other⟩
  | (took, some addresses) =>
    let tried := net.connectEach client addresses none
    { tried with elapsed := took + tried.elapsed }

def connectDirectInTime (target : Target) (port : UInt16) (client : IpAddr) :
    Option (Except DirectError Unit) :=
  let dialled := net.connectDirect target port client
  if dialled.elapsed ≤ directConnectTimeout then some dialled.result else none

end Network

/-- The address is this machine itself, IPv4 addresses mapped to IPv6 included. -/
def OwnAddress (ip : IpAddr) : Prop :=
  (normalizeIp ip).isLoopback = true ∨ (normalizeIp ip).isUnspecified = true

theorem directTargetAllowed_iff {client address : IpAddr}
    (remote : (normalizeIp client).isLoopback = false) :
    directTargetAllowed client address = true ↔ ¬ OwnAddress address := by
  simp [directTargetAllowed, OwnAddress, remote]

variable {net : Network} {client : IpAddr}

theorem Network.connectEach_dials (remote : (normalizeIp client).isLoopback = false)
    (addresses : List SocketAddr) (lastError : Option DirectError) :
    ∀ address ∈ (net.connectEach client addresses lastError).dials, ¬ OwnAddress address.ip := by
  induction addresses generalizing lastError with
  | nil => simp [connectEach]
  | cons address rest ih =>
    rw [connectEach]
    split_ifs with refused
    · exact ih _
    have allowed : ¬ OwnAddress address.ip :=
      (directTargetAllowed_iff remote).mp (by simpa using refused)
    split
    · simpa using allowed
    · exact List.forall_mem_cons.mpr ⟨allowed, ih _⟩

theorem Network.connectDirect_dials (remote : (normalizeIp client).isLoopback = false)
    (target : Target) (port : UInt16) :
    ∀ address ∈ (net.connectDirect target port client).dials, ¬ OwnAddress address.ip := by
  rw [connectDirect]
  split
  · simp
  · exact connectEach_dials remote _ _

/-- No datagram that an association sent past the tunnel went to this machine. -/
def Association.NotOwn (s : Association) : Prop :=
  ∀ source payload dest, .direct source payload dest ∈ s.trace → ¬ OwnAddress dest.ip

theorem Association.NotOwn.emit {s : Association} {effect : UdpEffect} (clean : s.NotOwn)
    (own : ∀ source payload dest, effect = .direct source payload dest → ¬ OwnAddress dest.ip) :
    (s.emit effect).NotOwn := by
  intro source payload dest mem
  rcases List.mem_append.mp mem with old | new
  · exact clean source payload dest old
  · exact own source payload dest (List.mem_singleton.mp new).symm

theorem Association.NotOwn.receive {s : Association} (clean : s.NotOwn) (expectedIp : IpAddr)
    (source : SocketAddr) (datagram : Bytes) :
    (s.receive expectedIp source datagram).1.NotOwn := by
  rw [Association.receive]
  split_ifs
  · exact clean
  · have taken : (s.emit (.latched source)).NotOwn := clean.emit (by simp)
    exact Association.NotOwn.emit taken (by simp)
  · exact clean.emit (by simp)

theorem Association.NotOwn.reply {s : Association} (clean : s.NotOwn) (src : SocketAddr)
    (data : Bytes) : (s.reply src data).NotOwn := by
  rw [Association.reply]
  split
  · exact clean.emit (by simp)
  · exact clean

section
variable {Regex : Type} (env : Patterns Regex) (routes : RuleSet Regex)

theorem Association.NotOwn.forward {s : Association} {controlPeer : SocketAddr} (clean : s.NotOwn)
    (remote : (normalizeIp controlPeer.ip).isLoopback = false) (source : SocketAddr)
    (request : UdpRequest) (found : List SocketAddr) (resolved : Option IpAddr) :
    (s.forward env routes controlPeer source request found resolved).NotOwn := by
  simp only [Association.forward]
  split
  · exact clean
  · split
    next addr _ =>
      split_ifs with refused
      · exact clean
      · have allowed : ¬ OwnAddress addr.ip :=
          (directTargetAllowed_iff remote).mp (by simpa using refused)
        refine clean.emit fun source payload dest same => ?_
        cases same
        exact allowed
    · exact clean
  · split
    · exact clean.emit (by simp)
    · exact clean

theorem handleUdpAssociate_notOwn {controlPeer : SocketAddr}
    (remote : (normalizeIp controlPeer.ip).isLoopback = false) (requested : Target)
    (events : List AssociateEvent) :
    Always (handleUdpAssociate env routes controlPeer requested) Association.NotOwn {} events := by
  refine always_of_kept (C := fun _ _ => True) ?_ (by simp [Association.NotOwn])
    (.of_forall fun _ _ => trivial)
  intro s e s' clean _ next
  cases e with
  | datagram source bytes found resolved =>
    have received := clean.receive (expectedUdpSource controlPeer requested) source bytes
    simp only [handleUdpAssociate] at next
    split at next
    next a request eq =>
      cases next
      rw [eq] at received
      exact received.forward env routes remote source request found resolved
    next a eq =>
      cases next
      rw [eq] at received
      exact received
  | fromStack src data =>
    cases next
    exact clean.reply src data
  | fromDirect src data =>
    cases next
    exact clean.reply src data
  | ignored =>
    cases next
    exact clean
  | ends => cases next

end

def Network.usable (net : Network) (client : IpAddr) (address : SocketAddr) : Bool :=
  directTargetAllowed client address.ip &&
    match (net.connect address).2 with
    | .ok () => true
    | .error _ => false

def Network.tryTime (net : Network) (client : IpAddr) (addresses : List SocketAddr) : Nat :=
  addresses.foldr
    (fun address rest =>
      (if directTargetAllowed client address.ip then (net.connect address).1 else 0) + rest) 0

/-- The addresses up to the first one that can be used are tried within the time limit. -/
def Network.FirstInTime (net : Network) (target : Target) (port : UInt16) (client : IpAddr) : Prop :=
  ∀ took before address after,
    net.lookupHost target port = (took, some (before ++ address :: after)) →
    net.usable client address = true → (∀ b ∈ before, net.usable client b = false) →
    took + net.tryTime client (before ++ [address]) ≤ directConnectTimeout

theorem Network.connectEach_of_first {before : List SocketAddr} {address : SocketAddr}
    (usable : net.usable client address = true) (none : ∀ b ∈ before, net.usable client b = false)
    (after : List SocketAddr) (lastError : Option DirectError) :
    (net.connectEach client (before ++ address :: after) lastError).result = .ok () ∧
      (net.connectEach client (before ++ address :: after) lastError).elapsed =
        net.tryTime client (before ++ [address]) := by
  induction before generalizing lastError with
  | nil =>
    rw [Network.usable, Bool.and_eq_true] at usable
    obtain ⟨allowed, answers⟩ := usable
    cases connected : net.connect address with
    | mk took result =>
      cases result with
      | ok => simp [connectEach, tryTime, allowed, connected]
      | error => simp [connected] at answers
  | cons b before ih =>
    obtain ⟨useless, rest⟩ := List.forall_mem_cons.mp none
    rw [List.cons_append, connectEach]
    cases allowed : directTargetAllowed client b.ip with
    | false => simpa [tryTime, allowed] using ih rest (some .permissionDenied)
    | true =>
      cases connected : net.connect b with
      | mk took result =>
        cases result with
        | ok => simp [Network.usable, allowed, connected] at useless
        | error error => simpa [tryTime, allowed, connected] using ih rest (some error)

/-- No connection and no datagram goes to this machine, and a target with a usable address is
    connected. -/
structure DirectRoute (net : Network) (target : Target) (port : UInt16) (client : IpAddr) : Prop where
  tcp : ∀ address ∈ (net.connectDirect target port client).dials, ¬ OwnAddress address.ip
  udp : ∀ {Regex : Type} (env : Patterns Regex) (routes : RuleSet Regex) (controlPort : UInt16)
    (requested : Target) (events : List AssociateEvent),
    Always (handleUdpAssociate env routes ⟨client, controlPort⟩ requested) Association.NotOwn {}
      events
  connected : (∃ took addresses, net.lookupHost target port = (took, some addresses) ∧
    ∃ address ∈ addresses, net.usable client address = true) →
    net.connectDirectInTime target port client = some (.ok ())

theorem Network.connectDirectInTime_of_first {target : Target} {port : UInt16} {took : Nat}
    {before after : List SocketAddr} {address : SocketAddr}
    (found : net.lookupHost target port = (took, some (before ++ address :: after)))
    (usable : net.usable client address = true)
    (none : ∀ b ∈ before, net.usable client b = false) :
    net.connectDirectInTime target port client = some (.ok ()) ↔
      took + net.tryTime client (before ++ [address]) ≤ directConnectTimeout := by
  obtain ⟨result, elapsed⟩ := net.connectEach_of_first usable none after Option.none
  simp only [connectDirectInTime, connectDirect, found]
  split <;> simp_all

/-- The direct route can be relied on precisely if the first usable address is not held up by
    those in front of it. -/
theorem direct_route_iff (net : Network) (target : Target) (port : UInt16) (client : IpAddr)
    (remote : (normalizeIp client).isLoopback = false) :
    DirectRoute net target port client ↔ net.FirstInTime target port client := by
  constructor
  · intro route took before address after found usable none
    apply (Network.connectDirectInTime_of_first found usable none).mp
    exact route.connected ⟨took, _, found, address, by simp, usable⟩
  · intro inTime
    refine ⟨Network.connectDirect_dials remote target port,
      fun env routes controlPort requested events =>
        handleUdpAssociate_notOwn env routes remote requested events, ?_⟩
    rintro ⟨took, addresses, found, address, mem, usable⟩
    obtain ⟨first, at_first⟩ : ∃ first, addresses.find? (net.usable client) = some first :=
      Option.isSome_iff_exists.mp (List.find?_isSome.mpr ⟨address, mem, usable⟩)
    obtain ⟨usable, before, after, rfl, none⟩ := List.find?_eq_some_iff_append.mp at_first
    have none : ∀ b ∈ before, net.usable client b = false := by simpa using none
    exact (Network.connectDirectInTime_of_first found usable none).mpr
      (inTime took before first after found usable none)

def brokenIpv6 (hangs : Nat) : Network where
  lookup _ port := (5, some [⟨.v6 ⟨0x20010db8000000000000000000000001#128⟩, port⟩,
    ⟨.v4 ⟨0xc0000201#32⟩, port⟩])
  connect address := if address.ip.isIpv4 then (20, .ok ()) else (hangs, .error .other)

theorem brokenIpv6_firstInTime {hangs : Nat} (short : hangs ≤ 9000) :
    (brokenIpv6 hangs).FirstInTime (.domain "example.org".toList) 443 (.v4 ⟨0xc0a80114#32⟩) := by
  intro took before address after found usable none
  have addresses : (5, some [⟨.v6 ⟨0x20010db8000000000000000000000001#128⟩, 443⟩,
      ⟨.v4 ⟨0xc0000201#32⟩, 443⟩]) = (took, some (before ++ address :: after)) := found
  simp only [Prod.mk.injEq, Option.some.injEq] at addresses
  obtain ⟨rfl, split⟩ := addresses
  match before, split with
  | [], split =>
    obtain ⟨rfl, -⟩ := List.cons.inj split
    cases usable
  | [b], split =>
    obtain ⟨rfl, rfl, -⟩ := split
    have allowed : ∀ address ∈ [IpAddr.v6 ⟨0x20010db8000000000000000000000001#128⟩,
        .v4 ⟨0xc0000201#32⟩], directTargetAllowed (.v4 ⟨0xc0a80114#32⟩) address = true := by decide
    simp only [List.forall_mem_cons] at allowed
    simp [Network.tryTime, allowed.1, allowed.2.1, brokenIpv6, IpAddr.isIpv4, directConnectTimeout]
    omega
  | _ :: _ :: _, split => simp at split

theorem direct_route_after_refusal :
    DirectRoute (brokenIpv6 40) (.domain "example.org".toList) 443 (.v4 ⟨0xc0a80114#32⟩) :=
  (direct_route_iff (brokenIpv6 40) (.domain "example.org".toList) 443 (.v4 ⟨0xc0a80114#32⟩)
    (by decide)).mpr (brokenIpv6_firstInTime (by decide))

theorem direct_route_held_up :
    (brokenIpv6 130000).usable (.v4 ⟨0xc0a80114#32⟩) ⟨.v4 ⟨0xc0000201#32⟩, 443⟩ = true ∧
      (brokenIpv6 130000).connectDirectInTime (.domain "example.org".toList) 443
        (.v4 ⟨0xc0a80114#32⟩) = none ∧
      ¬ DirectRoute (brokenIpv6 130000) (.domain "example.org".toList) 443 (.v4 ⟨0xc0a80114#32⟩) := by
  refine ⟨by decide, by rfl, fun route => ?_⟩
  have connected := route.connected ⟨5, _, rfl, ⟨.v4 ⟨0xc0000201#32⟩, 443⟩, by simp, by decide⟩
  cases connected

end Gozarbin.Socks
