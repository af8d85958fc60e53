import Gozarbin.Socks.Connect

/-! # UDP associations

A client asks for a relay, and sends datagrams to it that say where they go.
`handle_udp_associate` passes them on by the tunnel or past it; `handle_udp_over_connector`,
which has TCP only, carries DNS queries. Both serve the source of the first datagram they
accept. A round of the loop is a step, with all it awaits; what it does to the outside is added
to the trace.
-/

namespace Gozarbin.Socks

open Routing Runs

def normalizeIp : IpAddr → IpAddr
  | .v6 v6 =>
    match v6.toIpv4Mapped with
    | some v4 => .v4 v4
    | none => .v6 v6
  | other => other

@[simp] theorem normalizeIp_idem (ip : IpAddr) : normalizeIp (normalizeIp ip) = normalizeIp ip := by
  cases ip with
  | v4 => rfl
  | v6 v6 =>
    cases mapped : v6.toIpv4Mapped with
    | none => simp [normalizeIp, mapped]
    | some v4 => simp [normalizeIp, mapped]

def expectedUdpSource (controlPeer : SocketAddr) : Target → IpAddr
  | .ip ip => if ip.isUnspecified then normalizeIp controlPeer.ip else normalizeIp ip
  | .domain _ => normalizeIp controlPeer.ip

theorem normalizeIp_expectedUdpSource (controlPeer : SocketAddr) (requested : Target) :
    normalizeIp (expectedUdpSource controlPeer requested) =
      expectedUdpSource controlPeer requested := by
  cases requested with
  | domain => exact normalizeIp_idem _
  | ip ip =>
    rw [expectedUdpSource]
    split <;> exact normalizeIp_idem _

def udpSourceAllowed (expectedIp : IpAddr) (latched : Option SocketAddr) (source : SocketAddr) :
    Bool :=
  match latched with
  | some known => known = source
  | none => normalizeIp source.ip = normalizeIp expectedIp

def directTargetAllowed (client address : IpAddr) : Bool :=
  let address := normalizeIp address
  if address.isLoopback || address.isUnspecified then (normalizeIp client).isLoopback else true

/-- Where a datagram of the client goes, and what it holds. -/
structure UdpRequest where
  target : Target
  port : UInt16
  payload : Bytes

def UdpRequest.read (target : Target) : Bytes → Option UdpRequest
  | high :: low :: payload => some ⟨target, .ofNat (BigEndian.ofBytes [high, low]), payload⟩
  | _ => none

def parseUdpRequest : Bytes → Option UdpRequest
  | _ :: _ :: frag :: atyp :: rest =>
    if frag ≠ 0 then none
    else if atyp = 0x01 then
      if rest.length < 4 then none
      else UdpRequest.read (.ip (.v4 ⟨.ofNat 32 (BigEndian.ofBytes (rest.take 4))⟩)) (rest.drop 4)
    else if atyp = 0x04 then
      if rest.length < 16 then none
      else
        UdpRequest.read (.ip (.v6 ⟨.ofNat 128 (BigEndian.ofBytes (rest.take 16))⟩)) (rest.drop 16)
    else if atyp = 0x03 then
      match rest with
      | [] => none
      | len :: rest =>
        if rest.length < len.toNat then none
        else UdpRequest.read (.domain (Text.fromUtf8Lossy (rest.take len.toNat)))
          (rest.drop len.toNat)
    else none
  | _ => none

def buildUdpReply (src : SocketAddr) (data : Bytes) : Bytes :=
  let address := match src.ip with
    | .v4 v4 => Reply.atypV4 :: BigEndian.toBytes 4 v4.bits.toNat
    | .v6 v6 => Reply.atypV6 :: BigEndian.toBytes 16 v6.bits.toNat
  [0x00, 0x00, 0x00] ++ address ++ BigEndian.toBytes 2 src.port.toNat ++ data

example : parseUdpRequest [0, 0, 0, 1, 10, 0, 0, 1, 0, 53, 7] =
    some ⟨.ip (.v4 ⟨0x0a000001#32⟩), 53, [7]⟩ := rfl

/-- What an association does. Where it passes something on, `source` is who sent it. -/
inductive UdpEffect where
  | latched (client : SocketAddr)
  | parsed (source : SocketAddr) (datagram : Bytes)
  | direct (source : SocketAddr) (payload : Bytes) (dest : SocketAddr)
  | tunneled (source : SocketAddr) (payload : Bytes) (dest : SocketAddr)
  | asked (source : SocketAddr) (query : Bytes) (resolver : SocketAddr)
  | replied (packet : Bytes) (dest : SocketAddr)

/-- What both loops keep, and what they have done so far. -/
structure Association where
  client : Option SocketAddr := none
  refused : Nat := 0
  trace : List UdpEffect := []

namespace Association

def emit (s : Association) (effect : UdpEffect) : Association :=
  { s with trace := s.trace ++ [effect] }

def receive (expectedIp : IpAddr) (source : SocketAddr) (datagram : Bytes) (s : Association) :
    Association × Option UdpRequest :=
  if !udpSourceAllowed expectedIp s.client source then ({ s with refused := s.refused + 1 }, none)
  else
    let s := if s.client.isNone then { s.emit (.latched source) with client := some source } else s
    (s.emit (.parsed source datagram), parseUdpRequest datagram)

def reply (src : SocketAddr) (data : Bytes) (s : Association) : Association :=
  match s.client with
  | some c => s.emit (.replied (buildUdpReply src data) c)
  | none => s

end Association

inductive AssociateEvent where
  | datagram (source : SocketAddr) (bytes : Bytes) (found : List SocketAddr)
      (resolved : Option IpAddr)
  | fromStack (src : SocketAddr) (data : Bytes)
  | fromDirect (src : SocketAddr) (data : Bytes)
  | ignored
  | ends

section
variable {Regex : Type} (env : Patterns Regex) (routes : RuleSet Regex)

def Association.forward (controlPeer source : SocketAddr) (request : UdpRequest)
    (found : List SocketAddr) (resolved : Option IpAddr) (s : Association) : Association :=
  match routes.decide env (hostOf request.target) request.port with
  | .block => s
  | .direct =>
    let outside : Option SocketAddr := match request.target with
      | .ip ip => some ⟨ip, request.port⟩
      | .domain _ => found.head?
    match outside with
    | some addr =>
      if !directTargetAllowed controlPeer.ip addr.ip then s
      else s.emit (.direct source request.payload addr)
    | none => s
  | .proxy =>
    let dst := match request.target with
      | .ip ip => some ip
      | .domain _ => resolved
    match dst with
    | some ip => s.emit (.tunneled source request.payload ⟨ip, request.port⟩)
    | none => s

def handleUdpAssociate (controlPeer : SocketAddr) (requested : Target) (s : Association) :
    AssociateEvent → Option Association
  | .datagram source bytes found resolved =>
    match s.receive (expectedUdpSource controlPeer requested) source bytes with
    | (s, some request) => some (s.forward env routes controlPeer source request found resolved)
    | (s, none) => some s
  | .fromStack src data => some (s.reply src data)
  | .fromDirect src data => some (s.reply src data)
  | .ignored => some s
  | .ends => none

end

def dnsPort : UInt16 := 53
def dnsMaxInFlight : Nat := 32

/-- `tasks` are the exchanges in flight, `answers` the answers on their way. -/
structure ConnectorAssociation extends Association where
  dropped : Nat := 0
  tasks : List SocketAddr := []
  answers : List (SocketAddr × Bytes) := []

inductive ConnectorEvent where
  | datagram (source : SocketAddr) (bytes : Bytes)
  | exchanged (task : Nat) (answer : Option Bytes)
  | answer
  | ignored
  | ends

namespace ConnectorAssociation

def ask (source : SocketAddr) (request : UdpRequest) (s : ConnectorAssociation) :
    ConnectorAssociation :=
  if request.port ≠ dnsPort then { s with dropped := s.dropped + 1 }
  else
    match request.target with
    | .domain _ => s
    | .ip ip =>
      if s.tasks.length < dnsMaxInFlight then
        { s with
          toAssociation := s.emit (.asked source request.payload ⟨ip, request.port⟩)
          tasks := s.tasks ++ [⟨ip, request.port⟩] }
      else s

def step (controlPeer : SocketAddr) (requested : Target) (s : ConnectorAssociation) :
    ConnectorEvent → Option ConnectorAssociation
  | .datagram source bytes =>
    match s.receive (expectedUdpSource controlPeer requested) source bytes with
    | (a, some request) => some (ask source request { s with toAssociation := a })
    | (a, none) => some { s with toAssociation := a }
  | .exchanged task answer =>
    match s.tasks[task]?, answer with
    | none, _ => some s
    | some _, none => some { s with tasks := s.tasks.eraseIdx task }
    | some resolver, some answer =>
      if s.answers.length < 64 then
        some { s with
          tasks := s.tasks.eraseIdx task, answers := s.answers ++ [(resolver, answer)] }
      else some s
  | .answer =>
    match s.answers with
    | [] => some s
    | (src, answer) :: rest => some { s with toAssociation := s.reply src answer, answers := rest }
  | .ignored => some s
  | .ends => none

end ConnectorAssociation

/-- What is done for `client`, and for nobody else. -/
def UdpEffect.IsFor (client : SocketAddr) : UdpEffect → Prop
  | .latched _ => False
  | .parsed source _ => source = client
  | .direct source _ _ => source = client
  | .tunneled source _ _ => source = client
  | .asked source _ _ => source = client
  | .replied _ dest => dest = client

/-- All that is done is for one client, which has the expected address. -/
structure Association.OneClient (expectedIp : IpAddr) (s : Association) : Prop where
  idle : s.client = none → s.trace = []
  latched : ∀ {c}, s.client = some c → normalizeIp c.ip = expectedIp ∧
    ∃ rest, s.trace = .latched c :: rest ∧ ∀ effect ∈ rest, effect.IsFor c

namespace Association.OneClient

variable {expectedIp : IpAddr} {s : Association} {c source : SocketAddr} {effect : UdpEffect}

theorem emit (one : s.OneClient expectedIp) (client : s.client = some c) (own : effect.IsFor c) :
    (s.emit effect).OneClient expectedIp where
  idle none := by
    rw [Association.emit, client] at none
    cases none
  latched {c'} some := by
    obtain rfl : c = c' := Option.some.inj (client.symm.trans some)
    obtain ⟨expected, rest, trace, served⟩ := one.latched client
    refine ⟨expected, rest ++ [effect], by simp [Association.emit, trace], fun e mem => ?_⟩
    rcases List.mem_append.mp mem with old | new
    · exact served e old
    · exact List.mem_singleton.mp new ▸ own

theorem reply (one : s.OneClient expectedIp) (src : SocketAddr) (data : Bytes) :
    (s.reply src data).OneClient expectedIp := by
  rw [Association.reply]
  cases client : s.client with
  | none => exact one
  | some c => exact one.emit client rfl

theorem receive (one : s.OneClient expectedIp) (fixed : normalizeIp expectedIp = expectedIp)
    (source : SocketAddr) (datagram : Bytes) :
    (s.receive expectedIp source datagram).1.OneClient expectedIp ∧
      ((s.receive expectedIp source datagram).2.isSome →
        (s.receive expectedIp source datagram).1.client = some source) := by
  rw [Association.receive]
  split_ifs with refused fresh
  · exact ⟨⟨one.idle, one.latched⟩, by simp⟩
  · have none : s.client = none := by simpa using fresh
    have expected : normalizeIp source.ip = expectedIp := by
      simpa [udpSourceAllowed, none, fixed] using refused
    have taken : Association.OneClient expectedIp
        { s.emit (.latched source) with client := some source } := by
      refine ⟨by simp, fun some => ?_⟩
      cases some
      exact ⟨expected, [], by simp [Association.emit, one.idle none], by simp⟩
    exact ⟨taken.emit rfl rfl, fun _ => rfl⟩
  · obtain ⟨c, known⟩ : ∃ c, s.client = some c := Option.ne_none_iff_exists'.mp (by simpa using fresh)
    obtain rfl : c = source := by simpa [udpSourceAllowed, known] using refused
    exact ⟨one.emit known rfl, fun _ => known⟩

theorem forward {Regex : Type} (env : Patterns Regex) (routes : RuleSet Regex)
    (one : s.OneClient expectedIp) (client : s.client = some source) (controlPeer : SocketAddr)
    (request : UdpRequest) (found : List SocketAddr) (resolved : Option IpAddr) :
    (s.forward env routes controlPeer source request found resolved).OneClient expectedIp := by
  simp only [Association.forward]
  split
  · exact one
  · split
    · split_ifs
      · exact one
      · exact one.emit client rfl
    · exact one
  · split
    · exact one.emit client rfl
    · exact one

end Association.OneClient

section
variable {Regex : Type} (env : Patterns Regex) (routes : RuleSet Regex)
  (controlPeer : SocketAddr) (requested : Target)

theorem handleUdpAssociate_kept {s s' : Association} (e : AssociateEvent)
    (one : s.OneClient (expectedUdpSource controlPeer requested))
    (next : handleUdpAssociate env routes controlPeer requested s e = some s') :
    s'.OneClient (expectedUdpSource controlPeer requested) := by
  have fixed := normalizeIp_expectedUdpSource controlPeer requested
  cases e with
  | datagram source bytes found resolved =>
    obtain ⟨received, client⟩ := one.receive fixed source bytes
    simp only [handleUdpAssociate] at next
    split at next
    next a request eq =>
      cases next
      rw [eq] at received client
      exact received.forward env routes (client rfl) controlPeer request found resolved
    next a eq =>
      cases next
      rw [eq] at received
      exact received
  | fromStack src data =>
    cases next
    exact one.reply src data
  | fromDirect src data =>
    cases next
    exact one.reply src data
  | ignored =>
    cases next
    exact one
  | ends => cases next

theorem ConnectorAssociation.ask_kept {s : ConnectorAssociation} {expectedIp : IpAddr}
    {source : SocketAddr} (one : s.OneClient expectedIp) (client : s.client = some source)
    (request : UdpRequest) : (ask source request s).OneClient expectedIp := by
  rw [ask]
  split
  · exact one
  split
  · exact one
  split
  · exact one.emit client rfl
  · exact one

theorem ConnectorAssociation.step_kept {s s' : ConnectorAssociation} (e : ConnectorEvent)
    (one : s.OneClient (expectedUdpSource controlPeer requested))
    (next : step controlPeer requested s e = some s') :
    s'.OneClient (expectedUdpSource controlPeer requested) := by
  have fixed := normalizeIp_expectedUdpSource controlPeer requested
  cases e with
  | datagram source bytes =>
    obtain ⟨received, client⟩ := one.receive fixed source bytes
    simp only [step] at next
    split at next
    next a request eq =>
      cases next
      rw [eq] at received client
      exact ask_kept received (client rfl) request
    next a eq =>
      cases next
      rw [eq] at received
      exact received
  | exchanged task answer =>
    simp only [step] at next
    split at next
    · cases next
      exact one
    · cases next
      exact one
    · split_ifs at next
      · cases next
        exact one
      · cases next
        exact one
  | answer =>
    simp only [step] at next
    split at next
    · cases next
      exact one
    · cases next
      exact one.reply _ _
  | ignored =>
    cases next
    exact one
  | ends => cases next

/-- Whatever arrives in whatever order, either relay serves one client, which has the
    expected address. -/
theorem udp_association_serves_one :
    (∀ events, Always (handleUdpAssociate env routes controlPeer requested)
      (·.OneClient (expectedUdpSource controlPeer requested)) {} events) ∧
      ∀ events, Always (ConnectorAssociation.step controlPeer requested)
        (·.OneClient (expectedUdpSource controlPeer requested)) {} events := by
  have first : Association.OneClient (expectedUdpSource controlPeer requested) {} :=
    ⟨fun _ => rfl, fun some => by cases some⟩
  constructor
  · intro events
    refine always_of_kept (C := fun _ _ => True) ?_ first (.of_forall fun _ _ => trivial)
    exact fun s e s' one _ next => handleUdpAssociate_kept env routes controlPeer requested e one next
  · intro events
    refine always_of_kept (C := fun _ _ => True) (I := fun s : ConnectorAssociation => s.OneClient _) ?_ first
      (.of_forall fun _ _ => trivial)
    exact fun s e s' one _ next => ConnectorAssociation.step_kept controlPeer requested e one next

end

end Gozarbin.Socks
