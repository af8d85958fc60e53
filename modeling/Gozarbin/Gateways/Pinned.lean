import Gozarbin.Lib.Fallible
import Gozarbin.Net.AddrDisplay

/-! # Endpoints given by hand

For two nested tunnels the endpoints may be set by hand: one for the outer hop and one for the
inner hop, or a list for both; for classic gool the setting of a single endpoint serves as well.
However they are given, the two are on different addresses.
-/

namespace Gozarbin.Gateways

open Text AddrText Fallible

def wgExamplePort : UInt16 := 2408

structure WiwEndpoints where
  outer : Option SocketAddress := none
  inner : Option SocketAddress := none

/-- The two hops are on different addresses. -/
def Apart (outer inner : Option SocketAddress) : Prop := ∀ o ∈ outer, ∀ i ∈ inner, o.ip ≠ i.ip

section
variable (display : AddrDisplay)

def WiwEndpoints.checked (chosen : WiwEndpoints) : Except Text WiwEndpoints :=
  match chosen.outer, chosen.inner with
  | some outer, some inner =>
    if outer.ip = inner.ip then
      .error ("the two hops need separate edges, but both point at ".toList ++ display.ip outer.ip)
    else .ok chosen
  | _, _ => .ok chosen

def parseEndpoint (raw : Text) : Except Text SocketAddress :=
  let text := trim raw
  match parseSocketAddr text with
  | some peer => .ok peer
  | none =>
    let bracketed := do
      parseIpAddr (← stripEnd [']'] (← strip ['['] text))
    match (parseIpAddr text).or bracketed with
    | some address =>
      .error (text ++ " carries no port, and the port is required; write it out, as in ".toList ++
        display.socket (.new address wgExamplePort))
    | none =>
      .error ("'".toList ++ text ++
        "' is not an endpoint; write an address and a port together, such as 162.159.192.1:2408".toList)

def parseEndpointList (raw : Text) : Except Text (List SocketAddress) := do
  let parts := raw.splitOnP fun c => c = ',' ∨ c = ';' ∨ c = ' '
  let peers ← (parts.filter fun part => !(trim part).isEmpty).mapM (parseEndpoint display)
  match peers.length with
  | 0 => .error "no endpoint was given; expected one or two addresses".toList
  | 1 | 2 => return peers
  | found =>
    .error ("warp-in-warp has two hops, but ".toList ++ decimal found ++ " addresses were given".toList)

def scanKeyword (ucd : Ucd) (value : Text) : Bool :=
  (["auto", "scan", "none", "off", "0"].map String.toList).elem (toLowercase ucd value)

variable (ucd : Ucd) (lookup : Text → Option Text)

def listedEndpoints (listKey : Text) : Except Text WiwEndpoints :=
  match lookup listKey with
  | none => .ok {}
  | some list =>
    if scanKeyword ucd list then .ok {}
    else (parseEndpointList display list).map fun peers => { outer := peers[0]?, inner := peers[1]? }

def endpointOr (key : Text) (listed : Option SocketAddress) : Except Text (Option SocketAddress) :=
  match lookup key with
  | none => .ok listed
  | some value => (parseEndpoint display value).map some

def nestedEndpointsOf (listKey outerKey innerKey : Text) : Except Text WiwEndpoints := do
  let listed ← listedEndpoints display ucd lookup listKey
  let outer ← endpointOr display lookup outerKey listed.outer
  let inner ← endpointOr display lookup innerKey listed.inner
  WiwEndpoints.checked display { outer, inner }

def wiwEndpointsOf : Except Text WiwEndpoints :=
  nestedEndpointsOf display ucd lookup "AETHER_WIW_PEERS".toList "AETHER_WIW_OUTER_PEER".toList
    "AETHER_WIW_INNER_PEER".toList

def wiwEndpointsWithFallback : Except Text WiwEndpoints := do
  let chosen ← wiwEndpointsOf display ucd lookup
  if chosen.outer.isSome then return chosen
  else
    match (lookup "AETHER_WG_PEER".toList).or (lookup "AETHER_PEER".toList) with
    | none => return chosen
    | some forced =>
      let peers ← parseEndpointList display forced
      WiwEndpoints.checked display { outer := peers[0]?, inner := chosen.inner.or peers[1]? }

end

section
variable {display : AddrDisplay} {ucd : Ucd} {lookup : Text → Option Text} {chosen : WiwEndpoints}

theorem checked_apart {given : WiwEndpoints} (accepted : given.checked display = .ok chosen) :
    Apart chosen.outer chosen.inner := by
  rw [WiwEndpoints.checked] at accepted
  split at accepted
  next outer inner isOuter isInner =>
    split at accepted
    · cases accepted
    next separate =>
      cases accepted
      intro o here i there
      rw [isOuter] at here
      rw [isInner] at there
      cases here
      cases there
      exact separate
  next missing =>
    cases accepted
    intro o here i there
    exact absurd there (missing o i here)

theorem nestedEndpointsOf_apart {listKey outerKey innerKey : Text}
    (accepted : nestedEndpointsOf display ucd lookup listKey outerKey innerKey = .ok chosen) :
    Apart chosen.outer chosen.inner := by
  obtain ⟨listed, -, accepted⟩ := bind_eq_ok.mp accepted
  obtain ⟨outer, -, accepted⟩ := bind_eq_ok.mp accepted
  obtain ⟨inner, -, accepted⟩ := bind_eq_ok.mp accepted
  exact checked_apart accepted

theorem wiwEndpointsWithFallback_apart (accepted : wiwEndpointsWithFallback display ucd lookup = .ok chosen) :
    Apart chosen.outer chosen.inner := by
  obtain ⟨first, checked, accepted⟩ := bind_eq_ok.mp accepted
  split at accepted
  · cases accepted
    exact nestedEndpointsOf_apart checked
  · split at accepted
    · cases accepted
      exact nestedEndpointsOf_apart checked
    · obtain ⟨peers, -, accepted⟩ := bind_eq_ok.mp accepted
      exact checked_apart accepted

end

end Gozarbin.Gateways
