import Gozarbin.Lib.Text
import Gozarbin.Net.Addr

/-! # Routing rules

A rule set decides where a destination goes from a list of block rules and a list
of direct rules. A destination is a name or an address, and each kind of rule reads
one of the two, or the port. Regular expressions and the Unicode tables are a
parameter (`Patterns`).
-/

namespace Gozarbin.Routing

inductive Action where
  | proxy
  | direct
  | block
  deriving DecidableEq, Repr

inductive Host where
  | domain (name : Text)
  | ip (ip : IpAddr)
  deriving DecidableEq

/-- A network of IPv4: an address in it and the length of its prefix. -/
structure Ipv4Net where
  addr : Ipv4Addr
  prefixLen : Nat
  prefix_le : prefixLen ≤ 32
  deriving DecidableEq

structure Ipv6Net where
  addr : Ipv6Addr
  prefixLen : Nat
  prefix_le : prefixLen ≤ 128
  deriving DecidableEq

inductive IpNet where
  | v4 (net : Ipv4Net)
  | v6 (net : Ipv6Net)
  deriving DecidableEq

def networkOf {w : Nat} (addr : BitVec w) (prefixLen : Nat) : BitVec w :=
  addr &&& (BitVec.allOnes w <<< (w - prefixLen))

def broadcastOf {w : Nat} (addr : BitVec w) (prefixLen : Nat) : BitVec w :=
  addr ||| (BitVec.allOnes w >>> prefixLen)

def IpNet.contains : IpNet → IpAddr → Bool
  | .v4 net, .v4 ip =>
    networkOf net.addr.bits net.prefixLen ≤ ip.bits &&
      ip.bits ≤ broadcastOf net.addr.bits net.prefixLen
  | .v6 net, .v6 ip =>
    networkOf net.addr.bits net.prefixLen ≤ ip.bits &&
      ip.bits ≤ broadcastOf net.addr.bits net.prefixLen
  | .v4 _, .v6 _ | .v6 _, .v4 _ => false

/-- The text engine: Unicode tables, and regular expressions with their matching. -/
structure Patterns (Regex : Type) where
  ucd : Text.Ucd
  isMatch : Regex → Text → Bool

inductive Matcher (Regex : Type) where
  | domainSuffix (suffix : Text)
  | domainFull (full : Text)
  | domainKeyword (needle : Text)
  | domainRegex (pattern : Regex)
  | net (network : IpNet)
  | ports (lo hi : UInt16)
  | private_
  deriving DecidableEq

variable {Regex : Type}

def Matcher.matches (env : Patterns Regex) (host : Host) (port : UInt16) : Matcher Regex → Bool
  | .ports lo hi => port ≥ lo && port ≤ hi
  | .private_ =>
    match host with
    | .ip ip => isPrivate ip
    | .domain name => name.eqIgnoreAsciiCase "localhost".toList
  | .net network =>
    match host with
    | .ip ip => network.contains ip
    | .domain _ => false
  | .domainSuffix suffix =>
    match host with
    | .domain name =>
      let name := name.toLowercase env.ucd
      name == suffix || name.endsWith ('.' :: suffix)
    | .ip _ => false
  | .domainFull full =>
    match host with
    | .domain name => name.eqIgnoreAsciiCase full
    | .ip _ => false
  | .domainKeyword needle =>
    match host with
    | .domain name => (name.toLowercase env.ucd).contains needle
    | .ip _ => false
  | .domainRegex pattern =>
    match host with
    | .domain name => env.isMatch pattern name
    | .ip _ => false

structure RuleSet (Regex : Type) where
  block : List (Matcher Regex)
  direct : List (Matcher Regex)

namespace RuleSet
variable (env : Patterns Regex) (set : RuleSet Regex) (host : Host) (port : UInt16)

def blocks : Bool := set.block.any fun rule => rule.matches env host port

def directs : Bool := set.direct.any fun rule => rule.matches env host port

def decide : Action :=
  if set.blocks env host port then .block
  else if set.directs env host port then .direct
  else .proxy

theorem decide_eq_block : set.decide env host port = .block ↔ set.blocks env host port = true := by
  unfold decide
  split
  · simp_all
  · split <;> simp_all

theorem decide_eq_direct :
    set.decide env host port = .direct ↔
      set.blocks env host port = false ∧ set.directs env host port = true := by
  unfold decide
  split
  · simp_all
  · split <;> simp_all

theorem decide_eq_proxy :
    set.decide env host port = .proxy ↔
      set.blocks env host port = false ∧ set.directs env host port = false := by
  unfold decide
  split
  · simp_all
  · split <;> simp_all

theorem decide_eq_decide (other : Host) :
    set.decide env host port = set.decide env other port ↔
      set.blocks env host port = set.blocks env other port ∧
        (set.blocks env host port = true ∨
          set.directs env host port = set.directs env other port) := by
  unfold decide
  cases set.blocks env host port <;> cases set.blocks env other port <;>
    cases set.directs env host port <;> cases set.directs env other port <;> decide

end RuleSet

/-- The part of a destination a rule looks at. -/
inductive Reads where
  | name
  | address
  | port
  deriving DecidableEq

def Matcher.reads : Matcher Regex → Reads
  | .domainSuffix _ | .domainFull _ | .domainKeyword _ | .domainRegex _ => .name
  | .net _ | .private_ => .address
  | .ports _ _ => .port

def hits (env : Patterns Regex) (rules : List (Matcher Regex)) (part : Reads) (host : Host)
    (port : UInt16) : Bool :=
  rules.any fun rule => rule.reads = part && rule.matches env host port

variable (env : Patterns Regex) (rules : List (Matcher Regex)) (port : UInt16)

theorem hits_port (host other : Host) :
    hits env rules .port host port = hits env rules .port other port := by
  refine List.any_congr rfl fun rule => ?_
  cases rule <;> simp [Matcher.reads, Matcher.matches]

theorem any_matches {host : Host} {part : Reads}
    (split : ∀ rule : Matcher Regex, rule.matches env host port = true →
      rule.reads = .port ∨ rule.reads = part) :
    (rules.any fun rule => rule.matches env host port) =
      (hits env rules .port host port || hits env rules part host port) := by
  rw [Bool.eq_iff_iff]
  simp only [hits, Bool.or_eq_true, List.any_eq_true, Bool.and_eq_true, decide_eq_true_eq]
  constructor
  · rintro ⟨rule, member, found⟩
    rcases split rule found with reads | reads
    · exact .inl ⟨rule, member, reads, found⟩
    · exact .inr ⟨rule, member, reads, found⟩
  · rintro (⟨rule, member, -, found⟩ | ⟨rule, member, -, found⟩)
    · exact ⟨rule, member, found⟩
    · exact ⟨rule, member, found⟩

theorem any_matches_ip (ip : IpAddr) :
    (rules.any fun rule => rule.matches env (.ip ip) port) =
      (hits env rules .port (.ip ip) port || hits env rules .address (.ip ip) port) := by
  refine any_matches env rules port fun rule found => ?_
  cases rule <;> simp_all [Matcher.reads, Matcher.matches]

theorem any_matches_domain {name : Text}
    (other : name.eqIgnoreAsciiCase "localhost".toList = false) :
    (rules.any fun rule => rule.matches env (.domain name) port) =
      (hits env rules .port (.domain name) port || hits env rules .name (.domain name) port) := by
  refine any_matches env rules port fun rule found => ?_
  cases rule with
  | private_ =>
    rw [Matcher.matches, other] at found
    cases found
  | _ => simp_all [Matcher.reads, Matcher.matches]

end Gozarbin.Routing
