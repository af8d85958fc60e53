import Gozarbin.Net.AddrText
import Gozarbin.Routing

/-! # The route of a request

A SOCKS client names its target by address or by name. A TCP connection to an
address may announce a name of its own, which is then asked first. Both theorems
below say exactly for which rules the route is the one the rules call for.
-/

namespace Gozarbin.Socks

open Routing AddrText

inductive Target where
  | ip (ip : IpAddr)
  | domain (name : Text)
  deriving DecidableEq

def hostOf : Target → Host
  | .domain name => .domain name
  | .ip ip => .ip ip

variable {Regex : Type} (env : Patterns Regex) (set : RuleSet Regex)

def decideRoute (target : Target) (sniffed : Option Text) (port : UInt16) : Action :=
  match sniffed with
  | some name =>
    match set.decide env (.domain name) port with
    | .proxy => set.decide env (hostOf target) port
    | decided => decided
  | none => set.decide env (hostOf target) port

def udpRoute (target : Target) (port : UInt16) : Action := set.decide env (hostOf target) port

def resolve {ε : Type} (dnsResolve : Text → Except ε IpAddr) : Target → Except ε IpAddr
  | .ip ip => .ok ip
  | .domain name =>
    match parseIpAddr name with
    | some ip => .ok ip
    | none => dnsResolve name

/-- A block rule blocks whether it matches the address or the announced name. -/
def BlockWins (ip : IpAddr) (name : Text) (port : UInt16) : Prop :=
  set.decide env (.ip ip) port = .block ∨ set.decide env (.domain name) port = .block →
    decideRoute env set (.ip ip) (some name) port = .block

theorem decideRoute_sniffed_eq_block (ip : IpAddr) (name : Text) (port : UInt16) :
    decideRoute env set (.ip ip) (some name) port = .block ↔
      set.blocks env (.domain name) port = true ∨
        set.directs env (.domain name) port = false ∧ set.blocks env (.ip ip) port = true := by
  cases decided : set.decide env (.domain name) port with
  | proxy =>
    obtain ⟨unblocked, undirected⟩ := (set.decide_eq_proxy env _ port).mp decided
    simp [decideRoute, decided, hostOf, RuleSet.decide_eq_block, unblocked, undirected]
  | direct =>
    obtain ⟨unblocked, directed⟩ := (set.decide_eq_direct env _ port).mp decided
    simp [decideRoute, decided, unblocked, directed]
  | block =>
    have blocked := (set.decide_eq_block env _ port).mp decided
    simp [decideRoute, decided, blocked]

/-- It holds for the names that a block rule matches or no direct rule does, and for the
    addresses that no block rule matches. -/
theorem blockWins_iff (ip : IpAddr) (name : Text) (port : UInt16) :
    BlockWins env set ip name port ↔
      set.blocks env (.domain name) port = true ∨ set.directs env (.domain name) port = false ∨
        set.blocks env (.ip ip) port = false := by
  unfold BlockWins
  rw [decideRoute_sniffed_eq_block, set.decide_eq_block, set.decide_eq_block]
  cases set.blocks env (.domain name) port <;> cases set.directs env (.domain name) port <;>
    cases set.blocks env (.ip ip) port <;> decide

def plain : Patterns Empty := ⟨.ascii, fun pattern _ => nomatch pattern⟩

def blockedNet : RuleSet Empty where
  block := [.net (.v4 ⟨⟨0x0a000000#32⟩, 8, by decide⟩)]
  direct := [.domainSuffix "ok.example".toList]

theorem blockedNet_talked_around :
    ¬ BlockWins plain blockedNet (.v4 ⟨0x0a010203#32⟩) "www.ok.example".toList 443 := by
  unfold BlockWins
  decide

theorem toLower_eq_l {c : Char} (lower : c.toLower = 'l') : c = 'l' ∨ c = 'L' := by
  unfold Char.toLower at lower
  split at lower
  next =>
    have shifted : c.val + 32 = 108 := congrArg Char.val lower
    have value : c.val = 108 - 32 := by rw [← shifted, UInt32.add_sub_cancel]
    exact .inr (Char.ext value)
  next => exact .inl lower

theorem not_localhost_of_parse {name : Text} {ip : IpAddr} (literal : parseIpAddr name = some ip) :
    name.eqIgnoreAsciiCase "localhost".toList = false := by
  rw [← Bool.not_eq_true]
  intro localhost
  have folded : name.map Char.toLower = "localhost".toList := beq_iff_eq.mp localhost
  cases name with
  | nil => cases folded
  | cons c rest =>
    have first : c.toLower = 'l' := (List.cons.inj folded).1
    have refused : parseIpAddr (c :: rest) = none := by
      rcases toLower_eq_l first with rfl | rfl
      · exact parseIpAddr_of_head (by decide) (by decide)
      · exact parseIpAddr_of_head (by decide) (by decide)
    rw [refused] at literal
    cases literal

/-- A destination spelled as a name is routed as the address it is dialled as. -/
def SpellingIrrelevant (name : Text) (ip : IpAddr) (port : UInt16) : Prop :=
  decideRoute env set (.domain name) none port = decideRoute env set (.ip ip) none port ∧
    udpRoute env set (.domain name) port = udpRoute env set (.ip ip) port

/-- It holds when a block rule on ports matches, and otherwise when rules on names match the
    spelling exactly if those on addresses match the address. -/
theorem spellingIrrelevant_iff {name : Text} {ip : IpAddr} (literal : parseIpAddr name = some ip)
    (port : UInt16) :
    (∀ (ε : Type) (dnsResolve : Text → Except ε IpAddr),
        resolve dnsResolve (.domain name) = .ok ip) ∧
      (SpellingIrrelevant env set name ip port ↔
        hits env set.block .port (.ip ip) port = true ∨
          hits env set.block .name (.domain name) port = hits env set.block .address (.ip ip) port ∧
            (hits env set.block .name (.domain name) port = true ∨
              hits env set.direct .port (.ip ip) port = true ∨
                hits env set.direct .name (.domain name) port =
                  hits env set.direct .address (.ip ip) port)) := by
  refine ⟨fun ε dnsResolve => by simp [resolve, literal], ?_⟩
  have other := not_localhost_of_parse literal
  have same : SpellingIrrelevant env set name ip port ↔
      set.decide env (.domain name) port = set.decide env (.ip ip) port := and_self_iff
  rw [same, set.decide_eq_decide]
  simp only [RuleSet.blocks, RuleSet.directs, any_matches_ip, any_matches_domain env _ port other,
    hits_port env _ port (.domain name) (.ip ip)]
  cases hits env set.block .port (.ip ip) port <;>
    cases hits env set.block .name (.domain name) port <;>
    cases hits env set.block .address (.ip ip) port <;>
    cases hits env set.direct .port (.ip ip) port <;>
    cases hits env set.direct .name (.domain name) port <;>
    cases hits env set.direct .address (.ip ip) port <;> decide

def blockedPort : RuleSet Empty where
  block := [.ports 53 53]
  direct := []

theorem blockedPort_spelling :
    SpellingIrrelevant plain blockedPort "10.0.0.1".toList (.v4 ⟨0x0a000001#32⟩) 53 :=
  have literal : parseIpAddr "10.0.0.1".toList = some (.v4 ⟨0x0a000001#32⟩) := by decide
  (spellingIrrelevant_iff plain blockedPort literal 53).2.mpr (by decide)

theorem blockedNet_spelled :
    parseIpAddr "10.1.2.3".toList = some (.v4 ⟨0x0a010203#32⟩) ∧
      ¬ SpellingIrrelevant plain blockedNet "10.1.2.3".toList (.v4 ⟨0x0a010203#32⟩) 443 := by
  unfold SpellingIrrelevant
  decide

end Gozarbin.Socks
