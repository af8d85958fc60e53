import Mathlib.Data.Finmap
import Gozarbin.Lib.Runs
import Gozarbin.Socks.Route

/-! # Requests through the gateway proxy

A request on a web port goes through the organization's gateway: a connection to it, a CONNECT,
and its answer. Whatever goes wrong with that is one error to the caller, which turns the
gateway off for the whole process and opens the target around it. A run is an interleaving of
the steps of many clients.
-/

namespace Gozarbin.Socks

open Runs

def gatewayHeadLimit : Nat := 8192

def shouldUseGateway (port : UInt16) : Bool := port = 80 || port = 443

def findHeadEnd : Bytes → Option Nat
  | [] => none
  | b :: rest =>
    if (Text.ascii "\r\n\r\n").isPrefixOf (b :: rest) then some 4
    else (findHeadEnd rest).map (· + 1)

def proxyConnectSucceeded (head : Bytes) : Option Bool := do
  let line ← Text.before? "\r\n".toList (Text.fromUtf8Lossy head)
  let word ← (Text.splitWhitespace line)[1]?
  let status ← Text.parseUnsigned 65536 word
  return 200 ≤ status && status < 300

/-- Why a request did not get through the gateway. -/
inductive GatewayError where
  | notAccepted
  | notSent
  | noAnswer
  | closed
  | malformed
  | refused
  | oversized
  deriving DecidableEq

def GatewayError.unavailable : GatewayError → Bool
  | .notAccepted | .notSent | .noAnswer | .closed => true
  | .malformed | .refused | .oversized => false

def answerOf (head : Bytes) : Option (Except GatewayError Bytes) :=
  match findHeadEnd head with
  | some end_ =>
    match proxyConnectSucceeded head with
    | none => some (.error .malformed)
    | some false => some (.error .refused)
    | some true => some (.ok (head.drop end_))
  | none => if head.length > gatewayHeadLimit then some (.error .oversized) else none

/-- Where a request stands. -/
inductive Stage where
  | openingGateway (target : Target) (port : UInt16)
  | sendingConnect (target : Target) (port : UInt16)
  | readingHead (target : Target) (port : UInt16) (head : Bytes)
  | resolving (target : Target) (port : UInt16)
  | openingTarget (dst : SocketAddr)
  | tunneled (leftover : Bytes)
  | failed
  deriving DecidableEq

/-- What a request does that can be seen from outside. -/
inductive GatewayEffect where
  | openGateway (client : Nat) (proxy : SocketAddr)
  | openTarget (client : Nat) (dst : SocketAddr)
  | gaveUp (client : Nat) (why : GatewayError)
  | turnedOff (client : Nat) (why : GatewayError)
  deriving DecidableEq

/-- The process-wide gateway with the requests under way. -/
structure Gate where
  proxy : Option SocketAddr
  healthy : Bool
  clients : Finmap fun _ : Nat => Stage
  log : List GatewayEffect

def Gate.initial (proxy : Option SocketAddr) : Gate := ⟨proxy, true, ∅, []⟩

def Gate.gatewayProxy (g : Gate) : Option SocketAddr := if g.healthy then g.proxy else none

inductive GateEvent where
  | arrive (client : Nat) (target : Target) (port : UInt16)
  | gatewayOpened (client : Nat) (ok : Bool)
  | connectSent (client : Nat) (ok : Bool)
  | chunk (client : Nat) (bytes : Bytes)
  | silence (client : Nat)
  | closed (client : Nat)
  | resolved (client : Nat) (answer : Except Unit IpAddr)
  | targetOpened (client : Nat) (ok : Bool)

namespace Gate

def put (g : Gate) (client : Nat) (stage : Stage) : Gate :=
  { g with clients := g.clients.insert client stage }

def giveUp (g : Gate) (client : Nat) (target : Target) (port : UInt16) (why : GatewayError) : Gate :=
  { g with
    healthy := false
    clients := g.clients.insert client (.resolving target port)
    log := g.log ++ .gaveUp client why :: if g.healthy then [.turnedOff client why] else [] }

def step (g : Gate) : GateEvent → Gate
  | .arrive client target port =>
    match g.clients.lookup client, g.gatewayProxy.filter fun _ => shouldUseGateway port with
    | some _, _ => g
    | none, some proxy =>
      { g.put client (.openingGateway target port) with
        log := g.log ++ [.openGateway client proxy] }
    | none, none => g.put client (.resolving target port)
  | .gatewayOpened client ok =>
    match g.clients.lookup client with
    | some (.openingGateway target port) =>
      if ok then g.put client (.sendingConnect target port)
      else g.giveUp client target port .notAccepted
    | _ => g
  | .connectSent client ok =>
    match g.clients.lookup client with
    | some (.sendingConnect target port) =>
      if ok then g.put client (.readingHead target port [])
      else g.giveUp client target port .notSent
    | _ => g
  | .chunk client bytes =>
    match g.clients.lookup client with
    | some (.readingHead target port head) =>
      match answerOf (head ++ bytes) with
      | none => g.put client (.readingHead target port (head ++ bytes))
      | some (.ok leftover) => g.put client (.tunneled leftover)
      | some (.error why) => g.giveUp client target port why
    | _ => g
  | .silence client =>
    match g.clients.lookup client with
    | some (.readingHead target port _) => g.giveUp client target port .noAnswer
    | _ => g
  | .closed client =>
    match g.clients.lookup client with
    | some (.readingHead target port _) => g.giveUp client target port .closed
    | _ => g
  | .resolved client answer =>
    match g.clients.lookup client with
    | some (.resolving target port) =>
      match resolve (fun _ => answer) target with
      | .ok ip =>
        { g.put client (.openingTarget ⟨ip, port⟩) with
          log := g.log ++ [.openTarget client ⟨ip, port⟩] }
      | .error () => g.put client .failed
    | _ => g
  | .targetOpened client ok =>
    match g.clients.lookup client with
    | some (.openingTarget _) => g.put client (if ok then .tunneled [] else .failed)
    | _ => g

end Gate

/-- A refused client's target is not opened around the gateway, no refusal turns it off, and
    only an unreachable or silent gateway is given up on. -/
def VerdictFinal (g : Gate) : Prop :=
  (∀ client, .gaveUp client .refused ∈ g.log → ∀ dst, .openTarget client dst ∉ g.log) ∧
    (∀ client, .turnedOff client .refused ∉ g.log) ∧
    ∀ client why, .gaveUp client why ∈ g.log → why.unavailable = true

/-- The gateway's answer, if there is one, has a head that ends within the limit and a status in
    200..300. -/
def Welcoming (g : Gate) : GateEvent → Prop
  | .chunk client bytes =>
    ∀ target port head, g.clients.lookup client = some (.readingHead target port head) →
      ∀ why, answerOf (head ++ bytes) ≠ some (.error why)
  | _ => True

theorem answerOf_error {head : Bytes} {why : GatewayError}
    (answer : answerOf head = some (.error why)) : why.unavailable = false := by
  unfold answerOf at answer
  split at answer
  · split at answer <;> cases answer <;> rfl
  · split at answer
    · cases answer
      rfl
    · cases answer

def Refuses (g : Gate) (e : GateEvent) (client : Nat) (why : GatewayError) : Prop :=
  ∃ target port head bytes, e = .chunk client bytes ∧
    g.clients.lookup client = some (.readingHead target port head) ∧
    answerOf (head ++ bytes) = some (.error why)

inductive Adds (g : Gate) (e : GateEvent) : List GatewayEffect → Prop where
  | nothing : Adds g e []
  | openGateway (client : Nat) (proxy : SocketAddr) : Adds g e [.openGateway client proxy]
  | openTarget (client : Nat) (dst : SocketAddr) : Adds g e [.openTarget client dst]
  | gaveUp (client : Nat) (why : GatewayError)
      (reason : why.unavailable = true ∨ Refuses g e client why) :
      Adds g e (.gaveUp client why :: if g.healthy then [.turnedOff client why] else [])

theorem Gate.step_log (g : Gate) (e : GateEvent) :
    ∃ added, (g.step e).log = g.log ++ added ∧ Adds g e added := by
  have same : ∃ added, g.log = g.log ++ added ∧ Adds g e added := ⟨[], by simp, .nothing⟩
  have gaveUp : ∀ client target port why, why.unavailable = true ∨ Refuses g e client why →
      ∃ added, (g.giveUp client target port why).log = g.log ++ added ∧ Adds g e added :=
    fun client target port why reason => ⟨_, rfl, .gaveUp client why reason⟩
  cases e with
  | arrive client target port =>
    simp only [step]
    split
    · exact same
    · exact ⟨_, rfl, .openGateway _ _⟩
    · exact same
  | gatewayOpened client ok =>
    simp only [step]
    split
    · split
      · exact same
      · exact gaveUp _ _ _ _ (.inl rfl)
    · exact same
  | connectSent client ok =>
    simp only [step]
    split
    · split
      · exact same
      · exact gaveUp _ _ _ _ (.inl rfl)
    · exact same
  | chunk client bytes =>
    simp only [step]
    split
    next target port head reading =>
      split
      · exact same
      · exact same
      next why answer => exact gaveUp _ _ _ _ (.inr ⟨_, _, _, _, rfl, reading, answer⟩)
    · exact same
  | silence client | closed client =>
    simp only [step]
    split
    · exact gaveUp _ _ _ _ (.inl rfl)
    · exact same
  | resolved client answer =>
    simp only [step]
    split
    · split
      · exact ⟨_, rfl, .openTarget _ _⟩
      · exact same
    · exact same
  | targetOpened client ok =>
    simp only [step]
    split
    · exact same
    · exact same

theorem Gate.gaveUp_of_refuses {g : Gate} {e : GateEvent} {client : Nat} {why : GatewayError}
    (refuses : Refuses g e client why) : .gaveUp client why ∈ (g.step e).log := by
  obtain ⟨target, port, head, bytes, rfl, reading, answer⟩ := refuses
  simp [step, reading, answer, giveUp]

/-- Only a client that gave up turned the gateway off. -/
def OffGaveUp (g : Gate) : Prop :=
  ∀ client why, .turnedOff client why ∈ g.log → .gaveUp client why ∈ g.log

theorem OffGaveUp.step {g : Gate} (off : OffGaveUp g) (e : GateEvent) : OffGaveUp (g.step e) := by
  obtain ⟨added, log, adds⟩ := g.step_log e
  intro client why member
  rw [log, List.mem_append] at member ⊢
  rcases member with old | new
  · exact .inl (off client why old)
  · cases adds with
    | nothing => cases new
    | openGateway client proxy => simp at new
    | openTarget client dst => simp at new
    | gaveUp client why reason =>
      split at new <;> simp_all

theorem verdictFinal_iff {g : Gate} (off : OffGaveUp g) :
    VerdictFinal g ↔ ∀ client why, .gaveUp client why ∈ g.log → why.unavailable = true := by
  refine ⟨fun final => final.2.2, fun all => ⟨fun client member => ?_, fun client member => ?_, all⟩⟩
  · cases all client _ member
  · cases all client _ (off client _ member)

theorem verdictFinal_step_iff {g : Gate} (off : OffGaveUp g) (final : VerdictFinal g)
    (e : GateEvent) : VerdictFinal (g.step e) ↔ Welcoming g e := by
  rw [verdictFinal_iff off] at final
  rw [verdictFinal_iff (off.step e)]
  have welcoming : Welcoming g e ↔ ∀ client why, ¬ Refuses g e client why := by
    constructor
    · rintro welcome client why ⟨target, port, head, bytes, rfl, reading, answer⟩
      exact welcome target port head reading why answer
    · intro none
      cases e with
      | chunk client bytes =>
        intro target port head reading why answer
        exact none client why ⟨target, port, head, bytes, rfl, reading, answer⟩
      | _ => trivial
  rw [welcoming]
  constructor
  · intro all client why refuses
    have unavailable := all client why (Gate.gaveUp_of_refuses refuses)
    obtain ⟨_, _, _, _, -, -, answer⟩ := refuses
    rw [answerOf_error answer] at unavailable
    cases unavailable
  · intro none client why member
    obtain ⟨added, log, adds⟩ := g.step_log e
    rw [log, List.mem_append] at member
    rcases member with old | new
    · exact final client why old
    · cases adds with
      | nothing => cases new
      | openGateway client proxy => simp at new
      | openTarget client dst => simp at new
      | gaveUp client' why' reason =>
        have same : why = why' ∧ client = client' := by
          split at new <;> simp_all
        obtain ⟨rfl, rfl⟩ := same
        exact reason.resolve_right (none client why)

/-- The verdicts of the gateway are final in every state of a run precisely if there are none
    but successes. -/
theorem verdict_final_iff_welcoming (proxy : Option SocketAddr) (events : List GateEvent) :
    Always (fun g e => some (Gate.step g e)) VerdictFinal (Gate.initial proxy) events ↔
      Each (fun g e => some (Gate.step g e)) Welcoming (Gate.initial proxy) events := by
  refine always_iff_each (I := OffGaveUp) ?kept ?proceeds ?exact_step
    (by simp [OffGaveUp, Gate.initial]) (by simp [VerdictFinal, Gate.initial])
    (.of_forall (P := fun _ _ => True) fun _ _ => trivial)
  case kept =>
    intro g e g' off _ next
    cases next
    exact off.step e
  case proceeds => exact fun g e _ _ => ⟨_, rfl⟩
  case exact_step =>
    intro g e g' off _ next final
    cases next
    exact verdictFinal_step_iff off final e

def refusedRun : List GateEvent :=
  [.arrive 1 (.domain "blocked.example".toList) 443,
    .gatewayOpened 1 true,
    .connectSent 1 true,
    .chunk 1 (Text.ascii "HTTP/1.1 403 Forbidden\r\n\r\n"),
    .resolved 1 (.ok (.v4 ⟨0x5db8d822#32⟩))]

theorem refusedRun_bypasses :
    (run (fun g e => some (Gate.step g e)) (Gate.initial (some ⟨.v4 ⟨0x0a000001#32⟩, 3128⟩))
        refusedRun).map (fun g => (g.healthy, g.log)) =
      some (false, [.openGateway 1 ⟨.v4 ⟨0x0a000001#32⟩, 3128⟩, .gaveUp 1 .refused,
        .turnedOff 1 .refused, .openTarget 1 ⟨.v4 ⟨0x5db8d822#32⟩, 443⟩]) ∧
      ¬ Always (fun g e => some (Gate.step g e)) VerdictFinal
        (Gate.initial (some ⟨.v4 ⟨0x0a000001#32⟩, 3128⟩)) refusedRun := by
  refine and_iff_left_of_imp (fun ends always => ?_) |>.mpr (by decide +kernel)
  obtain ⟨g, reached, shape⟩ := Option.map_eq_some_iff.mp ends
  have log : g.log = _ := congrArg Prod.snd shape
  have final := always.last reached
  exact final.1 1 (by rw [log]; decide) ⟨.v4 ⟨0x5db8d822#32⟩, 443⟩ (by rw [log]; decide)

end Gozarbin.Socks
