import Mathlib.Data.Finmap
import Gozarbin.Lib.Runs
import Gozarbin.Net.Addr

/-! # Detours through an upstream proxy

A UDP socket whose peer is to be reached through the upstream proxy is detoured: a map from the
socket's own address to a local shim tells its owner where to send instead, and a pump task
carries what arrives there to the proxy. The entry is removed by the guard of the detour or by
its pump. Each access to the map and each change of a task is a step. Nothing panics with the
lock held.
-/

namespace Gozarbin.Upstream

open Runs

structure Detour where
  id : Nat
  shim : SocketAddr
  peer : SocketAddr
  deriving DecidableEq

abbrev DetourMap := Finmap fun _ : SocketAddr => Detour

def relayTarget (map : DetourMap) (client intended : SocketAddr) : SocketAddr :=
  ((map.lookup client).map Detour.shim).getD intended

def realSource (map : DetourMap) (client observed : SocketAddr) : SocketAddr :=
  match map.lookup client with
  | some detour => if detour.shim = observed then detour.peer else observed
  | none => observed

def forgetDetour (map : DetourMap) (client : SocketAddr) (id : Nat) : DetourMap :=
  match map.lookup client with
  | some detour => if detour.id = id then map.erase client else map
  | none => map

def flushTarget (map : DetourMap) (sockets : List SocketAddr) (source intended : SocketAddr) :
    Option SocketAddr :=
  if source ∈ sockets then some (relayTarget map source intended)
  else sockets.head?.map fun other => relayTarget map other intended

inductive GuardPhase where
  | attaching
  | alive
  | dropping
  | gone
  deriving DecidableEq

inductive PumpPhase where
  | waiting
  | running
  | stopped
  | over
  deriving DecidableEq

/-- A call of `attach_detour_via` that got an id, with its guard and its pump. -/
structure Attachment where
  client : SocketAddr
  shim : SocketAddr
  peer : SocketAddr
  guard : GuardPhase
  pump : PumpPhase
  deriving DecidableEq

structure Detours where
  map : DetourMap
  nextId : Nat
  attachments : Finmap fun _ : Nat => Attachment

def Detours.initial : Detours := ⟨∅, 1, ∅⟩

inductive DetourEvent where
  | attach (client peer : SocketAddr) (shim : Option UInt16)
  | enter (id : Nat)
  | pumpStops (id : Nat)
  | pumpForgets (id : Nat)
  | guardDrops (id : Nat)
  | guardForgets (id : Nat)
  deriving DecidableEq

def loopbackFor (client : SocketAddr) : IpAddr :=
  if client.ip.isIpv4 then .v4 .localhost else .v6 .localhost

namespace Detours

def update (w : Detours) (id : Nat) (due : Attachment → Bool)
    (change : Attachment → DetourMap × Attachment) : Detours :=
  match w.attachments.lookup id with
  | some a =>
    if due a then
      { w with map := (change a).1, attachments := w.attachments.insert id (change a).2 }
    else w
  | none => w

def step (w : Detours) : DetourEvent → Detours
  | .attach client peer shim =>
    -- A private peer is reached without the proxy, and so is none if that fails.
    if isPrivate peer.ip then w
    else
      match shim with
      | none => w
      | some port =>
        { w with
          nextId := w.nextId + 1
          attachments := w.attachments.insert w.nextId
            ⟨client, ⟨loopbackFor client, port⟩, peer, .attaching, .waiting⟩ }
  | .enter id =>
    w.update id (fun a => a.guard = .attaching) fun a =>
      (w.map.insert a.client ⟨id, a.shim, a.peer⟩, { a with guard := .alive, pump := .running })
  | .pumpStops id =>
    w.update id (fun a => a.pump = .running) fun a => (w.map, { a with pump := .stopped })
  | .pumpForgets id =>
    w.update id (fun a => a.pump = .stopped) fun a =>
      (forgetDetour w.map a.client id, { a with pump := .over })
  | .guardDrops id =>
    -- A pump past its last await is not stopped any more.
    w.update id (fun a => a.guard = .alive) fun a =>
      (w.map, { a with guard := .dropping, pump := if a.pump = .running then .over else a.pump })
  | .guardForgets id =>
    w.update id (fun a => a.guard = .dropping) fun a =>
      (forgetDetour w.map a.client id, { a with guard := .gone })

/-- No other detour was attached for this client. -/
def Sole (w : Detours) (client : SocketAddr) (id : Nat) : Prop :=
  ∀ other a, w.attachments.lookup other = some a → a.client = client → a.guard ≠ .attaching →
    other = id

/-- While the guard of the only detour of a socket is alive, no packet for its peer is sent to
    the peer itself. -/
def NeverStraight (w : Detours) : Prop :=
  ∀ id a, w.attachments.lookup id = some a → a.guard = .alive → w.Sole a.client id →
    relayTarget w.map a.client a.peer ≠ a.peer

/-- No pump ends under such a guard. -/
def PumpHolds (w : Detours) : DetourEvent → Prop
  | .pumpForgets id =>
    ∀ a, w.attachments.lookup id = some a → a.pump = .stopped → a.guard = .alive →
      ¬ w.Sole a.client id
  | _ => True

end Detours

variable {client : SocketAddr}

theorem lookup_forgetDetour {map : DetourMap} {c : SocketAddr} {id : Nat} {d : Detour} :
    (forgetDetour map client id).lookup c = some d ↔
      map.lookup c = some d ∧ (c = client → d.id ≠ id) := by
  unfold forgetDetour
  split
  next entry found =>
    split
    next same =>
      by_cases here : c = client
      · subst here
        rw [Finmap.lookup_erase, found]
        simp only [reduceCtorEq, Option.some.injEq, true_implies, false_iff, not_and, not_not]
        rintro rfl
        exact same
      · rw [Finmap.lookup_erase_ne here]
        simp [here]
    next other =>
      refine (and_iff_left_of_imp ?_).symm
      rintro there rfl
      rw [found] at there
      cases there
      exact other
  next absent =>
    refine (and_iff_left_of_imp ?_).symm
    rintro there rfl
    rw [absent] at there
    cases there

namespace Detours

variable {w w' : Detours} {id : Nat} {a a' : Attachment}

structure Inv (w : Detours) : Prop where
  below : ∀ {id a}, w.attachments.lookup id = some a → id < w.nextId
  proper : ∀ {id a}, w.attachments.lookup id = some a →
    a.shim.ip.isLoopback = true ∧ isPrivate a.peer.ip = false
  mapped : ∀ {client d}, w.map.lookup client = some d →
    ∃ a, w.attachments.lookup d.id = some a ∧ a.client = client ∧ a.guard ≠ .attaching ∧
      d.shim = a.shim
  kept : ∀ {id a}, w.attachments.lookup id = some a → a.guard = .alive → a.pump ≠ .over →
    w.Sole a.client id → ∃ d, w.map.lookup a.client = some d ∧ d.id = id

theorem initial_inv : initial.Inv where
  below found := by simp [initial] at found
  proper found := by simp [initial] at found
  mapped found := by simp [initial] at found
  kept found := by simp [initial] at found

theorem Inv.relayTarget_ne_iff (inv : w.Inv) (found : w.attachments.lookup id = some a) :
    relayTarget w.map a.client a.peer ≠ a.peer ↔ (w.map.lookup a.client).isSome = true := by
  unfold relayTarget
  cases entry : w.map.lookup a.client with
  | none => simp
  | some d =>
    obtain ⟨b, attached, -, -, shim⟩ := inv.mapped entry
    have loopback := (inv.proper attached).1
    simp only [Option.map_some, Option.getD_some, Option.isSome_some, iff_true]
    intro same
    have public_ := (inv.proper found).2
    rw [← same, shim, isPrivate_of_isLoopback loopback] at public_
    cases public_

theorem Inv.neverStraight_iff (inv : w.Inv) :
    w.NeverStraight ↔ ∀ id a, w.attachments.lookup id = some a → a.guard = .alive →
      w.Sole a.client id → (w.map.lookup a.client).isSome = true :=
  forall_congr' fun _ => forall_congr' fun _ => forall_congr' fun found =>
    imp_congr_right fun _ => imp_congr_right fun _ => inv.relayTarget_ne_iff found

structure Changes (w w' : Detours) (id : Nat) (a a' : Attachment) : Prop where
  before : w.attachments.lookup id = some a
  after : w'.attachments = w.attachments.insert id a'
  nextId : w'.nextId = w.nextId
  client : a'.client = a.client
  shim : a'.shim = a.shim
  peer : a'.peer = a.peer
  attached : a.guard ≠ .attaching → a'.guard ≠ .attaching

namespace Changes

theorem lookup_self (changes : Changes w w' id a a') : w'.attachments.lookup id = some a' := by
  rw [changes.after, Finmap.lookup_insert]

theorem lookup_ne (changes : Changes w w' id a a') {other : Nat} (apart : other ≠ id) :
    w'.attachments.lookup other = w.attachments.lookup other := by
  rw [changes.after, Finmap.lookup_insert_of_ne _ apart]

theorem sole (changes : Changes w w' id a a') {i : Nat}
    (sole : w'.Sole client i) : w.Sole client i := by
  intro other b found same attached
  by_cases here : other = id
  · subst here
    rw [changes.before] at found
    cases found
    exact sole other a' changes.lookup_self (changes.client.trans same) (changes.attached attached)
  · exact sole other b ((changes.lookup_ne here).trans found) same attached

theorem sole_of (changes : Changes w w' id a a') {i : Nat}
    (already : a.guard ≠ .attaching) (sole : w.Sole client i) : w'.Sole client i := by
  intro other b found same attached
  by_cases here : other = id
  · subst here
    rw [changes.lookup_self] at found
    cases found
    exact sole other a changes.before (changes.client.symm.trans same) already
  · exact sole other b ((changes.lookup_ne here).symm.trans found) same attached

def KeepsOthers (w w' : Detours) (id : Nat) : Prop :=
  ∀ ⦃other client d⦄, other ≠ id → w.map.lookup client = some d → d.id = other →
    w'.Sole client other → w'.map.lookup client = some d

theorem inv (changes : Changes w w' id a a') (inv : w.Inv) (others : KeepsOthers w w' id)
    (entries : ∀ {client d}, w'.map.lookup client = some d →
      w.map.lookup client = some d ∨
        client = a.client ∧ d = ⟨id, a.shim, a.peer⟩ ∧ a'.guard ≠ .attaching)
    (own : a'.guard = .alive → a'.pump ≠ .over → w'.Sole a.client id →
      ∃ d, w'.map.lookup a.client = some d ∧ d.id = id) : w'.Inv := by
  have lookups : ∀ {i b}, w'.attachments.lookup i = some b →
      i = id ∧ b = a' ∨ i ≠ id ∧ w.attachments.lookup i = some b := by
    intro i b found
    by_cases here : i = id
    · subst here
      rw [changes.lookup_self] at found
      exact .inl ⟨rfl, (Option.some.inj found).symm⟩
    · exact .inr ⟨here, (changes.lookup_ne here).symm.trans found⟩
  constructor
  case below =>
    intro i b found
    rw [changes.nextId]
    rcases lookups found with ⟨rfl, -⟩ | ⟨-, old⟩
    · exact inv.below changes.before
    · exact inv.below old
  case proper =>
    intro i b found
    rcases lookups found with ⟨rfl, rfl⟩ | ⟨-, old⟩
    · rw [changes.shim, changes.peer]
      exact inv.proper changes.before
    · exact inv.proper old
  case mapped =>
    intro client d found
    rcases entries found with old | ⟨rfl, rfl, attached⟩
    · obtain ⟨b, before, same, attached, shim⟩ := inv.mapped old
      by_cases here : d.id = id
      · rw [here, changes.before] at before
        cases before
        exact ⟨a', here ▸ changes.lookup_self, changes.client.trans same, changes.attached attached,
          shim.trans changes.shim.symm⟩
      · exact ⟨b, (changes.lookup_ne here).trans before, same, attached, shim⟩
    · exact ⟨a', changes.lookup_self, changes.client, attached, changes.shim.symm⟩
  case kept =>
    intro i b found alive pumping sole
    rcases lookups found with ⟨rfl, rfl⟩ | ⟨apart, old⟩
    · rw [changes.client] at sole ⊢
      exact own alive pumping sole
    · obtain ⟨d, entry, same⟩ := inv.kept old alive pumping (changes.sole sole)
      exact ⟨d, others apart entry same sole, same⟩

theorem neverStraight_iff (changes : Changes w w' id a a') (inv : w.Inv) (inv' : w'.Inv)
    (others : KeepsOthers w w' id) (never : w.NeverStraight) :
    w'.NeverStraight ↔ (a'.guard = .alive → w'.Sole a.client id →
      (w'.map.lookup a.client).isSome = true) := by
  rw [inv.neverStraight_iff] at never
  rw [inv'.neverStraight_iff]
  constructor
  · intro all alive sole
    have own := all id a' changes.lookup_self alive
    rw [changes.client] at own
    exact own sole
  · intro own i b found alive sole
    by_cases here : i = id
    · subst here
      rw [changes.lookup_self] at found
      cases found
      rw [changes.client] at sole ⊢
      exact own alive sole
    · rw [changes.lookup_ne here] at found
      obtain ⟨d, entry⟩ := Option.isSome_iff_exists.mp (never i b found alive (changes.sole sole))
      -- The entry is of an attachment for the same client, and there is only one.
      obtain ⟨b', attached, same, entered, -⟩ := inv.mapped entry
      have owner : d.id = i := changes.sole sole d.id b' attached same entered
      rw [others here entry owner sole]
      rfl

end Changes

def StepSpec (w w' : Detours) (e : DetourEvent) : Prop :=
  w'.Inv ∧ (w.NeverStraight → (w'.NeverStraight ↔ w.PumpHolds e))

variable {e : DetourEvent}

theorem Changes.harmless (changes : Changes w w' id a a') (inv : w.Inv)
    (others : KeepsOthers w w' id)
    (entries : ∀ {client d}, w'.map.lookup client = some d →
      w.map.lookup client = some d ∨
        client = a.client ∧ d = ⟨id, a.shim, a.peer⟩ ∧ a'.guard ≠ .attaching)
    (own : a'.guard = .alive → a'.pump ≠ .over → w'.Sole a.client id →
      ∃ d, w'.map.lookup a.client = some d ∧ d.id = id)
    (safe : w.NeverStraight → a'.guard = .alive → w'.Sole a.client id →
      (w'.map.lookup a.client).isSome = true)
    (holds : w.PumpHolds e) : StepSpec w w' e := by
  have inv' := changes.inv inv others entries own
  exact ⟨inv', fun never =>
    iff_of_true ((changes.neverStraight_iff inv inv' others never).mpr (safe never)) holds⟩

theorem update_spec {due : Attachment → Bool} {change : Attachment → DetourMap × Attachment}
    (inv : w.Inv)
    (idle : (∀ a, w.attachments.lookup id = some a → due a = false) → w.PumpHolds e)
    (acts : ∀ a, w.attachments.lookup id = some a → due a = true → StepSpec w
      { w with map := (change a).1, attachments := w.attachments.insert id (change a).2 } e) :
    StepSpec w (w.update id due change) e := by
  unfold update
  cases found : w.attachments.lookup id with
  | none => exact ⟨inv, fun never => iff_of_true never (idle (by simp [found]))⟩
  | some a =>
    cases passes : due a with
    | false =>
      simp only [passes]
      refine ⟨inv, fun never => iff_of_true never (idle fun b same => ?_)⟩
      rw [found] at same
      cases same
      exact passes
    | true =>
      simp only [passes]
      exact acts a found passes

theorem keepsOthers_of_map (same : w'.map = w.map) : Changes.KeepsOthers w w' id := by
  intro other client d _ entry _ _
  rw [same]
  exact entry

theorem keepsOthers_of_forget
    (forgets : w'.map = forgetDetour w.map client id) : Changes.KeepsOthers w w' id := by
  intro other c d apart entry owner _
  rw [forgets, lookup_forgetDetour]
  exact ⟨entry, fun _ => owner ▸ apart⟩

theorem attached_spec (inv : w.Inv) (loopback : a.shim.ip.isLoopback = true)
    (public_ : isPrivate a.peer.ip = false) (fresh : a.guard = .attaching)
    (holds : w.PumpHolds e) :
    StepSpec w { w with
      nextId := w.nextId + 1, attachments := w.attachments.insert w.nextId a } e := by
  have apart : ∀ {id b}, w.attachments.lookup id = some b → id ≠ w.nextId :=
    fun found => Nat.ne_of_lt (inv.below found)
  have lookups : ∀ {id b}, (w.attachments.insert w.nextId a).lookup id = some b →
      id = w.nextId ∧ b = a ∨ w.attachments.lookup id = some b := by
    intro id b found
    by_cases here : id = w.nextId
    · subst here
      rw [Finmap.lookup_insert] at found
      exact .inl ⟨rfl, (Option.some.inj found).symm⟩
    · exact .inr ((Finmap.lookup_insert_of_ne _ here).symm.trans found)
  have entered : ∀ {id b}, (w.attachments.insert w.nextId a).lookup id = some b →
      b.guard ≠ .attaching → w.attachments.lookup id = some b := by
    intro id b found attached
    rcases lookups found with ⟨-, rfl⟩ | old
    · exact absurd fresh attached
    · exact old
  have sole : ∀ {client id}, Sole { w with
      nextId := w.nextId + 1, attachments := w.attachments.insert w.nextId a } client id →
      w.Sole client id := fun sole other b found =>
    sole other b ((Finmap.lookup_insert_of_ne _ (apart found)).trans found)
  have inv' : Inv { w with
      nextId := w.nextId + 1, attachments := w.attachments.insert w.nextId a } := by
    constructor
    case below =>
      intro id b found
      rcases lookups found with ⟨rfl, -⟩ | old
      · exact Nat.lt_succ_self _
      · exact Nat.lt_succ_of_lt (inv.below old)
    case proper =>
      intro id b found
      rcases lookups found with ⟨-, rfl⟩ | old
      · exact ⟨loopback, public_⟩
      · exact inv.proper old
    case mapped =>
      intro client d entry
      obtain ⟨b, found, rest⟩ := inv.mapped entry
      exact ⟨b, (Finmap.lookup_insert_of_ne _ (apart found)).trans found, rest⟩
    case kept =>
      intro id b found alive pumping only
      exact inv.kept (entered found (by simp [alive])) alive pumping (sole only)
  refine ⟨inv', fun never => iff_of_true ?_ holds⟩
  intro id b found alive only
  exact never id b (entered found (by simp [alive])) alive (sole only)

theorem attach_spec (inv : w.Inv) (client peer : SocketAddr) (shim : Option UInt16) :
    StepSpec w (w.step (.attach client peer shim)) (.attach client peer shim) := by
  simp only [step]
  split
  next => exact ⟨inv, fun never => iff_of_true never trivial⟩
  next public_ =>
    cases shim with
    | none => exact ⟨inv, fun never => iff_of_true never trivial⟩
    | some port =>
      have loopback : (loopbackFor client).isLoopback = true := by
        unfold loopbackFor
        split <;> rfl
      exact attached_spec inv loopback (Bool.eq_false_iff.mpr public_) rfl trivial

theorem enter_spec (inv : w.Inv) (id : Nat) : StepSpec w (w.step (.enter id)) (.enter id) := by
  refine update_spec inv (fun _ => trivial) fun a found due => ?_
  have changes : Changes w { w with
      map := w.map.insert a.client ⟨id, a.shim, a.peer⟩
      attachments := w.attachments.insert id { a with guard := .alive, pump := .running } } id a
      { a with guard := .alive, pump := .running } :=
    ⟨found, rfl, rfl, rfl, rfl, rfl, fun _ => by simp⟩
  refine changes.harmless inv ?others ?entries ?own ?safe trivial
  case others =>
    intro other c d apart entry owner sole
    by_cases here : c = a.client
    · exact absurd (sole id _ changes.lookup_self here.symm (by simp)) (Ne.symm apart)
    · exact (Finmap.lookup_insert_of_ne _ here).trans entry
  case entries =>
    intro c d entry
    by_cases here : c = a.client
    · subst here
      rw [Finmap.lookup_insert] at entry
      exact .inr ⟨rfl, (Option.some.inj entry).symm, by simp⟩
    · exact .inl ((Finmap.lookup_insert_of_ne _ here).symm.trans entry)
  case own => exact fun _ _ _ => ⟨_, Finmap.lookup_insert _, rfl⟩
  case safe =>
    intro _ _ _
    rw [Finmap.lookup_insert]
    rfl

theorem pumpStops_spec (inv : w.Inv) (id : Nat) :
    StepSpec w (w.step (.pumpStops id)) (.pumpStops id) := by
  refine update_spec inv (fun _ => trivial) fun a found due => ?_
  have running : a.pump = .running := by simpa using due
  have changes : Changes w { w with
      attachments := w.attachments.insert id { a with pump := .stopped } } id a
      { a with pump := .stopped } := ⟨found, rfl, rfl, rfl, rfl, rfl, fun attached => attached⟩
  refine changes.harmless inv (keepsOthers_of_map rfl) .inl ?own ?safe trivial
  case own =>
    exact fun alive _ sole => inv.kept found alive (by simp [running]) (changes.sole sole)
  case safe =>
    exact fun never alive sole =>
      (inv.neverStraight_iff.mp never) id a found alive (changes.sole sole)

theorem guardDrops_spec (inv : w.Inv) (id : Nat) :
    StepSpec w (w.step (.guardDrops id)) (.guardDrops id) := by
  refine update_spec inv (fun _ => trivial) fun a found due => ?_
  have changes : Changes w { w with
      attachments := w.attachments.insert id { a with
        guard := .dropping, pump := if a.pump = .running then .over else a.pump } } id a
      { a with guard := .dropping, pump := if a.pump = .running then .over else a.pump } :=
    ⟨found, rfl, rfl, rfl, rfl, rfl, fun _ => by simp⟩
  exact changes.harmless inv (keepsOthers_of_map rfl) .inl (by simp) (by simp) trivial

theorem guardForgets_spec (inv : w.Inv) (id : Nat) :
    StepSpec w (w.step (.guardForgets id)) (.guardForgets id) := by
  refine update_spec inv (fun _ => trivial) fun a found due => ?_
  have changes : Changes w { w with
      map := forgetDetour w.map a.client id
      attachments := w.attachments.insert id { a with guard := .gone } } id a
      { a with guard := .gone } := ⟨found, rfl, rfl, rfl, rfl, rfl, fun _ => by simp⟩
  exact changes.harmless inv (keepsOthers_of_forget rfl)
    (fun entry => .inl (lookup_forgetDetour.mp entry).1) (by simp) (by simp) trivial

theorem pumpForgets_spec (inv : w.Inv) (id : Nat) :
    StepSpec w (w.step (.pumpForgets id)) (.pumpForgets id) := by
  refine update_spec inv (fun idle a found stopped => ?_) fun a found due => ?_
  · have := idle a found
    simp [stopped] at this
  have stopped : a.pump = .stopped := by simpa using due
  have changes : Changes w { w with
      map := forgetDetour w.map a.client id
      attachments := w.attachments.insert id { a with pump := .over } } id a
      { a with pump := .over } := ⟨found, rfl, rfl, rfl, rfl, rfl, fun attached => attached⟩
  have inv' := changes.inv inv (keepsOthers_of_forget rfl)
    (fun entry => .inl (lookup_forgetDetour.mp entry).1) (by simp)
  refine ⟨inv', fun never => ?_⟩
  rw [changes.neverStraight_iff inv inv' (keepsOthers_of_forget rfl) never]
  constructor
  · intro safe b present _ alive sole
    rw [found] at present
    cases present
    obtain ⟨d, entry, owner⟩ := inv.kept found alive (by simp [stopped]) sole
    obtain ⟨d', left⟩ := Option.isSome_iff_exists.mp
      (safe alive (changes.sole_of (by simp [alive]) sole))
    have kept := lookup_forgetDetour.mp left
    rw [entry] at kept
    cases kept.1
    exact kept.2 rfl owner
  · intro holds alive sole
    exact absurd (changes.sole sole) (holds a found stopped alive)

theorem step_spec (inv : w.Inv) (e : DetourEvent) : StepSpec w (w.step e) e := by
  cases e with
  | attach client peer shim => exact attach_spec inv client peer shim
  | enter id => exact enter_spec inv id
  | pumpStops id => exact pumpStops_spec inv id
  | pumpForgets id => exact pumpForgets_spec inv id
  | guardDrops id => exact guardDrops_spec inv id
  | guardForgets id => exact guardForgets_spec inv id

/-- While a guard is alive packets go to its shim, in every state of a run, precisely if no pump
    ends under a guard. -/
theorem never_straight_iff_pump_holds (events : List DetourEvent) :
    Always (fun w e => some (step w e)) NeverStraight initial events ↔
      Each (fun w e => some (step w e)) PumpHolds initial events := by
  refine always_iff_each (I := Inv) ?kept ?proceeds ?exact_step initial_inv
    (by simp [NeverStraight, initial]) (.of_forall (P := fun _ _ => True) fun _ _ => trivial)
  case kept =>
    intro w e w' inv _ next
    cases next
    exact (step_spec inv e).1
  case proceeds => exact fun w e _ _ => ⟨_, rfl⟩
  case exact_step =>
    intro w e w' inv _ next never
    cases next
    exact (step_spec inv e).2 never

theorem NeverStraight.flushTarget (never : w.NeverStraight)
    (found : w.attachments.lookup id = some a) (alive : a.guard = .alive)
    (sole : w.Sole a.client id) {sockets : List SocketAddr} (open_ : a.client ∈ sockets) :
    ∃ target, flushTarget w.map sockets a.client a.peer = some target ∧ target ≠ a.peer :=
  ⟨_, if_pos open_, never id a found alive sole⟩

def unspecifiedSocket : SocketAddr := ⟨.v4 (.new 0 0 0 0), 40000⟩

def warpPeer : SocketAddr := ⟨.v4 (.new 162 159 192 1), 2408⟩

def failedRelay : List DetourEvent :=
  [.attach unspecifiedSocket warpPeer (some 50000), .enter 1, .pumpStops 1, .pumpForgets 1]

theorem failedRelay_leaks :
    (run (fun w e => some (step w e)) initial failedRelay).map (fun w =>
        (w.attachments.keys, w.attachments.lookup 1,
          relayTarget w.map unspecifiedSocket warpPeer)) =
      some ({1}, some ⟨unspecifiedSocket, ⟨.v4 .localhost, 50000⟩, warpPeer, .alive, .over⟩,
        warpPeer) ∧
      ¬ Always (fun w e => some (step w e)) NeverStraight initial failedRelay := by
  refine and_iff_left_of_imp (fun ends always => ?_) |>.mpr (by decide +kernel)
  obtain ⟨w, reached, shape⟩ := Option.map_eq_some_iff.mp ends
  simp only [Prod.mk.injEq] at shape
  obtain ⟨keys, found, straight⟩ := shape
  refine always.last reached 1 _ found rfl (fun other a present _ _ => ?_) straight
  have member : other ∈ w.attachments.keys := by
    rw [Finmap.mem_keys, ← Finmap.lookup_isSome, present]
    rfl
  rw [keys] at member
  exact Finset.mem_singleton.mp member

end Detours

end Gozarbin.Upstream
