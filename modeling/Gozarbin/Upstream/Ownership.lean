import Gozarbin.Upstream.Detour

/-! # Whose a detour is

Sockets that are opened one after another may get the same local address, so a guard
that is dropped late, or a pump that ends late, may find the entry of a newer detour
at the address of its own. Both compare the id of the entry with theirs.
-/

namespace Gozarbin.Upstream

open Runs

def DetourEvent.forgets : DetourEvent → Option Nat
  | .pumpForgets id | .guardForgets id => some id
  | _ => none

/-- There is no guard that still has to be dropped, and no pump that still has to
    end. -/
def Attachment.Ended (a : Attachment) : Prop :=
  (a.guard = .attaching ∨ a.guard = .gone) ∧ (a.pump = .waiting ∨ a.pump = .over)

namespace Detours

/-- The entry is the one that call `d.id` of `attach_detour_via` made. -/
structure MadeBy (w : Detours) (client : SocketAddr) (d : Detour) (a : Attachment) : Prop where
  found : w.attachments.lookup d.id = some a
  client : a.client = client
  shim : a.shim = d.shim
  peer : a.peer = d.peer

/-- An entry is removed by its own guard or pump, or replaced by a newer detour of the same
    address. -/
def OwnRemoval (w : Detours) (e : DetourEvent) : Prop :=
  ∀ client d, w.map.lookup client = some d →
    (w.step e).map.lookup client = some d ∨
      (w.step e).map.lookup client = none ∧ e.forgets = some d.id ∨
      ∃ id a, e = .enter id ∧ w.attachments.lookup id = some a ∧ a.client = client ∧
        (w.step e).map.lookup client = some ⟨id, a.shim, a.peer⟩

/-- What the owners of detours rely on. -/
structure DetoursOwned (w : Detours) : Prop where
  made : ∀ {client d}, w.map.lookup client = some d → ∃ a, w.MadeBy client d a
  emptied : (∀ id a, w.attachments.lookup id = some a → a.Ended) → w.map = ∅
  reversed : ∀ {client d}, w.map.lookup client = some d →
    realSource w.map client (relayTarget w.map client d.peer) = d.peer

structure Guarded (w : Detours) : Prop where
  below : ∀ {id a}, w.attachments.lookup id = some a → id < w.nextId
  entry : ∀ {client d}, w.map.lookup client = some d →
    ∃ a, w.MadeBy client d a ∧ (a.guard = .alive ∨ a.guard = .dropping)

variable {w w' : Detours} {id : Nat} {a a' : Attachment} {e : DetourEvent}

theorem initial_guarded : initial.Guarded where
  below found := by simp [initial] at found
  entry found := by simp [initial] at found

theorem realSource_relayTarget {map : DetourMap} {client : SocketAddr} {d : Detour}
    (found : map.lookup client = some d) :
    realSource map client (relayTarget map client d.peer) = d.peer := by
  simp [realSource, relayTarget, found]

theorem Guarded.detoursOwned (guarded : w.Guarded) : w.DetoursOwned where
  made found := by
    obtain ⟨a, made, -⟩ := guarded.entry found
    exact ⟨a, made⟩
  emptied ended := by
    apply Finmap.ext_lookup
    intro client
    cases found : w.map.lookup client with
    | none => rfl
    | some d =>
      obtain ⟨a, made, guard⟩ := guarded.entry found
      have gone := (ended d.id a made.found).1
      cases guard with
      | inl alive => simp [alive] at gone
      | inr dropping => simp [dropping] at gone
  reversed := realSource_relayTarget

theorem Changes.guarded (changes : Changes w w' id a a') (guarded : w.Guarded)
    (entries : ∀ {client d}, w'.map.lookup client = some d →
      w.map.lookup client = some d ∧
          (d.id = id → client = a.client → a.guard = .alive ∨ a.guard = .dropping →
            a'.guard = .alive ∨ a'.guard = .dropping) ∨
        client = a.client ∧ d = ⟨id, a.shim, a.peer⟩ ∧ a'.guard = .alive) : w'.Guarded where
  below {i b} found := by
    rw [changes.nextId]
    by_cases here : i = id
    · exact here ▸ guarded.below changes.before
    · exact guarded.below ((changes.lookup_ne here).symm.trans found)
  entry {client d} found := by
    cases entries found with
    | inl old =>
      obtain ⟨before, guard⟩ := old
      obtain ⟨b, made, still⟩ := guarded.entry before
      by_cases here : d.id = id
      · obtain rfl : a = b := by
          have at_id := made.found
          rw [here, changes.before] at at_id
          exact Option.some.inj at_id
        exact ⟨a', ⟨here ▸ changes.lookup_self, changes.client.trans made.client,
          changes.shim.trans made.shim, changes.peer.trans made.peer⟩,
          guard here made.client.symm still⟩
      · exact ⟨b, ⟨(changes.lookup_ne here).trans made.found, made.client, made.shim, made.peer⟩,
          still⟩
    | inr new =>
      obtain ⟨rfl, rfl, alive⟩ := new
      exact ⟨a', ⟨changes.lookup_self, changes.client, changes.shim, changes.peer⟩, .inl alive⟩

section update
variable {due : Attachment → Bool} {change : Attachment → DetourMap × Attachment}

variable (w id due change) in
theorem update_cases :
    w.update id due change = w ∨
      ∃ a, w.attachments.lookup id = some a ∧ due a = true ∧
        w.update id due change = { w with
          map := (change a).1, attachments := w.attachments.insert id (change a).2 } := by
  unfold update
  cases found : w.attachments.lookup id with
  | none => exact .inl rfl
  | some a =>
    cases passes : due a with
    | false => exact .inl (by simp [passes])
    | true => exact .inr ⟨a, rfl, passes, by simp [passes]⟩

theorem update_map :
    (w.update id due change).map = w.map ∨
      ∃ a, w.attachments.lookup id = some a ∧ (w.update id due change).map = (change a).1 := by
  rcases update_cases w id due change with idle | ⟨a, found, -, changed⟩
  · exact .inl (congrArg map idle)
  · exact .inr ⟨a, found, congrArg map changed⟩

theorem update_guarded (guarded : w.Guarded)
    (same : ∀ a, (change a).2.client = a.client ∧ (change a).2.shim = a.shim ∧
      (change a).2.peer = a.peer ∧ (a.guard ≠ .attaching → (change a).2.guard ≠ .attaching))
    (entries : ∀ a, ∀ {client d}, (change a).1.lookup client = some d →
      w.map.lookup client = some d ∧
          (d.id = id → client = a.client → a.guard = .alive ∨ a.guard = .dropping →
            (change a).2.guard = .alive ∨ (change a).2.guard = .dropping) ∨
        client = a.client ∧ d = ⟨id, a.shim, a.peer⟩ ∧ (change a).2.guard = .alive) :
    (w.update id due change).Guarded := by
  rcases update_cases w id due change with idle | ⟨a, found, -, changed⟩
  · rw [idle]
    exact guarded
  · rw [changed]
    obtain ⟨client, shim, peer, attached⟩ := same a
    have changes : Changes w { w with
        map := (change a).1, attachments := w.attachments.insert id (change a).2 } id a
        (change a).2 := ⟨found, rfl, rfl, client, shim, peer, attached⟩
    exact changes.guarded guarded (entries a)

end update

theorem Guarded.attach (guarded : w.Guarded) (client peer : SocketAddr) (shim : Option UInt16) :
    (w.step (.attach client peer shim)).Guarded := by
  simp only [step]
  split
  · exact guarded
  cases shim with
  | none => exact guarded
  | some port =>
    constructor
    case below =>
      intro id b found
      by_cases here : id = w.nextId
      · exact here ▸ Nat.lt_succ_self _
      · exact Nat.lt_succ_of_lt (guarded.below ((Finmap.lookup_insert_of_ne _ here).symm.trans found))
    case entry =>
      intro client d found
      obtain ⟨b, made, guard⟩ := guarded.entry found
      have apart : d.id ≠ w.nextId := Nat.ne_of_lt (guarded.below made.found)
      exact ⟨b, ⟨(Finmap.lookup_insert_of_ne _ apart).trans made.found, made.client, made.shim,
        made.peer⟩, guard⟩

theorem Guarded.enter (guarded : w.Guarded) (id : Nat) : (w.step (.enter id)).Guarded := by
  apply update_guarded guarded fun a => ⟨rfl, rfl, rfl, fun _ => by simp⟩
  intro a client d entry
  by_cases here : client = a.client
  · subst here
    rw [Finmap.lookup_insert] at entry
    exact .inr ⟨rfl, (Option.some.inj entry).symm, rfl⟩
  · exact .inl ⟨(Finmap.lookup_insert_of_ne _ here).symm.trans entry, fun _ _ _ => .inl rfl⟩

theorem Guarded.pumpStops (guarded : w.Guarded) (id : Nat) : (w.step (.pumpStops id)).Guarded := by
  apply update_guarded guarded fun a => ⟨rfl, rfl, rfl, fun attached => attached⟩
  exact fun _ _ _ entry => .inl ⟨entry, fun _ _ guard => guard⟩

theorem Guarded.pumpForgets (guarded : w.Guarded) (id : Nat) :
    (w.step (.pumpForgets id)).Guarded := by
  apply update_guarded guarded fun a => ⟨rfl, rfl, rfl, fun attached => attached⟩
  exact fun _ _ _ entry => .inl ⟨(lookup_forgetDetour.mp entry).1, fun _ _ guard => guard⟩

theorem Guarded.guardDrops (guarded : w.Guarded) (id : Nat) :
    (w.step (.guardDrops id)).Guarded := by
  apply update_guarded guarded fun a => ⟨rfl, rfl, rfl, fun _ => by simp⟩
  exact fun _ _ _ entry => .inl ⟨entry, fun _ _ _ => .inr rfl⟩

theorem Guarded.guardForgets (guarded : w.Guarded) (id : Nat) :
    (w.step (.guardForgets id)).Guarded := by
  apply update_guarded guarded fun a => ⟨rfl, rfl, rfl, fun _ => by simp⟩
  intro a client d entry
  obtain ⟨before, other⟩ := lookup_forgetDetour.mp entry
  exact .inl ⟨before, fun own here => absurd own (other here)⟩

theorem Guarded.step (guarded : w.Guarded) (e : DetourEvent) : (w.step e).Guarded := by
  cases e with
  | attach client peer shim => exact guarded.attach client peer shim
  | enter id => exact guarded.enter id
  | pumpStops id => exact guarded.pumpStops id
  | pumpForgets id => exact guarded.pumpForgets id
  | guardDrops id => exact guarded.guardDrops id
  | guardForgets id => exact guarded.guardForgets id

theorem forgetDetour_removes {map : DetourMap} {client c : SocketAddr} {d : Detour}
    (found : map.lookup c = some d) :
    (forgetDetour map client id).lookup c = some d ∨
      (forgetDetour map client id).lookup c = none ∧ id = d.id := by
  by_cases own : c = client ∧ d.id = id
  · refine .inr ⟨?_, own.2.symm⟩
    cases left : (forgetDetour map client id).lookup c with
    | none => rfl
    | some d' =>
      obtain ⟨before, other⟩ := lookup_forgetDetour.mp left
      rw [found] at before
      cases before
      exact absurd own.2 (other own.1)
  · exact .inl (lookup_forgetDetour.mpr ⟨found, fun here same => own ⟨here, same⟩⟩)

theorem OwnRemoval.of_forgets (forgets : e.forgets = some id)
    (map : (w.step e).map = w.map ∨ ∃ a, w.attachments.lookup id = some a ∧
      (w.step e).map = forgetDetour w.map a.client id) : w.OwnRemoval e := by
  intro client d found
  rcases map with same | ⟨a, -, removed⟩
  · exact .inl (same ▸ found)
  · rw [removed]
    refine (forgetDetour_removes found).imp_right fun gone => .inl ⟨gone.1, ?_⟩
    rw [forgets, gone.2]

theorem OwnRemoval.of_map (map : (w.step e).map = w.map) : w.OwnRemoval e :=
  fun _ _ found => .inl (map ▸ found)

theorem OwnRemoval.of_update {due : Attachment → Bool} {change : Attachment → DetourMap × Attachment}
    (updates : w.step e = w.update id due change) (same : ∀ a, (change a).1 = w.map) :
    w.OwnRemoval e := by
  apply OwnRemoval.of_map
  rw [updates]
  rcases update_cases w id due change with idle | ⟨a, -, -, changed⟩
  · rw [idle]
  · rw [changed]
    exact same a

theorem ownRemoval (w : Detours) (e : DetourEvent) : w.OwnRemoval e := by
  cases e with
  | attach c peer shim =>
    apply OwnRemoval.of_map
    simp only [step]
    split
    · rfl
    · cases shim <;> rfl
  | enter id =>
    intro client d found
    have map : (w.step (.enter id)).map = w.map ∨ ∃ a, w.attachments.lookup id = some a ∧
        (w.step (.enter id)).map = w.map.insert a.client ⟨id, a.shim, a.peer⟩ := update_map
    rcases map with same | ⟨a, attached, entered⟩
    · exact .inl (same ▸ found)
    · rw [entered]
      by_cases here : client = a.client
      · subst here
        exact .inr (.inr ⟨id, a, rfl, attached, rfl, Finmap.lookup_insert _⟩)
      · exact .inl ((Finmap.lookup_insert_of_ne _ here).trans found)
  | pumpStops id => exact .of_update rfl fun _ => rfl
  | guardDrops id => exact .of_update rfl fun _ => rfl
  | pumpForgets id => exact .of_forgets rfl update_map
  | guardForgets id => exact .of_forgets rfl update_map

/-- An entry is removed by its own guard or pump only, none is left when these are over, and
    what is received through a detour is taken to be from its peer. -/
theorem detours_owned (events : List DetourEvent) :
    Each (fun w e => some (step w e)) OwnRemoval initial events ∧
      Always (fun w e => some (step w e)) DetoursOwned initial events := by
  refine ⟨.of_forall ownRemoval, ?_⟩
  have always : Always (fun w e => some (step w e)) Guarded initial events := by
    apply always_of_kept (C := fun _ _ => True) ?kept initial_guarded (.of_forall fun _ _ => trivial)
    intro w e w' guarded _ next
    cases next
    exact guarded.step e
  exact always.mono fun _ guarded => guarded.detoursOwned

end Detours

end Gozarbin.Upstream
