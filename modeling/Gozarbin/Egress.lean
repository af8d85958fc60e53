import Gozarbin.Net.SocketAddress
import Mathlib.Data.List.Perm.Basic

/-! # Connecting to a name

`tcp_connect_host` tries the addresses of a name by turns of family. `race` starts an attempt
when none is running, when one fails and when a delay is over, until one connects or all have
failed. What its loop meets is a list of events.
-/

namespace Gozarbin.Egress

open List

def isIpv4 (address : SocketAddress) : Bool := address.ip.isIpv4

section
variable {α : Type}

def alternate : (lead other : List α) → List α
  | [], other => other
  | a :: lead, [] => a :: lead
  | a :: lead, b :: other => a :: b :: alternate lead other

variable {lead other : List α}

theorem alternate_perm (lead other : List α) : (alternate lead other).Perm (lead ++ other) := by
  induction lead, other using alternate.induct with
  | case1 other => exact .refl other
  | case2 a lead => rw [append_nil, alternate]
  | case3 a lead b other ih =>
    have moved : (b :: alternate lead other).Perm (lead ++ b :: other) :=
      (ih.cons b).trans perm_middle.symm
    exact moved.cons a

theorem filter_alternate {p : α → Bool} {q : Bool} (isLead : ∀ a ∈ lead, p a = q)
    (isOther : ∀ a ∈ other, p a = !q) : (alternate lead other).filter p = if q then lead else other := by
  induction lead, other using alternate.induct with
  | case1 other =>
    cases q with
    | true => exact filter_eq_nil_iff.mpr fun a mem => by simp [isOther a mem]
    | false => exact filter_eq_self.mpr isOther
  | case2 a lead =>
    cases q with
    | true => exact filter_eq_self.mpr isLead
    | false => exact filter_eq_nil_iff.mpr fun a mem => by simp [isLead a mem]
  | case3 a lead b other ih =>
    obtain ⟨here, later⟩ := forall_mem_cons.mp isLead
    obtain ⟨here', later'⟩ := forall_mem_cons.mp isOther
    rw [alternate, filter_cons, filter_cons, ih later later', here, here']
    cases q <;> rfl

theorem getElem?_alternate {i : Nat} (both : i < 2 * min lead.length other.length) :
    (alternate lead other)[i]? = if i % 2 = 0 then lead[i / 2]? else other[i / 2]? := by
  induction lead, other using alternate.induct generalizing i with
  | case1 other => simp at both
  | case2 a lead => simp at both
  | case3 a lead b other ih =>
    rw [alternate]
    match i with
    | 0 => rfl
    | 1 => rfl
    | i + 2 =>
      have fewer : i < 2 * min lead.length other.length := by
        simp only [length_cons] at both
        omega
      rw [List.getElem?_cons_succ, List.getElem?_cons_succ, ih fewer, Nat.add_mod_right,
        Nat.add_div_right i Nat.zero_lt_two, List.getElem?_cons_succ, List.getElem?_cons_succ]

end

def family (v4 : Bool) (addresses : List SocketAddress) : List SocketAddress :=
  addresses.filter (isIpv4 · = v4)

def interleaved (addresses : List SocketAddress) : List SocketAddress :=
  match addresses with
  | [] => []
  | first :: _ =>
    let leadV4 := isIpv4 first
    alternate (family leadV4 addresses) (family (!leadV4) addresses)

/-- No address is lost, a family stays in its order, and the families take turns as long as
    there are both. -/
structure ByTurns (addresses order : List SocketAddress) : Prop where
  perm : order.Perm addresses
  kept : ∀ v4, family v4 order = family v4 addresses
  turns : ∀ first ∈ addresses.head?,
    ∀ i < 2 * min (family (isIpv4 first) addresses).length (family (!isIpv4 first) addresses).length,
      ∃ address, order[i]? = some address ∧ (isIpv4 address = isIpv4 first ↔ i % 2 = 0)

theorem isIpv4_of_mem {v4 : Bool} {addresses : List SocketAddress} {a : SocketAddress}
    (mem : a ∈ family v4 addresses) : isIpv4 a = v4 := by
  simpa using (mem_filter.mp mem).2

theorem family_perm (v4 : Bool) (addresses : List SocketAddress) :
    (family v4 addresses ++ family (!v4) addresses).Perm addresses := by
  have others : family (!v4) addresses = addresses.filter fun a => !decide (isIpv4 a = v4) := by
    refine filter_congr fun a _ => ?_
    cases v4 <;> cases isIpv4 a <;> rfl
  rw [others]
  exact filter_append_perm ..

theorem family_alternate (v4 lead : Bool) (addresses : List SocketAddress) :
    family v4 (alternate (family lead addresses) (family (!lead) addresses)) = family v4 addresses := by
  rw [family, filter_alternate (q := decide (lead = v4))]
  · cases lead <;> cases v4 <;> rfl
  · intro a mem
    rw [isIpv4_of_mem mem]
  · intro a mem
    rw [isIpv4_of_mem mem]
    cases lead <;> cases v4 <;> rfl

theorem turns_alternate (lead : Bool) (addresses : List SocketAddress) {i : Nat}
    (both : i < 2 * min (family lead addresses).length (family (!lead) addresses).length) :
    ∃ address, (alternate (family lead addresses) (family (!lead) addresses))[i]? = some address ∧
      (isIpv4 address = lead ↔ i % 2 = 0) := by
  have half : i / 2 < min (family lead addresses).length (family (!lead) addresses).length := by omega
  rw [Nat.lt_min] at half
  rw [getElem?_alternate both]
  by_cases even : i % 2 = 0
  · obtain ⟨address, here⟩ : ∃ address, (family lead addresses)[i / 2]? = some address :=
      ⟨_, List.getElem?_eq_getElem half.1⟩
    refine ⟨address, by rw [if_pos even, here], iff_of_true ?_ even⟩
    exact isIpv4_of_mem (mem_of_getElem? here)
  · obtain ⟨address, here⟩ : ∃ address, (family (!lead) addresses)[i / 2]? = some address :=
      ⟨_, List.getElem?_eq_getElem half.2⟩
    refine ⟨address, by rw [if_neg even, here], iff_of_false ?_ even⟩
    rw [isIpv4_of_mem (mem_of_getElem? here)]
    cases lead <;> decide

theorem interleaved_byTurns (addresses : List SocketAddress) : ByTurns addresses (interleaved addresses) := by
  match addresses with
  | [] => exact ⟨.nil, fun _ => rfl, by simp⟩
  | first :: rest =>
    constructor
    case perm => exact (alternate_perm ..).trans (family_perm ..)
    case kept => exact fun v4 => family_alternate v4 (isIpv4 first) (first :: rest)
    case turns =>
      rintro _ ⟨⟩ i both
      exact turns_alternate (isIpv4 first) (first :: rest) both

/-- That of an attempt, or one of its own, both `NotFound`. -/
inductive ConnectError (Error : Type) where
  | io (error : Error)
  | noAddress
  | unresolved

section Race

variable {Address Stream Error : Type}

/-- An attempt ends, the `i`-th of those that run, or the delay does. -/
inductive Event (Stream Error : Type) where
  | ended (i : Nat) (outcome : Except Error Stream)
  | delay

structure Race (Address Error : Type) where
  waiting : List Address
  attempts : List Address := []
  lastError : Option Error := none
  started : List Address := []
  failed : List (Address × Error) := []

namespace Race

def startNext (race : Race Address Error) : Race Address Error :=
  match race.waiting with
  | [] => race
  | address :: rest =>
    { race with
      waiting := rest, attempts := race.attempts ++ [address], started := race.started ++ [address] }

def top (race : Race Address Error) : Except (ConnectError Error) (Race Address Error) :=
  if race.attempts.isEmpty then
    match race.waiting with
    | [] => .error (match race.lastError with | some error => .io error | none => .noAddress)
    | _ :: _ => .ok race.startNext
  else .ok race

def fail (race : Race Address Error) (i : Nat) (address : Address) (error : Error) : Race Address Error :=
  { race with
    attempts := race.attempts.eraseIdx i, lastError := some error
    failed := race.failed ++ [(address, error)] }

def select (race : Race Address Error) : Event Stream Error → Stream ⊕ Race Address Error
  | .ended i outcome =>
    match race.attempts[i]? with
    | none => .inr race
    | some address =>
      match outcome with
      | .ok stream => .inl stream
      | .error error => .inr (race.fail i address error).startNext
  | .delay => .inr race.startNext

def loop (race : Race Address Error) :
    List (Event Stream Error) → Race Address Error × Option (Except (ConnectError Error) Stream)
  | [] =>
    match race.top with
    | .error error => (race, some (.error error))
    | .ok running => (running, none)
  | event :: rest =>
    match race.top with
    | .error error => (race, some (.error error))
    | .ok running =>
      match running.select event with
      | .inl stream => (running, some (.ok stream))
      | .inr race => race.loop rest

variable {race running : Race Address Error} {event : Event Stream Error} {events : List (Event Stream Error)}
  {addresses : List Address} {error : ConnectError Error}

structure Sound (addresses : List Address) (race : Race Address Error) : Prop where
  inOrder : race.started ++ race.waiting = addresses
  accounted : race.started.Perm (race.attempts ++ race.failed.map (·.1))
  lastError : race.lastError = race.failed.getLast?.map (·.2)

theorem sound_start (addresses : List Address) : Sound addresses (⟨addresses, [], none, [], []⟩ : Race _ Error) :=
  ⟨rfl, .nil, rfl⟩

theorem Sound.startNext (sound : race.Sound addresses) : race.startNext.Sound addresses := by
  rw [Race.startNext]
  split
  next => exact sound
  next address rest isNext =>
    constructor
    case inOrder => rw [← sound.inOrder, isNext, append_assoc, singleton_append]
    case accounted =>
      have moved : (race.attempts ++ [address] ++ race.failed.map (·.1)).Perm
          (race.attempts ++ race.failed.map (·.1) ++ [address]) := by
        rw [append_assoc, append_assoc]
        exact perm_append_comm.append_left _
      exact (sound.accounted.append_right [address]).trans moved.symm
    case lastError => exact sound.lastError

theorem Sound.top (sound : race.Sound addresses) (ok : race.top = .ok running) : running.Sound addresses := by
  rw [Race.top] at ok
  split at ok
  · split at ok
    · cases ok
    · cases ok
      exact sound.startNext
  · cases ok
    exact sound

theorem Sound.fail (sound : race.Sound addresses) {i : Nat} {address : Address} {error : Error}
    (runs : race.attempts[i]? = some address) : (race.fail i address error).Sound addresses := by
  obtain ⟨inside, rfl⟩ := List.getElem?_eq_some_iff.mp runs
  constructor
  case inOrder => exact sound.inOrder
  case accounted =>
    have out : race.attempts.Perm (race.attempts[i] :: race.attempts.eraseIdx i) :=
      (getElem_cons_eraseIdx_perm inside).symm
    have moved := (out.append_right (race.failed.map (·.1))).trans
      (perm_append_singleton race.attempts[i] (race.attempts.eraseIdx i ++ race.failed.map (·.1))).symm
    simpa [Race.fail] using sound.accounted.trans moved
  case lastError => simp [Race.fail]

theorem Sound.select (sound : race.Sound addresses) {race' : Race Address Error}
    (next : race.select event = .inr race') : race'.Sound addresses := by
  match event with
  | .delay =>
    cases next
    exact sound.startNext
  | .ended i outcome =>
    simp only [Race.select] at next
    split at next
    next =>
      cases next
      exact sound
    next runs =>
      cases outcome with
      | ok => cases next
      | error =>
        cases next
        exact (sound.fail runs).startNext

def lostWith (failed : List (Address × Error)) : ConnectError Error :=
  match failed.getLast? with
  | some (_, error) => .io error
  | none => .noAddress

theorem Sound.lost (sound : race.Sound addresses) (finished : race.top = .error error) :
    race.started = addresses ∧ (race.failed.map (·.1)).Perm addresses ∧ error = lostWith race.failed := by
  rw [Race.top] at finished
  split at finished
  next idle =>
    split at finished
    next empty =>
      have all := sound.inOrder
      rw [empty, append_nil] at all
      have accounted := sound.accounted
      rw [isEmpty_iff.mp idle, nil_append, all] at accounted
      refine ⟨all, accounted.symm, ?_⟩
      cases finished
      rw [sound.lastError, lostWith]
      cases race.failed.getLast? <;> rfl
    next => cases finished
  next => cases finished

theorem loop_sound (sound : race.Sound addresses) (events : List (Event Stream Error)) :
    (race.loop events).1.Sound addresses ∧
      ∀ error, (race.loop events).2 = some (.error error) → (race.loop events).1.top = .error error := by
  induction events generalizing race with
  | nil =>
    rw [loop]
    split
    next error finished => exact ⟨sound, fun _ same => by cases same; exact finished⟩
    next ok => exact ⟨sound.top ok, fun _ same => by cases same⟩
  | cons event rest ih =>
    rw [loop]
    split
    next error finished => exact ⟨sound, fun _ same => by cases same; exact finished⟩
    next ok =>
      split
      next => exact ⟨sound.top ok, fun _ same => by cases same⟩
      next goesOn => exact ih ((sound.top ok).select goesOn)

theorem top_runs (ok : race.top = .ok running) : running.attempts ≠ [] := by
  rw [Race.top] at ok
  split at ok
  · split at ok
    · cases ok
    next isNext =>
      cases ok
      simp [Race.startNext, isNext]
  next busy =>
    cases ok
    simpa using busy

theorem loop_runs (open_ : ∀ error, (race.loop events).2 ≠ some (.error error)) :
    (race.loop events).1.attempts ≠ [] := by
  induction events generalizing race with
  | nil =>
    rw [loop] at open_ ⊢
    split
    next lost => exact absurd rfl (lost ▸ open_ _)
    next ok => exact top_runs ok
  | cons event rest ih =>
    rw [loop] at open_ ⊢
    split
    next lost => exact absurd rfl (lost ▸ open_ _)
    next ok =>
      simp only [ok] at open_
      split
      next => exact top_runs ok
      next goesOn =>
        simp only [goesOn] at open_
        exact ih open_

/-- What makes way for the next attempt: one that fails, or the end of the delay. -/
def MakesWay (race : Race Address Error) : Event Stream Error → Prop
  | .ended i (.error _) => i < race.attempts.length
  | .ended _ (.ok _) => False
  | .delay => True

theorem startNext_started (race : Race Address Error) :
    race.startNext.started = race.started ++ race.waiting.take 1 := by
  rw [startNext]
  split
  next nothing => simp [nothing]
  next isNext => simp [isNext]

theorem MakesWay.select (makesWay : race.MakesWay event) :
    ∃ next, race.select event = .inr next ∧ next.started = race.started ++ race.waiting.take 1 ∧
      (next.waiting ≠ [] → next.attempts ≠ []) := by
  have starts : ∀ race : Race Address Error,
      race.startNext.waiting ≠ [] → race.startNext.attempts ≠ [] := by
    intro race
    rw [startNext]
    split
    next nothing => exact fun more => absurd nothing more
    next => simp
  match event with
  | .delay => exact ⟨_, rfl, startNext_started race, starts race⟩
  | .ended i (.ok stream) => exact makesWay.elim
  | .ended i (.error error) =>
    have runs : race.attempts[i]? = some race.attempts[i] := List.getElem?_eq_getElem makesWay
    exact ⟨(race.fail i race.attempts[i] error).startNext, by simp [Race.select, runs],
      startNext_started _, starts (race.fail i race.attempts[i] error)⟩

theorem loop_nil_started (busy : race.waiting ≠ [] → race.attempts ≠ []) :
    (race.loop ([] : List (Event Stream Error))).1.started = race.started := by
  rw [loop, top]
  split
  next => rfl
  next ok =>
    split at ok
    next idle =>
      split at ok
      next => cases ok
      next isNext => exact absurd (isEmpty_iff.mp idle) (busy (by simp [isNext]))
    next =>
      cases ok
      rfl

theorem loop_append (runs : race.loop events = (running, none)) (event : Event Stream Error)
    (rest : List (Event Stream Error)) :
    race.loop (events ++ event :: rest) =
      match running.select event with
      | .inl stream => (running, some (.ok stream))
      | .inr race => race.loop rest := by
  induction events generalizing race with
  | nil =>
    rw [loop] at runs
    rw [nil_append, loop]
    split at runs
    next => cases runs
    next => cases runs; rfl
  | cons first events ih =>
    rw [loop] at runs
    rw [cons_append, loop]
    split at runs
    next => cases runs
    next =>
      split at runs
      next => cases runs
      next => exact ih runs

theorem select_inl {stream : Stream} (wins : race.select event = .inl stream) :
    ∃ i, event = .ended i (.ok stream) ∧ i < race.attempts.length := by
  match event with
  | .delay => cases wins
  | .ended i outcome =>
    simp only [Race.select] at wins
    split at wins
    next => cases wins
    next runs =>
      cases outcome with
      | ok =>
        cases wins
        exact ⟨i, rfl, (List.getElem?_eq_some_iff.mp runs).1⟩
      | error => cases wins

theorem loop_ok {stream : Stream} (won : (race.loop events).2 = some (.ok stream)) :
    ∃ before i after, events = before ++ .ended i (.ok stream) :: after ∧
      (race.loop before).2 = none ∧ i < (race.loop before).1.attempts.length := by
  induction events generalizing race with
  | nil =>
    rw [loop] at won
    split at won <;> cases won
  | cons event rest ih =>
    rw [loop] at won
    split at won
    next => cases won
    next ok =>
      split at won
      next wins =>
        cases won
        obtain ⟨i, rfl, inside⟩ := select_inl wins
        refine ⟨[], i, rest, rfl, ?_⟩
        rw [loop, ok]
        exact ⟨rfl, inside⟩
      next goesOn =>
        obtain ⟨before, i, after, rfl, runs, inside⟩ := ih won
        refine ⟨event :: before, i, after, rfl, ?_⟩
        rw [loop, ok]
        dsimp only
        rw [goesOn]
        exact ⟨runs, inside⟩

end Race

def race (addresses : List Address) (events : List (Event Stream Error)) :
    Race Address Error × Option (Except (ConnectError Error) Stream) :=
  Race.loop { waiting := addresses } events

/-- Addresses are started in their order, one at least runs until the race is over, and the next
    starts when one fails or takes its time; the race ends with the first connection it sees,
    and without one precisely when all have failed. -/
structure Raced (order : List Address) (events : List (Event Stream Error)) : Prop where
  inOrder : (race order events).1.started <+: order
  runs : (race order events).2 = none → (race order events).1.attempts ≠ []
  startsNext : ∀ event : Event Stream Error, (race order events).2 = none →
    (race order events).1.MakesWay event →
      (race order (events ++ [event])).1.started =
        order.take ((race order events).1.started.length + 1)
  wins : ∀ before i stream after, events = before ++ .ended i (.ok stream) :: after →
    (race order before).2 = none → i < (race order before).1.attempts.length →
      (race order events).2 = some (.ok stream)
  won : ∀ stream, (race order events).2 = some (.ok stream) →
    ∃ before i after, events = before ++ .ended i (.ok stream) :: after ∧
      (race order before).2 = none ∧ i < (race order before).1.attempts.length
  lost : ∀ error, (race order events).2 = some (.error error) →
    (race order events).1.started = order ∧ ((race order events).1.failed.map (·.1)).Perm order ∧
      error = Race.lostWith (race order events).1.failed
  allFailed : ((race order events).1.failed.map (·.1)).Perm order →
    ∃ error, (race order events).2 = some (.error error)
  noAddress : (race order events).2 = some (.error .noAddress) → order = []

theorem race_lost {order : List Address} {events : List (Event Stream Error)} {error : ConnectError Error}
    (lost : (race order events).2 = some (.error error)) :
    (race order events).1.started = order ∧ ((race order events).1.failed.map (·.1)).Perm order ∧
      error = Race.lostWith (race order events).1.failed := by
  obtain ⟨sound, finished⟩ := Race.loop_sound (Race.sound_start order) events
  exact sound.lost (finished error lost)

theorem race_noAddress {order : List Address} {events : List (Event Stream Error)}
    (lost : (race order events).2 = some (.error .noAddress)) : order = [] := by
  obtain ⟨-, all, same⟩ := race_lost lost
  rw [Race.lostWith] at same
  split at same
  · cases same
  next nothing =>
    rw [List.getLast?_eq_none_iff.mp nothing] at all
    exact nil_perm.mp all

theorem race_resolved (order : List Address) (events : List (Event Stream Error)) :
    (race order events).2 ≠ some (.error .unresolved) := by
  intro lost
  obtain ⟨-, -, same⟩ := race_lost lost
  rw [Race.lostWith] at same
  split at same <;> cases same

theorem race_startsNext {order : List Address} {events : List (Event Stream Error)}
    {event : Event Stream Error} (undecided : (race order events).2 = none)
    (makesWay : (race order events).1.MakesWay event) :
    (race order (events ++ [event])).1.started =
      order.take ((race order events).1.started.length + 1) := by
  have sound : (race order events).1.started ++ (race order events).1.waiting = order :=
    (Race.loop_sound (Race.sound_start order) events).1.inOrder
  have running : race order events = ((race order events).1, none) := Prod.ext rfl undecided
  obtain ⟨next, selected, started, busy⟩ := makesWay.select
  have met := Race.loop_append running event []
  rw [selected] at met
  calc (race order (events ++ [event])).1.started
      = (next.loop ([] : List (Event Stream Error))).1.started := by rw [race, met]
    _ = next.started := Race.loop_nil_started busy
    _ = _ := by rw [started, ← take_length_add_append, sound]

theorem race_allFailed {order : List Address} {events : List (Event Stream Error)}
    (all : ((race order events).1.failed.map (·.1)).Perm order) :
    ∃ error, (race order events).2 = some (.error error) := by
  have sound := (Race.loop_sound (Race.sound_start order) events).1
  by_contra undecided
  have runs : (race order events).1.attempts ≠ [] :=
    Race.loop_runs fun error lost => undecided ⟨error, lost⟩
  have started := congrArg List.length sound.inOrder
  have accounted := sound.accounted.length_eq
  have failed := all.length_eq
  have some_ := length_pos_iff.mpr runs
  simp only [length_append, race] at started accounted failed some_
  omega

theorem race_raced (order : List Address) (events : List (Event Stream Error)) : Raced order events := by
  constructor
  case inOrder => exact ⟨_, (Race.loop_sound (Race.sound_start order) events).1.inOrder⟩
  case runs =>
    intro undecided
    exact Race.loop_runs fun error lost => by cases undecided.symm.trans lost
  case startsNext => exact fun event => race_startsNext
  case wins =>
    rintro before i stream after rfl runs inside
    have next : race order before = ((race order before).1, none) := Prod.ext rfl runs
    have wins : (race order before).1.select (.ended i (.ok stream) : Event Stream Error) = .inl stream := by
      simp only [Race.select, List.getElem?_eq_getElem inside]
    have met := Race.loop_append next (.ended i (.ok stream)) after
    rw [wins] at met
    exact congrArg Prod.snd met
  case won => exact fun stream => Race.loop_ok
  case lost => exact fun error => race_lost
  case allFailed => exact race_allFailed
  case noAddress => exact race_noAddress

end Race

def tcpConnectHost {Stream Error : Type} (lookup : Except Error (List SocketAddress))
    (events : List (Event Stream Error)) : Option (Except (ConnectError Error) Stream) :=
  match lookup with
  | .error error => some (.error (.io error))
  | .ok addresses =>
    if addresses.isEmpty then some (.error .unresolved) else (race (interleaved addresses) events).2

/-- However the attempts end, connecting to a name is a race over all its addresses, by turns of
    family. -/
theorem connecting_tries_every_address {Stream Error : Type} :
    (∀ addresses, ByTurns addresses (interleaved addresses)) ∧
      (∀ (order : List SocketAddress) (events : List (Event Stream Error)), Raced order events) ∧
      ∀ addresses (events : List (Event Stream Error)),
        tcpConnectHost (.ok addresses) events ≠ some (.error .noAddress) ∧
          (tcpConnectHost (.ok addresses) events = some (.error .unresolved) ↔ addresses = []) := by
  refine ⟨interleaved_byTurns, race_raced, fun addresses events => ?_⟩
  cases addresses with
  | nil => exact ⟨by simp [tcpConnectHost], by simp [tcpConnectHost]⟩
  | cons first rest =>
    have order : interleaved (first :: rest) ≠ [] := by
      intro empty
      have perm := (interleaved_byTurns (first :: rest)).perm
      rw [empty] at perm
      cases nil_perm.mp perm
    constructor
    · exact fun nothing => order (race_noAddress nothing)
    · exact iff_of_false (race_resolved _ events) (by simp)

example (a b : SocketAddress) :
    let events : List (Event Nat Nat) := [.delay, .ended 0 (.error 111), .ended 0 (.ok 7)]
    (race [a, b] events).2 = some (.ok 7) ∧ (race [a, b] events).1.started = [a, b] :=
  ⟨rfl, rfl⟩

end Gozarbin.Egress
