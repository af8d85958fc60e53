import Mathlib.Data.List.Basic

/-! # Leaving alone what keeps failing

A tunnel that ends soon counts against its peer; after `limit` of them in a row whatever has the
key of the peer is left alone for `rest`. What happened is a log, the newest entry first.
`Legal` is the discipline, `LeftAlone` is what it is for, and `Tracks` ties both to the values a
program keeps.
-/

namespace Gozarbin.Strikes

open List

abbrev Resting (Key : Type) := List (Key × Nat)

namespace Resting

variable {Key : Type} [DecidableEq Key] {resting : Resting Key} {key : Key} {time : Nat}

def insert (key : Key) (time : Nat) (resting : Resting Key) : Resting Key :=
  (key, time) :: resting.filter (·.1 ≠ key)

def retain (now : Nat) (resting : Resting Key) : Resting Key := resting.filter (now < ·.2)

def keys (resting : Resting Key) : List Key := resting.map (·.1)

/-- The key rests until `time` at least. -/
def Covers (resting : Resting Key) (key : Key) (time : Nat) : Prop :=
  ∃ stop, time ≤ stop ∧ (key, stop) ∈ resting

omit [DecidableEq Key] in
theorem Covers.mem_keys (covers : resting.Covers key time) : key ∈ resting.keys := by
  obtain ⟨stop, -, mem⟩ := covers
  exact mem_map_of_mem mem

omit [DecidableEq Key] in
theorem Covers.retain (covers : resting.Covers key time) {now : Nat} (resting_still : now < time) :
    (resting.retain now).Covers key time := by
  obtain ⟨stop, long, mem⟩ := covers
  exact ⟨stop, long, mem_filter.mpr ⟨mem, by simp only [decide_eq_true_eq]; omega⟩⟩

theorem covers_insert (resting : Resting Key) (key : Key) (time : Nat) :
    (resting.insert key time).Covers key time := ⟨time, Nat.le_refl time, mem_cons_self⟩

theorem Covers.insert (covers : resting.Covers key time) {other : Key} {stop : Nat}
    (longer : time ≤ stop) : (resting.insert other stop).Covers key time := by
  by_cases same : key = other
  · subst same
    exact ⟨stop, longer, mem_cons_self⟩
  · obtain ⟨stop', long, mem⟩ := covers
    exact ⟨stop', long, mem_cons_of_mem _ (mem_filter.mpr ⟨mem, by simpa using same⟩)⟩

end Resting

inductive Entry (Peer : Type) where
  | tunnel (peer : Peer) (chosen lasted : Nat)
  | gaveUp (peer : Peer) (time : Nat)

section Log

variable {Peer Key : Type} (key : Peer → Key) (rest up limit : Nat)

def last : List (Entry Peer) → Option Peer
  | .tunnel peer _ _ :: _ => some peer
  | _ => none

def streak [DecidableEq Peer] : List (Entry Peer) → Nat
  | [] => 0
  | .gaveUp _ _ :: _ => 0
  | .tunnel peer _ lasted :: older =>
    if up ≤ lasted then 0 else (if last older = some peer then streak older else 0) + 1

def Free (log : List (Entry Peer)) (peer : Peer) (now : Nat) : Prop :=
  ∀ left time, .gaveUp left time ∈ log → key left = key peer → time + rest ≤ now

/-- A tunnel through the peer that ended soon. -/
def Short (peer : Peer) (entry : Entry Peer) : Prop :=
  ∃ chosen lasted, entry = .tunnel peer chosen lasted ∧ lasted < up

inductive Legal [DecidableEq Peer] : List (Entry Peer) → Prop where
  | nil : Legal []
  | tunnel {log : List (Entry Peer)} {peer : Peer} {chosen : Nat} (lasted : Nat) (legal : Legal log)
      (going : streak up log < limit) (free : Free key rest log peer chosen) :
      Legal (.tunnel peer chosen lasted :: log)
  | gaveUp {log : List (Entry Peer)} {peer : Peer} (time : Nat) (legal : Legal log)
      (failed : limit ≤ streak up log) (current : last log = some peer) :
      Legal (.gaveUp peer time :: log)

/-- What the discipline is for. -/
structure LeftAlone (log : List (Entry Peer)) : Prop where
  rested : log.Pairwise fun newer older => ∀ peer chosen lasted left time,
    newer = .tunnel peer chosen lasted → older = .gaveUp left time → key left = key peer →
      time + rest ≤ chosen
  givenUp : ∀ newer entry tunnels older peer, log = newer ++ entry :: (tunnels ++ older) →
    tunnels.length = limit → (∀ tunnel ∈ tunnels, Short up peer tunnel) →
      ∃ time, entry = .gaveUp peer time
  earned : ∀ newer peer time older, log = newer ++ .gaveUp peer time :: older →
    ∃ tunnels oldest, older = tunnels ++ oldest ∧ tunnels.length = limit ∧
      ∀ tunnel ∈ tunnels, Short up peer tunnel

variable {key rest up limit} [DecidableEq Peer] {log : List (Entry Peer)} {peer : Peer}

theorem streak_tunnel_of_lt {chosen lasted : Nat} (soon : lasted < up) :
    streak up (.tunnel peer chosen lasted :: log) =
      (if last log = some peer then streak up log else 0) + 1 := by
  simp [streak, Nat.not_le.mpr soon]

omit [DecidableEq Peer] in
theorem last_of_short {tunnels : List (Entry Peer)} (older : List (Entry Peer))
    (some_tunnel : 0 < tunnels.length)
    (short : ∀ tunnel ∈ tunnels, Short up peer tunnel) : last (tunnels ++ older) = some peer := by
  cases tunnels with
  | nil => cases some_tunnel
  | cons tunnel tunnels =>
    obtain ⟨chosen, lasted, rfl, -⟩ := short tunnel mem_cons_self
    rfl

theorem length_le_streak {tunnels : List (Entry Peer)} (older : List (Entry Peer))
    (short : ∀ tunnel ∈ tunnels, Short up peer tunnel) :
    tunnels.length ≤ streak up (tunnels ++ older) := by
  induction tunnels with
  | nil => exact Nat.zero_le _
  | cons tunnel tunnels ih =>
    obtain ⟨first, others⟩ := forall_mem_cons.mp short
    obtain ⟨chosen, lasted, rfl, soon⟩ := first
    rw [cons_append, streak_tunnel_of_lt soon, length_cons]
    cases tunnels with
    | nil => exact Nat.succ_le_succ (Nat.zero_le _)
    | cons _ _ =>
      rw [if_pos (last_of_short older (by simp) others)]
      exact Nat.succ_le_succ (ih others)

theorem exists_short_of_streak {n : Nat} (many : n ≤ streak up log) (current : last log = some peer) :
    ∃ tunnels older, log = tunnels ++ older ∧ tunnels.length = n ∧
      ∀ tunnel ∈ tunnels, Short up peer tunnel := by
  induction n generalizing log with
  | zero => exact ⟨[], log, rfl, rfl, by simp⟩
  | succ n ih =>
    match log with
    | [] => cases current
    | .gaveUp _ _ :: _ => cases current
    | .tunnel peer' chosen lasted :: older =>
      cases current
      have soon : lasted < up := by
        by_contra long
        simp [streak, Nat.not_lt.mp long] at many
      rw [streak_tunnel_of_lt soon] at many
      have short : Short up peer (.tunnel peer chosen lasted) := ⟨chosen, lasted, rfl, soon⟩
      by_cases same : last older = some peer
      · rw [if_pos same] at many
        obtain ⟨tunnels, oldest, rfl, length, all⟩ := ih (Nat.le_of_succ_le_succ many) same
        exact ⟨.tunnel peer chosen lasted :: tunnels, oldest, rfl, by rw [length_cons, length],
          forall_mem_cons.mpr ⟨short, all⟩⟩
      · rw [if_neg same] at many
        obtain rfl : n = 0 := by omega
        exact ⟨[.tunnel peer chosen lasted], older, rfl, rfl, by simpa using short⟩

theorem Legal.tail {entry : Entry Peer} (legal : Legal key rest up limit (entry :: log)) :
    Legal key rest up limit log := by
  cases legal with
  | tunnel _ legal => exact legal
  | gaveUp _ legal => exact legal

theorem Legal.of_append {newer : List (Entry Peer)} (legal : Legal key rest up limit (newer ++ log)) :
    Legal key rest up limit log := by
  induction newer with
  | nil => exact legal
  | cons entry newer ih => exact ih legal.tail

theorem Legal.rested (legal : Legal key rest up limit log) :
    log.Pairwise fun newer older => ∀ peer chosen lasted left time,
      newer = .tunnel peer chosen lasted → older = .gaveUp left time → key left = key peer →
        time + rest ≤ chosen := by
  induction legal with
  | nil => exact .nil
  | gaveUp time legal failed current ih => exact .cons (by simp) ih
  | tunnel lasted legal going free ih =>
    refine .cons (fun older mem peer chosen lasted left time new old same => ?_) ih
    cases new
    exact free left time (old ▸ mem) same

theorem Legal.leftAlone (some_limit : 0 < limit) (legal : Legal key rest up limit log) :
    LeftAlone key rest up limit log where
  rested := legal.rested
  givenUp newer entry tunnels older peer eq length short := by
    subst eq
    have many := length_le_streak older short
    have current := last_of_short older (by omega) short
    cases legal.of_append with
    | tunnel lasted legal going => omega
    | gaveUp time legal failed current' =>
      cases current.symm.trans current'
      exact ⟨time, rfl⟩
  earned newer peer time older eq := by
    subst eq
    cases legal.of_append with
    | gaveUp _ _ failed current => exact exists_short_of_streak failed current

variable {current : Option Peer} {count clock : Nat} {resting : Resting Key}

structure Tracks (key : Peer → Key) (rest up limit : Nat) (current : Option Peer) (count : Nat)
    (resting : Resting Key) (clock : Nat) (log : List (Entry Peer)) : Prop where
  legal : Legal key rest up limit log
  current : current = last log
  count : count = streak up log
  past : ∀ left time, .gaveUp left time ∈ log → time ≤ clock
  rests : ∀ left time, .gaveUp left time ∈ log →
    time + rest ≤ clock ∨ resting.Covers (key left) (time + rest)
  free : ∀ peer, last log = some peer → Free key rest log peer clock

namespace Tracks

theorem start (clock : Nat) : Tracks key rest up limit none 0 [] clock [] where
  legal := .nil
  current := rfl
  count := rfl
  past := by simp
  rests := by simp
  free := by simp [last]

theorem wait (tracks : Tracks key rest up limit current count resting clock log) (n : Nat) :
    Tracks key rest up limit current count resting (clock + n) log where
  legal := tracks.legal
  current := tracks.current
  count := tracks.count
  past left time mem := Nat.le_add_right_of_le (tracks.past left time mem)
  rests left time mem := (tracks.rests left time mem).imp_left Nat.le_add_right_of_le
  free peer last left time mem same :=
    Nat.le_add_right_of_le (tracks.free peer last left time mem same)

theorem retain (tracks : Tracks key rest up limit current count resting clock log) :
    Tracks key rest up limit current count (resting.retain clock) clock log where
  legal := tracks.legal
  current := tracks.current
  count := tracks.count
  past := tracks.past
  free := tracks.free
  rests left time mem := by
    by_cases rested : time + rest ≤ clock
    · exact .inl rested
    · have covers := (tracks.rests left time mem).resolve_left rested
      exact .inr (covers.retain (Nat.lt_of_not_le rested))

theorem exists_current (tracks : Tracks key rest up limit current count resting clock log)
    (some_count : 0 < count) : ∃ peer, current = some peer := by
  rw [tracks.current]
  rw [tracks.count] at some_count
  match log with
  | [] => cases some_count
  | .gaveUp _ _ :: _ => cases some_count
  | .tunnel peer _ _ :: _ => exact ⟨peer, rfl⟩

theorem giveUp [DecidableEq Key] (tracks : Tracks key rest up limit (some peer) count resting clock log)
    (failed : limit ≤ count) :
    Tracks key rest up limit none 0 (resting.insert (key peer) (clock + rest)) clock
      (.gaveUp peer clock :: log) where
  legal := .gaveUp clock tracks.legal (tracks.count ▸ failed) tracks.current.symm
  current := rfl
  count := rfl
  past left time mem := by
    rcases mem_cons.mp mem with eq | mem
    · cases eq
      exact Nat.le_refl _
    · exact tracks.past left time mem
  rests left time mem := by
    rcases mem_cons.mp mem with eq | mem
    · cases eq
      exact .inr (resting.covers_insert _ _)
    · have past := tracks.past left time mem
      exact (tracks.rests left time mem).imp_right fun covers => covers.insert (by omega)
  free := by simp [last]

theorem free_of_not_mem_keys (tracks : Tracks key rest up limit current count resting clock log)
    (allowed : key peer ∉ resting.keys) : Free key rest log peer clock := by
  intro left time mem same
  refine (tracks.rests left time mem).resolve_right fun covers => allowed ?_
  exact same ▸ covers.mem_keys

theorem tunnel (tracks : Tracks key rest up limit current count resting clock log) {chosen : Nat}
    (going : count < limit) (free : Free key rest log peer chosen) (made : chosen ≤ clock)
    (lasted : Nat) :
    Tracks key rest up limit (some peer)
      (if up ≤ lasted then 0 else (if current = some peer then count else 0) + 1) resting clock
      (.tunnel peer chosen lasted :: log) where
  legal := .tunnel lasted tracks.legal (tracks.count ▸ going) free
  current := rfl
  count := by rw [streak, tracks.current, tracks.count]
  past left time mem := tracks.past left time (by simpa using mem)
  rests left time mem := tracks.rests left time (by simpa using mem)
  free peer' eq left time mem same := by
    cases eq
    exact Nat.le_trans (free left time (by simpa using mem) same) made

end Tracks

end Log

end Gozarbin.Strikes
