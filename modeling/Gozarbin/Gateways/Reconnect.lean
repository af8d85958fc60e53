import Gozarbin.Gateways.Prober
import Gozarbin.Lib.Runs
import Gozarbin.Lib.Strikes
import Gozarbin.Lib.Text

/-! # Reconnecting

`run_masque` and `run_wireguard` choose a peer, run a tunnel through it until it ends, and begin
again. A peer whose tunnels end soon, twice in a row, is left out of the scans for a while. A
round of a loop is a step, which is given what is checked and scanned. Times are in nanoseconds.
-/

namespace Gozarbin.Gateways

open Runs Strikes

def secs (n : Nat) : Nat := n * 1000000000

def tunnelStayedUp : Nat := secs 300

def countTunnelEnd (inARow lasted : Nat) : Nat :=
  if tunnelStayedUp ≤ lasted then 0 else if inARow < 4294967295 then inARow + 1 else inARow

theorem countTunnelEnd_ite {inARow : Nat} (few : inARow < 4294967295) (same : Prop) [Decidable same]
    (lasted : Nat) : countTunnelEnd (if same then inARow else 0) lasted =
      if tunnelStayedUp ≤ lasted then 0 else (if same then inARow else 0) + 1 := by
  have fewer : (if same then inARow else 0) < 4294967295 := by
    split <;> omega
  rw [countTunnelEnd, if_pos fewer]

def masqueGatewayStrikes : Nat := 2
def masqueGatewayRest : Nat := secs 300

structure GatewayStrikes where
  current : Option SocketAddr := none
  inARow : Nat := 0
  resting : Resting IpAddr := []

namespace GatewayStrikes

def usingPeer (peer : SocketAddr) (strikes : GatewayStrikes) : GatewayStrikes :=
  if strikes.current ≠ some peer then { strikes with current := some peer, inARow := 0 } else strikes

def ended (lasted : Nat) (strikes : GatewayStrikes) : GatewayStrikes :=
  { strikes with inARow := countTunnelEnd strikes.inARow lasted }

theorem usingPeer_ended (strikes : GatewayStrikes) (peer : SocketAddr) (lasted : Nat) :
    (strikes.usingPeer peer).ended lasted = { strikes with
      current := some peer
      inARow := countTunnelEnd (if strikes.current = some peer then strikes.inARow else 0) lasted } := by
  by_cases same : strikes.current = some peer
  · simp [usingPeer, ended, same]
  · simp [usingPeer, ended, same]

def giveUp (now rest : Nat) (strikes : GatewayStrikes) : Option SocketAddr × GatewayStrikes :=
  if strikes.inARow < masqueGatewayStrikes then (none, strikes)
  else
    match strikes.current with
    | none => (none, { strikes with inARow := 0 })
    | some peer =>
      (some peer,
        { inARow := 0, current := none, resting := strikes.resting.insert peer.ip (now + rest) })

def leftOut (now : Nat) (strikes : GatewayStrikes) : List IpAddr × GatewayStrikes :=
  let resting := strikes.resting.retain now
  (resting.keys, { strikes with resting })

end GatewayStrikes

/-- The peers known at the start, assigned or used last, each with whether it answers its check. -/
structure Known where
  assigned : Option (SocketAddr × Bool)
  ring : List (SocketAddr × Bool)
  wantQuickReconnect : Bool

def Known.quickPeer (known : Known) : Option SocketAddr :=
  (known.assigned.filter (·.2)).map (·.1) <|>
    if known.wantQuickReconnect then (known.ring.find? (·.2)).map (·.1) else none

/-- What a round of the loop meets. -/
structure MasqueRound where
  pause : Nat
  verified : Bool
  verifying : Nat
  scan : MasqueScan
  scanning : Nat
  lasted : Nat

structure MasqueRun where
  forced : Option (Option SocketAddr)
  quickPeer : Option SocketAddr
  lastGoodPeer : Option SocketAddr := none
  strikes : GatewayStrikes := {}
  clock : Nat := 0
  log : List (Entry SocketAddr) := []

/-- The peer of a round. -/
inductive Chosen (Peer : Type) where
  | peer (peer : Peer) (time : Nat)
  | nothing
  | badPeer

namespace MasqueRun

def start (forced : Option (Option SocketAddr)) (known : Known) : MasqueRun where
  forced := forced
  quickPeer := if forced.isNone then known.quickPeer else none

def leave (run : MasqueRun) (pause : Nat) : MasqueRun :=
  let now := run.clock + pause
  if run.forced.isNone then
    match run.strikes.giveUp now masqueGatewayRest with
    | (some peer, strikes) =>
      { run with strikes, lastGoodPeer := none, clock := now, log := .gaveUp peer now :: run.log }
    | (none, strikes) => { run with strikes, clock := now }
  else { run with clock := now }

def choose (run : MasqueRun) (round : MasqueRound) : MasqueRun × Chosen SocketAddr :=
  match run.quickPeer with
  | some peer => ({ run with quickPeer := none }, .peer peer run.clock)
  | none =>
    match run.lastGoodPeer.filter fun _ => round.verified with
    | some peer => ({ run with clock := run.clock + round.verifying }, .peer peer run.clock)
    | none =>
      let now := run.clock + round.verifying
      match run.forced with
      | some (some peer) => ({ run with clock := now }, .peer peer now)
      | some none => (run, .badPeer)
      | none =>
        let (avoid, strikes) := run.strikes.leftOut now
        let run := { run with strikes, clock := now + round.scanning }
        match huntMasquePeer round.scan avoid with
        | some peer => (run, .peer peer now)
        | none => (run, .nothing)

def tunnel (run : MasqueRun) (peer : SocketAddr) (chosen lasted : Nat) : MasqueRun :=
  { run with
    lastGoodPeer := some peer
    strikes := (run.strikes.usingPeer peer).ended lasted
    clock := run.clock + lasted
    log := .tunnel peer chosen lasted :: run.log }

def round (run : MasqueRun) (round : MasqueRound) : Option MasqueRun :=
  match (run.leave round.pause).choose round with
  | (run, .peer peer time) => some (run.tunnel peer time round.lasted)
  | (run, .nothing) => some run
  | (_, .badPeer) => none

end MasqueRun

def wgEndpointCooldown (given : Option Nat) : Nat :=
  secs (match given.filter (0 < ·) with
    | some n => if n ≤ 86400 then n else 86400
    | none => 300)

def maxConsecutiveFails : Nat := 2

/-- An endpoint with the profile it answers to, by its settings and its name. -/
structure Endpoint (Profile : Type) where
  peer : SocketAddr
  profile : Profile
  name : Text

variable {Profile : Type}

structure WgKnown (Profile : Type) where
  assigned : Option SocketAddr
  answers : Nat → Bool
  ring : List (SocketAddr × Bool)
  wantQuickReconnect : Bool
  profile : Profile
  name : Text

def WgKnown.quick (known : WgKnown Profile) (candidates : List (Text × Profile)) :
    Option (Endpoint Profile) :=
  let assigned := known.assigned.bind fun peer =>
    (candidates.zipIdx.find? fun (_, i) => known.answers i).map fun ((name, profile), _) =>
      ⟨peer, profile, name⟩
  assigned <|>
    if known.wantQuickReconnect then
      (known.ring.find? (·.2)).map fun (peer, _) => ⟨peer, known.profile, known.name⟩
    else none

def huntWgPeer (candidates : List (Text × Profile)) (scans : Nat → WgScan)
    (excluded : List SocketAddr) : Option (Endpoint Profile) :=
  candidates.zipIdx.findSome? fun ((name, profile), i) =>
    (huntWgPeerWithProfile (scans i) excluded).map fun peer => ⟨peer, profile, name⟩

theorem huntWgPeer_not_mem {candidates : List (Text × Profile)} {scans : Nat → WgScan}
    {excluded : List SocketAddr} {endpoint : Endpoint Profile}
    (found : huntWgPeer candidates scans excluded = some endpoint) : endpoint.peer ∉ excluded := by
  obtain ⟨candidate, -, hunted⟩ := List.exists_of_findSome?_eq_some found
  obtain ⟨peer, picked, rfl⟩ := Option.map_eq_some_iff.mp hunted
  exact huntWgPeerWithProfile_not_mem picked

structure WgRound where
  pause : Nat
  verified : Bool
  verifying : Nat
  answers : Nat → Bool
  scans : Nat → WgScan
  scanning : Nat
  lasted : Nat

structure WgRun (Profile : Type) where
  candidates : List (Text × Profile)
  forced : Option (Option SocketAddr)
  cooldown : Option Nat
  quick : Option (Endpoint Profile)
  lastGood : Option (Endpoint Profile) := none
  consecutiveFailsOnPeer : Nat := 0
  endpointCooldowns : Resting SocketAddr := []
  clock : Nat := 0
  log : List (Entry SocketAddr) := []

namespace WgRun

def start (candidates : List (Text × Profile)) (forced : Option (Option SocketAddr))
    (cooldown : Option Nat) (known : WgKnown Profile) : WgRun Profile where
  candidates := candidates
  forced := forced
  cooldown := cooldown
  quick := if forced.isNone then known.quick candidates else none

def leave (run : WgRun Profile) (pause : Nat) : WgRun Profile :=
  let now := run.clock + pause
  let cooldowns := run.endpointCooldowns.retain now
  if maxConsecutiveFails ≤ run.consecutiveFailsOnPeer then
    match run.lastGood with
    | some endpoint =>
      { run with
        lastGood := none
        consecutiveFailsOnPeer := 0
        endpointCooldowns := cooldowns.insert endpoint.peer (now + wgEndpointCooldown run.cooldown)
        clock := now
        log := .gaveUp endpoint.peer now :: run.log }
    | none => { run with consecutiveFailsOnPeer := 0, endpointCooldowns := cooldowns, clock := now }
  else { run with endpointCooldowns := cooldowns, clock := now }

def choose (run : WgRun Profile) (round : WgRound) : WgRun Profile × Chosen (Endpoint Profile) :=
  match run.quick with
  | some endpoint => ({ run with quick := none }, .peer endpoint run.clock)
  | none =>
    let now := run.clock + round.verifying
    match run.lastGood.filter fun _ => round.verified with
    | some endpoint => ({ run with clock := now }, .peer endpoint run.clock)
    | none =>
      let later := { run with clock := now + round.scanning }
      match run.forced with
      | some (some peer) =>
        match run.candidates.zipIdx.find? fun (_, i) => round.answers i with
        | some ((name, profile), _) => (later, .peer ⟨peer, profile, name⟩ now)
        | none => (later, .nothing)
      | some none => (run, .badPeer)
      | none =>
        -- What is excluded is what rests since the top of the loop.
        match huntWgPeer run.candidates round.scans run.endpointCooldowns.keys with
        | some endpoint => (later, .peer endpoint run.clock)
        | none => (later, .nothing)

def tunnel (run : WgRun Profile) (endpoint : Endpoint Profile) (chosen lasted : Nat) :
    WgRun Profile :=
  let same := run.lastGood.map (·.peer) = some endpoint.peer
  let fails := if same then run.consecutiveFailsOnPeer else 0
  { run with
    lastGood := some endpoint
    consecutiveFailsOnPeer := countTunnelEnd fails lasted
    clock := run.clock + lasted
    log := .tunnel endpoint.peer chosen lasted :: run.log }

def round (run : WgRun Profile) (round : WgRound) : Option (WgRun Profile) :=
  match (run.leave round.pause).choose round with
  | (run, .peer endpoint time) => some (run.tunnel endpoint time round.lasted)
  | (run, .nothing) => some run
  | (_, .badPeer) => none

end WgRun

namespace MasqueRun

variable {run run' : MasqueRun}

/-- What a run keeps is what its log says. -/
structure Sound (run : MasqueRun) : Prop where
  tracks : Tracks SocketAddr.ip masqueGatewayRest tunnelStayedUp masqueGatewayStrikes
    run.strikes.current run.strikes.inARow run.strikes.resting run.clock run.log
  lastGood : run.lastGoodPeer = run.strikes.current
  quick : run.quickPeer ≠ none → run.log = []
  unforced : run.forced = none

theorem start_sound (known : Known) : (start none known).Sound where
  tracks := .start 0
  lastGood := rfl
  quick _ := rfl
  unforced := rfl

theorem Sound.leave (sound : run.Sound) (pause : Nat) :
    (run.leave pause).Sound ∧ (run.leave pause).strikes.inARow < masqueGatewayStrikes := by
  have tracks := sound.tracks.wait pause
  simp only [MasqueRun.leave, sound.unforced, Option.isNone_none, if_true, GatewayStrikes.giveUp]
  by_cases going : run.strikes.inARow < masqueGatewayStrikes
  · rw [if_pos going]
    exact ⟨⟨tracks, sound.lastGood, sound.quick, rfl⟩, going⟩
  · rw [if_neg going]
    have failed := Nat.not_lt.mp going
    obtain ⟨peer, current⟩ : ∃ peer, run.strikes.current = some peer :=
      tracks.exists_current (Nat.lt_of_lt_of_le (by decide) failed)
    rw [current] at tracks
    simp only [current]
    refine ⟨⟨tracks.giveUp failed, rfl, fun quick => ?_, rfl⟩, by decide⟩
    -- A run with a quick peer has no log yet, and so nothing that failed.
    have empty := tracks.current
    rw [sound.quick quick] at empty
    cases empty

/-- What a choice leads to. -/
structure Choice (run run' : MasqueRun) (chosen : Chosen SocketAddr) : Prop where
  sound : run'.Sound
  quick : run'.quickPeer = none
  log : run'.log = run.log
  count : run'.strikes.inARow = run.strikes.inARow
  free : ∀ peer time, chosen = .peer peer time →
    time ≤ run'.clock ∧ Free SocketAddr.ip masqueGatewayRest run.log peer time

theorem Sound.choose (sound : run.Sound) (round : MasqueRound) :
    Choice run (run.choose round).1 (run.choose round).2 := by
  have tracks := sound.tracks
  have lastGood := sound.lastGood
  simp only [MasqueRun.choose]
  split
  case h_1 peer quick =>
    have empty := sound.quick (by simp [quick])
    refine ⟨⟨tracks, lastGood, by simp, sound.unforced⟩, rfl, rfl, rfl, fun _ _ eq => ?_⟩
    cases eq
    exact ⟨Nat.le_refl _, by simp [Free, empty]⟩
  case h_2 quick =>
    split
    case h_1 peer verified =>
      refine ⟨⟨tracks.wait _, lastGood, sound.quick, sound.unforced⟩, quick, rfl, rfl,
        fun _ _ eq => ?_⟩
      cases eq
      obtain ⟨last, -⟩ := Option.filter_eq_some_iff.mp verified
      exact ⟨Nat.le_add_right _ _, tracks.free peer (by rw [← tracks.current, ← lastGood, last])⟩
    case h_2 =>
      simp only [sound.unforced]
      have scanned := (tracks.wait round.verifying).retain
      split
      case h_1 peer found =>
        refine ⟨⟨scanned.wait _, lastGood, sound.quick, rfl⟩, quick, rfl, rfl,
          fun _ _ eq => ?_⟩
        cases eq
        exact ⟨Nat.le_add_right _ _, scanned.free_of_not_mem_keys (huntMasquePeer_not_mem found)⟩
      case h_2 =>
        exact ⟨⟨scanned.wait _, lastGood, sound.quick, rfl⟩, quick, rfl, rfl,
          fun _ _ eq => nomatch eq⟩

theorem Sound.tunnel (sound : run.Sound) (quick : run.quickPeer = none)
    (going : run.strikes.inARow < masqueGatewayStrikes) {peer : SocketAddr} {chosen : Nat}
    (made : chosen ≤ run.clock) (free : Free SocketAddr.ip masqueGatewayRest run.log peer chosen)
    (lasted : Nat) : (run.tunnel peer chosen lasted).Sound := by
  have few : run.strikes.inARow < 4294967295 := Nat.lt_trans going (by decide)
  have tracks := (sound.tracks.tunnel going free made lasted).wait lasted
  rw [← countTunnelEnd_ite few] at tracks
  rw [MasqueRun.tunnel, GatewayStrikes.usingPeer_ended]
  exact ⟨tracks, rfl, fun some_quick => absurd quick some_quick, sound.unforced⟩

theorem Sound.round (sound : run.Sound) {round : MasqueRound} (next : run.round round = some run') :
    run'.Sound := by
  obtain ⟨left, going⟩ := sound.leave round.pause
  have choice := left.choose round
  simp only [MasqueRun.round] at next
  split at next
  case h_1 run₁ peer time eq =>
    cases next
    rw [eq] at choice
    obtain ⟨made, free⟩ := choice.free peer time rfl
    exact choice.sound.tunnel choice.quick (choice.count ▸ going) made (choice.log ▸ free) _
  case h_2 run₁ eq =>
    cases next
    rw [eq] at choice
    exact choice.sound
  case h_3 => cases next

end MasqueRun

namespace WgRun

variable {cooldown : Option Nat} {run run' : WgRun Profile}

structure Sound (cooldown : Option Nat) (run : WgRun Profile) : Prop where
  tracks : Tracks id (wgEndpointCooldown cooldown) tunnelStayedUp maxConsecutiveFails
    (run.lastGood.map (·.peer)) run.consecutiveFailsOnPeer run.endpointCooldowns run.clock run.log
  quick : run.quick ≠ none → run.log = []
  unforced : run.forced = none
  given : run.cooldown = cooldown

theorem start_sound (candidates : List (Text × Profile)) (cooldown : Option Nat)
    (known : WgKnown Profile) : (start candidates none cooldown known).Sound cooldown where
  tracks := .start 0
  quick _ := rfl
  unforced := rfl
  given := rfl

theorem Sound.leave (sound : run.Sound cooldown) (pause : Nat) :
    (run.leave pause).Sound cooldown ∧
      (run.leave pause).consecutiveFailsOnPeer < maxConsecutiveFails := by
  have tracks := (sound.tracks.wait pause).retain
  simp only [WgRun.leave]
  by_cases failed : maxConsecutiveFails ≤ run.consecutiveFailsOnPeer
  · rw [if_pos failed]
    obtain ⟨peer, current⟩ := tracks.exists_current (Nat.lt_of_lt_of_le (by decide) failed)
    obtain ⟨endpoint, last, rfl⟩ := Option.map_eq_some_iff.mp current
    simp only [last, sound.given]
    rw [last, Option.map_some] at tracks
    refine ⟨⟨tracks.giveUp failed, fun quick => ?_, sound.unforced, rfl⟩, by decide⟩
    have empty := tracks.current
    rw [sound.quick quick] at empty
    cases empty
  · rw [if_neg failed]
    exact ⟨⟨tracks, sound.quick, sound.unforced, sound.given⟩, Nat.lt_of_not_le failed⟩

structure Choice (cooldown : Option Nat) (run run' : WgRun Profile)
    (chosen : Chosen (Endpoint Profile)) : Prop where
  sound : run'.Sound cooldown
  quick : run'.quick = none
  log : run'.log = run.log
  count : run'.consecutiveFailsOnPeer = run.consecutiveFailsOnPeer
  free : ∀ endpoint time, chosen = .peer endpoint time →
    time ≤ run'.clock ∧ Free id (wgEndpointCooldown cooldown) run.log endpoint.peer time

theorem Sound.choose (sound : run.Sound cooldown) (round : WgRound) :
    Choice cooldown run (run.choose round).1 (run.choose round).2 := by
  have tracks := sound.tracks
  simp only [WgRun.choose]
  split
  case h_1 endpoint quick =>
    have empty := sound.quick (by simp [quick])
    refine ⟨⟨tracks, by simp, sound.unforced, sound.given⟩, rfl, rfl, rfl, fun _ _ eq => ?_⟩
    cases eq
    exact ⟨Nat.le_refl _, by simp [Free, empty]⟩
  case h_2 quick =>
    split
    case h_1 endpoint verified =>
      refine ⟨⟨tracks.wait _, sound.quick, sound.unforced, sound.given⟩, quick, rfl, rfl,
        fun _ _ eq => ?_⟩
      cases eq
      obtain ⟨last, -⟩ := Option.filter_eq_some_iff.mp verified
      exact ⟨Nat.le_add_right _ _, tracks.free endpoint.peer (by rw [← tracks.current, last]; rfl)⟩
    case h_2 =>
      simp only [sound.unforced]
      have later := (tracks.wait round.verifying).wait round.scanning
      split
      case h_1 endpoint found =>
        refine ⟨⟨later, sound.quick, rfl, sound.given⟩, quick, rfl, rfl, fun _ _ eq => ?_⟩
        cases eq
        have free : Free id _ run.log endpoint.peer run.clock :=
          tracks.free_of_not_mem_keys (huntWgPeer_not_mem found)
        exact ⟨Nat.le_trans (Nat.le_add_right _ _) (Nat.le_add_right _ _), free⟩
      case h_2 =>
        exact ⟨⟨later, sound.quick, rfl, sound.given⟩, quick, rfl, rfl, fun _ _ eq => nomatch eq⟩

theorem Sound.tunnel (sound : run.Sound cooldown) (quick : run.quick = none)
    (going : run.consecutiveFailsOnPeer < maxConsecutiveFails) {endpoint : Endpoint Profile}
    {chosen : Nat} (made : chosen ≤ run.clock)
    (free : Free id (wgEndpointCooldown cooldown) run.log endpoint.peer chosen) (lasted : Nat) :
    (run.tunnel endpoint chosen lasted).Sound cooldown := by
  have few : run.consecutiveFailsOnPeer < 4294967295 := Nat.lt_trans going (by decide)
  have tracks := (sound.tracks.tunnel going free made lasted).wait lasted
  rw [← countTunnelEnd_ite few] at tracks
  exact ⟨tracks, fun some_quick => absurd quick some_quick, sound.unforced, sound.given⟩

theorem Sound.round (sound : run.Sound cooldown) {round : WgRound}
    (next : run.round round = some run') : run'.Sound cooldown := by
  obtain ⟨left, going⟩ := sound.leave round.pause
  have choice := left.choose round
  simp only [WgRun.round] at next
  split at next
  case h_1 run₁ endpoint time eq =>
    cases next
    rw [eq] at choice
    obtain ⟨made, free⟩ := choice.free endpoint time rfl
    exact choice.sound.tunnel choice.quick (choice.count ▸ going) made (choice.log ▸ free) _
  case h_2 run₁ eq =>
    cases next
    rw [eq] at choice
    exact choice.sound
  case h_3 => cases next

end WgRun

/-- The log of a run and its count, as they should be. -/
structure Spares {Key : Type} (key : SocketAddr → Key) (rest limit : Nat)
    (log : List (Entry SocketAddr)) (count : Nat) : Prop where
  leftAlone : LeftAlone key rest tunnelStayedUp limit log
  cleared : ∀ peer chosen lasted older, log = .tunnel peer chosen lasted :: older →
    tunnelStayedUp ≤ lasted → count = 0

theorem spares_of_tracks {Key : Type} {key : SocketAddr → Key} {rest limit count clock : Nat}
    {current : Option SocketAddr} {resting : Resting Key} {log : List (Entry SocketAddr)}
    (some_limit : 0 < limit)
    (tracks : Tracks key rest tunnelStayedUp limit current count resting clock log) :
    Spares key rest limit log count where
  leftAlone := tracks.legal.leftAlone some_limit
  cleared peer chosen lasted older eq long := by
    rw [tracks.count, eq, streak, if_pos long]

/-- A MASQUE gateway that failed twice in a row is left alone, by its address, for
    `MASQUE_GATEWAY_REST`, and a WireGuard endpoint, by its address and port, for
    `wg_endpoint_cooldown`. -/
theorem failing_peers_left_alone :
    (∀ known rounds, Always MasqueRun.round
      (fun run => Spares SocketAddr.ip masqueGatewayRest 2 run.log run.strikes.inARow)
      (MasqueRun.start none known) rounds) ∧
    ∀ (Profile : Type) (candidates : List (Text × Profile)) cooldown known rounds,
      Always WgRun.round
        (fun run => Spares id (wgEndpointCooldown cooldown) 2 run.log run.consecutiveFailsOnPeer)
        (WgRun.start candidates none cooldown known) rounds := by
  refine ⟨fun known rounds => ?_, fun Profile candidates cooldown known rounds => ?_⟩
  · have always : Always MasqueRun.round MasqueRun.Sound (MasqueRun.start none known) rounds :=
      always_of_kept (C := fun _ _ => True) (fun _ _ _ sound _ next => sound.round next)
        (MasqueRun.start_sound known) (.of_forall fun _ _ => trivial)
    exact always.mono fun run sound => spares_of_tracks (by decide) sound.tracks
  · have always : Always WgRun.round (WgRun.Sound cooldown)
        (WgRun.start candidates none cooldown known) rounds :=
      always_of_kept (C := fun _ _ => True) (fun _ _ _ sound _ next => sound.round next)
        (WgRun.start_sound candidates cooldown known) (.of_forall fun _ _ => trivial)
    exact always.mono fun run sound => spares_of_tracks (by decide) sound.tracks

def shortRound (candidates : List Candidate) : MasqueRound where
  pause := secs 2
  verified := true
  verifying := 0
  scan := ⟨⟨secs 45, 0, 1, true⟩, candidates, 0, [⟨0, some (0, some 1), 0⟩]⟩
  scanning := 0
  lasted := secs 10

example :
    let gateway (last : BitVec 8) : SocketAddr := ⟨.v4 (.new 162 159 198 last), 443⟩
    let candidates : List Candidate := [((gateway 1).ip, 500), ((gateway 2).ip, 443)]
    ((run MasqueRun.round (MasqueRun.start none ⟨some (gateway 1, true), [], false⟩)
      (List.replicate 3 (shortRound candidates))).bind (·.lastGoodPeer)) = some (gateway 2) := by
  decide

end Gozarbin.Gateways
