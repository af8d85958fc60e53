import Gozarbin.Gateways.Pinned
import Gozarbin.Gateways.Reconnect
import Gozarbin.Gateways.WgCandidates

/-! # Classic gool

`run_gool` runs one WireGuard tunnel inside another. The endpoints of the two hops are given by
hand or come from a scan, and stay until two tunnels in a row ended soon. The hops never share
an address.
-/

namespace Gozarbin.Gateways

open List Text AddrText Drawing Distinct

def wgPorts : List UInt16 :=
  [2408, 500, 1701, 4500, 854, 859, 864, 878, 880, 890, 891, 894, 903, 908, 928, 934, 939, 942, 943, 945,
   946, 955, 968, 987, 988, 1002, 1010, 1014, 1018, 1070, 1074, 1180, 1387, 1843, 2371, 2506, 3138, 3476,
   3581, 3854, 4177, 4198, 4233, 5279, 5956, 7103, 7152, 7156, 7281, 7559, 8319, 8742, 8854, 8886]

inductive WgScanMode where
  | turbo
  | balanced
  | thorough
  | verified
  | ironclad
  deriving DecidableEq

namespace WgScanMode

def strategy : WgScanMode → Strategy
  | turbo => ⟨secs 30, secs 0, 1, true⟩
  | balanced => ⟨secs 80, secs 12, 5, false⟩
  | thorough => ⟨secs 250, secs 25, 0, false⟩
  | verified => ⟨secs 60, secs 8, 6, false⟩
  | ironclad => ⟨secs 180, secs 15, 3, false⟩

def sampling : WgScanMode → Sampling
  | turbo => ⟨false, 40⟩
  | balanced => ⟨false, 120⟩
  | thorough => ⟨true, 0⟩
  | verified => ⟨false, 48⟩
  | ironclad => ⟨false, 120⟩

def poolPortWaves : WgScanMode → Nat
  | turbo => 1
  | balanced => 3
  | thorough => 4
  | verified => 4
  | ironclad => 3

end WgScanMode

/-- What a scan meets: the addresses it samples, and the answers. -/
structure GoolScan (mode : WgScanMode) where
  ip : IpScan
  zeroTrustMode : Bool
  addresses : List IpAddr
  sampled : Yields (wgAddresses mode.sampling ip zeroTrustMode) addresses
  started : Nat
  turns : List Turn

variable {mode : WgScanMode}

def GoolScan.wgScan (given : GoolScan mode) : WgScan where
  st := mode.strategy
  poolPortWaves := mode.poolPortWaves
  ports := wgPorts
  ips := given.addresses
  started := given.started
  turns := given.turns

def selectWgPeers (scan : Option (GoolScan mode)) (want : Nat) (avoid : List IpAddr) :
    Option (List SocketAddress) := do
  let given ← scan
  let excluded : List SocketAddr := avoid.flatMap fun address => wgPorts.map (⟨address, ·⟩)
  let found ← huntWgEndpoints given.wgScan want excluded
  match (found.filter (·.ip ∉ avoid)).take want with
  | [] => none
  | picked => some (picked.map fun pr => .new pr.ip pr.port)

def edgeNetwork : IpAddr → Option (List Nat)
  | .v4 a => some [a.octet 0, a.octet 1, a.octet 2]
  | .v6 _ => none

def swap {α : Type} (i j : Nat) (list : List α) : List α :=
  match list[i]?, list[j]? with
  | some a, some b => (list.set i b).set j a
  | _, _ => list

def spreadHops : List SocketAddress → List SocketAddress
  | first :: second :: rest =>
    let found := first :: second :: rest
    match found.findIdx? fun peer => edgeNetwork peer.ip ≠ edgeNetwork first.ip with
    | some other => if 1 ≤ other then swap 1 other found else found
    | none => found
  | found => found

structure GoolTunnel where
  outer : SocketAddress
  inner : SocketAddress
  lasted : Nat

structure GoolRun where
  pinned : WiwEndpoints
  outerPeer : Option SocketAddress
  innerPeer : Option SocketAddress
  consecutiveFails : Nat := 0
  tunnels : List GoolTunnel := []

/-- What a round of the loop meets: a scan, if it comes to one, and a tunnel. -/
structure GoolRound (mode : WgScanMode) where
  scan : Option (GoolScan mode)
  lasted : Nat

namespace GoolRun

def maxConsecutiveFails : Nat := 2

def start (pinned : WiwEndpoints) : GoolRun where
  pinned := pinned
  outerPeer := pinned.outer
  innerPeer := pinned.inner

def leave (run : GoolRun) : GoolRun :=
  if maxConsecutiveFails ≤ run.consecutiveFails then
    { run with
      outerPeer := if run.pinned.outer.isNone then none else run.outerPeer
      innerPeer := if run.pinned.inner.isNone then none else run.innerPeer
      consecutiveFails := 0 }
  else run

def scanned (run : GoolRun) (scan : Option (GoolScan mode)) : Option (List SocketAddress) :=
  let wanted := run.outerPeer.isNone.toNat + run.innerPeer.isNone.toNat
  let avoid := (run.outerPeer.toList ++ run.innerPeer.toList).map (·.ip)
  (selectWgPeers scan wanted avoid).map fun found =>
    if mode = .verified then spreadHops found else found

def complete (run : GoolRun) (found : List SocketAddress) : Option (SocketAddress × SocketAddress) := do
  let outer ← run.outerPeer.or found[0]?
  let inner ← run.innerPeer.or (if run.outerPeer.isSome then found[0]? else found[1]?)
  return (outer, inner)

def choose (run : GoolRun) (scan : Option (GoolScan mode)) :
    GoolRun × Option (SocketAddress × SocketAddress) :=
  match run.outerPeer, run.innerPeer with
  | some outer, some inner => (run, some (outer, inner))
  | _, _ =>
    match run.scanned scan with
    | none => (run, none)
    | some found =>
      match run.complete found with
      | some hops => (run, some hops)
      | none => ({ run with outerPeer := run.pinned.outer, innerPeer := run.pinned.inner }, none)

def tunnel (run : GoolRun) (outer inner : SocketAddress) (lasted : Nat) : GoolRun :=
  { run with
    outerPeer := some outer
    innerPeer := some inner
    consecutiveFails := countTunnelEnd run.consecutiveFails lasted
    tunnels := ⟨outer, inner, lasted⟩ :: run.tunnels }

def round (run : GoolRun) (round : GoolRound mode) : GoolRun :=
  match run.leave.choose round.scan with
  | (run, some (outer, inner)) => run.tunnel outer inner round.lasted
  | (run, none) => run

def rounds (pinned : WiwEndpoints) (list : List (GoolRound mode)) : GoolRun :=
  list.foldl round (start pinned)

end GoolRun

theorem swap_perm {α : Type} (i j : Nat) (list : List α) : (swap i j list).Perm list := by
  rw [swap]
  split
  next a b first second =>
    obtain ⟨inside, rfl⟩ := List.getElem?_eq_some_iff.mp first
    obtain ⟨inside', rfl⟩ := List.getElem?_eq_some_iff.mp second
    exact set_set_perm inside inside'
  next => exact .refl list

theorem spreadHops_perm (found : List SocketAddress) : (spreadHops found).Perm found := by
  rw [spreadHops.eq_def]
  split
  next =>
    dsimp only
    split
    · split
      · exact swap_perm ..
      · exact .refl _
    · exact .refl _
  next => exact .refl _

theorem selectWgPeers_apart {scan : Option (GoolScan mode)} {want : Nat} {avoid : List IpAddr}
    {found : List SocketAddress} (selected : selectWgPeers scan want avoid = some found) :
    (found.Pairwise fun a b => a.ip ≠ b.ip) ∧ ∀ peer ∈ found, peer.ip ∉ avoid := by
  obtain ⟨given, -, selected⟩ := Option.bind_eq_some_iff.mp selected
  obtain ⟨out, hunted, selected⟩ := Option.bind_eq_some_iff.mp selected
  have apart := (huntWgEndpoints_picked hunted).apart
  have part := (take_sublist want (out.filter (·.ip ∉ avoid)))
  split at selected
  · cases selected
  · cases selected
    constructor
    · rw [pairwise_map]
      simpa using (apart.sublist filter_sublist).sublist part
    · intro peer mem
      obtain ⟨pr, picked, rfl⟩ := mem_map.mp mem
      have allowed := (mem_filter.mp (part.subset picked)).2
      simpa using allowed

theorem selectWgPeers_length {scan : Option (GoolScan mode)} {want : Nat} {avoid : List IpAddr}
    {found : List SocketAddress} (selected : selectWgPeers scan want avoid = some found) :
    found.length ≤ want := by
  obtain ⟨given, -, selected⟩ := Option.bind_eq_some_iff.mp selected
  obtain ⟨out, -, selected⟩ := Option.bind_eq_some_iff.mp selected
  split at selected
  · cases selected
  · cases selected
    rw [length_map]
    exact length_take_le ..

namespace GoolRun

variable {run run' : GoolRun} {scan : Option (GoolScan mode)} {found : List SocketAddress}
  {outer inner : SocketAddress}

theorem scanned_perm (result : run.scanned scan = some found) :
    ∃ picked, found.Perm picked ∧
      selectWgPeers scan (run.outerPeer.isNone.toNat + run.innerPeer.isNone.toNat)
        ((run.outerPeer.toList ++ run.innerPeer.toList).map (·.ip)) = some picked := by
  obtain ⟨picked, selected, rfl⟩ := Option.map_eq_some_iff.mp result
  refine ⟨picked, ?_, selected⟩
  split
  · exact spreadHops_perm picked
  · exact .refl picked

theorem scanned_apart (result : run.scanned scan = some found) :
    (found.Pairwise fun a b => a.ip ≠ b.ip) ∧
      ∀ peer ∈ found, (∀ o ∈ run.outerPeer, o.ip ≠ peer.ip) ∧ ∀ i ∈ run.innerPeer, i.ip ≠ peer.ip := by
  obtain ⟨picked, perm, selected⟩ := scanned_perm result
  obtain ⟨apart, allowed⟩ := selectWgPeers_apart selected
  refine ⟨(perm.pairwise_iff fun other same => other same.symm).mpr apart, fun peer mem => ?_⟩
  have other := allowed peer (perm.mem_iff.mp mem)
  simp only [map_append, mem_append, mem_map, Option.mem_toList, not_or, not_exists,
    not_and] at other
  exact other

theorem complete_apart (apart : Apart run.outerPeer run.innerPeer) (result : run.scanned scan = some found)
    (hops : run.complete found = some (outer, inner)) : outer.ip ≠ inner.ip := by
  obtain ⟨distinct, allowed⟩ := scanned_apart result
  obtain ⟨o, isOuter, hops⟩ := Option.bind_eq_some_iff.mp hops
  obtain ⟨i, isInner, hops⟩ := Option.bind_eq_some_iff.mp hops
  cases hops
  match knownOuter : run.outerPeer, knownInner : run.innerPeer with
  | some _, some _ =>
    rw [knownOuter] at isOuter
    rw [knownInner] at isInner
    cases isOuter
    cases isInner
    exact apart outer knownOuter inner knownInner
  | some _, none =>
    rw [knownOuter] at isOuter
    rw [knownOuter, knownInner] at isInner
    cases isOuter
    exact (allowed inner (mem_of_getElem? isInner)).1 outer knownOuter
  | none, some _ =>
    rw [knownOuter] at isOuter
    rw [knownInner] at isInner
    cases isInner
    exact ((allowed outer (mem_of_getElem? isOuter)).2 inner knownInner).symm
  | none, none =>
    rw [knownOuter] at isOuter
    rw [knownOuter, knownInner] at isInner
    obtain ⟨_, rfl⟩ := List.getElem?_eq_some_iff.mp isOuter
    obtain ⟨_, rfl⟩ := List.getElem?_eq_some_iff.mp isInner
    exact pairwise_iff_getElem.mp distinct 0 1 _ _ Nat.zero_lt_one

def Starts (run : GoolRun) (scan : Option (GoolScan mode)) (outer inner : SocketAddress) : Prop :=
  run.outerPeer = some outer ∧ run.innerPeer = some inner ∨
    (run.outerPeer = none ∨ run.innerPeer = none) ∧
      ∃ found, run.scanned scan = some found ∧ run.complete found = some (outer, inner)

theorem choose_cases (run : GoolRun) (scan : Option (GoolScan mode)) :
    (∃ outer inner, run.Starts scan outer inner ∧ run.choose scan = (run, some (outer, inner))) ∨
    (run.outerPeer = none ∨ run.innerPeer = none) ∧
      (run.choose scan = (run, none) ∨
        run.choose scan =
          ({ run with outerPeer := run.pinned.outer, innerPeer := run.pinned.inner }, none)) := by
  rw [choose]
  split
  next outer inner isOuter isInner => exact .inl ⟨outer, inner, .inl ⟨isOuter, isInner⟩, rfl⟩
  next missing =>
    have lacks : run.outerPeer = none ∨ run.innerPeer = none := by
      match isOuter : run.outerPeer, isInner : run.innerPeer with
      | some outer, some inner => exact absurd isInner (missing outer inner isOuter)
      | none, _ => exact .inl rfl
      | _, none => exact .inr rfl
    split
    · exact .inr ⟨lacks, .inl rfl⟩
    next found result =>
      split
      next hops completed =>
        exact .inl ⟨hops.1, hops.2, .inr ⟨lacks, found, result, completed⟩, rfl⟩
      next => exact .inr ⟨lacks, .inr rfl⟩

theorem round_cases (run : GoolRun) (round : GoolRound mode) :
    (∃ outer inner, run.leave.Starts round.scan outer inner ∧
      run.round round = run.leave.tunnel outer inner round.lasted) ∨
    (run.leave.outerPeer = none ∨ run.leave.innerPeer = none) ∧
      (run.round round = run.leave ∨
        run.round round = { run.leave with
          outerPeer := run.leave.pinned.outer, innerPeer := run.leave.pinned.inner }) := by
  rw [GoolRun.round]
  obtain ⟨outer, inner, starts, eq⟩ | ⟨lacks, eq | eq⟩ := run.leave.choose_cases round.scan
  · exact .inl ⟨outer, inner, starts, by rw [eq]⟩
  · exact .inr ⟨lacks, .inl (by rw [eq])⟩
  · exact .inr ⟨lacks, .inr (by rw [eq])⟩

theorem round_of_peers {round : GoolRound mode} (isOuter : run.leave.outerPeer = some outer)
    (isInner : run.leave.innerPeer = some inner) :
    run.round round = run.leave.tunnel outer inner round.lasted := by
  simp only [GoolRun.round, choose, isOuter, isInner]

theorem round_of_scanned {round : GoolRound mode} (noOuter : run.leave.outerPeer = none)
    (noInner : run.leave.innerPeer = none) (result : run.leave.scanned round.scan = some [outer, inner]) :
    run.round round = run.leave.tunnel outer inner round.lasted := by
  have hops : run.leave.complete [outer, inner] = some (outer, inner) := by
    rw [complete, noOuter, noInner]
    rfl
  simp only [GoolRun.round, choose, noOuter, result, hops]

theorem Starts.apart (starts : run.Starts scan outer inner) (apart : Apart run.outerPeer run.innerPeer) :
    outer.ip ≠ inner.ip := by
  rcases starts with ⟨isOuter, isInner⟩ | ⟨-, found, result, hops⟩
  · exact apart outer isOuter inner isInner
  · exact complete_apart apart result hops

structure Sound (run : GoolRun) : Prop where
  pinned : Apart run.pinned.outer run.pinned.inner
  peers : Apart run.outerPeer run.innerPeer
  tunnels : ∀ tunnel ∈ run.tunnels, tunnel.outer.ip ≠ tunnel.inner.ip

theorem Sound.leave (sound : run.Sound) : run.leave.Sound := by
  rw [GoolRun.leave]
  split
  next =>
    refine ⟨sound.pinned, fun o isOuter i isInner => ?_, sound.tunnels⟩
    dsimp only at isOuter isInner
    split at isOuter
    · cases isOuter
    · split at isInner
      · cases isInner
      · exact sound.peers o isOuter i isInner
  next => exact sound

theorem Sound.round (sound : run.Sound) (round : GoolRound mode) : (run.round round).Sound := by
  obtain ⟨outer, inner, starts, eq⟩ | ⟨-, eq | eq⟩ := run.round_cases round
  · have apart := starts.apart sound.leave.peers
    rw [eq]
    constructor
    case pinned => exact sound.leave.pinned
    case peers =>
      intro o isOuter i isInner
      cases isOuter
      cases isInner
      exact apart
    case tunnels => exact forall_mem_cons.mpr ⟨apart, sound.leave.tunnels⟩
  · rw [eq]
    exact sound.leave
  · rw [eq]
    exact ⟨sound.leave.pinned, sound.leave.pinned, sound.leave.tunnels⟩

theorem sound_rounds {pinned : WiwEndpoints} (apart : Apart pinned.outer pinned.inner)
    (list : List (GoolRound mode)) : (rounds pinned list).Sound := by
  have first : (start pinned).Sound := ⟨apart, apart, by simp [start]⟩
  rw [rounds]
  generalize start pinned = run at first
  induction list generalizing run with
  | nil => exact first
  | cons round list ih => exact ih (run.round round) (first.round round)

end GoolRun

/-- The hops of every tunnel are on different addresses; what a scan picks is sorted and has of
    each address the fastest. -/
theorem gool_hops_apart {display : AddrDisplay} {ucd : Ucd} {lookup : Text → Option Text}
    {pinned : WiwEndpoints} (accepted : wiwEndpointsWithFallback display ucd lookup = .ok pinned) :
    (∀ (mode : WgScanMode) (list : List (GoolRound mode)),
      ∀ tunnel ∈ (GoolRun.rounds pinned list).tunnels, tunnel.outer.ip ≠ tunnel.inner.ip) ∧
    ∀ (given : WgScan) (want : Nat) (excluded : List SocketAddr) (out : List ProbeResult), 1 < want →
      huntWgEndpoints given want excluded = some out → Picked (verifiedWg given want excluded) out := by
  constructor
  · intro mode list
    exact (GoolRun.sound_rounds (wiwEndpointsWithFallback_apart accepted) list).tunnels
  · intro given want excluded out several hunted
    have picked := huntWgEndpoints_picked hunted
    rwa [if_neg (by omega)] at picked

theorem anchors_v4 : anchors .v4 false =
    [.v4 (.new 162 159 192 1), .v4 (.new 162 159 195 1), .v4 (.new 188 114 96 1), .v4 (.new 188 114 97 1),
     .v4 (.new 162 159 193 1)] := by
  decide +kernel

theorem portsToTry_wgPorts : portsToTry wgPorts = wgPorts := by
  decide +kernel

theorem exists_sampled : ∃ pool, Yields (wgAddresses WgScanMode.turbo.sampling .v4 false) (anchors .v4 false ++ pool) := by
  obtain ⟨addresses, yields⟩ := (wgAddresses_ends WgScanMode.turbo.sampling .v4 false).yields
  obtain ⟨pool, -, rfl⟩ := yields.of_map
  exact ⟨pool, yields⟩

theorem candidates_turbo (pool : List IpAddr) : ∃ rest,
    buildWgCandidates 1 wgPorts (anchors .v4 false ++ pool) [] =
      (.v4 (.new 162 159 192 1), 2408) :: (.v4 (.new 162 159 195 1), 500) :: rest := by
  rw [buildWgCandidates_eq_distinct, portsToTry_wgPorts, waveOf_eq, anchors_v4]
  exact ⟨_, rfl⟩

def firstTwo (pool : List IpAddr)
    (sampled : Yields (wgAddresses WgScanMode.turbo.sampling .v4 false) (anchors .v4 false ++ pool)) :
    GoolScan .turbo where
  ip := .v4
  zeroTrustMode := false
  addresses := anchors .v4 false ++ pool
  sampled := sampled
  started := 0
  turns := [⟨0, some (0, some 10), 0⟩, ⟨0, some (0, some 20), 0⟩]

section
variable (pool : List IpAddr)
  (sampled : Yields (wgAddresses WgScanMode.turbo.sampling .v4 false) (anchors .v4 false ++ pool))

theorem hunt_firstTwo : huntWgEndpoints (firstTwo pool sampled).wgScan 2 [] =
    some [⟨.v4 (.new 162 159 192 1), 2408, 10⟩, ⟨.v4 (.new 162 159 195 1), 500, 20⟩] := by
  obtain ⟨rest, candidates⟩ := candidates_turbo pool
  have verified : verifiedWg (firstTwo pool sampled).wgScan 2 [] =
      [⟨.v4 (.new 162 159 192 1), 2408, 10⟩, ⟨.v4 (.new 162 159 195 1), 500, 20⟩] := by
    change scan _ _ _ _ _ (buildWgCandidates 1 wgPorts (anchors .v4 false ++ pool) []) _ _ _ _ = _
    rw [candidates]
    rfl
  rw [huntWgEndpoints, if_neg (by decide), verified]
  rfl

theorem select_firstTwo : selectWgPeers (some (firstTwo pool sampled)) 2 [] =
    some [.v4 (.new 162 159 192 1) 2408, .v4 (.new 162 159 195 1) 500] := by
  simp only [selectWgPeers, flatMap_nil, Option.bind_eq_bind, Option.bind_some, hunt_firstTwo]
  rfl

theorem scanned_firstTwo {run : GoolRun} (noOuter : run.outerPeer = none) (noInner : run.innerPeer = none) :
    run.scanned (some (firstTwo pool sampled)) =
      some [.v4 (.new 162 159 192 1) 2408, .v4 (.new 162 159 195 1) 500] := by
  have selected := select_firstTwo pool sampled
  rw [GoolRun.scanned, noOuter, noInner]
  exact congrArg _ selected

end

theorem round_firstTwo {pool : List IpAddr}
    (sampled : Yields (wgAddresses WgScanMode.turbo.sampling .v4 false) (anchors .v4 false ++ pool))
    {run : GoolRun} (noOuter : run.leave.outerPeer = none) (noInner : run.leave.innerPeer = none) (lasted : Nat) :
    run.round ⟨some (firstTwo pool sampled), lasted⟩ =
      run.leave.tunnel (.v4 (.new 162 159 192 1) 2408) (.v4 (.new 162 159 195 1) 500) lasted := by
  have result : run.leave.scanned (⟨some (firstTwo pool sampled), lasted⟩ : GoolRound .turbo).scan =
      some [.v4 (.new 162 159 192 1) 2408, .v4 (.new 162 159 195 1) 500] :=
    scanned_firstTwo pool sampled noOuter noInner
  exact GoolRun.round_of_scanned noOuter noInner result

theorem gool_hops_apart_first :
    wiwEndpointsWithFallback longDisplay .ascii (fun _ => none) = .ok {} ∧
      ∃ given : GoolScan .turbo, ∃ tunnel,
        (GoolRun.rounds {} [⟨some given, 0⟩]).tunnels = [tunnel] ∧ tunnel.outer.ip ≠ tunnel.inner.ip ∧
          ∃ out, huntWgEndpoints given.wgScan 2 [] = some out ∧ Picked (verifiedWg given.wgScan 2 []) out := by
  have accepted : wiwEndpointsWithFallback longDisplay .ascii (fun _ => none) = .ok {} := rfl
  obtain ⟨apart, picked⟩ := gool_hops_apart accepted
  obtain ⟨pool, sampled⟩ := exists_sampled
  have first : (GoolRun.rounds {} [⟨some (firstTwo pool sampled), 0⟩]).tunnels =
      [⟨.v4 (.new 162 159 192 1) 2408, .v4 (.new 162 159 195 1) 500, 0⟩] := by
    rw [GoolRun.rounds, foldl_cons, foldl_nil, round_firstTwo sampled rfl rfl]
    rfl
  have separate := apart .turbo [⟨some (firstTwo pool sampled), 0⟩]
  rw [first, forall_mem_singleton] at separate
  have hunted := hunt_firstTwo pool sampled
  exact ⟨accepted, firstTwo pool sampled, _, first, separate, _, hunted,
    picked _ 2 [] _ Nat.one_lt_two hunted⟩

end Gozarbin.Gateways
