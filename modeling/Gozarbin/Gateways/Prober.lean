import Gozarbin.Lib.Distinct
import Gozarbin.Net.Addr

/-! # The scans

A scan probes candidates, many at a time, and picks among those that answer in time:
`hunt_best_gateway_avoiding` for MASQUE, `hunt_wg_endpoints` for WireGuard. The two have one
loop, which differs in what it keeps of the answers. Times are in nanoseconds.
-/

namespace Gozarbin.Gateways

open List Distinct

abbrev Candidate := IpAddr × UInt16

structure ProbeResult where
  ip : IpAddr
  port : UInt16
  rtt : Nat

def ProbeResult.candidate (pr : ProbeResult) : Candidate := (pr.ip, pr.port)

/-- The part of a strategy that its loop reads. -/
structure Strategy where
  overallDeadline : Nat
  quietAfterFirst : Nat
  targetSuccesses : Nat
  earlyExitFirst : Bool

/-- What a turn of the loop meets. -/
structure Turn where
  now : Nat
  answer : Option (Nat × Option Nat)
  later : Nat

def effective (deadline : Nat) : Option Nat → Nat
  | some quiet => if quiet ≤ deadline then quiet else deadline
  | none => deadline

section Scan

variable {Found : Type} (add : Found → ProbeResult → Found) (only : ProbeResult → Found)
  (enough : Found → Bool) (st : Strategy) (deadline : Nat)

def scan : (pending : List Candidate) → (found : Found) → (count : Nat) → (quietUntil : Option Nat) →
    List Turn → Found
  | _, found, _, _, [] => found
  | pending, found, count, quietUntil, turn :: turns =>
    if effective deadline quietUntil ≤ turn.now then found
    else
      match turn.answer with
      | none => found
      | some (i, rtt) =>
        match pending[i]?, rtt with
        -- The stream has ended.
        | none, _ => found
        | some _, none => scan (pending.eraseIdx i) found count quietUntil turns
        | some (ip, port), some rtt =>
          let pr : ProbeResult := ⟨ip, port, rtt⟩
          if st.earlyExitFirst then only pr
          else if enough (add found pr) then add found pr
          else if 0 < st.targetSuccesses ∧ st.targetSuccesses ≤ count + 1 ∧ quietUntil = none then
            if st.quietAfterFirst = 0 then add found pr
            else
              scan (pending.eraseIdx i) (add found pr) (count + 1)
                (some (turn.later + st.quietAfterFirst)) turns
          else scan (pending.eraseIdx i) (add found pr) (count + 1) quietUntil turns

theorem scan_induct {P : Found → Prop} {candidates : List Candidate}
    (kept : ∀ found pr, P found → pr.candidate ∈ candidates → P (add found pr))
    (alone : ∀ pr, pr.candidate ∈ candidates → P (only pr))
    {pending : List Candidate} {found : Found} {count : Nat} {quietUntil : Option Nat}
    {turns : List Turn} (first : P found) (left : ∀ c ∈ pending, c ∈ candidates) :
    P (scan add only enough st deadline pending found count quietUntil turns) := by
  induction turns generalizing pending found count quietUntil with
  | nil => exact first
  | cons turn turns ih =>
    have remain : ∀ i, ∀ c ∈ pending.eraseIdx i, c ∈ candidates :=
      fun i c mem => left c (mem_of_mem_eraseIdx mem)
    simp only [scan]
    split
    · exact first
    · split
      · exact first
      · split
        case h_1 => exact first
        case h_2 => exact ih first (remain _)
        case h_3 ip port rtt here _ =>
          have mem : (⟨ip, port, rtt⟩ : ProbeResult).candidate ∈ candidates :=
            left _ (mem_of_getElem? here)
          have added := kept found ⟨ip, port, rtt⟩ first mem
          split
          · exact alone _ mem
          · split
            · exact added
            · split
              · split
                · exact added
                · exact ih added (remain _)
              · exact ih added (remain _)

end Scan

def leaveOut (candidates : List Candidate) (avoid : List IpAddr) : List Candidate :=
  candidates.filter (·.1 ∉ avoid)

def better : Option ProbeResult → ProbeResult → Option ProbeResult
  | some cur, pr => if cur.rtt ≤ pr.rtt then some cur else some pr
  | none, pr => some pr

/-- What a scan meets. A scan that fails before it starts has no candidates. -/
structure MasqueScan where
  st : Strategy
  candidates : List Candidate
  started : Nat
  turns : List Turn

def huntBestGatewayAvoiding (given : MasqueScan) (avoid : List IpAddr) : Option ProbeResult :=
  scan better some (fun _ => false) given.st (given.started + given.st.overallDeadline)
    (leaveOut given.candidates avoid) none 0 none given.turns

variable {pr : ProbeResult}

theorem huntBestGatewayAvoiding_mem {given : MasqueScan} {avoid : List IpAddr}
    (found : huntBestGatewayAvoiding given avoid = some pr) :
    pr.candidate ∈ leaveOut given.candidates avoid := by
  have all : ∀ pr ∈ huntBestGatewayAvoiding given avoid,
      pr.candidate ∈ leaveOut given.candidates avoid := by
    apply scan_induct (P := fun best : Option ProbeResult => ∀ pr ∈ best, pr.candidate ∈ _)
    case kept =>
      intro best pr known mem pr' eq
      match best with
      | none =>
        cases eq
        exact mem
      | some cur =>
        simp only [better] at eq
        split at eq
        · exact known pr' eq
        · cases eq
          exact mem
    case alone =>
      intro pr mem pr' eq
      cases eq
      exact mem
    case first => simp
    case left => exact fun _ mem => mem
  exact all pr found

def huntMasquePeer (given : MasqueScan) (avoid : List IpAddr) : Option SocketAddr :=
  (huntBestGatewayAvoiding given avoid).map fun best => ⟨best.ip, best.port⟩

theorem huntMasquePeer_not_mem {given : MasqueScan} {avoid : List IpAddr} {peer : SocketAddr}
    (found : huntMasquePeer given avoid = some peer) : peer.ip ∉ avoid := by
  obtain ⟨best, picked, rfl⟩ := Option.map_eq_some_iff.mp found
  obtain ⟨-, allowed⟩ := mem_filter.mp (huntBestGatewayAvoiding_mem picked)
  exact of_decide_eq_true allowed

def buildWgCandidates (waves : Nat) (ports : List UInt16) (ips : List IpAddr)
    (excluded : List SocketAddr) : List Candidate :=
  let ports := match distinctBy id [] ports with
    | [] => [2408]
    | deduped => deduped
  let ips := distinctBy id [] ips
  let all := (List.range (if waves = 0 then 1 else waves)).flatMap fun wave =>
    ips.zipIdx.map fun (ip, idx) => (ip, ports.getD ((idx + wave) % ports.length) 0)
  distinctBy id [] (all.filter fun (ip, port) => (⟨ip, port⟩ : SocketAddr) ∉ excluded)

variable {excluded : List SocketAddr}

theorem buildWgCandidates_not_mem {waves : Nat} {ports : List UInt16} {ips : List IpAddr}
    {candidate : Candidate}
    (mem : candidate ∈ buildWgCandidates waves ports ips excluded) :
    (⟨candidate.1, candidate.2⟩ : SocketAddr) ∉ excluded := by
  obtain ⟨-, allowed⟩ := mem_filter.mp (mem_of_mem_distinctBy mem)
  exact of_decide_eq_true allowed

def distinctByIp (found : List ProbeResult) : List ProbeResult :=
  distinctBy ProbeResult.ip [] (found.insertionSort fun a b => a.rtt ≤ b.rtt)

structure WgScan where
  st : Strategy
  poolPortWaves : Nat
  ports : List UInt16
  ips : List IpAddr
  started : Nat
  turns : List Turn

def Strategy.wanting (want : Nat) (st : Strategy) : Strategy :=
  if 1 < want then
    { st with
      earlyExitFirst := false
      targetSuccesses := if st.targetSuccesses ≤ want * 3 then want * 3 else st.targetSuccesses }
  else st

def verifiedWg (given : WgScan) (want : Nat) (excluded : List SocketAddr) : List ProbeResult :=
  scan (fun found pr => found ++ [pr]) (fun pr => [pr])
    (fun found => want ≤ (distinctByIp found).length && 1 < want) (given.st.wanting want)
    (given.started + given.st.overallDeadline)
    (buildWgCandidates given.poolPortWaves given.ports given.ips excluded) [] 0 none given.turns

def huntWgEndpoints (given : WgScan) (want : Nat) (excluded : List SocketAddr) :
    Option (List ProbeResult) :=
  let want := if want = 0 then 1 else want
  match distinctByIp (verifiedWg given want excluded) with
  | [] => none
  | picked => some (picked.take want)

variable {given : WgScan}

theorem verifiedWg_mem {want : Nat}
    (mem : pr ∈ verifiedWg given want excluded) :
    pr.candidate ∈ buildWgCandidates given.poolPortWaves given.ports given.ips excluded := by
  revert pr
  apply scan_induct (P := fun verified : List ProbeResult => ∀ {pr}, pr ∈ verified → pr.candidate ∈ _)
  case kept =>
    intro found pr known mem pr' here
    rcases mem_append.mp here with old | new
    · exact known old
    · cases mem_singleton.mp new
      exact mem
  case alone =>
    intro pr mem pr' here
    cases mem_singleton.mp here
    exact mem
  case first => simp
  case left => exact fun _ mem => mem

def huntBestWgEndpoint (given : WgScan) (excluded : List SocketAddr) : Option ProbeResult :=
  (huntWgEndpoints given 1 excluded).bind (·.head?)

theorem huntBestWgEndpoint_mem
    (found : huntBestWgEndpoint given excluded = some pr) :
    pr.candidate ∈ buildWgCandidates given.poolPortWaves given.ports given.ips excluded := by
  obtain ⟨picked, hunted, first⟩ := Option.bind_eq_some_iff.mp found
  have mem := mem_of_head? first
  simp only [huntWgEndpoints] at hunted
  split at hunted
  · cases hunted
  · cases hunted
    have sorted := mem_of_mem_distinctBy (mem_of_mem_take mem)
    exact verifiedWg_mem ((mem_insertionSort _).mp sorted)

def huntWgPeerWithProfile (given : WgScan) (excluded : List SocketAddr) : Option SocketAddr :=
  (huntBestWgEndpoint given excluded).map fun best => ⟨best.ip, best.port⟩

theorem huntWgPeerWithProfile_not_mem {peer : SocketAddr}
    (found : huntWgPeerWithProfile given excluded = some peer) : peer ∉ excluded := by
  obtain ⟨best, picked, rfl⟩ := Option.map_eq_some_iff.mp found
  exact buildWgCandidates_not_mem (huntBestWgEndpoint_mem picked)

/-- What is picked: no address twice, the fast ones first, and each the fastest of its address. -/
structure Picked (collected out : List ProbeResult) : Prop where
  apart : out.Pairwise fun a b => a.ip ≠ b.ip
  sorted : out.Pairwise fun a b => a.rtt ≤ b.rtt
  fastest : ∀ pr ∈ out, pr ∈ collected ∧ ∀ other ∈ collected, other.ip = pr.ip → pr.rtt ≤ other.rtt

theorem sorted_by_rtt (found : List ProbeResult) :
    (found.insertionSort fun a b => a.rtt ≤ b.rtt).Pairwise fun a b => a.rtt ≤ b.rtt := by
  exact pairwise_insertionSort _ found

theorem distinctByIp_picked (collected : List ProbeResult) (n : Nat) :
    Picked collected ((distinctByIp collected).take n) := by
  have part := take_sublist n (distinctByIp collected)
  constructor
  case apart => exact pairwise_distinctBy.sublist part
  case sorted => exact ((sorted_by_rtt collected).sublist distinctBy_sublist).sublist part
  case fastest =>
    intro pr mem
    have kept := part.subset mem
    refine ⟨(mem_insertionSort _).mp (mem_of_mem_distinctBy kept), fun other given same => ?_⟩
    exact rel_of_mem_distinctBy (r := fun a b => a.rtt ≤ b.rtt) (fun _ => Nat.le_refl _)
      (sorted_by_rtt collected) kept ((mem_insertionSort _).mpr given) same

theorem huntWgEndpoints_picked {want : Nat}
    {out : List ProbeResult} (hunted : huntWgEndpoints given want excluded = some out) :
    Picked (verifiedWg given (if want = 0 then 1 else want) excluded) out := by
  simp only [huntWgEndpoints] at hunted
  split at hunted
  · cases hunted
  · cases hunted
    exact distinctByIp_picked _ _

end Gozarbin.Gateways
