import Gozarbin.Gateways.Gool

/-! # What classic gool does after giving endpoints up

With neither hop given by hand, two tunnels in a row that ended soon make the run drop both
endpoints. What the next scan avoids is built from the endpoints that are kept, of which there
are none, so it may find the same two.
-/

namespace Gozarbin.Gateways

open List Drawing Distinct

namespace GoolTunnel

variable (a b : GoolTunnel)

def Short : Prop := a.lasted < tunnelStayedUp

def SameHops : Prop := a.outer = b.outer ∧ a.inner = b.inner

def Uses (peer : SocketAddress) : Prop := a.outer = peer ∨ a.inner = peer

variable {a b}

theorem not_uses_comm (apart : ¬a.Uses b.outer ∧ ¬a.Uses b.inner) :
    ¬b.Uses a.outer ∧ ¬b.Uses a.inner := by
  simp only [Uses, not_or] at apart ⊢
  obtain ⟨⟨outer, inner⟩, outer', inner'⟩ := apart
  exact ⟨⟨Ne.symm outer, Ne.symm outer'⟩, Ne.symm inner, Ne.symm inner'⟩

end GoolTunnel

theorem pair_prefix {α : Type} {a b : α} {list : List α} :
    [a, b] <+: list ↔ a ∈ list.head? ∧ b ∈ list.tail.head? := by
  match list with
  | [] => simp
  | [_] => simp
  | c :: d :: rest => simp [eq_comm]

/-- Two tunnels through the same endpoints ended soon, one after the other. -/
def Failed (first second : GoolTunnel) : Prop := first.SameHops second ∧ first.Short ∧ second.Short

/-- No tunnel goes through the endpoints of two failed tunnels right before it; the last one
    comes first. -/
def LeavesFailed (tunnels : List GoolTunnel) : Prop :=
  ∀ first second next, [next, second, first] <:+: tunnels → Failed first second →
    ¬next.Uses second.outer ∧ ¬next.Uses second.inner

namespace GoolRun

variable {mode : WgScanMode}

/-- If the run has dropped the endpoints of the last tunnel, the scan finds two others. -/
def FindsOthers (run : GoolRun) (round : GoolRound mode) : Prop :=
  ∀ failed ∈ run.tunnels.head?, run.leave.outerPeer = none →
    ∀ outer inner, run.leave.scanned round.scan = some [outer, inner] →
      ¬failed.Uses outer ∧ ¬failed.Uses inner

structure Standing (run : GoolRun) : Prop where
  pinned : run.pinned = {}
  dropped : run.outerPeer = none → run.innerPeer = none ∧ run.consecutiveFails = 0 ∧
    ∀ second ∈ run.tunnels.head?, ∃ first ∈ run.tunnels.tail.head?, Failed first second
  kept : ∀ outer ∈ run.outerPeer, ∃ last ∈ run.tunnels.head?,
    last.outer = outer ∧ run.innerPeer = some last.inner ∧
    (last.Short ↔ 0 < run.consecutiveFails) ∧ run.consecutiveFails ≤ maxConsecutiveFails ∧
    (run.consecutiveFails = maxConsecutiveFails → ∃ first ∈ run.tunnels.tail.head?, Failed first last)

section
variable {run : GoolRun} {round : GoolRound mode}

theorem standing_start : (start {}).Standing where
  pinned := rfl
  dropped _ := ⟨rfl, rfl, by simp [start]⟩
  kept := by simp [start]

theorem tunnels_leave : run.leave.tunnels = run.tunnels := by
  rw [leave]
  split <;> rfl

theorem Standing.leave (standing : run.Standing) :
    run.leave.Standing ∧ run.leave.consecutiveFails < maxConsecutiveFails := by
  rw [GoolRun.leave]
  split
  next failed =>
    refine ⟨⟨standing.pinned, ?_, ?_⟩, Nat.zero_lt_two⟩
    · rintro -
      refine ⟨by simp [standing.pinned], rfl, fun second isLast => ?_⟩
      cases peer : run.outerPeer with
      | none => exact (standing.dropped peer).2.2 second isLast
      | some outer =>
        obtain ⟨last, isLast', -, -, -, few, gaveUp⟩ := standing.kept outer peer
        cases Option.mem_unique isLast isLast'
        exact gaveUp (Nat.le_antisymm few failed)
    · simp [standing.pinned]
  next few => exact ⟨standing, Nat.not_le.mp few⟩

theorem leave_none (unpinned : run.pinned = {}) (failed : maxConsecutiveFails ≤ run.consecutiveFails) :
    run.leave.outerPeer = none := by
  rw [leave, if_pos failed, unpinned]
  rfl

theorem leave_eq (few : run.consecutiveFails < maxConsecutiveFails) : run.leave = run :=
  if_neg (Nat.not_le.mpr few)

theorem Standing.lacks (standing : run.Standing) (lacks : run.outerPeer = none ∨ run.innerPeer = none) :
    run.outerPeer = none := by
  rcases lacks with lacks | lacks
  · exact lacks
  · cases peer : run.outerPeer with
    | none => rfl
    | some outer =>
      obtain ⟨last, -, -, isInner, -⟩ := standing.kept outer peer
      rw [lacks] at isInner
      cases isInner

theorem Standing.starts {scan : Option (GoolScan mode)} {outer inner : SocketAddress}
    (standing : run.Standing) (starts : run.Starts scan outer inner) :
    (run.outerPeer = some outer ∧ run.innerPeer = some inner) ∨
      run.outerPeer = none ∧ run.scanned scan = some [outer, inner] := by
  rcases starts with peers | ⟨lacks, found, result, hops⟩
  · exact .inl peers
  · have noOuter := standing.lacks lacks
    have noInner := (standing.dropped noOuter).1
    refine .inr ⟨noOuter, ?_⟩
    obtain ⟨picked, perm, selected⟩ := scanned_perm result
    have few := selectWgPeers_length selected
    rw [← perm.length_eq, noOuter, noInner] at few
    simp only [complete, noOuter, noInner] at hops
    rcases found with _ | ⟨first, _ | ⟨second, _ | ⟨third, rest⟩⟩⟩
    · cases hops
    · cases hops
    · cases hops
      exact result
    · exact absurd few (by simp)

theorem countTunnelEnd_short {n lasted : Nat} (few : n < maxConsecutiveFails) (short : lasted < tunnelStayedUp) :
    countTunnelEnd n lasted = n + 1 := by
  have small : n < 4294967295 := Nat.lt_trans few (by decide)
  rw [countTunnelEnd, if_neg (Nat.not_le.mpr short), if_pos small]

theorem Standing.tunnel {outer inner : SocketAddress} {lasted : Nat} (standing : run.Standing)
    (few : run.consecutiveFails < maxConsecutiveFails) (starts : run.Starts round.scan outer inner) :
    (run.tunnel outer inner lasted).Standing where
  pinned := standing.pinned
  dropped lacks := by cases lacks
  kept := by
    rintro _ ⟨⟩
    refine ⟨⟨outer, inner, lasted⟩, rfl, rfl, rfl, ?_⟩
    by_cases short : lasted < tunnelStayedUp
    · have count : (run.tunnel outer inner lasted).consecutiveFails = run.consecutiveFails + 1 :=
        countTunnelEnd_short few short
      rw [count]
      refine ⟨iff_of_true short (Nat.succ_pos _), few, fun two => ?_⟩
      have counted : 0 < run.consecutiveFails := by
        rw [maxConsecutiveFails] at two
        omega
      rcases standing.starts starts with ⟨isOuter, isInner⟩ | ⟨noOuter, -⟩
      · obtain ⟨last, isLast, sameOuter, sameInner, ended, -⟩ := standing.kept outer isOuter
        have same : last.SameHops ⟨outer, inner, lasted⟩ :=
          ⟨sameOuter, Option.some.inj (sameInner.symm.trans isInner)⟩
        exact ⟨last, isLast, same, ended.mpr counted, short⟩
      · rw [(standing.dropped noOuter).2.1] at counted
        cases counted
    · have count : (run.tunnel outer inner lasted).consecutiveFails = 0 := if_pos (Nat.not_lt.mp short)
      rw [count]
      exact ⟨iff_of_false short (Nat.lt_irrefl 0), Nat.zero_le _, fun two => by cases two⟩

theorem standing_round (standing : run.Standing) : (run.round round).Standing := by
  obtain ⟨left, few⟩ := standing.leave
  obtain ⟨outer, inner, starts, eq⟩ | ⟨lacks, eq | eq⟩ := run.round_cases round
  · rw [eq]
    exact left.tunnel few starts
  · rw [eq]
    exact left
  · rw [eq]
    refine ⟨left.pinned, fun _ => ⟨?_, (left.dropped (left.lacks lacks)).2⟩, ?_⟩
    · exact congrArg WiwEndpoints.inner left.pinned
    · simp [left.pinned]

/-- Two tunnels that failed were counted. -/
def Counted (run : GoolRun) : Prop :=
  run.outerPeer ≠ none → ∀ second ∈ run.tunnels.head?, ∀ first ∈ run.tunnels.tail.head?,
    Failed first second → run.consecutiveFails = maxConsecutiveFails

theorem counted_round (standing : run.Standing) (others : run.FindsOthers round) :
    (run.round round).Counted := by
  obtain ⟨left, few⟩ := standing.leave
  intro known second isSecond first isFirst failed
  obtain ⟨outer, inner, starts, eq⟩ | ⟨lacks, eq | eq⟩ := run.round_cases round
  · rw [eq] at isSecond isFirst ⊢
    cases isSecond
    rw [GoolRun.tunnel, tail_cons, tunnels_leave] at isFirst
    obtain ⟨⟨sameOuter, -⟩, soon, short⟩ := failed
    change countTunnelEnd run.leave.consecutiveFails round.lasted = _
    rw [countTunnelEnd_short few short]
    rcases left.starts starts with ⟨isOuter, -⟩ | ⟨noOuter, result⟩
    · obtain ⟨last, isLast, -, -, ended, -⟩ := left.kept outer isOuter
      rw [tunnels_leave] at isLast
      cases Option.mem_unique isFirst isLast
      have counted := ended.mp soon
      rw [maxConsecutiveFails] at few ⊢
      omega
    · exact absurd (.inl sameOuter) (others first isFirst noOuter outer inner result).1
  · rw [eq] at known
    exact absurd (left.lacks lacks) known
  · rw [eq, left.pinned] at known
    exact absurd rfl known

theorem leavesFailed_round (standing : run.Standing) (counted : run.Counted)
    (others : run.FindsOthers round) (leaves : LeavesFailed run.tunnels) :
    LeavesFailed (run.round round).tunnels := by
  obtain ⟨left, -⟩ := standing.leave
  obtain ⟨outer, inner, starts, eq⟩ | ⟨-, eq | eq⟩ := run.round_cases round
  · rw [eq, GoolRun.tunnel, tunnels_leave]
    intro first second next part failed
    rcases infix_cons_iff.mp part with head | later
    · obtain ⟨rfl, behind⟩ := cons_prefix_cons.mp head
      obtain ⟨isSecond, isFirst⟩ := pair_prefix.mp behind
      rcases left.starts starts with ⟨isOuter, -⟩ | ⟨noOuter, result⟩
      · by_cases few : run.consecutiveFails < maxConsecutiveFails
        · rw [leave_eq few] at isOuter
          have known : run.outerPeer ≠ none := by simp [isOuter]
          exact absurd (counted known second isSecond first isFirst failed) (Nat.ne_of_lt few)
        · rw [leave_none standing.pinned (Nat.not_lt.mp few)] at isOuter
          cases isOuter
      · exact GoolTunnel.not_uses_comm (others second isSecond noOuter outer inner result)
    · exact leaves first second next later failed
  · rwa [eq, tunnels_leave]
  · rw [eq]
    rwa [← tunnels_leave] at leaves

end

theorem rounds_concat (pinned : WiwEndpoints) (list : List (GoolRound mode)) (round : GoolRound mode) :
    rounds pinned (list ++ [round]) = (rounds pinned list).round round := by
  rw [rounds, foldl_append]
  rfl

theorem standing_rounds (list : List (GoolRound mode)) : (rounds {} list).Standing := by
  induction list using List.reverseRecOn with
  | nil => exact standing_start
  | append_singleton list round ih =>
    rw [rounds_concat]
    exact standing_round ih

theorem tunnels_suffix (before after : List (GoolRound mode)) :
    (rounds {} before).tunnels <:+ (rounds {} (before ++ after)).tunnels := by
  induction after using List.reverseRecOn with
  | nil =>
    rw [append_nil]
  | append_singleton after round ih =>
    rw [← append_assoc, rounds_concat]
    refine ih.trans ?_
    obtain ⟨outer, inner, -, eq⟩ | ⟨-, eq | eq⟩ := (rounds {} (before ++ after)).round_cases round
    · rw [eq, tunnel, tunnels_leave]
      exact suffix_cons ..
    · rw [eq, tunnels_leave]
    · rw [eq]
      rw [tunnels_leave]

end GoolRun

open GoolRun in
/-- A run without endpoints given by hand leaves endpoints that failed precisely if the scans
    after that find others. -/
theorem gool_leaves_failed_iff {mode : WgScanMode} (list : List (GoolRound mode)) :
    LeavesFailed (rounds {} list).tunnels ↔
      ∀ before round after, list = before ++ round :: after → (rounds {} before).FindsOthers round := by
  constructor
  · rintro leaves before round after rfl failed isLast noOuter outer inner result
    have left := (standing_rounds before).leave.1
    obtain ⟨first, isFirst, failed'⟩ := (left.dropped noOuter).2.2 failed (by rwa [tunnels_leave])
    rw [tunnels_leave] at isFirst
    have here : [⟨outer, inner, round.lasted⟩, failed, first] <:+:
        (rounds {} (before ++ round :: after)).tunnels := by
      have part := tunnels_suffix (before ++ [round]) after
      rw [append_assoc, rounds_concat, round_of_scanned noOuter (left.dropped noOuter).1 result,
        tunnel, tunnels_leave, singleton_append] at part
      refine .trans ?_ part.isInfix
      exact (cons_prefix_cons.mpr ⟨rfl, pair_prefix.mpr ⟨isLast, isFirst⟩⟩).isInfix
    exact GoolTunnel.not_uses_comm (leaves first failed _ here failed')
  · intro others
    have both : (rounds {} list).Counted ∧ LeavesFailed (rounds {} list).tunnels := by
      induction list using List.reverseRecOn with
      | nil =>
        refine ⟨fun known => absurd rfl known, fun first second next here => ?_⟩
        cases infix_nil.mp here
      | append_singleton list round ih =>
        have earlier : ∀ before round' after, list = before ++ round' :: after →
            (rounds {} before).FindsOthers round' := by
          rintro before round' after rfl
          exact others before round' (after ++ [round]) (by simp)
        obtain ⟨counted, leaves⟩ := ih earlier
        have finds := others list round [] rfl
        rw [rounds_concat]
        exact ⟨counted_round (standing_rounds list) finds,
          leavesFailed_round (standing_rounds list) counted finds leaves⟩
    exact both.2

theorem gool_returns_to_failed :
    ∃ given : GoolScan .turbo,
      let round : GoolRound .turbo := ⟨some given, 0⟩
      let tunnel : GoolTunnel := ⟨.v4 (.new 162 159 192 1) 2408, .v4 (.new 162 159 195 1) 500, 0⟩
      (GoolRun.rounds {} [round, round, round]).tunnels = [tunnel, tunnel, tunnel] ∧
        ¬LeavesFailed (GoolRun.rounds {} [round, round, round]).tunnels := by
  obtain ⟨pool, sampled⟩ := exists_sampled
  refine ⟨firstTwo pool sampled, ?_⟩
  intro round tunnel
  have tunnels : (GoolRun.rounds {} [round, round, round]).tunnels = [tunnel, tunnel, tunnel] := by
    let again (run : GoolRun) := run.tunnel tunnel.outer tunnel.inner 0
    have first : (GoolRun.start {}).round round = again (.start {}) := round_firstTwo sampled rfl rfl 0
    have second : (again (.start {})).round round = again (again (.start {})) :=
      GoolRun.round_of_peers rfl rfl
    have third : (again (again (.start {}))).round round = again (again (again (.start {}))).leave :=
      round_firstTwo sampled rfl rfl 0
    rw [GoolRun.rounds, foldl_cons, foldl_cons, foldl_cons, foldl_nil, first, second,
      third]
    rfl
  refine ⟨tunnels, fun leaves => ?_⟩
  have short : tunnel.Short := by
    unfold GoolTunnel.Short
    decide
  rw [tunnels] at leaves
  exact (leaves tunnel tunnel tunnel infix_rfl ⟨⟨rfl, rfl⟩, short, short⟩).1 (.inl rfl)

end Gozarbin.Gateways
