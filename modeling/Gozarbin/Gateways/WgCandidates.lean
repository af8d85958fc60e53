import Gozarbin.Gateways.Prober
import Gozarbin.Gateways.Ranges
import Gozarbin.Lib.Rotation
import Mathlib.Data.List.FinRange
import Mathlib.Data.List.GetD

/-! # The candidates of a WireGuard scan

`build_wg_candidates` has its addresses from seeds and from ranges. In a wave every address is
tried on one port, the addresses on one port after the other; in the next wave each goes on to
the next port.
-/

namespace Gozarbin.Gateways

open List Text AddrText Drawing Distinct

def allWgPrefixesV4 : List Text := texts
  ["162.159.192.0/24", "162.159.195.0/24", "188.114.96.0/24", "188.114.97.0/24", "188.114.98.0/24",
   "188.114.99.0/24", "162.159.193.0/24"]

def allWgPrefixesV6 : List Text := texts ["2606:4700:d0::/64", "2606:4700:d1::/64", "2606:4700:100::/48"]

def wgZtPrefixesV4 : List Text := texts ["162.159.193.0/24"]

def wgZtPrefixesV6 : List Text := texts ["2606:4700:100::/48"]

def allWgSeedsV4 : List Text := texts
  ["162.159.192.1", "162.159.195.1", "188.114.96.1", "188.114.97.1", "162.159.193.1"]

def wgSeedsV6 : List Text := texts
  ["2606:4700:d0::a29f:c001", "2606:4700:d1::a29f:c001", "2606:4700:d0::a29f:c301",
   "2606:4700:d0::bc72:6001"]

def wgPrefixesV4 (zeroTrustMode : Bool) : List Text := prioritize zeroTrustMode allWgPrefixesV4 wgZtPrefixesV4

def wgPrefixesV6 (zeroTrustMode : Bool) : List Text := prioritize zeroTrustMode allWgPrefixesV6 wgZtPrefixesV6

def wgSeedsV4 (zeroTrustMode : Bool) : List Text :=
  prioritize zeroTrustMode allWgSeedsV4 (texts ["162.159.193.1"])

section Addresses

variable (st : Sampling) (ip : IpScan) (zeroTrustMode : Bool)

def anchors : List IpAddr :=
  (if ip.wantV4 then ((wgSeedsV4 zeroTrustMode).filterMap parseIpv4Addr).map .v4 else []) ++
    (if ip.wantV6 then (wgSeedsV6.filterMap parseIpv6Addr).map .v6 else [])

def pool : Draws (List IpAddr) := do
  let per := if st.samplePerCidr = 0 then 80 else st.samplePerCidr
  let hosts ← ifWanted ip.wantV4 (hostsV4 st (wgPrefixesV4 zeroTrustMode))
  let hosts6 ← ifWanted ip.wantV6 (hostsV6 per allWgPrefixesV4 (wgPrefixesV6 zeroTrustMode))
  return hosts.map .v4 ++ hosts6.map .v6

def wgAddresses : Draws (List IpAddr) := (anchors ip zeroTrustMode ++ ·) <$> pool st ip zeroTrustMode

def sampleWgCandidates (waves : Nat) (ports : List UInt16) (excluded : List SocketAddr) :
    Draws (List Candidate) :=
  (buildWgCandidates waves ports · excluded) <$> wgAddresses st ip zeroTrustMode

theorem wgAddresses_ends : Ends (wgAddresses st ip zeroTrustMode) := by
  refine .map _ ?_
  exact (ifWanted_ends hostsV4_ends).bind fun _ => (ifWanted_ends hostsV6_ends).bind fun _ => .pure _

end Addresses

def portsToTry (ports : List UInt16) : List UInt16 :=
  match distinctBy id [] ports with
  | [] => [2408]
  | deduped => deduped

def waveOf (ips : List IpAddr) (ports : List UInt16) (w : Nat) : List Candidate :=
  List.ofFn fun i : Fin ips.length => (ips[i], ports.getD ((i + w) % ports.length) 0)

def newIn (ips : List IpAddr) (ports : List UInt16) (excluded : List SocketAddr) (w : Nat) : List Candidate :=
  (waveOf ips ports w).filter fun candidate =>
    (⟨candidate.1, candidate.2⟩ : SocketAddr) ∉ excluded ∧ ∀ v < w, candidate ∉ waveOf ips ports v

/-- What a list of candidates is to be, for the addresses that were sampled. -/
structure InWaves (waves : Nat) (ports : List UInt16) (excluded : List SocketAddr) (addresses : List IpAddr)
    (out : List Candidate) : Prop where
  exact : out =
    (List.range (max waves 1)).flatMap (newIn (distinctBy id [] addresses) (portsToTry ports) excluded)
  nodup : out.Nodup
  allowed : ∀ candidate ∈ out, (⟨candidate.1, candidate.2⟩ : SocketAddr) ∉ excluded
  complete : (portsToTry ports).length ≤ max waves 1 →
    ∀ ip ∈ distinctBy id [] addresses, ∀ port ∈ portsToTry ports,
      (⟨ip, port⟩ : SocketAddr) ∉ excluded → (ip, port) ∈ out

section
variable {ips : List IpAddr} {ports : List UInt16} {waves w : Nat} {excluded : List SocketAddr}

theorem waveOf_eq :
    waveOf ips ports = fun w =>
      ips.zipIdx.map fun (ip, idx) => (ip, ports.getD ((idx + w) % ports.length) 0) := by
  funext w
  refine ext_getElem (by simp [waveOf]) fun i _ _ => ?_
  simp [waveOf]

theorem nodup_waveOf (nodup : ips.Nodup) : (waveOf ips ports w).Nodup := by
  refine nodup_ofFn.mpr fun i j same => ?_
  exact Fin.ext ((nodup.getElem_inj_iff).mp (congrArg Prod.fst same))

theorem exists_waveOf {ip : IpAddr} {port : UInt16} (given : ip ∈ ips) (listed : port ∈ ports)
    (enough : ports.length ≤ waves) : ∃ w < waves, (ip, port) ∈ waveOf ips ports w := by
  obtain ⟨i, small, rfl⟩ := mem_iff_getElem.mp given
  obtain ⟨j, slot, rfl⟩ := mem_iff_getElem.mp listed
  have start : (i + ports.length - 1) % ports.length < ports.length := Nat.mod_lt _ (by omega)
  obtain ⟨step, within, hit⟩ := mem_map.mp (Rotation.mem_round start slot)
  rw [mem_range'_1] at within
  have turn : (i + (step - 1)) % ports.length = j := by
    rw [← hit, Nat.mod_add_mod, show i + ports.length - 1 + step = i + (step - 1) + ports.length by omega,
      Nat.add_mod_right]
  refine ⟨step - 1, by omega, mem_ofFn.mpr ⟨⟨i, small⟩, ?_⟩⟩
  rw [turn, getD_eq_getElem _ _ slot]
  rfl

theorem buildWgCandidates_eq_distinct (addresses : List IpAddr) :
    buildWgCandidates waves ports addresses excluded =
      distinctBy id [] (((List.range (max waves 1)).flatMap
        (waveOf (distinctBy id [] addresses) (portsToTry ports))).filter
          fun (ip, port) => (⟨ip, port⟩ : SocketAddr) ∉ excluded) := by
  have count : max waves 1 = if waves = 0 then 1 else waves := by
    split <;> omega
  rw [count, waveOf_eq]
  rfl

theorem buildWgCandidates_eq (addresses : List IpAddr) :
    buildWgCandidates waves ports addresses excluded =
      (List.range (max waves 1)).flatMap
        (newIn (distinctBy id [] addresses) (portsToTry ports) excluded) := by
  rw [buildWgCandidates_eq_distinct, filter_flatMap,
    distinct_flatMap_range fun w => (nodup_waveOf nodup_distinct).filter _]
  refine flatMap_congr fun w _ => ?_
  rw [newIn, filter_filter]
  refine filter_congr fun candidate _ => ?_
  by_cases allowed : (⟨candidate.1, candidate.2⟩ : SocketAddr) ∈ excluded
  · simp [allowed]
  · simp [allowed]

theorem mem_buildWgCandidates {addresses : List IpAddr} {ip : IpAddr} {port : UInt16}
    (within : w < max waves 1) (here : (ip, port) ∈ waveOf (distinctBy id [] addresses) (portsToTry ports) w)
    (allowed : (⟨ip, port⟩ : SocketAddr) ∉ excluded) :
    (ip, port) ∈ buildWgCandidates waves ports addresses excluded := by
  rw [buildWgCandidates_eq_distinct]
  refine mem_distinct.mpr ⟨mem_filter.mpr ⟨?_, by simpa using allowed⟩, not_mem_nil⟩
  exact mem_flatMap.mpr ⟨w, mem_range.mpr within, here⟩

end

/-- In each wave every address comes with its port, unless the endpoint is excluded or was in an
    earlier wave. -/
theorem wireguard_candidates (st : Sampling) (ip : IpScan) (zeroTrustMode : Bool) (waves : Nat)
    (ports : List UInt16) (excluded : List SocketAddr) :
    Ends (sampleWgCandidates st ip zeroTrustMode waves ports excluded) ∧
      ∀ out, Yields (sampleWgCandidates st ip zeroTrustMode waves ports excluded) out →
        ∃ addresses, Yields (wgAddresses st ip zeroTrustMode) addresses ∧
          InWaves waves ports excluded addresses out := by
  refine ⟨.map _ (wgAddresses_ends st ip zeroTrustMode), fun out yields => ?_⟩
  obtain ⟨addresses, drawn, rfl⟩ := yields.of_map
  refine ⟨addresses, drawn, ?_⟩
  constructor
  case exact => exact buildWgCandidates_eq addresses
  case nodup => exact nodup_distinct
  case allowed => exact fun _ => buildWgCandidates_not_mem
  case complete =>
    intro enough ip given port listed allowed
    obtain ⟨w, within, here⟩ := exists_waveOf given listed enough
    exact mem_buildWgCandidates within here allowed

theorem wireguard_candidates_turned :
    let via (port : UInt16) (a b c d : BitVec 8) : Candidate := (.v4 (.new a b c d), port)
    let excluded : List SocketAddr := [⟨.v4 (.new 188 114 96 1), 500⟩]
    let out := [via 2408 162 159 192 1, via 500 162 159 195 1, via 2408 188 114 96 1, via 500 188 114 97 1,
      via 2408 162 159 193 1, via 500 188 114 98 1, via 2408 188 114 99 1,
      via 500 162 159 192 1, via 2408 162 159 195 1, via 2408 188 114 97 1, via 500 162 159 193 1,
      via 2408 188 114 98 1, via 500 188 114 99 1]
    Yields (sampleWgCandidates ⟨false, 1⟩ .v4 false 2 [2408, 500] excluded) out ∧
      ∃ addresses, Yields (wgAddresses ⟨false, 1⟩ .v4 false) addresses ∧
        InWaves 2 [2408, 500] excluded addresses out := by
  intro via excluded out
  have yields : Yields (sampleWgCandidates ⟨false, 1⟩ .v4 false 2 [2408, 500] excluded) out :=
    ⟨List.replicate 7 0, [], by decide +kernel⟩
  exact ⟨yields, (wireguard_candidates ⟨false, 1⟩ .v4 false 2 [2408, 500] excluded).2 out yields⟩

end Gozarbin.Gateways
