import Gozarbin.Gateways.Prober
import Gozarbin.Gateways.Ranges

/-! # The candidates of a MASQUE scan

`build_candidates` lists seeds and addresses of ranges, first on the primary port and then on the
others, and leaves repetitions out. Without a team the seeds of IPv4 are the gateways that are
known and there are no ranges; with one there are fewer seeds and all ranges.
-/

namespace Gozarbin.Gateways

open List Text AddrText Drawing Distinct

def allMasqueCidrsV4 : List Text := texts
  ["162.159.196.0/24", "162.159.195.0/24", "162.159.192.0/24", "162.159.193.0/24", "162.159.204.0/24",
   "162.159.197.0/24", "162.159.198.0/24", "162.159.199.0/24", "172.65.251.0/24", "188.114.96.0/24",
   "188.114.97.0/24", "188.114.98.0/24", "188.114.99.0/24", "162.159.36.0/24", "162.159.46.0/24"]

def masqueSeeds : List Text := texts
  ["162.159.196.1", "162.159.195.1", "162.159.192.1", "162.159.197.3", "162.159.197.1",
   "162.159.198.2", "162.159.198.1", "162.159.193.1", "162.159.199.2", "162.159.197.2"]

def masqueGatewaysV4 : List Text := texts
  ["162.159.198.183", "162.159.198.206", "162.159.198.226", "162.159.198.125", "162.159.198.72",
   "162.159.198.89", "162.159.198.198", "162.159.198.131", "162.159.198.245", "162.159.198.114",
   "162.159.198.31", "162.159.198.60", "162.159.198.4", "162.159.198.65", "162.159.198.33",
   "162.159.198.86", "162.159.198.244", "162.159.198.123", "162.159.198.233", "162.159.198.69",
   "162.159.198.255", "162.159.198.176", "162.159.198.186", "162.159.198.63", "162.159.198.37",
   "162.159.198.169", "162.159.198.147", "162.159.198.120", "162.159.198.135", "162.159.198.54",
   "162.159.198.234", "162.159.198.109", "162.159.198.175", "162.159.198.231", "162.159.198.219",
   "162.159.198.216", "162.159.198.64", "162.159.198.250", "162.159.198.184", "162.159.198.74",
   "162.159.198.241", "162.159.198.213", "162.159.198.232", "162.159.198.75", "162.159.198.77",
   "162.159.198.172", "162.159.198.145", "162.159.198.36", "162.159.198.124", "162.159.198.80",
   "162.159.198.192", "162.159.198.82", "162.159.198.137", "162.159.198.141", "162.159.198.48",
   "162.159.198.71", "162.159.198.227", "162.159.198.207", "162.159.198.49", "162.159.198.178",
   "162.159.198.197", "162.159.198.203", "162.159.198.204", "162.159.198.205", "162.159.198.195",
   "162.159.198.230", "162.159.198.202", "162.159.198.53", "162.159.198.79", "162.159.198.58",
   "162.159.198.35", "162.159.198.239", "162.159.198.116", "162.159.198.127", "162.159.198.240",
   "162.159.199.87", "162.159.199.117", "162.159.199.48", "162.159.199.217", "162.159.199.65",
   "162.159.199.198", "162.159.199.47", "162.159.199.103", "162.159.199.133", "162.159.199.151",
   "162.159.199.195", "162.159.199.73", "162.159.199.156", "162.159.199.247", "162.159.199.127",
   "162.159.199.158", "162.159.199.208", "162.159.199.82", "162.159.199.213", "162.159.199.70",
   "162.159.199.243", "162.159.199.204", "162.159.199.154", "162.159.199.240", "162.159.199.236",
   "162.159.199.126", "162.159.199.186", "162.159.199.188", "162.159.199.187", "162.159.199.124",
   "162.159.199.43", "162.159.199.102", "162.159.199.60", "162.159.199.219", "162.159.199.163",
   "162.159.199.193", "162.159.199.135", "162.159.199.110", "162.159.199.94", "162.159.199.136",
   "162.159.199.233", "162.159.199.77", "162.159.199.241", "162.159.199.223", "162.159.199.120",
   "162.159.199.38", "162.159.199.75", "162.159.199.57", "162.159.199.118", "162.159.199.50",
   "162.159.199.76", "162.159.199.58", "162.159.199.145", "162.159.199.81", "162.159.199.54",
   "162.159.199.234", "162.159.199.157", "162.159.199.121", "162.159.199.246", "162.159.199.182",
   "162.159.199.1", "162.159.199.251", "162.159.199.35", "162.159.199.179", "162.159.199.147",
   "162.159.199.137", "162.159.199.49", "162.159.199.138", "162.159.199.116", "162.159.199.172",
   "162.159.199.42", "162.159.199.160", "162.159.199.88", "162.159.199.212", "162.159.199.174",
   "162.159.199.79", "162.159.199.105", "162.159.199.130", "162.159.199.252", "162.159.199.238",
   "162.159.199.248", "162.159.199.125", "162.159.199.62", "162.159.199.34", "162.159.199.239",
   "162.159.199.84", "162.159.199.104", "162.159.199.196", "162.159.199.72", "162.159.199.97",
   "162.159.199.74", "162.159.199.229", "162.159.199.159", "162.159.199.192", "162.159.199.201",
   "162.159.199.44", "162.159.199.222", "162.159.199.142", "162.159.199.78", "162.159.199.235",
   "162.159.199.168", "162.159.199.162", "162.159.199.39", "162.159.199.209", "162.159.199.111",
   "162.159.199.139", "162.159.199.113", "162.159.199.215", "162.159.199.245", "162.159.199.86",
   "162.159.199.46", "162.159.199.180", "162.159.199.66", "162.159.199.173", "162.159.199.53",
   "162.159.199.216", "162.159.199.237", "162.159.199.114", "162.159.199.109", "162.159.199.214",
   "162.159.199.190", "162.159.199.106", "162.159.199.100", "162.159.199.92", "162.159.199.96",
   "162.159.199.61", "162.159.199.108", "162.159.199.64", "162.159.199.101", "162.159.199.140",
   "162.159.199.123", "162.159.199.112", "162.159.199.199", "162.159.199.225", "162.159.199.83",
   "162.159.199.69", "162.159.199.90", "162.159.199.153", "162.159.199.115", "162.159.199.149",
   "162.159.199.36", "162.159.199.224", "162.159.199.155", "162.159.199.37", "162.159.199.52",
   "162.159.199.63", "162.159.199.164", "162.159.199.253", "162.159.199.141", "162.159.199.242",
   "162.159.199.89", "162.159.199.67", "162.159.199.185", "162.159.199.98", "162.159.199.167",
   "162.159.199.0", "162.159.199.176", "162.159.199.189", "162.159.199.218", "162.159.199.211",
   "162.159.199.221", "162.159.199.220", "162.159.199.231", "162.159.199.230", "162.159.199.206",
   "162.159.199.175", "162.159.199.184", "162.159.199.203", "162.159.199.255", "162.159.199.171",
   "162.159.199.45", "162.159.199.228", "162.159.199.177", "162.159.199.165", "162.159.199.122",
   "162.159.199.99", "162.159.199.183", "162.159.199.161", "162.159.199.144", "162.159.199.119",
   "162.159.199.128", "162.159.199.146", "162.159.199.148", "162.159.199.68", "162.159.199.56",
   "162.159.199.95", "162.159.199.55", "162.159.199.197", "162.159.199.41", "162.159.199.194",
   "162.159.199.226", "162.159.199.134", "162.159.199.249", "162.159.199.232", "162.159.199.227",
   "162.159.199.191", "162.159.199.150", "162.159.199.170", "162.159.199.202", "162.159.199.169",
   "162.159.199.207", "162.159.199.166", "162.159.199.250", "162.159.199.210", "162.159.199.181",
   "162.159.199.132", "162.159.199.129", "162.159.199.107", "162.159.199.71", "162.159.199.152",
   "162.159.199.91", "162.159.199.131", "162.159.199.205", "162.159.199.85", "162.159.199.59",
   "162.159.199.51", "162.159.199.143", "162.159.199.244", "162.159.199.254", "162.159.199.178",
   "162.159.199.200", "162.159.199.93"]

def allMasqueCidrsV6 : List Text := texts
  ["2606:4700:d0::/48", "2606:4700:102::/48", "2606:4700:d1::/48", "2606:4700:103::/48"]

def masqueZtCidrsV4 : List Text := texts ["162.159.197.0/24"]

def masqueZtCidrsV6 : List Text := texts ["2606:4700:102::/48"]

def masqueSeedsV6 : List Text := texts
  ["2606:4700:103::1", "2606:4700:d0::a29f:c602", "2606:4700:d1::a29f:c602",
   "2606:4700:d0::a29f:c601", "2606:4700:d0::a29f:c001"]

def masqueGatewaysV6 : List Text := texts ["2606:4700:103::1"]

def masqueWarpCidrsV6 : List Text := texts ["2606:4700:103::/48"]

def masqueCidrsV4 (zeroTrustMode : Bool) : List Text :=
  prioritize zeroTrustMode allMasqueCidrsV4 masqueZtCidrsV4

def masqueCidrsV6 (zeroTrustMode : Bool) : List Text :=
  prioritize zeroTrustMode allMasqueCidrsV6 masqueZtCidrsV6

section Candidates

variable (st : Sampling) (ports : List UInt16) (ip : IpScan) (team zeroTrustMode : Bool)

def primary : UInt16 := ports.head?.getD 443

def rangesV4 : List Text := if team then masqueCidrsV4 zeroTrustMode else []

def rangesV6 : List Text := if team then masqueCidrsV6 zeroTrustMode else masqueWarpCidrsV6

def seedsV4 : List Ipv4Addr :=
  (if team then masqueSeeds else masqueGatewaysV4).filterMap parseIpv4Addr

def seedsV6 : List Ipv6Addr :=
  (if team then masqueSeedsV6 else masqueGatewaysV6).filterMap parseIpv6Addr

def wantedSeeds : (isIpv4 : Bool) → List IpAddr
  | true => if ip.wantV4 then (seedsV4 team).map .v4 else []
  | false => if ip.wantV6 then (seedsV6 team).map .v6 else []

def wantedHosts : (isIpv4 : Bool) → Draws (List IpAddr)
  | true => List.map .v4 <$> ifWanted ip.wantV4 (hostsV4 st (rangesV4 team zeroTrustMode))
  | false =>
    let per := if st.samplePerCidr = 0 then 96 else st.samplePerCidr
    List.map .v6 <$> ifWanted ip.wantV6 (hostsV6 per allMasqueCidrsV4 (rangesV6 team zeroTrustMode))

def onPrimary (ips : List IpAddr) : List Candidate := ips.map (·, primary ports)

def onOthers (ips : List IpAddr) : List Candidate :=
  ips.flatMap fun ip => (ports.filter (· ≠ primary ports)).map (ip, ·)

def passes (seeds hosts seeds6 hosts6 : List IpAddr) : List Candidate :=
  onPrimary ports (seeds ++ hosts) ++ onPrimary ports (seeds6 ++ hosts6) ++
    (onOthers ports seeds ++ onOthers ports seeds6)

def buildCandidates : Draws (List Candidate) := do
  let hosts ← wantedHosts st ip team zeroTrustMode true
  let hosts6 ← wantedHosts st ip team zeroTrustMode false
  return distinctBy id []
    (passes ports (wantedSeeds ip team true) hosts (wantedSeeds ip team false) hosts6)

/-- An address of a range that is wanted. -/
def InWantedRange : IpAddr → Prop
  | .v4 a => ip.wantV4 ∧ ∃ cidr ∈ rangesV4 team zeroTrustMode, InRangeV4 cidr a
  | .v6 a => ip.wantV6 ∧ ∃ cidr ∈ rangesV6 team zeroTrustMode, InRangeV6 cidr a

def ofFamily (isIpv4 : Bool) (candidate : Candidate) : Bool :=
  candidate.1.isIpv4 = isIpv4 ∧ candidate.2 = primary ports

/-- What a list of candidates is to be. -/
structure WellOrdered (out : List Candidate) : Prop where
  nodup : out.Nodup
  seedsFirst : ∀ isIpv4, (distinctBy id [] (wantedSeeds ip team isIpv4)).map (·, primary ports) <+:
    out.filter (ofFamily ports isIpv4)
  complete : ∀ isIpv4, ∀ seed ∈ wantedSeeds ip team isIpv4, ∀ port ∈ ports, (seed, port) ∈ out
  primaryFirst : out.Pairwise fun a b => b.2 = primary ports → a.2 = primary ports
  sound : ∀ candidate ∈ out,
    (∃ isIpv4, candidate.1 ∈ wantedSeeds ip team isIpv4) ∧
        (candidate.2 ∈ ports ∨ candidate.2 = primary ports) ∨
      InWantedRange ip team zeroTrustMode candidate.1 ∧ candidate.2 = primary ports

end Candidates

theorem allMasqueCidrsV4_aligned : ∀ cidr ∈ allMasqueCidrsV4, Aligned cidr := by
  decide +kernel

theorem allMasqueCidrsV6_roomy : ∀ cidr ∈ allMasqueCidrsV6, Roomy cidr := by
  decide +kernel

theorem masqueWarpCidrsV6_subset : ∀ cidr ∈ masqueWarpCidrsV6, cidr ∈ allMasqueCidrsV6 := by
  decide

section
variable {st : Sampling} {ports : List UInt16} {ip : IpScan} {team zeroTrustMode : Bool}

theorem rangesV4_aligned : ∀ cidr ∈ rangesV4 team zeroTrustMode, Aligned cidr := by
  intro cidr mem
  cases team with
  | true => exact allMasqueCidrsV4_aligned cidr (mem_prioritize.mp mem)
  | false => cases mem

theorem rangesV6_roomy : ∀ cidr ∈ rangesV6 team zeroTrustMode, Roomy cidr := by
  intro cidr mem
  cases team with
  | true => exact allMasqueCidrsV6_roomy cidr (mem_prioritize.mp mem)
  | false => exact allMasqueCidrsV6_roomy cidr (masqueWarpCidrsV6_subset cidr mem)

variable {isIpv4 : Bool}

theorem wantedSeeds_isIpv4 {seed : IpAddr} (mem : seed ∈ wantedSeeds ip team isIpv4) :
    seed.isIpv4 = isIpv4 := by
  cases isIpv4 with
  | true =>
    rw [wantedSeeds] at mem
    split at mem
    · obtain ⟨a, -, rfl⟩ := mem_map.mp mem
      rfl
    · cases mem
  | false =>
    rw [wantedSeeds] at mem
    split at mem
    · obtain ⟨a, -, rfl⟩ := mem_map.mp mem
      rfl
    · cases mem

theorem wantedHosts_inRange {hosts : List IpAddr}
    (yields : Yields (wantedHosts st ip team zeroTrustMode isIpv4) hosts) :
    ∀ host ∈ hosts, host.isIpv4 = isIpv4 ∧ InWantedRange ip team zeroTrustMode host := by
  intro host mem
  cases isIpv4 with
  | true =>
    obtain ⟨out, drawn, rfl⟩ := yields.of_map
    obtain ⟨a, here, rfl⟩ := mem_map.mp mem
    rcases of_ifWanted drawn with ⟨wanted, drawn⟩ | rfl
    · exact ⟨rfl, wanted, hostsV4_inRange rangesV4_aligned drawn a here⟩
    · cases here
  | false =>
    obtain ⟨out, drawn, rfl⟩ := yields.of_map
    obtain ⟨a, here, rfl⟩ := mem_map.mp mem
    rcases of_ifWanted drawn with ⟨wanted, drawn⟩ | rfl
    · exact ⟨rfl, wanted, hostsV6_inRange rangesV6_roomy drawn a here⟩
    · cases here

section
variable {hosts : List IpAddr} (yields : Yields (wantedHosts st ip team zeroTrustMode isIpv4) hosts) {a : IpAddr}
include yields

theorem isIpv4_of_mem (mem : a ∈ wantedSeeds ip team isIpv4 ++ hosts) : a.isIpv4 = isIpv4 := by
  rcases mem_append.mp mem with seed | host
  · exact wantedSeeds_isIpv4 seed
  · exact (wantedHosts_inRange yields a host).1

theorem wanted_of_mem (mem : a ∈ wantedSeeds ip team isIpv4 ++ hosts) :
    (∃ isIpv4, a ∈ wantedSeeds ip team isIpv4) ∨ InWantedRange ip team zeroTrustMode a := by
  rcases mem_append.mp mem with seed | host
  · exact .inl ⟨isIpv4, seed⟩
  · exact .inr (wantedHosts_inRange yields a host).2

end

theorem wantedHosts_ends : Ends (wantedHosts st ip team zeroTrustMode isIpv4) := by
  cases isIpv4 with
  | true => exact .map _ (ifWanted_ends hostsV4_ends)
  | false => exact .map _ (ifWanted_ends hostsV6_ends)

theorem buildCandidates_ends : Ends (buildCandidates st ports ip team zeroTrustMode) :=
  wantedHosts_ends.bind fun _ => wantedHosts_ends.bind fun _ => .pure _

variable {ips : List IpAddr}

theorem mem_onPrimary {candidate : Candidate} :
    candidate ∈ onPrimary ports ips ↔ candidate.1 ∈ ips ∧ candidate.2 = primary ports := by
  obtain ⟨a, port⟩ := candidate
  simp [onPrimary, eq_comm]

theorem mem_onOthers {candidate : Candidate} :
    candidate ∈ onOthers ports ips ↔
      candidate.1 ∈ ips ∧ candidate.2 ∈ ports ∧ candidate.2 ≠ primary ports := by
  obtain ⟨a, port⟩ := candidate
  simp only [onOthers, mem_flatMap, mem_map, mem_filter, decide_eq_true_eq, Prod.mk.injEq]
  constructor
  · rintro ⟨a', given, port', listed, rfl, rfl⟩
    exact ⟨given, listed⟩
  · rintro ⟨given, listed⟩
    exact ⟨a, given, port, listed, rfl, rfl⟩

theorem filter_onPrimary (family : ∀ a ∈ ips, a.isIpv4 = isIpv4) :
    (onPrimary ports ips).filter (ofFamily ports isIpv4) = onPrimary ports ips := by
  refine filter_eq_self.mpr fun candidate mem => ?_
  obtain ⟨given, same⟩ := mem_onPrimary.mp mem
  exact decide_eq_true ⟨family _ given, same⟩

theorem filter_onPrimary_other (family : ∀ a ∈ ips, a.isIpv4 ≠ isIpv4) :
    (onPrimary ports ips).filter (ofFamily ports isIpv4) = [] := by
  refine filter_eq_nil_iff.mpr fun candidate mem here => ?_
  exact family _ (mem_onPrimary.mp mem).1 (of_decide_eq_true here).1

theorem filter_onOthers :
    (onOthers ports ips).filter (ofFamily ports isIpv4) = [] := by
  refine filter_eq_nil_iff.mpr fun candidate mem here => ?_
  exact (mem_onOthers.mp mem).2.2 (of_decide_eq_true here).2

section
variable {seeds hosts seeds6 hosts6 : List IpAddr} {candidate : Candidate}

theorem mem_passes :
    candidate ∈ passes ports seeds hosts seeds6 hosts6 ↔
      (candidate.1 ∈ seeds ++ hosts ∨ candidate.1 ∈ seeds6 ++ hosts6) ∧ candidate.2 = primary ports ∨
        (candidate.1 ∈ seeds ∨ candidate.1 ∈ seeds6) ∧ candidate.2 ∈ ports ∧ candidate.2 ≠ primary ports := by
  rw [passes, mem_append, mem_append, mem_append, mem_onPrimary, mem_onPrimary,
    mem_onOthers, mem_onOthers, ← or_and_right, ← or_and_right]

theorem filter_passes (v4 : ∀ {a}, a ∈ seeds ++ hosts → a.isIpv4 = true)
    (v6 : ∀ {a}, a ∈ seeds6 ++ hosts6 → a.isIpv4 = false) :
    (passes ports seeds hosts seeds6 hosts6).filter (ofFamily ports isIpv4) =
      onPrimary ports (if isIpv4 then seeds ++ hosts else seeds6 ++ hosts6) := by
  rw [passes, filter_append, filter_append, filter_append, filter_onOthers,
    filter_onOthers, append_nil, append_nil]
  cases isIpv4 with
  | true =>
    rw [filter_onPrimary fun _ => v4, filter_onPrimary_other fun a mem => by simp [v6 mem], append_nil]
    rfl
  | false =>
    rw [filter_onPrimary fun _ => v6, filter_onPrimary_other fun a mem => by simp [v4 mem], nil_append]
    rfl

theorem pairwise_passes :
    (passes ports seeds hosts seeds6 hosts6).Pairwise fun a b => b.2 = primary ports → a.2 = primary ports := by
  have first : ∀ a ∈ onPrimary ports (seeds ++ hosts) ++ onPrimary ports (seeds6 ++ hosts6),
      a.2 = primary ports := by
    intro a mem
    rcases mem_append.mp mem with mem | mem
    · exact (mem_onPrimary.mp mem).2
    · exact (mem_onPrimary.mp mem).2
  have later : ∀ a ∈ onOthers ports seeds ++ onOthers ports seeds6, a.2 ≠ primary ports := by
    intro a mem
    rcases mem_append.mp mem with mem | mem
    · exact (mem_onOthers.mp mem).2.2
    · exact (mem_onOthers.mp mem).2.2
  refine pairwise_append.mpr ⟨?_, ?_, fun a mem b _ _ => first a mem⟩
  · exact List.Pairwise.imp_of_mem (fun mem _ _ _ => first _ mem) (pairwise_of_forall fun _ _ => trivial)
  · exact List.Pairwise.imp_of_mem (fun _ mem _ same => absurd same (later _ mem))
      (pairwise_of_forall fun _ _ => trivial)

theorem prefix_onPrimary :
    (distinctBy id [] seeds).map (·, primary ports) <+: distinctBy id [] (onPrimary ports (seeds ++ hosts)) := by
  have inj : Function.Injective fun a : IpAddr => (a, primary ports) :=
    fun _ _ same => congrArg Prod.fst same
  rw [← distinct_map inj, onPrimary, map_append, distinctBy_append]
  exact prefix_append ..

end

/-- In a list of candidates nothing is twice: seeds come first on the primary port, the other
    ports last, every seed with every port, and nothing that is not wanted. -/
theorem masque_candidates (st : Sampling) (ports : List UInt16) (ip : IpScan) (team zeroTrustMode : Bool) :
    Ends (buildCandidates st ports ip team zeroTrustMode) ∧
      ∀ out, Yields (buildCandidates st ports ip team zeroTrustMode) out →
        WellOrdered ports ip team zeroTrustMode out := by
  refine ⟨buildCandidates_ends, fun out yields => ?_⟩
  obtain ⟨hosts, drawn, yields⟩ := yields.of_bind
  obtain ⟨hosts6, drawn6, yields⟩ := yields.of_bind
  cases yields.of_pure
  constructor
  case nodup => exact nodup_distinct
  case seedsFirst =>
    intro isIpv4
    rw [filter_distinct, filter_passes (isIpv4_of_mem drawn) (isIpv4_of_mem drawn6)]
    cases isIpv4 with
    | true => exact prefix_onPrimary
    | false => exact prefix_onPrimary
  case complete =>
    intro isIpv4 seed mem port listed
    refine mem_distinct.mpr ⟨mem_passes.mpr ?_, not_mem_nil⟩
    cases isIpv4 with
    | true => by_cases same : port = primary ports <;> simp [mem, listed, same]
    | false => by_cases same : port = primary ports <;> simp [mem, listed, same]
  case primaryFirst => exact pairwise_passes.sublist distinctBy_sublist
  case sound =>
    intro candidate mem
    rcases mem_passes.mp (mem_of_mem_distinctBy mem) with ⟨here | here, same⟩ | ⟨here | here, listed, -⟩
    · exact (wanted_of_mem drawn here).imp (⟨·, .inr same⟩) (⟨·, same⟩)
    · exact (wanted_of_mem drawn6 here).imp (⟨·, .inr same⟩) (⟨·, same⟩)
    · exact .inl ⟨⟨true, here⟩, .inl listed⟩
    · exact .inl ⟨⟨false, here⟩, .inl listed⟩

end

theorem masque_candidates_warp :
    let seed : IpAddr := .v6 ⟨0x26064700010300000000000000000001#128⟩
    let host : IpAddr := .v6 ⟨0x260647000103000000000000a29fc407#128⟩
    let out := [(seed, 443), (host, 443), (seed, 500)]
    Yields (buildCandidates ⟨false, 1⟩ [443, 500, 443] .v6 false false) out ∧
      WellOrdered [443, 500, 443] .v6 false false out := by
  intro seed host out
  have yields : Yields (buildCandidates ⟨false, 1⟩ [443, 500, 443] .v6 false false) out :=
    ⟨[0, 7], [], by decide +kernel⟩
  exact ⟨yields, (masque_candidates ⟨false, 1⟩ [443, 500, 443] .v6 false false).2 out yields⟩

end Gozarbin.Gateways
