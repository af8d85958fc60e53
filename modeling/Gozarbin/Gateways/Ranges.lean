import Gozarbin.Lib.Distinct
import Gozarbin.Lib.Drawing
import Gozarbin.Net.SocketAddress
import Mathlib.Data.List.Perm.Subperm

/-! # Ranges of addresses

The scans go through ranges, an address and the length of a prefix. A range of IPv4 is gone
through as a whole or sampled, one of IPv6 is sampled. `prober` and `wg_prober` have these
functions alike. Sums of 32 bits wrap around, for no range of the program.
-/

namespace Gozarbin.Gateways

open List Text AddrText Drawing Distinct

inductive IpScan where
  | v4
  | v6
  | both

def IpScan.wantV4 : IpScan → Bool
  | .v6 => false
  | _ => true

def IpScan.wantV6 : IpScan → Bool
  | .v4 => false
  | _ => true

def texts (table : List String) : List Text := table.map String.toList

/-- The part of a strategy that says how many addresses of a range are tried. -/
structure Sampling where
  fullSubnet : Bool
  samplePerCidr : Nat

def parseCidrV4 (cidr : Text) : Option (BitVec 32 × Nat) := do
  let (ip, length) ← splitOnce ['/'] cidr
  return ((← parseIpv4Addr ip).bits, ← parseUnsigned 256 length)

def parseCidrV6 (cidr : Text) : Option (BitVec 128 × Nat) := do
  let (ip, length) ← splitOnce ['/'] cidr
  return ((← parseIpv6Addr ip).bits, ← parseUnsigned 256 length)

def enumerateCidrV4 (cidr : Text) : List Ipv4Addr :=
  match parseCidrV4 cidr with
  | none => []
  | some (base, length) =>
    let hostBits := 32 - length
    if hostBits = 0 then [⟨base⟩]
    else if hostBits > 12 then []
    else
      let size := 2 ^ hostBits
      (List.range' 1 (size - 2)).map fun off => ⟨base + .ofNat 32 off⟩

def choose (chosen : List Nat) (off : Nat) : List Nat :=
  if off ∈ chosen then chosen else chosen ++ [off]

theorem mem_choose {chosen : List Nat} {off off' : Nat} :
    off' ∈ choose chosen off ↔ off' ∈ chosen ∨ off' = off := by
  rw [choose]
  split
  next known => exact ⟨.inl, fun mem => mem.elim id fun same => same ▸ known⟩
  next => simp

def sampleOffsets (usable want : Nat) : (chosen : List Nat) → Draws (List Nat)
  | chosen, [] => if chosen.length < want then none else some (chosen, [])
  | chosen, number :: rest =>
    if chosen.length < want then sampleOffsets usable want (choose chosen (1 + number % usable)) rest
    else some (chosen, number :: rest)

def sampleCidrV4 (cidr : Text) (n : Nat) : Draws (List Ipv4Addr) :=
  match parseCidrV4 cidr with
  | none => return []
  | some (base, length) =>
    let hostBits := 32 - length
    let size := if 32 ≤ hostBits then 2 ^ 32 - 1 else 2 ^ hostBits
    if size ≤ 2 then return [⟨base⟩]
    else do
      let usable := size - 2
      let chosen ← sampleOffsets usable (min (n % 2 ^ 32) usable) []
      return chosen.map fun off => ⟨base + .ofNat 32 off⟩

def embedded (v4 : List (BitVec 32 × Nat)) : Draws (BitVec 32) :=
  if v4.isEmpty then return .ofNat 32 (← below (2 ^ 32))
  else do
    let (base, length) := v4.getD (← below v4.length) (0, 0)
    let hostBits := 32 - length
    if hostBits = 0 then return base
    else return base ||| .ofNat 32 ((← below (2 ^ 32)) % 2 ^ hostBits)

def sampleCidrV6 (cidr : Text) (n : Nat) (v4Cidrs : List Text) : Draws (List Ipv6Addr) :=
  match parseCidrV6 cidr with
  | none => return []
  | some (base, length) =>
    if 128 - length = 0 then return [⟨base⟩]
    else do
      let v4 := v4Cidrs.filterMap parseCidrV4
      (List.range n).mapM fun _ => return ⟨base ||| (← embedded v4).setWidth 128⟩

def takeTurns {α : Type} (ranges : List (List α)) : List α :=
  let maxLen := (ranges.map List.length).max?.getD 0
  (List.range maxLen).flatMap fun i => ranges.filterMap (·[i]?)

def hostsV4 (st : Sampling) (ranges : List Text) : Draws (List Ipv4Addr) :=
  takeTurns <$> ranges.mapM fun cidr =>
    if st.fullSubnet then return enumerateCidrV4 cidr else sampleCidrV4 cidr st.samplePerCidr

def hostsV6 (per : Nat) (v4Cidrs ranges : List Text) : Draws (List Ipv6Addr) :=
  takeTurns <$> ranges.mapM fun cidr => sampleCidrV6 cidr per v4Cidrs

def ifWanted {α : Type} (wanted : Bool) (hosts : Draws (List α)) : Draws (List α) :=
  if wanted then hosts else return []

def prioritize (zeroTrustMode : Bool) (all first : List Text) : List Text :=
  if zeroTrustMode then
    let out := first.filter all.contains
    out ++ distinctBy id out all
  else all

theorem mem_prioritize {zeroTrustMode : Bool} {all first : List Text} {entry : Text} :
    entry ∈ prioritize zeroTrustMode all first ↔ entry ∈ all := by
  rw [prioritize]
  split
  · rw [mem_append, mem_distinct, mem_filter, contains_iff_mem]
    tauto
  · rfl

theorem mem_takeTurns {α : Type} {ranges : List (List α)} {a : α} (mem : a ∈ takeTurns ranges) :
    ∃ hosts ∈ ranges, a ∈ hosts := by
  obtain ⟨i, -, mem⟩ := mem_flatMap.mp mem
  obtain ⟨hosts, given, here⟩ := mem_filterMap.mp mem
  exact ⟨hosts, given, mem_of_getElem? here⟩

def InRangeV4 (cidr : Text) (ip : Ipv4Addr) : Prop :=
  ∃ base length, parseCidrV4 cidr = some (base, length) ∧
    ip.bits >>> (32 - length) = base >>> (32 - length)

def InRangeV6 (cidr : Text) (ip : Ipv6Addr) : Prop :=
  ∃ base length, parseCidrV6 cidr = some (base, length) ∧
    ip.bits >>> (128 - length) = base >>> (128 - length)

def Aligned (cidr : Text) : Prop :=
  ∀ range ∈ parseCidrV4 cidr, 0 < range.2 ∧ range.1.toNat % 2 ^ (32 - range.2) = 0

def Roomy (cidr : Text) : Prop := ∀ range ∈ parseCidrV6 cidr, 32 ≤ 128 - range.2

instance : DecidablePred Aligned := fun cidr =>
  inferInstanceAs
    (Decidable (∀ range ∈ parseCidrV4 cidr, 0 < range.2 ∧ range.1.toNat % 2 ^ (32 - range.2) = 0))

instance : DecidablePred Roomy := fun cidr =>
  inferInstanceAs (Decidable (∀ range ∈ parseCidrV6 cidr, 32 ≤ 128 - range.2))

section
variable {cidr : Text}

theorem shift_add {base : BitVec 32} {hostBits off : Nat} (aligned : base.toNat % 2 ^ hostBits = 0)
    (bits : hostBits ≤ 32) (small : off < 2 ^ hostBits) :
    (base + .ofNat 32 off) >>> hostBits = base >>> hostBits := by
  apply BitVec.eq_of_toNat_eq
  obtain ⟨k, whole⟩ := Nat.dvd_of_mod_eq_zero aligned
  have bound := base.isLt
  have total : 2 ^ 32 = 2 ^ hostBits * 2 ^ (32 - hostBits) := by
    rw [← Nat.pow_add, Nat.add_sub_cancel' bits]
  have few : k < 2 ^ (32 - hostBits) := by
    rw [whole, total] at bound
    exact Nat.lt_of_mul_lt_mul_left bound
  have fits : base.toNat + off < 2 ^ 32 := by
    rw [whole, total]
    calc 2 ^ hostBits * k + off < 2 ^ hostBits * k + 2 ^ hostBits := by omega
      _ ≤ 2 ^ hostBits * 2 ^ (32 - hostBits) := Nat.mul_le_mul_left _ few
  have sum : (base + BitVec.ofNat 32 off).toNat = base.toNat + off := by
    rw [BitVec.toNat_add, BitVec.toNat_ofNat, Nat.add_mod_mod, Nat.mod_eq_of_lt fits]
  rw [BitVec.toNat_ushiftRight, BitVec.toNat_ushiftRight, sum, Nat.shiftRight_eq_div_pow,
    Nat.shiftRight_eq_div_pow, whole, Nat.mul_add_div (Nat.two_pow_pos _), Nat.div_eq_of_lt small,
    Nat.mul_div_cancel_left _ (Nat.two_pow_pos _), Nat.add_zero]

theorem shift_or {base : BitVec 128} {low : BitVec 32} {hostBits : Nat} (room : 32 ≤ hostBits) :
    (base ||| low.setWidth 128) >>> hostBits = base >>> hostBits := by
  have none : low.setWidth 128 >>> hostBits = 0#128 := by
    apply BitVec.eq_of_toNat_eq
    have le : 2 ^ 32 ≤ 2 ^ hostBits := Nat.pow_le_pow_right (by decide) room
    rw [BitVec.toNat_ushiftRight, BitVec.toNat_setWidth, Nat.mod_eq_of_lt (by omega),
      Nat.shiftRight_eq_div_pow, Nat.div_eq_of_lt (by omega)]
    rfl
  rw [BitVec.ushiftRight_or_distrib, none, BitVec.or_zero]

theorem enumerateCidrV4_inRange (aligned : Aligned cidr) {ip : Ipv4Addr}
    (mem : ip ∈ enumerateCidrV4 cidr) : InRangeV4 cidr ip := by
  rw [enumerateCidrV4] at mem
  split at mem
  next => cases mem
  next base length parsed =>
    refine ⟨base, length, parsed, ?_⟩
    dsimp only at mem
    split_ifs at mem
    · cases mem_singleton.mp mem
      rfl
    · cases mem
    · obtain ⟨off, within, rfl⟩ := mem_map.mp mem
      rw [mem_range'_1] at within
      exact shift_add (aligned (base, length) parsed).2 (Nat.sub_le ..) (by omega)

variable {usable want : Nat} {chosen out : List Nat}

theorem sampleOffsets_le (pos : 0 < usable) (known : ∀ off ∈ chosen, off ≤ usable)
    (yields : Yields (sampleOffsets usable want chosen) out) : ∀ off ∈ out, off ≤ usable := by
  obtain ⟨numbers, rest, ran⟩ := yields
  change sampleOffsets usable want chosen numbers = some (out, rest) at ran
  induction numbers generalizing chosen with
  | nil =>
    rw [sampleOffsets] at ran
    split_ifs at ran
    cases ran
    exact known
  | cons number numbers ih =>
    rw [sampleOffsets] at ran
    split_ifs at ran
    · refine ih (fun off mem => ?_) ran
      rcases mem_choose.mp mem with old | rfl
      · exact known off old
      · have := Nat.mod_lt number pos
        omega
    · cases ran
      exact known

theorem sampleOffsets_of_numbers {numbers : List Nat} (few : want ≤ usable)
    (hits : ∀ r < usable, 1 + r ∈ chosen ∨ ∃ number ∈ numbers, number % usable = r) :
    ∃ used, used <+: numbers ∧
      ∃ out, ∀ rest, sampleOffsets usable want chosen (used ++ rest) = some (out, rest) := by
  induction numbers generalizing chosen with
  | nil =>
    have all : List.range' 1 usable ⊆ chosen := by
      intro off mem
      rw [mem_range'_1] at mem
      have hit := (hits (off - 1) (by omega)).resolve_right (by simp)
      rwa [show 1 + (off - 1) = off by omega] at hit
    have count : usable ≤ chosen.length := by
      have := subperm_of_subset (nodup_range' 1) all |>.length_le
      rwa [List.length_range'] at this
    refine ⟨[], prefix_rfl, chosen, fun rest => ?_⟩
    cases rest <;> simp [sampleOffsets, show ¬chosen.length < want by omega]
  | cons number numbers ih =>
    by_cases more : chosen.length < want
    · have later : ∀ r < usable, 1 + r ∈ choose chosen (1 + number % usable) ∨
          ∃ number ∈ numbers, number % usable = r := by
        intro r small
        rcases hits r small with known | ⟨n, mem, same⟩
        · exact .inl (mem_choose.mpr (.inl known))
        · rcases mem_cons.mp mem with rfl | mem
          · exact .inl (mem_choose.mpr (.inr (by rw [same])))
          · exact .inr ⟨n, mem, same⟩
      obtain ⟨used, start, out, ran⟩ := ih later
      refine ⟨number :: used, cons_prefix_cons.mpr ⟨rfl, start⟩, out, fun rest => ?_⟩
      rw [cons_append, sampleOffsets, if_pos more]
      exact ran rest
    · refine ⟨[], nil_prefix, chosen, fun rest => ?_⟩
      cases rest <;> simp [sampleOffsets, more]

theorem sampleOffsets_ends (few : want ≤ usable) : Ends (sampleOffsets usable want []) := by
  intro source fair
  obtain ⟨count, hits⟩ := fair.exists_firstOf usable
  obtain ⟨used, start, out, ran⟩ := sampleOffsets_of_numbers few fun r small => .inr (hits r small)
  rw [prefix_iff_eq_take] at start
  have short : used.length ≤ count := by
    have := congrArg List.length start
    simp [firstOf] at this
    omega
  rw [take_firstOf short] at start
  exact ⟨used.length, out, fun rest => by rw [← start]; exact ran rest⟩

theorem sampleCidrV4_inRange (aligned : Aligned cidr) {n : Nat} {out : List Ipv4Addr}
    (yields : Yields (sampleCidrV4 cidr n) out) : ∀ ip ∈ out, InRangeV4 cidr ip := by
  intro ip mem
  rw [sampleCidrV4] at yields
  split at yields
  next =>
    cases yields.of_pure
    cases mem
  next base length parsed =>
    refine ⟨base, length, parsed, ?_⟩
    obtain ⟨pos, zero⟩ := aligned (base, length) parsed
    dsimp only at yields
    rw [if_neg (show ¬32 ≤ 32 - length by omega)] at yields
    split at yields
    next =>
      cases yields.of_pure
      cases mem_singleton.mp mem
      rfl
    next large =>
      obtain ⟨chosen, sampled, yields⟩ := yields.of_bind
      cases yields.of_pure
      obtain ⟨off, picked, rfl⟩ := mem_map.mp mem
      have le := sampleOffsets_le (by omega) (by simp) sampled off picked
      exact shift_add zero (Nat.sub_le ..) (by omega)

theorem sampleCidrV4_ends (n : Nat) : Ends (sampleCidrV4 cidr n) := by
  rw [sampleCidrV4]
  split
  next => exact .pure _
  next base length parsed =>
    by_cases small : (if 32 ≤ 32 - length then 2 ^ 32 - 1 else 2 ^ (32 - length)) ≤ 2
    · rw [if_pos small]
      exact .pure _
    · rw [if_neg small]
      exact (sampleOffsets_ends (Nat.min_le_right ..)).bind fun _ => .pure _

theorem sampleCidrV6_inRange (roomy : Roomy cidr) {n : Nat} {v4Cidrs : List Text} {out : List Ipv6Addr}
    (yields : Yields (sampleCidrV6 cidr n v4Cidrs) out) : ∀ ip ∈ out, InRangeV6 cidr ip := by
  intro ip mem
  rw [sampleCidrV6] at yields
  split at yields
  next =>
    cases yields.of_pure
    cases mem
  next base length parsed =>
    refine ⟨base, length, parsed, ?_⟩
    split at yields
    next =>
      cases yields.of_pure
      cases mem_singleton.mp mem
      rfl
    next =>
      obtain ⟨_, -, drawn⟩ := yields.of_mapM ip mem
      obtain ⟨low, -, drawn⟩ := drawn.of_bind
      cases drawn.of_pure
      exact shift_or (roomy (base, length) parsed)

theorem embedded_ends (v4 : List (BitVec 32 × Nat)) : Ends (embedded v4) := by
  rw [embedded]
  split
  · exact (Ends.below _).bind fun _ => .pure _
  · refine (Ends.below _).bind fun _ => ?_
    dsimp only
    split
    · exact .pure _
    · exact (Ends.below _).bind fun _ => .pure _

theorem sampleCidrV6_ends (n : Nat) (v4Cidrs : List Text) : Ends (sampleCidrV6 cidr n v4Cidrs) := by
  rw [sampleCidrV6]
  split
  · exact .pure _
  · split
    · exact .pure _
    · exact .mapM fun _ _ => (embedded_ends _).bind fun _ => .pure _

end

section
variable {st : Sampling} {per : Nat} {ranges v4Cidrs : List Text}

theorem hostsV4_inRange (aligned : ∀ cidr ∈ ranges, Aligned cidr) {out : List Ipv4Addr}
    (yields : Yields (hostsV4 st ranges) out) : ∀ ip ∈ out, ∃ cidr ∈ ranges, InRangeV4 cidr ip := by
  intro ip mem
  obtain ⟨cidrHosts, drawn, rfl⟩ := yields.of_map
  obtain ⟨hosts, given, here⟩ := mem_takeTurns mem
  obtain ⟨cidr, listed, drawn⟩ := drawn.of_mapM hosts given
  refine ⟨cidr, listed, ?_⟩
  split at drawn
  · cases drawn.of_pure
    exact enumerateCidrV4_inRange (aligned cidr listed) here
  · exact sampleCidrV4_inRange (aligned cidr listed) drawn ip here

theorem hostsV4_ends : Ends (hostsV4 st ranges) := by
  refine .map _ (.mapM fun cidr _ => ?_)
  split
  · exact .pure _
  · exact sampleCidrV4_ends st.samplePerCidr

theorem hostsV6_inRange (roomy : ∀ cidr ∈ ranges, Roomy cidr) {out : List Ipv6Addr}
    (yields : Yields (hostsV6 per v4Cidrs ranges) out) :
    ∀ ip ∈ out, ∃ cidr ∈ ranges, InRangeV6 cidr ip := by
  intro ip mem
  obtain ⟨cidrHosts, drawn, rfl⟩ := yields.of_map
  obtain ⟨hosts, given, here⟩ := mem_takeTurns mem
  obtain ⟨cidr, listed, drawn⟩ := drawn.of_mapM hosts given
  exact ⟨cidr, listed, sampleCidrV6_inRange (roomy cidr listed) drawn ip here⟩

theorem hostsV6_ends : Ends (hostsV6 per v4Cidrs ranges) :=
  .map _ (.mapM fun _ _ => sampleCidrV6_ends per v4Cidrs)

theorem ifWanted_ends {α : Type} {wanted : Bool} {hosts : Draws (List α)} (ends : Ends hosts) :
    Ends (ifWanted wanted hosts) := by
  cases wanted with
  | true => exact ends
  | false => exact .pure []

theorem of_ifWanted {α : Type} {wanted : Bool} {hosts : Draws (List α)} {out : List α}
    (yields : Yields (ifWanted wanted hosts) out) : wanted = true ∧ Yields hosts out ∨ out = [] := by
  cases wanted with
  | true => exact .inl ⟨rfl, yields⟩
  | false => exact .inr yields.of_pure

end

end Gozarbin.Gateways
