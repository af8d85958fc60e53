import Gozarbin.Lib.OnesComplement
import Gozarbin.Lib.Text
import Gozarbin.Net.Addr

/-! # The probe packets

A gateway is taken to work when it carries a DNS query and an answer comes back. `masque.rs` and
`wireguard.rs` build the query, and the IPv4 packet around it, each with functions of its own; the
two are the same line by line, so what they do is said once.
-/

namespace Gozarbin

open List

open BigEndian (toBytes)

namespace Probe

def addU32 (sum word : Nat) : Option Nat := if sum + word < 2 ^ 32 then some (sum + word) else none

def sumWords (sum : Nat) : (header : Bytes) → Option Nat
  | high :: low :: rest => (addU32 sum (high.toNat * 256 + low.toNat)).bind (sumWords · rest)
  | [high] => addU32 sum (high.toNat <<< 8)
  | [] => some sum

def foldCarries (sum : Nat) : Nat :=
  if sum >>> 16 = 0 then sum else foldCarries ((sum &&& 0xffff) + (sum >>> 16))
termination_by sum
decreasing_by
  have low : sum &&& 0xffff = sum % 65536 := Nat.and_two_pow_sub_one_eq_mod sum 16
  simp only [Nat.shiftRight_eq_div_pow] at *
  omega

def headerChecksum (header : Bytes) : Option UInt16 :=
  (sumWords 0 header).map fun sum => ~~~UInt16.ofNat (foldCarries sum)

def storeChecksum (header : Bytes) (csum : UInt16) : Bytes :=
  header.take 10 ++ toBytes 2 csum.toNat ++ header.drop 12

/-- What is drawn for a packet. -/
structure Draws where
  queryId : UInt16
  id : UInt16
  sport : UInt16

def label (text : String) : Bytes := UInt8.ofNat (Text.ascii text).length :: Text.ascii text

def dnsQuery (id : UInt16) : Bytes :=
  toBytes 2 id.toNat ++ [0x01, 0x00] ++ [0x00, 0x01] ++ [0x00, 0x00, 0x00, 0x00, 0x00, 0x00] ++
    ["cloudflare", "com"].flatMap label ++ [0x00] ++ [0x00, 0x01] ++ [0x00, 0x01]

def octets (a : Ipv4Addr) : Bytes := [0, 1, 2, 3].map fun i => UInt8.ofNat (a.octet i)

def header (totalLen : Nat) (id : UInt16) (src : Ipv4Addr) : Bytes :=
  [0x45] ++ [0x00] ++ toBytes 2 totalLen ++ toBytes 2 id.toNat ++ [0x00, 0x00] ++ [64] ++ [17] ++
    [0x00, 0x00] ++ octets src ++ octets (.new 8 8 8 8)

def packet (checksum : Bytes → Option UInt16) (dns : Bytes) (draws : Draws)
    (src : Ipv4Addr) : Option Bytes :=
  let udpLen := 8 + dns.length
  let pkt := header (20 + udpLen) draws.id src
  (checksum pkt).map fun csum =>
    storeChecksum pkt csum ++ toBytes 2 draws.sport.toNat ++ toBytes 2 53 ++ toBytes 2 udpLen ++
      [0x00, 0x00] ++ dns

end Probe

namespace Masque

def ipv4HeaderChecksum : Bytes → Option UInt16 := Probe.headerChecksum

def probeDnsQuery : UInt16 → Bytes := Probe.dnsQuery

def buildDnsProbePacket (draws : Probe.Draws) : Ipv4Addr → Option Bytes :=
  Probe.packet ipv4HeaderChecksum (probeDnsQuery draws.queryId) draws

end Masque

namespace Wireguard

def ipv4Checksum : Bytes → Option UInt16 := Probe.headerChecksum

def buildDnsQuery : UInt16 → Bytes := Probe.dnsQuery

def buildDataplaneProbe (draws : Probe.Draws) : Ipv4Addr → Option Bytes :=
  Probe.packet ipv4Checksum (buildDnsQuery draws.queryId) draws

end Wireguard

namespace Probe

open OnesComplement (words residue)

theorem sumWords_eq {sum : Nat} {header : Bytes} (small : sum + (words header).sum < 2 ^ 32) :
    sumWords sum header = some (sum + (words header).sum) := by
  induction header using OnesComplement.words.induct generalizing sum with
  | case1 high low rest ih =>
    rw [words, sum_cons, ← Nat.add_assoc] at small
    have here : sum + (high.toNat * 256 + low.toNat) < 2 ^ 32 := by omega
    rw [sumWords, addU32, if_pos here, Option.bind_some, ih small, words, sum_cons,
      Nat.add_assoc]
  | case2 high =>
    have word : high.toNat <<< 8 = high.toNat * 256 := Nat.shiftLeft_eq _ 8
    rw [words, sum_singleton] at small
    rw [sumWords, word, addU32, if_pos small, words, sum_singleton]
  | case3 => rfl

theorem foldCarries_eq (sum : Nat) : foldCarries sum = residue sum := by
  have high : sum >>> 16 = sum / 65536 := Nat.shiftRight_eq_div_pow sum 16
  induction sum using foldCarries.induct with
  | case1 sum none_ =>
    rw [foldCarries, if_pos none_, OnesComplement.residue_of_lt (by omega)]
  | case2 sum carry ih =>
    have low : sum &&& 0xffff = sum % 65536 := Nat.and_two_pow_sub_one_eq_mod sum 16
    rw [foldCarries, if_neg carry, ih (Nat.shiftRight_eq_div_pow _ 16), low, high,
      OnesComplement.residue_carry]

theorem headerChecksum_eq {header : Bytes} (short : header.length ≤ 65534) :
    ∃ csum : UInt16, headerChecksum header = some csum ∧
      csum.toNat = 65535 - residue (words header).sum := by
  have bound := OnesComplement.sum_words_le header
  have small : 0 + (words header).sum < 2 ^ 32 := by omega
  have word := OnesComplement.residue_le (words header).sum
  refine ⟨~~~UInt16.ofNat (residue (words header).sum), ?_, ?_⟩
  · rw [headerChecksum, sumWords_eq small, Nat.zero_add, Option.map_some, foldCarries_eq]
  · rw [UInt16.toNat_not, UInt16.toNat_ofNat_of_lt' (Nat.lt_succ_of_le word)]
    rfl

/-- A header whose two bytes for the checksum are zero. -/
structure Unsigned (header : Bytes) : Prop where
  even : header.length % 2 = 0
  long : 12 ≤ header.length
  short : header.length ≤ 65534
  zeros : header[10]? = some 0 ∧ header[11]? = some 0

theorem sum_words_stored {header : Bytes} (long : 12 ≤ header.length) {n : Nat} (word : n < 65536) :
    (words (header.take 10 ++ toBytes 2 n ++ header.drop 12)).sum =
      (words (header.take 10)).sum + (words (header.drop 12)).sum + n := by
  have front : (header.take 10).length = 10 := length_take_of_le (by omega)
  have both : (header.take 10 ++ toBytes 2 n).length % 2 = 0 := by simp [front]
  rw [OnesComplement.words_append both, OnesComplement.words_append (by rw [front]),
    OnesComplement.words_toBytes word, sum_append, sum_append, sum_singleton]
  omega

theorem Unsigned.eq_append {header : Bytes} (unsigned : Unsigned header) :
    header = header.take 10 ++ toBytes 2 0 ++ header.drop 12 := by
  obtain ⟨ten, zero⟩ := List.getElem?_eq_some_iff.mp unsigned.zeros.1
  obtain ⟨eleven, zero'⟩ := List.getElem?_eq_some_iff.mp unsigned.zeros.2
  have rest : header.drop 10 = toBytes 2 0 ++ header.drop 12 := by
    rw [drop_eq_getElem_cons ten, drop_eq_getElem_cons eleven, zero, zero']
    rfl
  rw [append_assoc, ← rest, take_append_drop]

theorem storeChecksum_verifies {header : Bytes} (unsigned : Unsigned header) :
    ∃ csum, headerChecksum header = some csum ∧
      OnesComplement.sum (storeChecksum header csum) = 0xffff := by
  obtain ⟨csum, computed, value⟩ := headerChecksum_eq unsigned.short
  have before := sum_words_stored unsigned.long (by decide : 0 < 65536)
  rw [← unsigned.eq_append, Nat.add_zero] at before
  refine ⟨csum, computed, ?_⟩
  rw [OnesComplement.sum_eq, storeChecksum, sum_words_stored unsigned.long csum.toNat_lt, ← before,
    value, OnesComplement.residue_complement]

theorem length_header (totalLen : Nat) (id : UInt16) (src : Ipv4Addr) :
    (header totalLen id src).length = 20 := by
  simp [header, octets]

theorem unsigned_header (totalLen : Nat) (id : UInt16) (src : Ipv4Addr) :
    Unsigned (header totalLen id src) where
  even := by rw [length_header]
  long := by rw [length_header]; decide
  short := by rw [length_header]; decide
  zeros := ⟨rfl, rfl⟩

theorem packet_verifies (dns : Bytes) (draws : Draws) (src : Ipv4Addr) :
    ∃ pkt, packet headerChecksum dns draws src = some pkt ∧
      OnesComplement.sum (pkt.take 20) = 0xffff := by
  obtain ⟨csum, computed, verifies⟩ :=
    storeChecksum_verifies (unsigned_header (20 + (8 + dns.length)) draws.id src)
  refine ⟨_, by rw [packet, computed, Option.map_some], ?_⟩
  have length : (storeChecksum (header (20 + (8 + dns.length)) draws.id src) csum).length = 20 := by
    simp [storeChecksum, length_header]
  rw [← verifies, append_assoc, append_assoc, append_assoc, append_assoc,
    take_left' length]

end Probe

/-- The checksum completes every header, and both copies compute it. -/
theorem probe_checksums :
    (∀ header : Bytes, 12 ≤ header.length → header.length ≤ 65534 → header.length % 2 = 0 →
      header[10]? = some 0 → header[11]? = some 0 →
        ∃ csum, Masque.ipv4HeaderChecksum header = some csum ∧
          OnesComplement.sum (Probe.storeChecksum header csum) = 0xffff) ∧
    (∀ bytes, Wireguard.ipv4Checksum bytes = Masque.ipv4HeaderChecksum bytes) ∧
    ∀ draws src,
      (∃ pkt, Masque.buildDnsProbePacket draws src = some pkt ∧
        OnesComplement.sum (pkt.take 20) = 0xffff) ∧
      ∃ pkt, Wireguard.buildDataplaneProbe draws src = some pkt ∧
        OnesComplement.sum (pkt.take 20) = 0xffff := by
  refine ⟨?_, fun _ => rfl, fun draws src => ⟨?_, ?_⟩⟩
  · intro header long short even ten eleven
    exact Probe.storeChecksum_verifies ⟨even, long, short, ten, eleven⟩
  · exact Probe.packet_verifies _ draws src
  · exact Probe.packet_verifies _ draws src

end Gozarbin
