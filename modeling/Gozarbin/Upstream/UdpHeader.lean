import Gozarbin.Net.SocketAddress
import Gozarbin.Socks.Udp

/-! # The header of a datagram through a proxy

A datagram that goes through a SOCKS5 proxy says in front where it goes, or where it comes
from. `upstream.rs` writes and reads that header as a client, `socks.rs` as a server, each
with functions of its own; on every datagram they agree on where the payload begins.
-/

namespace Gozarbin.Upstream

open List Socks BigEndian AddrText

def atypV4 : UInt8 := 0x01
def atypName : UInt8 := 0x03
def atypV6 : UInt8 := 0x04

def encodeAddress (target : SocketAddress) : Bytes :=
  let address := match target.ip with
    | .v4 v4 => atypV4 :: toBytes 4 v4.bits.toNat
    | .v6 v6 => atypV6 :: toBytes 16 v6.bits.toNat
  address ++ toBytes 2 target.port.toNat

def encodeUdpHeader (target : SocketAddress) : Bytes := [0x00, 0x00, 0x00] ++ encodeAddress target

def portAt (bytes : Bytes) (offset : Nat) : UInt16 := .ofNat (ofBytes ((bytes.drop offset).take 2))

def decodeUdpHeader (buf : Bytes) : Option (SocketAddress × Nat) :=
  match buf with
  | _ :: _ :: frag :: atyp :: _ =>
    if frag ≠ 0x00 then none
    else if atyp = atypV4 then
      if buf.length < 10 then none
      else
        let ip := ⟨.ofNat 32 (ofBytes ((buf.drop 4).take 4))⟩
        some (.new (.v4 ip) (portAt buf 8), 10)
    else if atyp = atypV6 then
      if buf.length < 22 then none
      else
        let ip := ⟨.ofNat 128 (ofBytes ((buf.drop 4).take 16))⟩
        some (.new (.v6 ip) (portAt buf 20), 22)
    else if atyp = atypName then do
      let length := (← buf[4]?).toNat
      let end_ := 5 + length
      if buf.length < end_ + 2 then none
      else
        let port := portAt buf end_
        let name ← Text.fromUtf8 ((buf.drop 5).take length)
        let ip ← parseIpAddr name
        some (.new ip port, end_ + 2)
    else none
  | _ => none

section
variable {buf payload rest : Bytes} {a : SocketAddress} {n : Nat} {target : Target}

theorem ofNat_ofBytes_port (port : UInt16) : UInt16.ofNat (ofBytes (toBytes 2 port.toNat)) = port := by
  have small : port.toNat % 256 ^ 2 = port.toNat := Nat.mod_eq_of_lt port.toNat_lt
  rw [ofBytes_toBytes, small, UInt16.ofNat_toNat]

theorem ofNat_ofBytes_bits (size : Nat) (bits : BitVec (8 * size)) :
    BitVec.ofNat (8 * size) (ofBytes (toBytes size bits.toNat)) = bits := by
  have pow : 2 ^ (8 * size) = 256 ^ size := by rw [Nat.pow_mul]
  have small : bits.toNat < 256 ^ size := pow ▸ bits.isLt
  rw [ofBytes_toBytes, Nat.mod_eq_of_lt small, BitVec.ofNat_toNat, BitVec.setWidth_eq]

theorem read_eq (target : Target) (rest : Bytes) :
    UdpRequest.read target rest =
      if rest.length < 2 then none else some ⟨target, portAt rest 0, rest.drop 2⟩ := by
  match rest with
  | [] => rfl
  | [_] => rfl
  | high :: low :: payload => rfl

theorem read_append (target : Target) (port : UInt16) (payload : Bytes) :
    UdpRequest.read target (toBytes 2 port.toNat ++ payload) = some ⟨target, port, payload⟩ := by
  have length : (toBytes 2 port.toNat).length = 2 := length_toBytes ..
  rw [read_eq, if_neg (by rw [length_append]; omega), portAt, drop_zero,
    take_left' length, drop_left' length, ofNat_ofBytes_port]

theorem parseUdpRequest_v4 (x y : UInt8) (rest : Bytes) :
    parseUdpRequest (x :: y :: 0 :: atypV4 :: rest) =
      if rest.length < 4 then none
      else UdpRequest.read (.ip (.v4 ⟨.ofNat 32 (ofBytes (rest.take 4))⟩)) (rest.drop 4) := rfl

theorem parseUdpRequest_v6 (x y : UInt8) (rest : Bytes) :
    parseUdpRequest (x :: y :: 0 :: atypV6 :: rest) =
      if rest.length < 16 then none
      else UdpRequest.read (.ip (.v6 ⟨.ofNat 128 (ofBytes (rest.take 16))⟩)) (rest.drop 16) := rfl

theorem parseUdpRequest_name (x y len : UInt8) (rest : Bytes) :
    parseUdpRequest (x :: y :: 0 :: atypName :: len :: rest) =
      if rest.length < len.toNat then none
      else UdpRequest.read (.domain (Text.fromUtf8Lossy (rest.take len.toNat))) (rest.drop len.toNat) :=
  rfl

theorem decodeUdpHeader_v4 (x y : UInt8) (rest : Bytes) :
    decodeUdpHeader (x :: y :: 0 :: atypV4 :: rest) =
      if rest.length < 6 then none
      else some (.new (.v4 ⟨.ofNat 32 (ofBytes (rest.take 4))⟩) (portAt rest 4), 10) := by
  have short : (x :: y :: 0 :: atypV4 :: rest).length < 10 ↔ rest.length < 6 := by
    simp only [length_cons]
    omega
  rw [decodeUdpHeader, if_neg (not_not.mpr rfl), if_pos rfl]
  simp only [short]
  rfl

theorem decodeUdpHeader_v6 (x y : UInt8) (rest : Bytes) :
    decodeUdpHeader (x :: y :: 0 :: atypV6 :: rest) =
      if rest.length < 18 then none
      else some (.new (.v6 ⟨.ofNat 128 (ofBytes (rest.take 16))⟩) (portAt rest 16), 22) := by
  have short : (x :: y :: 0 :: atypV6 :: rest).length < 22 ↔ rest.length < 18 := by
    simp only [length_cons]
    omega
  rw [decodeUdpHeader, if_neg (not_not.mpr rfl), if_neg (by decide), if_pos rfl]
  simp only [short]
  rfl

theorem decodeUdpHeader_name (x y len : UInt8) (rest : Bytes) :
    decodeUdpHeader (x :: y :: 0 :: atypName :: len :: rest) =
      if rest.length < len.toNat + 2 then none
      else
        (Text.fromUtf8 (rest.take len.toNat)).bind fun name =>
          (parseIpAddr name).bind fun ip =>
            some (.new ip (portAt rest len.toNat), 5 + len.toNat + 2) := by
  have short : (x :: y :: 0 :: atypName :: len :: rest).length < 5 + len.toNat + 2 ↔
      rest.length < len.toNat + 2 := by
    simp only [length_cons]
    omega
  have behind : portAt (x :: y :: 0 :: atypName :: len :: rest) (5 + len.toNat) =
      portAt rest len.toNat := by
    rw [portAt, ← drop_drop]
    rfl
  rw [decodeUdpHeader, if_neg (not_not.mpr rfl), if_neg (by decide), if_neg (by decide), if_pos rfl]
  simp only [List.getElem?_cons_succ, List.getElem?_cons_zero, Option.bind_eq_bind, Option.bind_some,
    short, behind]
  rfl

theorem encodeUdpHeader_append (a : SocketAddress) (payload : Bytes) :
    (∃ v4, a.ip = .v4 v4 ∧ (encodeUdpHeader a).length = 10 ∧
        encodeUdpHeader a ++ payload =
          0 :: 0 :: 0 :: atypV4 :: (toBytes 4 v4.bits.toNat ++ (toBytes 2 a.port.toNat ++ payload))) ∨
      ∃ v6, a.ip = .v6 v6 ∧ (encodeUdpHeader a).length = 22 ∧
        encodeUdpHeader a ++ payload =
          0 :: 0 :: 0 :: atypV6 :: (toBytes 16 v6.bits.toNat ++ (toBytes 2 a.port.toNat ++ payload)) := by
  unfold encodeUdpHeader encodeAddress
  cases a.ip with
  | v4 v4 => exact .inl ⟨v4, rfl, by simp, by simp⟩
  | v6 v6 => exact .inr ⟨v6, rfl, by simp, by simp⟩

theorem parseUdpRequest_encode (a : SocketAddress) (payload : Bytes) :
    parseUdpRequest (encodeUdpHeader a ++ payload) = some ⟨.ip a.ip, a.port, payload⟩ := by
  rcases encodeUdpHeader_append a payload with ⟨v4, ip, -, split⟩ | ⟨v6, ip, -, split⟩
  · have length := length_toBytes 4 v4.bits.toNat
    rw [split, ip, parseUdpRequest_v4, if_neg (by rw [length_append]; omega),
      take_left' length, drop_left' length, read_append, ofNat_ofBytes_bits 4 v4.bits]
  · have length := length_toBytes 16 v6.bits.toNat
    rw [split, ip, parseUdpRequest_v6, if_neg (by rw [length_append]; omega),
      take_left' length, drop_left' length, read_append, ofNat_ofBytes_bits 16 v6.bits]

theorem portAt_append {octets : Bytes} {size : Nat} (length : octets.length = size) (port : UInt16)
    (payload : Bytes) : portAt (octets ++ (toBytes 2 port.toNat ++ payload)) size = port := by
  rw [portAt, drop_left' length, take_left' (length_toBytes ..), ofNat_ofBytes_port]

theorem decodeUdpHeader_encode (a : SocketAddress) (payload : Bytes) :
    decodeUdpHeader (encodeUdpHeader a ++ payload) = some (a.unscoped, (encodeUdpHeader a).length) := by
  rw [SocketAddress.unscoped]
  rcases encodeUdpHeader_append a payload with ⟨v4, ip, header, split⟩ | ⟨v6, ip, header, split⟩
  · have length := length_toBytes 4 v4.bits.toNat
    have long : ¬ (toBytes 4 v4.bits.toNat ++ (toBytes 2 a.port.toNat ++ payload)).length < 6 := by
      simp only [length_append, length_toBytes]
      omega
    rw [split, ip, header, decodeUdpHeader_v4, if_neg long, take_left' length,
      portAt_append length, ofNat_ofBytes_bits 4 v4.bits]
  · have length := length_toBytes 16 v6.bits.toNat
    have long : ¬ (toBytes 16 v6.bits.toNat ++ (toBytes 2 a.port.toNat ++ payload)).length < 18 := by
      simp only [length_append, length_toBytes]
      omega
    rw [split, ip, header, decodeUdpHeader_v6, if_neg long, take_left' length,
      portAt_append length, ofNat_ofBytes_bits 16 v6.bits]

theorem buildUdpReply_eq (a : SocketAddress) (payload : Bytes) :
    buildUdpReply a.plain payload = encodeUdpHeader a ++ payload := by
  unfold buildUdpReply encodeUdpHeader encodeAddress
  cases a with
  | v4 => simp [SocketAddress.plain, SocketAddress.ip, atypV4, Reply.atypV4]
  | v6 => simp [SocketAddress.plain, SocketAddress.ip, atypV6, Reply.atypV6]

theorem read_drop {size : Nat} (long : ¬ rest.length < size + 2) (target : Target) :
    UdpRequest.read target (rest.drop size) = some ⟨target, portAt rest size, rest.drop (size + 2)⟩ := by
  rw [read_eq, if_neg (by rw [length_drop]; omega), portAt, portAt, drop_zero, drop_drop]

theorem decodeUdpHeader_cases (decoded : decodeUdpHeader buf = some (a, n)) :
    ∃ x y rest, buf = x :: y :: 0 :: atypV4 :: rest ∨ buf = x :: y :: 0 :: atypV6 :: rest ∨
      ∃ len, buf = x :: y :: 0 :: atypName :: len :: rest := by
  unfold decodeUdpHeader at decoded
  split at decoded
  next x y frag atyp rest =>
    split_ifs at decoded with fragmented v4 short v6 short name
    all_goals obtain rfl : frag = 0 := not_not.mp fragmented
    · exact ⟨x, y, rest, .inl (by rw [v4])⟩
    · exact ⟨x, y, rest, .inr (.inl (by rw [v6]))⟩
    · cases rest with
      | nil => cases decoded
      | cons len rest => exact ⟨x, y, rest, .inr (.inr ⟨len, by rw [name]⟩)⟩
  next => cases decoded

theorem parseUdpRequest_of_decode (decoded : decodeUdpHeader buf = some (a, n)) :
    n ≤ buf.length ∧ ∃ target, parseUdpRequest buf = some ⟨target, a.port, buf.drop n⟩ := by
  obtain ⟨x, y, rest, rfl | rfl | ⟨len, rfl⟩⟩ := decodeUdpHeader_cases decoded
  · rw [decodeUdpHeader_v4, Option.ite_none_left_eq_some] at decoded
    obtain ⟨long, same⟩ := decoded
    cases same
    rw [parseUdpRequest_v4, if_neg (by omega), read_drop long, SocketAddress.port_new]
    exact ⟨by simp only [length_cons]; omega, _, rfl⟩
  · rw [decodeUdpHeader_v6, Option.ite_none_left_eq_some] at decoded
    obtain ⟨long, same⟩ := decoded
    cases same
    rw [parseUdpRequest_v6, if_neg (by omega), read_drop long, SocketAddress.port_new]
    exact ⟨by simp only [length_cons]; omega, _, rfl⟩
  · rw [decodeUdpHeader_name, Option.ite_none_left_eq_some] at decoded
    obtain ⟨long, named⟩ := decoded
    obtain ⟨name, -, found⟩ := Option.bind_eq_some_iff.mp named
    obtain ⟨ip, -, same⟩ := Option.bind_eq_some_iff.mp found
    cases same
    have behind : (x :: y :: 0 :: atypName :: len :: rest).drop (5 + len.toNat + 2) =
        rest.drop (len.toNat + 2) := by
      rw [Nat.add_assoc, ← drop_drop]
      rfl
    rw [parseUdpRequest_name, if_neg (by omega), read_drop long, SocketAddress.port_new, behind]
    exact ⟨by simp only [length_cons]; omega, _, rfl⟩

/-- Client and server agree on the headers of datagrams. -/
theorem udp_formats_agree :
    (∀ (a : SocketAddress) payload,
        parseUdpRequest (encodeUdpHeader a ++ payload) = some ⟨.ip a.ip, a.port, payload⟩) ∧
      (∀ (a : SocketAddress) payload, ∃ n,
        decodeUdpHeader (buildUdpReply a.plain payload) = some (a.unscoped, n) ∧
          (buildUdpReply a.plain payload).drop n = payload) ∧
      ∀ buf a n, decodeUdpHeader buf = some (a, n) →
        n ≤ buf.length ∧ ∃ target, parseUdpRequest buf = some ⟨target, a.port, buf.drop n⟩ := by
  refine ⟨parseUdpRequest_encode, fun a payload => ?_, fun buf a n => parseUdpRequest_of_decode⟩
  refine ⟨(encodeUdpHeader a).length, ?_, ?_⟩
  · rw [buildUdpReply_eq, decodeUdpHeader_encode]
  · rw [buildUdpReply_eq, drop_left]

def namedReply : Bytes := [0, 0, 0, 3, 7] ++ Text.ascii "1.2.3.4" ++ [0, 53, 9, 9]

theorem udp_formats_agree_named :
    14 ≤ namedReply.length ∧ ∃ target, parseUdpRequest namedReply = some ⟨target, 53, [9, 9]⟩ :=
  have decoded : decodeUdpHeader namedReply = some (.v4 ⟨0x01020304#32⟩ 53, 14) := by decide
  udp_formats_agree.2.2 namedReply _ 14 decoded

end

end Gozarbin.Upstream
