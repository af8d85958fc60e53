import Gozarbin.Masque.Inbound

/-! # Packets in datagrams of the connection

Over HTTP/3 a packet is sent in a datagram of the QUIC connection. In front of it are a quarter of
the id of the request stream and the id of the context, both as variable-length integers. The
buffer of a datagram is as long as `varint_len` says its numbers are.
-/

namespace Gozarbin.Masque

open List Fallible

def quarterStreamId (streamId : UInt64) : UInt64 := streamId / 4

def encodeIpDatagram (streamId : UInt64) (ipPacket : Bytes) : Option (Except AetherError Bytes) :=
  let qsid := (quarterStreamId streamId).toNat
  let ctx := connectIpContextId
  let cap := varintLen qsid + varintLen ctx + ipPacket.length
  let b := OctetsMut.withSlice (List.replicate cap 0)
  (b.putVarint qsid).bind fun written =>
    match written with
    | .error e => some (.error (oct e))
    | .ok b =>
      (b.putVarint ctx).bind fun written =>
        match written with
        | .error e => some (.error (oct e))
        | .ok b => some (((b.putBytes ipPacket).mapError oct).map OctetsMut.buf)

def decodeIpDatagram (datagram : Bytes) (expectStreamId : UInt64) : Except AetherError (Option Bytes) := do
  let (qsid, b) ← (Octets.withSlice datagram).getVarint.mapError oct
  if qsid ≠ (quarterStreamId expectStreamId).toNat then return none
  else
    let (ctx, b) ← b.getVarint.mapError oct
    if ctx ≠ connectIpContextId then return none
    else
      let (payload, _) ← (b.getBytes b.cap).mapError oct
      return some payload.toVec

def datagramWire (streamId : UInt64) (ipPacket : Bytes) : Bytes :=
  Varint.encode (quarterStreamId streamId).toNat ++ (Varint.encode connectIpContextId ++ ipPacket)

theorem quarterStreamId_lt (streamId : UInt64) : (quarterStreamId streamId).toNat < 2 ^ 62 := by
  have small := streamId.toNat_lt
  have quarter : (quarterStreamId streamId).toNat = streamId.toNat / 4 := UInt64.toNat_div ..
  omega

theorem encodeIpDatagram_eq (streamId : UInt64) (ipPacket : Bytes) :
    encodeIpDatagram streamId ipPacket = some (.ok (datagramWire streamId ipPacket)) := by
  have small := quarterStreamId_lt streamId
  have context : connectIpContextId < 2 ^ 62 := by decide
  simp only [encodeIpDatagram, varintLen_eq]
  generalize length : (Varint.encode (quarterStreamId streamId).toNat).length +
    (Varint.encode connectIpContextId).length + ipPacket.length = cap
  have start : OctetsMut.withSlice (List.replicate cap 0) = .after [] (List.replicate cap 0) := rfl
  have free : (List.replicate cap (0 : UInt8)).length = cap := length_replicate
  rw [start, OctetsMut.putVarint_after small (by omega), Option.bind_some]
  dsimp only
  rw [OctetsMut.putVarint_after context (by rw [length_drop]; omega), Option.bind_some]
  dsimp only
  rw [OctetsMut.putBytes_after (by rw [length_drop, length_drop]; omega)]
  have full : cap - (Varint.encode (quarterStreamId streamId).toNat).length -
      (Varint.encode connectIpContextId).length - ipPacket.length = 0 := by omega
  simp only [Except.mapError, Except.map, OctetsMut.after, nil_append, drop_replicate, full,
    replicate_zero, append_nil, datagramWire, append_assoc]

theorem decodeIpDatagram_eq (datagram : Bytes) (expectStreamId : UInt64) :
    decodeIpDatagram datagram expectStreamId =
      match Varint.decode datagram with
      | none => .error (oct ⟨⟩)
      | some (qsid, rest) =>
        if qsid ≠ (quarterStreamId expectStreamId).toNat then .ok none
        else
          match Varint.decode rest with
          | none => .error (oct ⟨⟩)
          | some (ctx, packet) => if ctx ≠ connectIpContextId then .ok none else .ok (some packet) := by
  cases first : Varint.decode datagram with
  | none =>
    rw [decodeIpDatagram, Octets.getVarint_eq, Octets.toVec_withSlice, first]
    rfl
  | some quarter =>
    obtain ⟨n, read, unread⟩ := Octets.getVarint_of_decode (b := .withSlice datagram) first
    rw [decodeIpDatagram, read]
    by_cases other : quarter.1 ≠ (quarterStreamId expectStreamId).toNat
    · simp only [Except.mapError, bind, Except.bind, if_pos other]
      rfl
    simp only [Except.mapError, bind, Except.bind, if_neg other]
    cases second : Varint.decode quarter.2 with
    | none =>
      rw [Octets.getVarint_eq, unread, second]
    | some context =>
      obtain ⟨m, read, unread'⟩ := Octets.getVarint_of_decode (unread.symm ▸ second)
      rw [read]
      by_cases strange : context.1 ≠ connectIpContextId
      · simp only [if_pos strange]
        rfl
      · simp only [Octets.cap_eq]
        rw [Octets.getBytes_of_le (Nat.le_refl _), take_length, unread']
        rfl

theorem decodeIpDatagram_suffix (datagram : Bytes) (expected : UInt64) :
    (∃ e, decodeIpDatagram datagram expected = .error e) ∨
      decodeIpDatagram datagram expected = .ok none ∨
      ∃ packet, decodeIpDatagram datagram expected = .ok (some packet) ∧ packet <:+ datagram := by
  rw [decodeIpDatagram_eq]
  cases first : Varint.decode datagram with
  | none => exact .inl ⟨_, rfl⟩
  | some quarter =>
    obtain ⟨front, -, rfl⟩ := Varint.decode_suffix first
    dsimp only
    split
    · exact .inr (.inl rfl)
    cases second : Varint.decode quarter.2 with
    | none => exact .inl ⟨_, rfl⟩
    | some context =>
      obtain ⟨middle, -, rest⟩ := Varint.decode_suffix second
      dsimp only
      split
      · exact .inr (.inl rfl)
      · exact .inr (.inr ⟨context.2, rfl, front ++ middle, by rw [rest, append_assoc]⟩)

/-- A packet comes back out of its datagram, and out of no datagram comes anything but the end
    of it. -/
theorem ip_datagram_round_trip :
    (∀ (streamId : UInt64) (ipPacket : Bytes), ∃ datagram,
      encodeIpDatagram streamId ipPacket = some (.ok datagram) ∧
      ∀ expected : UInt64,
        (expected / 4 = streamId / 4 → decodeIpDatagram datagram expected = .ok (some ipPacket)) ∧
          (expected / 4 ≠ streamId / 4 → decodeIpDatagram datagram expected = .ok none)) ∧
      ∀ (datagram : Bytes) (expected : UInt64),
        (∃ e, decodeIpDatagram datagram expected = .error e) ∨
          decodeIpDatagram datagram expected = .ok none ∨
          ∃ packet, decodeIpDatagram datagram expected = .ok (some packet) ∧ packet <:+ datagram := by
  refine ⟨fun streamId ipPacket => ⟨_, encodeIpDatagram_eq streamId ipPacket, fun expected => ?_⟩,
    decodeIpDatagram_suffix⟩
  have first : Varint.decode (_ ++ (Varint.encode connectIpContextId ++ ipPacket)) = some (_, _) :=
    Varint.decode_encode (quarterStreamId_lt streamId)
  have second : Varint.decode (Varint.encode connectIpContextId ++ ipPacket) = some (_, ipPacket) :=
    Varint.decode_encode (by decide)
  rw [datagramWire, decodeIpDatagram_eq, first]
  constructor
  · intro same
    have quarter : quarterStreamId streamId = quarterStreamId expected := same.symm
    simp [quarter, second]
  · intro other
    have quarter : (quarterStreamId streamId).toNat ≠ (quarterStreamId expected).toNat := fun same =>
      other (UInt64.toNat_inj.mp same).symm
    simp [quarter]

example : encodeIpDatagram 256 [0x45] = some (.ok [0x40, 0x40, 0, 0x45]) := by decide

end Gozarbin.Masque
