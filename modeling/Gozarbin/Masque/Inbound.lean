import Gozarbin.Lib.Channel
import Gozarbin.Masque.Stream

/-! # The receiving end of a tunnel over HTTP/2

Each chunk of the response body goes to the parser, and `drain_capsules` hands the
packets of the datagrams that are complete to the tunnel's queue. A datagram may
start with a context id or with the packet itself; which one it is, is read off the
first bytes.
-/

namespace Gozarbin.Masque

open List Framing Runs

def connectIpContextId : Nat := 0

def looksLikeIpPacket (data : Bytes) : Bool :=
  match data with
  | first :: _ => (first >>> 4 == 4 || first >>> 4 == 6) && 20 ≤ data.length
  | [] => false

def stripDatagramContext (payload : Bytes) : Option Bytes :=
  if payload.isEmpty then none
  else
    match (Octets.withSlice payload).getVarint with
    | .ok (ctx, b) =>
      let inner := payload.drop (payload.length - b.cap)
      if ctx = connectIpContextId ∧ looksLikeIpPacket inner then some inner
      else if looksLikeIpPacket payload then some payload
      else none
    | .error _ => if looksLikeIpPacket payload then some payload else none

structure AssignedAddr where
  ip : IpAddr
  prefixLen : UInt8
  deriving DecidableEq

def bytesToIp (version : UInt8) (bytes : Bytes) : Option IpAddr :=
  if version = 4 ∧ bytes.length = 4 then some (.v4 ⟨.ofNat 32 (BigEndian.ofBytes bytes)⟩)
  else if version = 6 ∧ bytes.length = 16 then some (.v6 ⟨.ofNat 128 (BigEndian.ofBytes bytes)⟩)
  else none

/-- The parser and the queues of the receiving task. -/
structure Intake where
  capsules : CapsuleParser
  inbound : Chan Bytes
  addrs : Option (Chan AssignedAddr)

def offerAddr (addrs : Chan AssignedAddr) (a : AssignedAddress) : Chan AssignedAddr :=
  match bytesToIp a.ipVersion a.address with
  | some ip => addrs.offer ⟨ip, a.prefixLen⟩
  | none => addrs

namespace Intake

def drainCapsules (word : WordSize) : Nat → Bool → Intake → Option (Bool × Intake)
  | 0, _, _ => none
  | fuel + 1, delivered, s =>
    match s.capsules.next word with
    | (.ok (some (.datagram payload)), capsules) =>
      match stripDatagramContext payload with
      | some pkt =>
        match s.inbound.trySend pkt with
        | .ok inbound => drainCapsules word fuel true { s with capsules, inbound }
        | .error .full => drainCapsules word fuel true { s with capsules }
        | .error .closed => some (true, { s with capsules })
      | none => drainCapsules word fuel delivered { s with capsules }
    | (.ok (some (.addressAssign addresses)), capsules) =>
      drainCapsules word fuel delivered
        { s with capsules, addrs := s.addrs.map (addresses.foldl offerAddr) }
    | (.ok (some _), capsules) => drainCapsules word fuel delivered { s with capsules }
    | (.ok none, capsules) => some (delivered, { s with capsules })
    | (.error _, capsules) => some (delivered, { s with capsules })

end Intake

inductive IntakeEvent where
  | chunk (data : Bytes)
  | take

namespace Intake

def initial (capacity : Nat) (addrs : Option (Chan AssignedAddr)) : Intake :=
  ⟨.new, .new capacity, addrs⟩

def step (word : WordSize) (s : Intake) : IntakeEvent → Option Intake
  | .chunk data =>
    let capsules := s.capsules.push data
    (drainCapsules word (capsules.buf.length + 1) false { s with capsules }).map Prod.snd
  | .take => some { s with inbound := s.inbound.recv }

/-- A chunk fits the parser's buffer, and the queue has room for every datagram complete with it. -/
def Roomy (word : WordSize) (s : Intake) : IntakeEvent → Prop
  | .chunk data =>
    s.capsules.buf.length + data.length ≤ maxCapsuleBuf ∧ s.inbound.alive = true ∧
      (readAll (readCapsule word.asUsize) (s.capsules.buf ++ data)).1.length ≤ s.inbound.free
  | .take => True

instance (word : WordSize) (s : Intake) : ∀ e, Decidable (s.Roomy word e)
  | .chunk _ => inferInstanceAs (Decidable (_ ∧ _ ∧ _))
  | .take => inferInstanceAs (Decidable True)

end Intake

/-- A packet of either version with the least size of a header, in version 4 by the header's own
    field too. -/
def IsIpPacket : Bytes → Prop
  | first :: rest =>
    20 ≤ (first :: rest).length ∧ (first >>> 4 = 4 ∧ 5 ≤ first &&& 0x0f ∨ first >>> 4 = 6)
  | [] => False

instance : DecidablePred IsIpPacket
  | _ :: _ => inferInstanceAs (Decidable (_ ∧ _))
  | [] => inferInstanceAs (Decidable False)

variable {packet : Bytes}

theorem IsIpPacket.looksLike (ip : IsIpPacket packet) :
    looksLikeIpPacket packet = true := by
  match packet, ip with
  | first :: rest, ⟨long, version⟩ =>
    simp only [looksLikeIpPacket, Bool.and_eq_true, Bool.or_eq_true, beq_iff_eq, decide_eq_true_eq]
    exact ⟨version.imp And.left id, long⟩

theorem nibbles {first : UInt8} (version : first >>> 4 = 4 ∧ 5 ≤ first &&& 0x0f ∨ first >>> 4 = 6) :
    first.toNat / 16 = 4 ∧ 5 ≤ first.toNat % 16 ∨ first.toNat / 16 = 6 := by
  have high : ∀ {n : UInt8}, first >>> 4 = n → first.toNat / 16 = n.toNat := by
    intro n shifted
    rw [← shifted, UInt8.toNat_shiftRight, Nat.shiftRight_eq_div_pow]
    rfl
  rcases version with ⟨four, header⟩ | six
  · have low := UInt8.le_iff_toNat_le.mp header
    exact .inl ⟨high four, Nat.and_two_pow_sub_one_eq_mod first.toNat 4 ▸ low⟩
  · exact .inr (high six)

theorem IsIpPacket.context (ip : IsIpPacket packet) :
    ∃ ctx rest, Varint.decode packet = some (ctx, rest) ∧ ctx ≠ connectIpContextId := by
  match packet, ip with
  | byte :: second :: rest, ⟨_, version⟩ =>
    have nibble := nibbles version
    have log : byte.toNat / 64 = 1 := by omega
    have size : Varint.size byte = 2 := by rw [Varint.size, log, Nat.pow_one]
    refine ⟨_, _, Varint.decode_eq_some_iff.mpr ⟨byte, [second], rfl, size.symm, rfl⟩, ?_⟩
    have number : BigEndian.ofBytes [byte, second] = 256 * byte.toNat + second.toNat := by
      simp [BigEndian.ofBytes]
    have small := second.toNat_lt
    have bound : Varint.bound 1 = 16384 := by decide
    rw [number, log, bound]
    unfold connectIpContextId
    omega

theorem strip_bare (ip : IsIpPacket packet) :
    stripDatagramContext packet = some packet := by
  obtain ⟨ctx, rest, decoded, other⟩ := ip.context
  obtain ⟨n, read, -⟩ := Octets.getVarint_of_decode (b := .withSlice packet) decoded
  have nonempty : packet.isEmpty = false := by
    cases packet with
    | nil => cases decoded
    | cons => rfl
  simp [stripDatagramContext, nonempty, read, other, ip.looksLike]

theorem strip_context (ip : IsIpPacket packet) :
    stripDatagramContext (0 :: packet) = some packet := by
  have decoded : Varint.decode (0 :: packet) = some (connectIpContextId, packet) :=
    Varint.decode_encode (n := 0) (by decide)
  obtain ⟨n, read, unread⟩ := Octets.getVarint_of_decode (b := .withSlice (0 :: packet)) decoded
  simp [stripDatagramContext, read, Octets.cap_eq, unread, ip.looksLike]

def delivered (c : Nat × Bytes) : Option Bytes :=
  if c.1 = capsuleDatagram then stripDatagramContext c.2 else none

theorem decodeCapsule_of_delivered {c : Nat × Bytes}
    (here : delivered c = some packet) :
    decodeCapsule c.1 c.2 = .ok (.datagram c.2) ∧ stripDatagramContext c.2 = some packet := by
  unfold delivered at here
  split at here
  next kind =>
    rw [kind]
    exact ⟨rfl, here⟩
  next => cases here

namespace Intake

variable {word : WordSize} {s : Intake}

variable {packets : List Bytes}

theorem drainCapsules_packets {fuel : Nat} (before : Bool)
    (enough : s.capsules.buf.length < fuel) (alive : s.inbound.alive = true)
    (room : packets.length ≤ s.inbound.free)
    (holds : (readAll (readCapsule word.asUsize) s.capsules.buf).1.map delivered =
      packets.map some) :
    ∃ after s', drainCapsules word fuel before s = some (after, s') ∧
      s'.inbound.sent = s.inbound.sent ++ packets ∧ s'.inbound.alive = true ∧
      s'.capsules.buf = (readAll (readCapsule word.asUsize) s.capsules.buf).2 := by
  have delimits := readCapsule_delimits word.asUsize
  induction fuel generalizing s packets before with
  | zero => omega
  | succ fuel ih =>
    rw [drainCapsules, CapsuleParser.next_eq]
    cases read : readCapsule word.asUsize s.capsules.buf with
    | none =>
      rw [readAll_of_none read] at holds ⊢
      obtain rfl : packets = [] := by simpa using holds.symm
      exact ⟨before, s, rfl, by simp, alive, rfl⟩
    | some taken =>
      obtain ⟨c, rest⟩ := taken
      have shorter := delimits.length_lt read
      rw [readAll_of_some delimits read] at holds ⊢
      cases packets with
      | nil => simp at holds
      | cons packet packets =>
        obtain ⟨here, later⟩ := cons_eq_cons.mp holds
        obtain ⟨decoded, stripped⟩ := decodeCapsule_of_delivered here
        rw [length_cons] at room
        have permit : s.inbound.Permit := ⟨alive, by omega⟩
        have sent : s.inbound.trySend packet = .ok (s.inbound.send permit packet) := by
          exact Chan.trySend_of_permit permit packet
        obtain ⟨after, s', drained, log, open_, left⟩ :=
          ih (s := { s with capsules := ⟨rest⟩, inbound := s.inbound.send permit packet }) true
            (by simp only; omega) alive (by rw [Chan.send_free]; omega) later
        refine ⟨after, s', ?_, by simp [log], open_, left⟩
        simp only [decoded, Except.map, stripped, sent]
        exact drained

def chunks : List IntakeEvent → List Bytes
  | [] => []
  | .chunk data :: events => data :: chunks events
  | .take :: events => chunks events

variable {events : List IntakeEvent}

theorem run_packets
    (waiting : readCapsule word.asUsize s.capsules.buf = none)
    (roomy : Each (step word) (Roomy word) s events)
    (holds : (readAll (readCapsule word.asUsize)
      (s.capsules.buf ++ (chunks events).flatten)).1.map delivered = packets.map some) :
    ∃ s', run (step word) s events = some s' ∧ s'.inbound.sent = s.inbound.sent ++ packets ∧
      s'.capsules.buf = (readAll (readCapsule word.asUsize)
        (s.capsules.buf ++ (chunks events).flatten)).2 := by
  have delimits := readCapsule_delimits word.asUsize
  induction events generalizing s packets with
  | nil =>
    simp only [chunks, flatten_nil, append_nil, readAll_of_none waiting] at holds ⊢
    obtain rfl : packets = [] := by simpa using holds.symm
    exact ⟨s, rfl, by simp, rfl⟩
  | cons e events ih =>
    cases e with
    | take =>
      obtain ⟨s', ran, log, left⟩ := ih (s := { s with inbound := s.inbound.recv }) waiting
        (roomy.2 _ rfl) holds
      exact ⟨s', ran, by simpa using log, left⟩
    | chunk data =>
      obtain ⟨fits, alive, room⟩ := roomy.1
      have pushed : s.capsules.push data = ⟨s.capsules.buf ++ data⟩ :=
        if_neg (Nat.not_lt.mpr fits)
      rw [chunks, flatten_cons, ← append_assoc,
        readAll_append delimits (s.capsules.buf ++ data)] at holds ⊢
      rw [map_append] at holds
      obtain ⟨now, later, rfl, here, there⟩ := map_eq_append_iff.mp holds.symm
      have count := congrArg List.length here
      rw [length_map, length_map] at count
      obtain ⟨after, s₁, drained, log, open_, left⟩ :=
        drainCapsules_packets (s := { s with capsules := ⟨s.capsules.buf ++ data⟩ }) false
          (Nat.lt_succ_self _) alive (count ▸ room) here.symm
      have next : s.step word (.chunk data) = some s₁ := by
        simp only [step, pushed, drained, Option.map_some]
      obtain ⟨s', ran, log', left'⟩ := ih (s := s₁) (by rw [left]; exact readAll_waits delimits _)
        (roomy.2 _ next) (by rw [left]; exact there.symm)
      refine ⟨s', ?_, ?_, ?_⟩
      · rw [run_cons, next, Option.bind_some, ran]
      · rw [log', log, append_assoc]
      · rw [left', left]

theorem run_datagrams (payload : Bytes → Bytes)
    (capacity : Nat) (addrs : Option (Chan AssignedAddr))
    (strips : ∀ p ∈ packets, stripDatagramContext (payload p) = some p)
    (slices : ∀ p ∈ packets, (payload p).length < 2 ^ 62 ∧ (payload p).length < 2 ^ word.bits)
    (roomy : Each (step word) (Roomy word) (initial capacity addrs) events)
    (arrived : (chunks events).flatten =
      packets.flatMap fun p => wire capsuleDatagram (payload p)) :
    ∃ s', run (step word) (initial capacity addrs) events = some s' ∧
      s'.inbound.sent = packets ∧ s'.capsules = .new := by
  have empty : readCapsule word.asUsize [] = none := rfl
  have reads : ∀ p ∈ packets, ∀ more, readCapsule word.asUsize
      (wire capsuleDatagram (payload p) ++ more) = some ((capsuleDatagram, payload p), more) :=
    fun p member more => readCapsule_wire (by decide) (slices p member).1
      (WordSize.asUsize_of_lt (slices p member).2) more
  have read := readAll_flatMap (readCapsule_delimits word.asUsize)
    (fun p => wire capsuleDatagram (payload p)) (fun p => (capsuleDatagram, payload p)) packets []
    reads
  rw [append_nil, readAll_of_none empty, append_nil, ← arrived] at read
  have holds : (packets.map fun p => (capsuleDatagram, payload p)).map delivered =
      packets.map some := by
    rw [map_map]
    refine map_congr_left fun p member => ?_
    simp [delivered, strips p member]
  obtain ⟨s', ran, log, left⟩ := run_packets (s := initial capacity addrs) empty roomy
    (by rw [initial, CapsuleParser.new, nil_append, read]; exact holds)
  refine ⟨s', ran, log, ?_⟩
  rw [initial, CapsuleParser.new, nil_append, read] at left
  exact congrArg CapsuleParser.mk left

theorem run_with_context (capacity : Nat)
    (addrs : Option (Chan AssignedAddr))
    (ip : ∀ p ∈ packets, IsIpPacket p ∧ p.length + 1 < 2 ^ word.bits)
    (arrived : encodeAll (packets.map fun p => (capsuleDatagram, 0 :: p)) =
      some (chunks events).flatten)
    (roomy : Each (step word) (Roomy word) (initial capacity addrs) events) :
    ∃ s', run (step word) (initial capacity addrs) events = some s' ∧
      s'.inbound.sent = packets ∧ s'.capsules = .new := by
  obtain ⟨encodable, bytes⟩ := encodeAll_eq_some arrived
  rw [flatMap_map] at bytes
  exact run_datagrams (0 :: ·) capacity addrs (fun p member => strip_context (ip p member).1)
    (fun p member => ⟨(encodable _ (mem_map_of_mem member)).2, (ip p member).2⟩) roomy bytes

end Intake

end Gozarbin.Masque
