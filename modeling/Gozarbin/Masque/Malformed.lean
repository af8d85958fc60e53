import Gozarbin.Masque.Inbound

/-! # Capsules behind a malformed one

The parser takes a malformed capsule off its buffer before it reports the error, and
both loops that empty the parser, `drain_capsules` over HTTP/2 and the one of the same
name over HTTP/3, end at an error. What is complete behind it stays where it is until
more arrives.
-/

namespace Gozarbin

open Framing

namespace Quic

open Masque

def drainCapsules (word : WordSize) : Nat → CapsuleParser → Option (Chan AssignedAddr) →
    Option (CapsuleParser × Option (Chan AssignedAddr))
  | 0, _, _ => none
  | fuel + 1, capsules, addrs =>
    match capsules.next word with
    | (.ok (some (.addressAssign addresses)), capsules) =>
      drainCapsules word fuel capsules (addrs.map (addresses.foldl offerAddr))
    | (.ok (some _), capsules) => drainCapsules word fuel capsules addrs
    | (.ok none, capsules) => some (capsules, addrs)
    | (.error _, capsules) => some (capsules, addrs)

end Quic

namespace Masque

/-- A capsule of addresses or of routes whose payload spells none. -/
def Malformed (c : Nat × Bytes) : Prop :=
  c.1 = capsuleAddressAssign ∧ (∀ addresses, ¬ SpellsAll AssignedAddress.Spells addresses c.2) ∨
    c.1 = capsuleRouteAdvertisement ∧ ∀ routes, ¬ SpellsAll RouteAdvertisement.Spells routes c.2

theorem map_eq_error_iff {ε α β : Type} {x : Except ε α} {f : α → β} :
    (∃ e, x.map f = .error e) ↔ ∀ a, x ≠ .ok a := by
  cases x <;> simp [Except.map]

theorem malformed_iff {c : Nat × Bytes} :
    Malformed c ↔ ∃ e, decodeCapsule c.1 c.2 = .error e := by
  unfold Malformed decodeCapsule
  split_ifs with assign request route datagram
  · simp [assign, map_eq_error_iff, ← parseAddressAssign_eq_ok, capsuleAddressAssign,
      capsuleRouteAdvertisement]
  · simp [request, capsuleAddressAssign, capsuleAddressRequest, capsuleRouteAdvertisement]
  · simp [route, map_eq_error_iff, ← parseRouteAdvertisement_eq_ok, capsuleAddressAssign,
      capsuleRouteAdvertisement]
  · simp [datagram, capsuleAddressAssign, capsuleDatagram, capsuleRouteAdvertisement]
  · simp [assign, route]

def upToMalformed : List (Nat × Bytes) → List (Nat × Bytes) × List (Nat × Bytes)
  | [] => ([], [])
  | c :: rest =>
    match decodeCapsule c.1 c.2 with
    | .ok _ => (c :: (upToMalformed rest).1, (upToMalformed rest).2)
    | .error _ => ([c], rest)

/-- A malformed capsule is the last of the complete ones. -/
def MalformedLast (capsules : List (Nat × Bytes)) : Prop :=
  ∀ before bad after, capsules = before ++ bad :: after → Malformed bad → after = []

theorem upToMalformed_append (capsules : List (Nat × Bytes)) :
    (upToMalformed capsules).1 ++ (upToMalformed capsules).2 = capsules := by
  induction capsules with
  | nil => rfl
  | cons c rest ih =>
    simp only [upToMalformed]
    cases decodeCapsule c.1 c.2 with
    | error e => rfl
    | ok capsule => exact congrArg (c :: ·) ih

theorem upToMalformed_snd_iff {capsules : List (Nat × Bytes)} :
    (upToMalformed capsules).2 = [] ↔ MalformedLast capsules := by
  induction capsules with
  | nil => simp [upToMalformed, MalformedLast]
  | cons c rest ih =>
    have later : MalformedLast (c :: rest) ↔ (Malformed c → rest = []) ∧ MalformedLast rest := by
      constructor
      · intro last
        exact ⟨last [] c rest rfl, fun before bad after split =>
          last (c :: before) bad after (congrArg (c :: ·) split)⟩
      · rintro ⟨here, there⟩ before bad after split malformed
        cases before with
        | nil =>
          obtain ⟨rfl, rfl⟩ := List.cons.inj split
          exact here malformed
        | cons first before => exact there before bad after (List.cons.inj split).2 malformed
    rw [later, malformed_iff]
    simp only [upToMalformed]
    cases decoded : decodeCapsule c.1 c.2 with
    | ok capsule => simp [ih]
    | error e =>
      refine ⟨?_, fun last => last.1 ⟨e, rfl⟩⟩
      rintro rfl
      simp [MalformedLast]

theorem delivered_of_ok {c : Nat × Bytes} {capsule : Capsule}
    (decoded : decodeCapsule c.1 c.2 = .ok capsule) :
    delivered c = match capsule with
      | .datagram payload => stripDatagramContext payload
      | _ => none := by
  unfold decodeCapsule at decoded
  unfold delivered
  split_ifs at decoded with assign request route datagram
  · cases addresses : parseAddressAssign c.2 <;> simp_all [Except.map]
    subst decoded
    simp [capsuleAddressAssign, capsuleDatagram]
  · cases decoded
    simp [request, capsuleAddressRequest, capsuleDatagram]
  · cases routes : parseRouteAdvertisement c.2 <;> simp_all [Except.map]
    subst decoded
    simp [capsuleRouteAdvertisement, capsuleDatagram]
  · cases decoded
    simp [datagram]
  · cases decoded
    simp [datagram]

theorem delivered_of_error {c : Nat × Bytes} {e : AetherError}
    (failed : decodeCapsule c.1 c.2 = .error e) : delivered c = none := by
  unfold delivered
  split
  next datagram =>
    rw [datagram] at failed
    cases failed
  · rfl

def assigned (capsules : List (Nat × Bytes)) : List AssignedAddress :=
  capsules.flatMap fun c =>
    match decodeCapsule c.1 c.2 with
    | .ok (.addressAssign addresses) => addresses
    | _ => []

section
variable {word : WordSize}

theorem Intake.drainCapsules_spec {s : Intake} {fuel : Nat} (before : Bool)
    (enough : s.capsules.buf.length < fuel) (alive : s.inbound.alive = true)
    (room : ((readAll (readCapsule word.asUsize) s.capsules.buf).1.filterMap delivered).length ≤
      s.inbound.free) :
    ∃ after s', drainCapsules word fuel before s = some (after, s') ∧
      s'.inbound.sent = s.inbound.sent ++
        (upToMalformed (readAll (readCapsule word.asUsize) s.capsules.buf).1).1.filterMap delivered ∧
      readAll (readCapsule word.asUsize) s'.capsules.buf =
        ((upToMalformed (readAll (readCapsule word.asUsize) s.capsules.buf).1).2,
          (readAll (readCapsule word.asUsize) s.capsules.buf).2) := by
  have delimits := readCapsule_delimits word.asUsize
  induction fuel generalizing s before with
  | zero => omega
  | succ fuel ih =>
    rw [drainCapsules, CapsuleParser.next_eq]
    cases read : readCapsule word.asUsize s.capsules.buf with
    | none =>
      rw [readAll_of_none read]
      exact ⟨before, s, rfl, by simp [upToMalformed], readAll_of_none read⟩
    | some taken =>
      obtain ⟨c, rest⟩ := taken
      have shorter := delimits.length_lt read
      rw [readAll_of_some delimits read] at room ⊢
      simp only [upToMalformed]
      cases decoded : decodeCapsule c.1 c.2 with
      | error e =>
        refine ⟨before, { s with capsules := ⟨rest⟩ }, ?_, ?_, rfl⟩
        · simp [Except.map]
        · simp [delivered_of_error decoded]
      | ok capsule =>
        have packet := delivered_of_ok decoded
        -- a capsule that delivers nothing leaves the room to those behind it
        have passes := fun (addrs : Option (Chan AssignedAddr)) (nothing : delivered c = none) =>
          ih (s := { s with capsules := ⟨rest⟩, addrs }) before (by simp only; omega) alive
            (by simpa [nothing] using room)
        cases capsule with
        | addressAssign addresses => simpa [Except.map, packet] using passes _ packet
        | addressRequest => simpa [Except.map, packet] using passes s.addrs packet
        | routeAdvertisement routes => simpa [Except.map, packet] using passes s.addrs packet
        | unknown kind value => simpa [Except.map, packet] using passes s.addrs packet
        | datagram payload =>
          cases stripped : stripDatagramContext payload with
          | none =>
            simp only [stripped] at packet
            simpa [Except.map, packet, stripped] using passes s.addrs packet
          | some pkt =>
            simp only [stripped] at packet
            simp only [List.filterMap_cons, packet, List.length_cons] at room
            have permit : s.inbound.Permit := ⟨alive, by omega⟩
            have sent := Chan.trySend_of_permit permit pkt
            have later := ih (s := { s with
                capsules := ⟨rest⟩, inbound := s.inbound.send permit pkt }) true
              (by simp only; omega) alive (by simp only [Chan.send_free]; omega)
            simpa [Except.map, packet, stripped, sent] using later

theorem quic_drainCapsules_spec {p : CapsuleParser} {fuel : Nat}
    (addrs : Option (Chan AssignedAddr)) (enough : p.buf.length < fuel) :
    ∃ p', Quic.drainCapsules word fuel p addrs = some (p',
        addrs.map ((assigned (upToMalformed (readAll (readCapsule word.asUsize) p.buf).1).1).foldl
          offerAddr)) ∧
      readAll (readCapsule word.asUsize) p'.buf =
        ((upToMalformed (readAll (readCapsule word.asUsize) p.buf).1).2,
          (readAll (readCapsule word.asUsize) p.buf).2) := by
  have delimits := readCapsule_delimits word.asUsize
  induction fuel generalizing p addrs with
  | zero => omega
  | succ fuel ih =>
    rw [Quic.drainCapsules, CapsuleParser.next_eq]
    cases read : readCapsule word.asUsize p.buf with
    | none =>
      rw [readAll_of_none read]
      exact ⟨p, by simp [upToMalformed, assigned], readAll_of_none read⟩
    | some taken =>
      obtain ⟨c, rest⟩ := taken
      have shorter := delimits.length_lt read
      have later := fun addrs => ih (p := ⟨rest⟩) addrs (by simp only; omega)
      rw [readAll_of_some delimits read]
      simp only [upToMalformed]
      cases decoded : decodeCapsule c.1 c.2 with
      | error e => exact ⟨⟨rest⟩, by simp [Except.map, assigned, decoded], rfl⟩
      | ok capsule =>
        cases capsule with
        | addressAssign addresses =>
          have offered := later (addrs.map (addresses.foldl offerAddr))
          simpa [Except.map, assigned, decoded, Function.comp_def] using offered
        | addressRequest => simpa [Except.map, assigned, decoded] using later addrs
        | routeAdvertisement routes => simpa [Except.map, assigned, decoded] using later addrs
        | unknown kind value => simpa [Except.map, assigned, decoded] using later addrs
        | datagram payload => simpa [Except.map, assigned, decoded] using later addrs

/-- A call over HTTP/2 delivers the packets of all complete datagrams, in order, and leaves the
    rest. -/
def DrainsAll (word : WordSize) (s : Intake) : Prop :=
  ∃ any s', s.drainCapsules word (s.capsules.buf.length + 1) false = some (any, s') ∧
    s'.inbound.sent = s.inbound.sent ++
      (readAll (readCapsule word.asUsize) s.capsules.buf).1.filterMap delivered ∧
    s'.capsules.buf = (readAll (readCapsule word.asUsize) s.capsules.buf).2

/-- A call over HTTP/3 offers the addresses of all complete capsules, in order, and leaves the
    rest. -/
def QuicDrainsAll (word : WordSize) (p : CapsuleParser) (addrs : Option (Chan AssignedAddr)) : Prop :=
  ∃ p', Quic.drainCapsules word (p.buf.length + 1) p addrs = some (p',
      addrs.map ((assigned (readAll (readCapsule word.asUsize) p.buf).1).foldl offerAddr)) ∧
    p'.buf = (readAll (readCapsule word.asUsize) p.buf).2

theorem left_eq_iff {buffer buffer' : Bytes} {capsules : List (Nat × Bytes)}
    (read : readAll (readCapsule word.asUsize) buffer' =
      (capsules, (readAll (readCapsule word.asUsize) buffer).2)) :
    buffer' = (readAll (readCapsule word.asUsize) buffer).2 ↔ capsules = [] := by
  have delimits := readCapsule_delimits word.asUsize
  constructor
  · intro same
    have waits : readCapsule word.asUsize buffer' = none := by
      rw [same]
      exact readAll_waits delimits buffer
    rw [readAll_of_none waits] at read
    exact (Prod.mk.inj read).1.symm
  · rintro rfl
    cases found : readCapsule word.asUsize buffer' with
    | none =>
      rw [readAll_of_none found] at read
      exact (Prod.mk.inj read).2
    | some taken =>
      rw [readAll_of_some delimits found] at read
      cases (Prod.mk.inj read).1

/-- With room in the queue, both loops get through all complete capsules precisely if none is
    behind a malformed one. -/
theorem drains_all_iff (word : WordSize) (s : Intake) (alive : s.inbound.alive = true)
    (room : ((readAll (readCapsule word.asUsize) s.capsules.buf).1.filterMap delivered).length ≤
      s.inbound.free) :
    DrainsAll word s ∧ QuicDrainsAll word s.capsules s.addrs ↔
      MalformedLast (readAll (readCapsule word.asUsize) s.capsules.buf).1 := by
  obtain ⟨any, s', drained, sent, left⟩ :=
    Intake.drainCapsules_spec false (Nat.lt_succ_self _) alive room
  obtain ⟨p', quic, quicLeft⟩ := quic_drainCapsules_spec s.addrs (Nat.lt_succ_self _)
  rw [← upToMalformed_snd_iff]
  constructor
  · rintro ⟨⟨any', t, same, -, buf⟩, -⟩
    rw [drained] at same
    cases same
    exact (left_eq_iff left).mp buf
  · intro none_left
    have all := upToMalformed_append (readAll (readCapsule word.asUsize) s.capsules.buf).1
    rw [none_left, List.append_nil] at all
    rw [all] at sent quic
    exact ⟨⟨any, s', drained, sent, (left_eq_iff left).mpr none_left⟩,
      ⟨p', quic, (left_eq_iff quicLeft).mpr none_left⟩⟩

end

def smallPacket (last : UInt8) : Bytes := 0x45 :: (List.replicate 18 0 ++ [last])

def cutAssignment : Bytes := wire capsuleAddressAssign [0]

def holding (buffer : Bytes) : Intake := ⟨⟨buffer⟩, .new 16, none⟩

theorem malformed_last_drained :
    DrainsAll .bits64 (holding (wire capsuleDatagram (smallPacket 1) ++ cutAssignment ++ [0])) ∧
      QuicDrainsAll .bits64 ⟨wire capsuleDatagram (smallPacket 1) ++ cutAssignment ++ [0]⟩ none :=
  (drains_all_iff .bits64
    (holding (wire capsuleDatagram (smallPacket 1) ++ cutAssignment ++ [0])) rfl (by decide)).mpr
    (upToMalformed_snd_iff.mp (by decide))

theorem malformed_between_holds_up :
    (Intake.drainCapsules .bits64 100 false (holding (wire capsuleDatagram (smallPacket 1) ++
        cutAssignment ++ wire capsuleDatagram (smallPacket 2)))).map
        (fun r => (r.2.inbound.sent, r.2.capsules.buf)) =
      some ([smallPacket 1], wire capsuleDatagram (smallPacket 2)) ∧
      ¬ DrainsAll .bits64 (holding (wire capsuleDatagram (smallPacket 1) ++ cutAssignment ++
        wire capsuleDatagram (smallPacket 2))) := by
  refine ⟨by decide, ?_⟩
  rintro ⟨any, s', drained, sent, -⟩
  have result := congrArg (Option.map fun r => r.2.inbound.sent) drained
  rw [Option.map_some, sent] at result
  revert result
  decide

end Masque

end Gozarbin
