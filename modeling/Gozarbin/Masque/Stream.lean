import Gozarbin.Lib.Runs
import Gozarbin.Masque.Capsule

/-! # Capsules over a stream that arrives in pieces

As long as a piece fits the buffer with what is left in it, the capsules that are returned do
not depend on the pieces. A piece that does not fit is dropped, together with what is in the
buffer, and the next one is taken for the beginning of a capsule.
-/

namespace Gozarbin.Masque

open List Framing Runs

namespace CapsuleParser

def drain (word : WordSize) : Nat → CapsuleParser →
    Option (List (Except AetherError Capsule) × CapsuleParser)
  | 0, _ => none
  | fuel + 1, p =>
    match p.next word with
    | (.ok none, p) => some ([], p)
    | (.ok (some capsule), p) =>
      (drain word fuel p).map fun (results, p) => (.ok capsule :: results, p)
    | (.error e, p) => (drain word fuel p).map fun (results, p) => (.error e :: results, p)

variable {word : WordSize} {p : CapsuleParser}

theorem drain_eq {fuel : Nat} (enough : p.buf.length < fuel) :
    p.drain word fuel =
      some ((readAll (readCapsule word.asUsize) p.buf).1.map fun c => decodeCapsule c.1 c.2,
        ⟨(readAll (readCapsule word.asUsize) p.buf).2⟩) := by
  have delimits := readCapsule_delimits word.asUsize
  induction fuel generalizing p with
  | zero => omega
  | succ fuel ih =>
    rw [drain, next_eq]
    cases read : readCapsule word.asUsize p.buf with
    | none => simp [readAll_of_none read]
    | some next =>
      obtain ⟨⟨kind, value⟩, rest⟩ := next
      have shorter := delimits.length_lt read
      have later := ih (p := ⟨rest⟩) (by simp only; omega)
      rw [readAll_of_some delimits read]
      cases decoded : decodeCapsule kind value with
      | error e => simp [Except.map, later, decoded]
      | ok capsule => simp [Except.map, later, decoded]

end CapsuleParser

/-- A parser, and what it has returned. -/
structure Receiver where
  parser : CapsuleParser
  received : List (Except AetherError Capsule)
  deriving DecidableEq

namespace Receiver

def initial : Receiver := ⟨.new, []⟩

def step (word : WordSize) (r : Receiver) (piece : Bytes) : Option Receiver :=
  ((r.parser.push piece).drain word ((r.parser.push piece).buf.length + 1)).map
    fun (results, parser) => ⟨parser, r.received ++ results⟩

/-- The piece fits the buffer. -/
def Fits (r : Receiver) (piece : Bytes) : Prop :=
  r.parser.buf.length + piece.length ≤ maxCapsuleBuf

instance (r : Receiver) (piece : Bytes) : Decidable (r.Fits piece) :=
  inferInstanceAs (Decidable (_ ≤ _))

variable {word : WordSize} {r : Receiver}

theorem step_eq {piece : Bytes} (fits : r.Fits piece) :
    r.step word piece =
      some ⟨⟨(readAll (readCapsule word.asUsize) (r.parser.buf ++ piece)).2⟩,
        r.received ++ (readAll (readCapsule word.asUsize) (r.parser.buf ++ piece)).1.map
          fun c => decodeCapsule c.1 c.2⟩ := by
  have pushed : r.parser.push piece = ⟨r.parser.buf ++ piece⟩ := if_neg (Nat.not_lt.mpr fits)
  rw [step, pushed, CapsuleParser.drain_eq (Nat.lt_succ_self _)]
  rfl

theorem run_eq {pieces : List Bytes} (waiting : readCapsule word.asUsize r.parser.buf = none)
    (fits : Each (step word) Fits r pieces) :
    run (step word) r pieces =
      some ⟨⟨(readAll (readCapsule word.asUsize) (r.parser.buf ++ pieces.flatten)).2⟩,
        r.received ++ (readAll (readCapsule word.asUsize) (r.parser.buf ++ pieces.flatten)).1.map
          fun c => decodeCapsule c.1 c.2⟩ := by
  have delimits := readCapsule_delimits word.asUsize
  induction pieces generalizing r with
  | nil => simp [readAll_of_none waiting]
  | cons piece pieces ih =>
    have next : r.step word piece = _ := step_eq fits.1
    have later := ih (by exact readAll_waits delimits _) (fits.2 _ next)
    rw [run_cons, next, Option.bind_some, later, flatten_cons, ← append_assoc,
      readAll_append delimits (r.parser.buf ++ piece)]
    simp

end Receiver

def encodeAll : List (Nat × Bytes) → Option Bytes
  | [] => some []
  | (kind, value) :: capsules =>
    (encodeCapsule kind value).bind fun bytes => (encodeAll capsules).map (bytes ++ ·)

theorem encodeAll_eq_some {capsules : List (Nat × Bytes)} {bytes : Bytes}
    (encoded : encodeAll capsules = some bytes) :
    (∀ c ∈ capsules, c.1 < 2 ^ 62 ∧ c.2.length < 2 ^ 62) ∧
      bytes = capsules.flatMap fun c => wire c.1 c.2 := by
  induction capsules generalizing bytes with
  | nil =>
    cases encoded
    exact ⟨by simp, rfl⟩
  | cons c capsules ih =>
    obtain ⟨first, here, encoded⟩ := Option.bind_eq_some_iff.mp encoded
    obtain ⟨later, there, rfl⟩ := Option.map_eq_some_iff.mp encoded
    obtain ⟨small, short, rfl⟩ := encodeCapsule_eq_some.mp here
    obtain ⟨all, rfl⟩ := ih there
    exact ⟨forall_mem_cons.mpr ⟨⟨small, short⟩, all⟩, rfl⟩

/-- The value is a slice of this machine, and well formed if it is one of addresses or routes. -/
structure WellFormed (word : WordSize) (c : Nat × Bytes) : Prop where
  kind : c.1 < 2 ^ 62
  slice : c.2.length < 2 ^ word.bits
  addresses : c.1 = capsuleAddressAssign →
    ∃ addresses, SpellsAll AssignedAddress.Spells addresses c.2
  routes : c.1 = capsuleRouteAdvertisement →
    ∃ routes, SpellsAll RouteAdvertisement.Spells routes c.2

/-- The same kind and the same payload, which is not kept of an address request. -/
inductive Carries : Nat × Bytes → Capsule → Prop where
  | addressAssign {value : Bytes} {addresses : List AssignedAddress} :
      SpellsAll AssignedAddress.Spells addresses value →
      Carries (capsuleAddressAssign, value) (.addressAssign addresses)
  | addressRequest {value : Bytes} : Carries (capsuleAddressRequest, value) .addressRequest
  | routeAdvertisement {value : Bytes} {routes : List RouteAdvertisement} :
      SpellsAll RouteAdvertisement.Spells routes value →
      Carries (capsuleRouteAdvertisement, value) (.routeAdvertisement routes)
  | datagram {value : Bytes} : Carries (capsuleDatagram, value) (.datagram value)
  | unknown {kind : Nat} {value : Bytes} :
      kind ∉ [capsuleAddressAssign, capsuleAddressRequest, capsuleRouteAdvertisement,
        capsuleDatagram] →
      Carries (kind, value) (.unknown kind value)

theorem WellFormed.decodes {word : WordSize} {c : Nat × Bytes} (wellFormed : WellFormed word c) :
    ∃ capsule, decodeCapsule c.1 c.2 = .ok capsule ∧ Carries c capsule := by
  obtain ⟨kind, value⟩ := c
  unfold decodeCapsule
  split_ifs with assign request route datagram
  · obtain ⟨addresses, spelled⟩ := wellFormed.addresses assign
    obtain rfl : kind = _ := assign
    refine ⟨.addressAssign addresses, ?_, .addressAssign spelled⟩
    rw [parseAddressAssign_eq_ok.mpr spelled]
    rfl
  · obtain rfl : kind = _ := request
    exact ⟨.addressRequest, rfl, .addressRequest⟩
  · obtain ⟨routes, spelled⟩ := wellFormed.routes route
    obtain rfl : kind = _ := route
    refine ⟨.routeAdvertisement routes, ?_, .routeAdvertisement spelled⟩
    rw [parseRouteAdvertisement_eq_ok.mpr spelled]
    rfl
  · obtain rfl : kind = _ := datagram
    exact ⟨.datagram value, rfl, .datagram⟩
  · refine ⟨.unknown kind value, rfl, .unknown ?_⟩
    simp_all

theorem WellFormed.decodes_all {word : WordSize} {capsules : List (Nat × Bytes)}
    (wellFormed : ∀ c ∈ capsules, WellFormed word c) :
    ∃ received : List Capsule, capsules.map (fun c => decodeCapsule c.1 c.2) = received.map .ok ∧
      List.Forall₂ Carries capsules received := by
  induction capsules with
  | nil => exact ⟨[], rfl, .nil⟩
  | cons c capsules ih =>
    obtain ⟨capsule, decoded, carries⟩ := (wellFormed c (mem_cons_self ..)).decodes
    obtain ⟨received, later, all⟩ := ih fun other member =>
      wellFormed other (mem_cons_of_mem _ member)
    exact ⟨capsule :: received, by simp [decoded, later], .cons carries all⟩

/-- However the encodings of well-formed capsules are cut into pieces that fit the buffer, the
    capsules are returned, in order, each once. -/
theorem capsules_roundTrip (word : WordSize) (capsules : List (Nat × Bytes)) (pieces : List Bytes)
    (wellFormed : ∀ c ∈ capsules, WellFormed word c)
    (cut : encodeAll capsules = some pieces.flatten)
    (fits : Each (Receiver.step word) Receiver.Fits .initial pieces) :
    (∃ received : List Capsule,
      run (Receiver.step word) .initial pieces = some ⟨.new, received.map .ok⟩ ∧
        List.Forall₂ Carries capsules received) ∧
      ∀ out kind value, appendCapsule out kind value = (encodeCapsule kind value).map (out ++ ·) := by
  refine ⟨?_, appendCapsule_eq_map⟩
  have delimits := readCapsule_delimits word.asUsize
  obtain ⟨encodable, bytes⟩ := encodeAll_eq_some cut
  have empty : readCapsule word.asUsize [] = none := rfl
  have reads : ∀ c ∈ capsules, ∀ more,
      readCapsule word.asUsize (wire c.1 c.2 ++ more) = some (c, more) := fun c member more =>
    have slice := WordSize.asUsize_of_lt (wellFormed c member).slice
    readCapsule_wire (encodable c member).1 (encodable c member).2 slice more
  have read := readAll_flatMap delimits (fun c : Nat × Bytes => wire c.1 c.2) id capsules [] reads
  rw [append_nil, ← bytes, readAll_of_none empty, append_nil, map_id] at read
  obtain ⟨received, decoded, carried⟩ := WellFormed.decodes_all wellFormed
  refine ⟨received, ?_, carried⟩
  rw [Receiver.run_eq empty fits]
  simp [Receiver.initial, CapsuleParser.new, read, decoded]

def addressThenUnknown : List (Nat × Bytes) :=
  [(capsuleAddressAssign, [1, 4, 10, 0, 0, 1, 32]), (0x4000, [7])]

def addressThenUnknownPieces : List Bytes :=
  [[1], [7, 1, 4, 10, 0], [0, 1, 32, 0x80, 0], [0x40, 0, 1, 7]]

theorem addressThenUnknown_roundTrip :
    ∃ received : List Capsule,
      run (Receiver.step .bits32) .initial addressThenUnknownPieces =
        some ⟨.new, received.map .ok⟩ ∧ List.Forall₂ Carries addressThenUnknown received := by
  refine (capsules_roundTrip .bits32 addressThenUnknown addressThenUnknownPieces ?wellFormed
    (by decide +kernel) (by decide +kernel)).1
  simp only [addressThenUnknown, forall_mem_cons, not_mem_nil, false_implies,
    implies_true, and_true]
  constructor
  · exact ⟨by decide, by decide, fun _ => ⟨[⟨1, 4, [10, 0, 0, 1], 32⟩],
      parseAddressAssign_eq_ok.mp (by decide +kernel)⟩, fun route => absurd route (by decide)⟩
  · exact ⟨by decide, by decide, fun assign => absurd assign (by decide),
      fun route => absurd route (by decide)⟩

theorem addressRequest_payload_dropped :
    encodeAll [(capsuleAddressRequest, [7])] = some [2, 1, 7] ∧
      encodeAll [(capsuleAddressRequest, [])] = some [2, 0] ∧
      run (Receiver.step .bits64) .initial [[2, 1, 7]] = some ⟨.new, [.ok .addressRequest]⟩ ∧
      run (Receiver.step .bits64) .initial [[2, 0]] = some ⟨.new, [.ok .addressRequest]⟩ := by
  decide +kernel

/-- A parser, all that was pushed into it, and where in that each capsule began that it returned. -/
structure Framer where
  parser : CapsuleParser
  stream : Bytes
  starts : List Nat

inductive FramerEvent where
  | push (data : Bytes)
  | next

namespace Framer

def initial : Framer := ⟨.new, [], []⟩

def step (word : WordSize) (f : Framer) : FramerEvent → Framer
  | .push data => { f with parser := f.parser.push data, stream := f.stream ++ data }
  | .next =>
    match f.parser.next word with
    | (.ok (some _), parser) =>
      { f with parser, starts := f.starts ++ [f.stream.length - f.parser.buf.length] }
    | (_, parser) => { f with parser }

/-- Every capsule returned began at a boundary of the stream. -/
def Sound (f : Framer) : Prop :=
  ∀ start ∈ f.starts, Boundary (readCapsule id) f.stream start

def declaredLen (buffer : Bytes) : Option Nat :=
  (Varint.decode buffer).bind fun (_, rest) => (Varint.decode rest).map Prod.fst

/-- A push fits the buffer, and a length that is read fits the machine's word. -/
def InStep (word : WordSize) (f : Framer) : FramerEvent → Prop
  | .push data => f.parser.buf.length + data.length ≤ maxCapsuleBuf
  | .next => ∀ len ∈ declaredLen f.parser.buf, len < 2 ^ word.bits

instance (word : WordSize) (f : Framer) : ∀ e, Decidable (f.InStep word e)
  | .push _ => inferInstanceAs (Decidable (_ ≤ _))
  | .next => inferInstanceAs (Decidable (∀ len ∈ declaredLen f.parser.buf, len < 2 ^ word.bits))

structure Aligned (f : Framer) : Prop where
  sound : f.Sound
  front : Boundary (readCapsule id) f.stream (f.stream.length - f.parser.buf.length)
  buffer : f.parser.buf <:+ f.stream

variable {word : WordSize} {f : Framer}

theorem Aligned.drop (aligned : f.Aligned) :
    f.stream.drop (f.stream.length - f.parser.buf.length) = f.parser.buf :=
  (suffix_iff_eq_drop.mp aligned.buffer).symm

theorem readCapsule_of_fits {buffer rest : Bytes} {frame : Nat × Bytes}
    (fits : ∀ len ∈ declaredLen buffer, len < 2 ^ word.bits)
    (read : readCapsule word.asUsize buffer = some (frame, rest)) :
    readCapsule id buffer = some (frame, rest) := by
  obtain ⟨more, len, first, second, length⟩ := readCapsule_eq_some.mp read
  have declared : declaredLen buffer = some len := by simp [declaredLen, first, second]
  refine readCapsule_eq_some.mpr ⟨more, len, first, second, ?_⟩
  rw [length, WordSize.asUsize_of_lt (fits len declared), id]

theorem Aligned.push (aligned : f.Aligned) {data : Bytes}
    (fits : f.parser.buf.length + data.length ≤ maxCapsuleBuf) :
    (f.step word (.push data)).Aligned := by
  have delimits := readCapsule_delimits id
  have pushed : f.parser.push data = ⟨f.parser.buf ++ data⟩ := if_neg (Nat.not_lt.mpr fits)
  obtain ⟨front, here⟩ := aligned.buffer
  constructor
  case sound => exact fun start member => (aligned.sound start member).append delimits data
  case front =>
    simp only [step, pushed, length_append, Nat.add_sub_add_right]
    exact aligned.front.append delimits data
  case buffer =>
    simp only [step, pushed]
    exact ⟨front, by rw [← append_assoc, here]⟩

theorem Aligned.next (aligned : f.Aligned)
    (fits : ∀ len ∈ declaredLen f.parser.buf, len < 2 ^ word.bits) :
    (f.step word .next).Aligned := by
  rw [step, CapsuleParser.next_eq]
  cases read : readCapsule word.asUsize f.parser.buf with
  | none => exact aligned
  | some taken =>
    obtain ⟨⟨kind, value⟩, rest⟩ := taken
    have here := readCapsule_of_fits fits read
    rw [← aligned.drop] at here
    have after := Boundary.next aligned.front here
    obtain ⟨front, -, split⟩ := (readCapsule_delimits word.asUsize).front read
    have suffix : rest <:+ f.stream := (split ▸ suffix_append front rest).trans aligned.buffer
    cases decoded : decodeCapsule kind value with
    | error e =>
      simp only [decoded]
      exact ⟨aligned.sound, after, suffix⟩
    | ok capsule =>
      simp only [decoded]
      refine ⟨fun start member => ?_, after, suffix⟩
      rcases mem_append.mp member with old | new
      · exact aligned.sound start old
      · rw [mem_singleton.mp new]
        exact aligned.front

/-- If each push fits the buffer and each length the word, every capsule returned begins at a
    boundary of the stream. -/
theorem sound_of_inStep (word : WordSize) (events : List FramerEvent)
    (met : Each (fun f e => some (step word f e)) (InStep word) initial events) :
    Always (fun f e => some (step word f e)) Sound initial events := by
  have first : initial.Aligned := ⟨by simp [Sound, initial], .start, suffix_rfl⟩
  refine (always_of_kept ?kept first met).mono fun f aligned => aligned.sound
  intro f e f' aligned fits next
  cases next
  cases e with
  | push data => exact aligned.push fits
  | next => exact aligned.next fits

def alignedRun : List FramerEvent :=
  [.push [0, 1], .next, .push [7, 3, 1], .next, .push [9], .next, .next]

theorem alignedRun_sound :
    Always (fun f e => some (step .bits32 f e)) Sound initial alignedRun :=
  sound_of_inStep .bits32 alignedRun (by decide +kernel)

theorem readCapsule_incomplete {kind len : Nat} {value : Bytes} (small : kind < 2 ^ 62)
    (declared : len < 2 ^ 62) (short : value.length < len) :
    readCapsule id (Varint.encode kind ++ Varint.encode len ++ value) = none := by
  simp only [readCapsule, append_assoc, Varint.decode_encode small,
    Varint.decode_encode declared, Option.bind_some, id, if_pos short]

theorem run_after_overflow {front : Bytes} (tooLong : maxCapsuleBuf < front.length) :
    run (fun f e => some (step .bits64 f e)) initial [.push front, .push [0, 0], .next] =
      some ⟨.new, front ++ [0, 0], [front.length]⟩ := by
  have dropped : CapsuleParser.new.push front = .new := by
    have full : CapsuleParser.new.buf.length + front.length > maxCapsuleBuf := by
      rwa [CapsuleParser.new, length_nil, Nat.zero_add]
    rw [CapsuleParser.push, if_pos full]
    rfl
  have pushed : CapsuleParser.new.push [0, 0] = ⟨[0, 0]⟩ := by decide
  have taken : (CapsuleParser.mk [0, 0]).next .bits64 = (.ok (some (.datagram [])), .new) := by
    decide +kernel
  simp [step, initial, dropped, pushed, taken]

def longFront : Bytes :=
  Varint.encode capsuleDatagram ++ Varint.encode 300000 ++ List.replicate 262140 0

theorem length_longFront : longFront.length = 262145 := by
  have kind : (Varint.encode capsuleDatagram).length = 1 := by decide
  have len : (Varint.encode 300000).length = 4 := by decide
  rw [longFront, length_append, length_append, kind, len, length_replicate]

theorem overflow_unsound :
    (run (fun f e => some (step .bits64 f e)) initial
        [.push longFront, .push [0, 0], .next]).map (fun f => f.starts) = some [262145] ∧
      ¬ Always (fun f e => some (step .bits64 f e)) Sound initial
        [.push longFront, .push [0, 0], .next] := by
  have tooLong : maxCapsuleBuf < longFront.length := by
    rw [length_longFront]
    decide
  have reached := run_after_overflow tooLong
  refine ⟨by rw [reached, length_longFront]; rfl, fun always => ?_⟩
  have waits : readCapsule id (longFront ++ [0, 0]) = none := by
    rw [longFront, append_assoc]
    refine readCapsule_incomplete (by decide) (by decide) ?_
    rw [length_append, length_replicate]
    decide
  have boundary := always.last reached longFront.length (mem_singleton_self _)
  have start := boundary.eq_zero waits
  rw [length_longFront] at start
  cases start

end Framer

end Gozarbin.Masque
