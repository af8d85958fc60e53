import Mathlib.Data.List.Forall2
import Gozarbin.Lib.Fallible
import Gozarbin.Lib.Framing
import Gozarbin.Octets

/-! # Capsules

A capsule is a kind, the length of its value and the value. A parser collects what arrives in a
buffer and takes complete capsules off its front. Lengths have up to 62 bits; the parser casts
them to the machine's word, which has 32 bits on some targets.
-/

namespace Gozarbin.Masque

open List Framing Fallible

inductive WordSize where
  | bits32
  | bits64
  deriving DecidableEq

def WordSize.bits : WordSize → Nat
  | .bits32 => 32
  | .bits64 => 64

def WordSize.asUsize (word : WordSize) (v : Nat) : Nat := v % 2 ^ word.bits

theorem WordSize.asUsize_of_lt {word : WordSize} {v : Nat} (small : v < 2 ^ word.bits) :
    word.asUsize v = v := Nat.mod_eq_of_lt small

def capsuleAddressAssign : Nat := 0x01

def capsuleAddressRequest : Nat := 0x02

def capsuleRouteAdvertisement : Nat := 0x03

def capsuleDatagram : Nat := 0x00

structure AssignedAddress where
  requestId : Nat
  ipVersion : UInt8
  address : Bytes
  prefixLen : UInt8
  deriving DecidableEq

structure RouteAdvertisement where
  ipVersion : UInt8
  start : Bytes
  stop : Bytes
  protocol : UInt8
  deriving DecidableEq

inductive Capsule where
  | addressAssign (addresses : List AssignedAddress)
  | addressRequest
  | datagram (payload : Bytes)
  | routeAdvertisement (routes : List RouteAdvertisement)
  | unknown (kind : Nat) (payload : Bytes)
  deriving DecidableEq

/-- The errors of capsules among those of the program. -/
inductive AetherError where
  | capsule (message : String)
  deriving DecidableEq

def oct (e : BufferTooShortError) : AetherError := .capsule e.display

def varintLen (v : Nat) : Nat :=
  if v < 64 then 1 else if v < 16384 then 2 else if v < 1073741824 then 4 else 8

def capsuleLen (kind : Nat) (value : Bytes) : Nat :=
  varintLen kind + varintLen value.length + value.length

def ignoring (b : OctetsMut) : Except BufferTooShortError OctetsMut → OctetsMut
  | .ok b' => b'
  | .error _ => b

def appendCapsule (out : Bytes) (kind : Nat) (value : Bytes) : Option Bytes :=
  let b := OctetsMut.withSlice (List.replicate (capsuleLen kind value) 0)
  (b.putVarint kind).bind fun written =>
    let b := ignoring b written
    (b.putVarint value.length).bind fun written =>
      let b := ignoring b written
      let b := ignoring b (b.putBytes value)
      some (out ++ b.buf)

def encodeCapsule (kind : Nat) (value : Bytes) : Option Bytes := appendCapsule [] kind value

def addrLen (ipVersion : UInt8) : Except AetherError Nat :=
  if ipVersion = 4 then .ok 4
  else if ipVersion = 6 then .ok 16
  else .error (.capsule s!"bad ip version {ipVersion.toNat}")

def getByte (b : Octets) : Except AetherError (UInt8 × Octets) :=
  (b.getU8.mapError oct).map fun (v, b) => (UInt8.ofNat v, b)

def parseAssignedAddress (b : Octets) : Except AetherError (AssignedAddress × Octets) := do
  let (requestId, b) ← b.getVarint.mapError oct
  let (ipVersion, b) ← getByte b
  let len ← addrLen ipVersion
  let (address, b) ← (b.getBytes len).mapError oct
  let (prefixLen, b) ← getByte b
  return (⟨requestId, ipVersion, address.toVec, prefixLen⟩, b)

def parseRoute (b : Octets) : Except AetherError (RouteAdvertisement × Octets) := do
  let (ipVersion, b) ← getByte b
  let len ← addrLen ipVersion
  let (start, b) ← (b.getBytes len).mapError oct
  let (stop, b) ← (b.getBytes len).mapError oct
  let (protocol, b) ← getByte b
  return (⟨ipVersion, start.toVec, stop.toVec, protocol⟩, b)

def parseItems {β : Type} (item : Octets → Except AetherError (β × Octets)) :
    Nat → Octets → List β → Except AetherError (List β)
  | 0, _, out => .ok out
  | fuel + 1, b, out =>
    if b.cap > 0 then
      match item b with
      | .error e => .error e
      | .ok (next, b) => parseItems item fuel b (out ++ [next])
    else .ok out

def parseAddressAssign (value : Bytes) : Except AetherError (List AssignedAddress) :=
  parseItems parseAssignedAddress value.length (.withSlice value) []

def parseRouteAdvertisement (value : Bytes) : Except AetherError (List RouteAdvertisement) :=
  parseItems parseRoute value.length (.withSlice value) []

def decodeCapsule (kind : Nat) (value : Bytes) : Except AetherError Capsule :=
  if kind = capsuleAddressAssign then (parseAddressAssign value).map .addressAssign
  else if kind = capsuleAddressRequest then .ok .addressRequest
  else if kind = capsuleRouteAdvertisement then
    (parseRouteAdvertisement value).map .routeAdvertisement
  else if kind = capsuleDatagram then .ok (.datagram value)
  else .ok (.unknown kind value)

structure CapsuleParser where
  buf : Bytes
  deriving DecidableEq

def maxCapsuleBuf : Nat := 256 * 1024

namespace CapsuleParser

def new : CapsuleParser := ⟨[]⟩

def push (p : CapsuleParser) (data : Bytes) : CapsuleParser :=
  if p.buf.length + data.length > maxCapsuleBuf then ⟨[]⟩ else ⟨p.buf ++ data⟩

def next (word : WordSize) (p : CapsuleParser) :
    Except AetherError (Option Capsule) × CapsuleParser :=
  match (Octets.withSlice p.buf).getVarint with
  | .error _ => (.ok none, p)
  | .ok (kind, b) =>
    match b.getVarint with
    | .error _ => (.ok none, p)
    | .ok (v, b) =>
      if b.cap < word.asUsize v then (.ok none, p)
      else
        match b.getBytes (word.asUsize v) with
        | .error e => (.error (oct e), p)
        | .ok (value, b) => ((decodeCapsule kind value.toVec).map some, ⟨p.buf.drop b.off⟩)

end CapsuleParser

def wire (kind : Nat) (value : Bytes) : Bytes :=
  Varint.encode kind ++ Varint.encode value.length ++ value

theorem varintLen_eq (v : Nat) : varintLen v = (Varint.encode v).length := by
  obtain ⟨one, two, four⟩ :
      Varint.bound 0 = 64 ∧ Varint.bound 1 = 16384 ∧ Varint.bound 2 = 1073741824 := by decide
  rw [Varint.encode, Varint.length_encodeAs, varintLen, Varint.log, one, two, four]
  split_ifs <;> rfl

variable {value : Bytes} {kind : Nat}

theorem appendCapsule_eq (out : Bytes) (small : kind < 2 ^ 62)
    (short : value.length < 2 ^ 62) :
    appendCapsule out kind value = some (out ++ wire kind value) := by
  have length : capsuleLen kind value =
      (Varint.encode kind).length + (Varint.encode value.length).length + value.length := by
    rw [capsuleLen, varintLen_eq, varintLen_eq]
  have start : OctetsMut.withSlice (List.replicate (capsuleLen kind value) 0) =
      .after [] (List.replicate (capsuleLen kind value) 0) := rfl
  have free : (List.replicate (capsuleLen kind value) (0 : UInt8)).length = capsuleLen kind value :=
    length_replicate
  simp only [appendCapsule, start]
  rw [OctetsMut.putVarint_after small (by omega)]
  simp only [Option.bind_some, ignoring]
  rw [OctetsMut.putVarint_after short (by rw [length_drop]; omega)]
  simp only [Option.bind_some]
  rw [OctetsMut.putBytes_after (by rw [length_drop, length_drop]; omega)]
  simp only [OctetsMut.after, wire, nil_append, drop_replicate]
  have full : capsuleLen kind value - (Varint.encode kind).length -
      (Varint.encode value.length).length - value.length = 0 := by omega
  rw [full, replicate_zero, append_nil]

theorem appendCapsule_eq_map (out : Bytes) (kind : Nat) (value : Bytes) :
    appendCapsule out kind value = (encodeCapsule kind value).map (out ++ ·) := by
  simp only [encodeCapsule, appendCapsule, Option.map_bind, Function.comp_def, Option.map_some,
    nil_append]

theorem encodeCapsule_eq_some {bytes : Bytes} :
    encodeCapsule kind value = some bytes ↔
      kind < 2 ^ 62 ∧ value.length < 2 ^ 62 ∧ bytes = wire kind value := by
  constructor
  · intro encoded
    rcases Nat.lt_or_ge kind (2 ^ 62) with small | large
    · rcases Nat.lt_or_ge value.length (2 ^ 62) with short | long
      · rw [encodeCapsule, appendCapsule_eq [] small short] at encoded
        exact ⟨small, short, (Option.some.inj encoded).symm⟩
      · simp only [encodeCapsule, appendCapsule, OctetsMut.putVarint_eq_none long, Option.bind_none,
          Option.bind_fun_none, reduceCtorEq] at encoded
    · simp only [encodeCapsule, appendCapsule, OctetsMut.putVarint_eq_none large, Option.bind_none,
        reduceCtorEq] at encoded
  · rintro ⟨small, short, rfl⟩
    exact appendCapsule_eq [] small short

theorem mapError_eq_ok {α : Type} {x : Except BufferTooShortError α} {a : α} :
    x.mapError oct = .ok a ↔ x = .ok a := by
  cases x <;> simp [Except.mapError]

variable {b b' : Octets}

theorem getByte_eq_ok {byte : UInt8} :
    getByte b = .ok (byte, b') ↔ b.Past [byte] b' := by
  constructor
  · intro got
    cases read : b.getU8 with
    | error e => simp [getByte, read, Except.mapError, Except.map] at got
    | ok next =>
      obtain ⟨first, value, past⟩ := Octets.getU8_eq_ok.mp read
      simp only [getByte, read, Except.mapError, Except.map, value, UInt8.ofNat_toNat] at got
      obtain ⟨rfl, rfl⟩ := got
      exact past
  · intro past
    rw [getByte, Octets.getU8_eq_ok.mpr ⟨byte, rfl, past⟩]
    simp [Except.mapError, Except.map]

/-- Addresses of version 4 have 4 bytes, those of version 6 have 16. -/
def AddressOf (ipVersion : UInt8) (address : Bytes) : Prop :=
  ipVersion = 4 ∧ address.length = 4 ∨ ipVersion = 6 ∧ address.length = 16

/-- The bytes of an assigned address. Its request id may have any size. -/
def AssignedAddress.Spells (a : AssignedAddress) (bytes : Bytes) : Prop :=
  AddressOf a.ipVersion a.address ∧ ∃ log, log < 4 ∧ a.requestId < Varint.bound log ∧
    bytes = Varint.encodeAs log a.requestId ++ ([a.ipVersion] ++ (a.address ++ [a.prefixLen]))

def RouteAdvertisement.Spells (r : RouteAdvertisement) (bytes : Bytes) : Prop :=
  AddressOf r.ipVersion r.start ∧ AddressOf r.ipVersion r.stop ∧
    bytes = [r.ipVersion] ++ (r.start ++ (r.stop ++ [r.protocol]))

theorem addrLen_eq_ok {ipVersion : UInt8} {len : Nat} :
    addrLen ipVersion = .ok len ↔ ipVersion = 4 ∧ len = 4 ∨ ipVersion = 6 ∧ len = 16 := by
  unfold addrLen
  split_ifs with four six
  · subst four
    simp [eq_comm]
  · subst six
    simp [eq_comm]
  · simp [four, six]

theorem addressOf_iff {ipVersion : UInt8} {address : Bytes} :
    AddressOf ipVersion address ↔ addrLen ipVersion = .ok address.length := addrLen_eq_ok.symm

theorem parseAssignedAddress_eq_ok {a : AssignedAddress} :
    parseAssignedAddress b = .ok (a, b') ↔ ∃ bytes, a.Spells bytes ∧ b.Past bytes b' := by
  simp only [parseAssignedAddress, bind_eq_ok, Prod.exists, mapError_eq_ok, Octets.getVarint_eq_ok,
    getByte_eq_ok, Octets.getBytes_eq_ok]
  constructor
  · rintro ⟨requestId, b₁, ⟨log, small, fits, id⟩, ipVersion, b₂, version, len, known, address, b₃,
      ⟨-, length, middle⟩, prefixLen, b₄, last, result⟩
    cases result
    refine ⟨_, ⟨addressOf_iff.mpr (length ▸ known), log, small, fits, rfl⟩, ?_⟩
    simp only [Octets.past_append]
    exact ⟨b₁, id, b₂, version, b₃, middle, last⟩
  · rintro ⟨bytes, ⟨known, log, small, fits, rfl⟩, past⟩
    simp only [Octets.past_append] at past
    obtain ⟨b₁, id, b₂, version, b₃, middle, last⟩ := past
    exact ⟨a.requestId, b₁, ⟨log, small, fits, id⟩, a.ipVersion, b₂, version, a.address.length,
      addressOf_iff.mp known, .withSlice a.address, b₃, ⟨rfl, rfl, middle⟩, a.prefixLen, b', last, rfl⟩

theorem parseRoute_eq_ok {r : RouteAdvertisement} :
    parseRoute b = .ok (r, b') ↔ ∃ bytes, r.Spells bytes ∧ b.Past bytes b' := by
  simp only [parseRoute, bind_eq_ok, Prod.exists, mapError_eq_ok, getByte_eq_ok,
    Octets.getBytes_eq_ok]
  constructor
  · rintro ⟨ipVersion, b₁, version, len, known, start, b₂, ⟨-, length, first⟩, stop, b₃,
      ⟨-, length', second⟩, protocol, b₄, last, result⟩
    cases result
    refine ⟨_, ⟨addressOf_iff.mpr (length ▸ known), addressOf_iff.mpr (length' ▸ known), rfl⟩, ?_⟩
    simp only [Octets.past_append]
    exact ⟨b₁, version, b₂, first, b₃, second, last⟩
  · rintro ⟨bytes, ⟨known, known', rfl⟩, past⟩
    simp only [Octets.past_append] at past
    obtain ⟨b₁, version, b₂, first, b₃, second, last⟩ := past
    rw [addressOf_iff] at known known'
    have same : r.stop.length = r.start.length := Except.ok.inj (known'.symm.trans known)
    exact ⟨r.ipVersion, b₁, version, r.start.length, known, .withSlice r.start, b₂,
      ⟨rfl, rfl, first⟩, .withSlice r.stop, b₃, ⟨rfl, same, second⟩, r.protocol, b', last, rfl⟩

/-- The bytes of a list of items, one after another. -/
def SpellsAll {β : Type} (spells : β → Bytes → Prop) (items : List β) (value : Bytes) : Prop :=
  ∃ pieces, List.Forall₂ spells items pieces ∧ value = pieces.flatten

section Items

variable {β : Type} {spells : β → Bytes → Prop}

theorem spellsAll_nil : SpellsAll spells [] value ↔ value = [] := by
  constructor
  · rintro ⟨pieces, each, rfl⟩
    cases each
    rfl
  · rintro rfl
    exact ⟨[], .nil, rfl⟩

theorem spellsAll_cons {a : β} {items : List β} :
    SpellsAll spells (a :: items) value ↔
      ∃ first rest, spells a first ∧ SpellsAll spells items rest ∧ value = first ++ rest := by
  constructor
  · rintro ⟨pieces, each, rfl⟩
    cases each with
    | cons first rest => exact ⟨_, _, first, ⟨_, rest, rfl⟩, rfl⟩
  · rintro ⟨first, rest, here, ⟨pieces, each, rfl⟩, rfl⟩
    exact ⟨first :: pieces, .cons here each, rfl⟩

variable {item : Octets → Except AetherError (β × Octets)}
  (parsed : ∀ {b b' a}, item b = .ok (a, b') ↔ ∃ bytes, spells a bytes ∧ b.Past bytes b')
  (nonempty : ∀ {a}, ¬ spells a [])

include nonempty in
theorem spellsAll_of_nil {items : List β} : SpellsAll spells items [] ↔ items = [] := by
  constructor
  · intro all
    cases items with
    | nil => rfl
    | cons a items =>
      obtain ⟨first, rest, here, -, split⟩ := spellsAll_cons.mp all
      obtain ⟨rfl, -⟩ := append_eq_nil_iff.mp split.symm
      exact absurd here nonempty
  · rintro rfl
    exact spellsAll_nil.mpr rfl

include parsed nonempty in
theorem parseItems_eq_ok {fuel : Nat} (enough : b.toVec.length ≤ fuel)
    {out result : List β} :
    parseItems item fuel b out = .ok result ↔
      ∃ items, result = out ++ items ∧ SpellsAll spells items b.toVec := by
  induction fuel generalizing b out with
  | zero =>
    rw [length_eq_zero_iff.mp (Nat.le_zero.mp enough)]
    simp [parseItems, spellsAll_of_nil nonempty, eq_comm]
  | succ fuel ih =>
    rw [parseItems, Octets.cap_eq]
    by_cases empty : b.toVec = []
    · simp [empty, spellsAll_of_nil nonempty, eq_comm]
    rw [if_pos (length_pos_iff.mpr empty)]
    have shorter : ∀ {a bytes} {rest : Bytes}, spells a bytes → b.toVec = bytes ++ rest →
        rest.length ≤ fuel := by
      intro a bytes rest spelled here
      have positive : 0 < bytes.length :=
        length_pos_iff.mpr fun none : bytes = [] => nonempty (none ▸ spelled)
      rw [here, length_append] at enough
      omega
    constructor
    · intro accepted
      cases read : item b with
      | error e => simp [read] at accepted
      | ok next =>
        obtain ⟨a, b'⟩ := next
        obtain ⟨bytes, spelled, past⟩ := parsed.mp read
        simp only [read] at accepted
        obtain ⟨items, rfl, all⟩ := (ih (shorter spelled past.2)).mp accepted
        exact ⟨a :: items, by simp, spellsAll_cons.mpr ⟨bytes, _, spelled, all, past.2⟩⟩
    · rintro ⟨items, rfl, all⟩
      cases items with
      | nil => exact absurd (spellsAll_nil.mp all) empty
      | cons a items =>
        obtain ⟨bytes, rest, spelled, later, here⟩ := spellsAll_cons.mp all
        have past := Octets.past_advance here
        have unread : (b.advance bytes.length).toVec = rest :=
          append_cancel_left (past.2.symm.trans here)
        rw [parsed.mpr ⟨bytes, spelled, past⟩]
        exact (ih (unread ▸ shorter spelled here)).mpr ⟨items, by simp, unread ▸ later⟩

end Items

theorem AssignedAddress.not_spells_nil {a : AssignedAddress} : ¬ a.Spells [] := by
  rintro ⟨-, log, -, -, empty⟩
  simp at empty

theorem RouteAdvertisement.not_spells_nil {r : RouteAdvertisement} : ¬ r.Spells [] := by
  rintro ⟨-, -, empty⟩
  simp at empty

theorem parseAddressAssign_eq_ok {addresses : List AssignedAddress} :
    parseAddressAssign value = .ok addresses ↔
      SpellsAll AssignedAddress.Spells addresses value := by
  refine (parseItems_eq_ok (b := .withSlice value) parseAssignedAddress_eq_ok
    AssignedAddress.not_spells_nil (Nat.le_refl _)).trans ?_
  simp

theorem parseRouteAdvertisement_eq_ok {routes : List RouteAdvertisement} :
    parseRouteAdvertisement value = .ok routes ↔
      SpellsAll RouteAdvertisement.Spells routes value := by
  refine (parseItems_eq_ok (b := .withSlice value) parseRoute_eq_ok
    RouteAdvertisement.not_spells_nil (Nat.le_refl _)).trans ?_
  simp

def readCapsule (cast : Nat → Nat) (buffer : Bytes) : Option ((Nat × Bytes) × Bytes) :=
  (Varint.decode buffer).bind fun (kind, rest) =>
    (Varint.decode rest).bind fun (len, rest) =>
      if rest.length < cast len then none
      else some ((kind, rest.take (cast len)), rest.drop (cast len))

theorem readCapsule_eq_some {cast : Nat → Nat} {buffer rest : Bytes} :
    readCapsule cast buffer = some ((kind, value), rest) ↔
      ∃ more len, Varint.decode buffer = some (kind, more) ∧
        Varint.decode more = some (len, value ++ rest) ∧ value.length = cast len := by
  constructor
  · intro read
    obtain ⟨⟨kind', more⟩, first, read⟩ := Option.bind_eq_some_iff.mp read
    obtain ⟨⟨len, after⟩, second, read⟩ := Option.bind_eq_some_iff.mp read
    dsimp only at read
    split at read
    next => cases read
    next enough =>
      cases read
      refine ⟨more, len, first, ?_, length_take_of_le (Nat.not_lt.mp enough)⟩
      rw [take_append_drop]
      exact second
  · rintro ⟨more, len, first, second, length⟩
    simp only [readCapsule, first, second, Option.bind_some, ← length, take_left,
      drop_left, length_append]
    rw [if_neg (by omega)]

theorem readCapsule_delimits (cast : Nat → Nat) : Delimits (readCapsule cast) where
  front := by
    rintro buffer ⟨kind, value⟩ rest read
    obtain ⟨more, len, first, second, -⟩ := readCapsule_eq_some.mp read
    obtain ⟨head, nonempty, rfl⟩ := Varint.decode_suffix first
    obtain ⟨size, -, rfl⟩ := Varint.decode_suffix second
    exact ⟨head ++ (size ++ value), by simp [nonempty], by simp⟩
  local_ := by
    rintro buffer ⟨kind, value⟩ rest more' read
    obtain ⟨more, len, first, second, length⟩ := readCapsule_eq_some.mp read
    refine readCapsule_eq_some.mpr ⟨more ++ more', len, Varint.decode_append first, ?_, length⟩
    rw [← append_assoc]
    exact Varint.decode_append second

theorem readCapsule_wire {cast : Nat → Nat} (small : kind < 2 ^ 62)
    (short : value.length < 2 ^ 62) (whole : cast value.length = value.length) (rest : Bytes) :
    readCapsule cast (wire kind value ++ rest) = some ((kind, value), rest) := by
  refine readCapsule_eq_some.mpr ⟨_, value.length, ?_, Varint.decode_encode short, whole.symm⟩
  rw [wire, append_assoc, append_assoc]
  exact Varint.decode_encode small

theorem CapsuleParser.next_eq (word : WordSize) (p : CapsuleParser) :
    p.next word = match readCapsule word.asUsize p.buf with
      | none => (.ok none, p)
      | some ((kind, value), rest) => ((decodeCapsule kind value).map some, ⟨rest⟩) := by
  unfold next readCapsule
  cases first : Varint.decode p.buf with
  | none =>
    rw [Octets.getVarint_eq, Octets.toVec_withSlice, first]
    rfl
  | some kind =>
    obtain ⟨n, read, unread⟩ := Octets.getVarint_of_decode (b := .withSlice p.buf) first
    simp only [read, Option.bind_some]
    cases second : Varint.decode kind.2 with
    | none =>
      rw [Octets.getVarint_eq, unread, second]
      rfl
    | some len =>
      obtain ⟨m, read, unread'⟩ := Octets.getVarint_of_decode (unread.symm ▸ second)
      simp only [read, Option.bind_some, Octets.cap_eq, unread']
      by_cases short : len.2.length < word.asUsize len.1
      · rw [if_pos short, if_pos short]
      · have enough := Nat.not_lt.mp short
        rw [if_neg short, if_neg short, Octets.getBytes_of_le (unread'.symm ▸ enough), unread']
        -- The offset counts from the start of the buffer, so that draining leaves the rest.
        have left : p.buf.drop ((((Octets.withSlice p.buf).advance n).advance m).advance
            (word.asUsize len.1)).off = len.2.drop (word.asUsize len.1) := by
          rw [← unread']
          exact Octets.toVec_advance ..
        simp only [left]
        rfl

end Gozarbin.Masque
