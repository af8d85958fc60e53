import Gozarbin.Lib.Varint
import Gozarbin.Net.Addr

/-! # The byte cursors of the `octets` crate

`Octets` reads a slice and `OctetsMut` writes one, both from an offset that moves on
with each operation. The integers they read and write are those of `Lib/Varint`. A
function that panics has no result.
-/

namespace Gozarbin

open List

structure BufferTooShortError where
  deriving DecidableEq

def BufferTooShortError.display (_ : BufferTooShortError) : String := "BufferTooShortError"

def varintParseLen (first : Nat) : Nat :=
  match first >>> 6 with
  | 0 => 1
  | 1 => 2
  | 2 => 4
  -- There is no other case than 3.
  | _ => 8

def maxVarInt : Nat := 4611686018427387903

def varintLen (v : Nat) : Option Nat :=
  if v ≤ 63 then some 1
  else if v ≤ 16383 then some 2
  else if v ≤ 1073741823 then some 4
  else if v ≤ maxVarInt then some 8
  else none

structure Octets where
  buf : Bytes
  off : Nat
  deriving DecidableEq

namespace Octets

def withSlice (buf : Bytes) : Octets := ⟨buf, 0⟩

def cap (b : Octets) : Nat := b.buf.length - b.off

def toVec (b : Octets) : Bytes := b.buf.drop b.off

def peekU (b : Octets) (len : Nat) : Except BufferTooShortError Nat :=
  if (b.buf.drop b.off).length < len then .error ⟨⟩
  else .ok (BigEndian.ofBytes ((b.buf.drop b.off).take len))

def getU (b : Octets) (len : Nat) : Except BufferTooShortError (Nat × Octets) :=
  match b.peekU len with
  | .error e => .error e
  | .ok out => .ok (out, { b with off := b.off + len })

def peekU8 (b : Octets) : Except BufferTooShortError Nat := b.peekU 1

def getU8 (b : Octets) : Except BufferTooShortError (Nat × Octets) := b.getU 1

def getU16 (b : Octets) : Except BufferTooShortError (Nat × Octets) := b.getU 2

def getU32 (b : Octets) : Except BufferTooShortError (Nat × Octets) := b.getU 4

def getU64 (b : Octets) : Except BufferTooShortError (Nat × Octets) := b.getU 8

def getVarint (b : Octets) : Except BufferTooShortError (Nat × Octets) :=
  match b.peekU8 with
  | .error e => .error e
  | .ok first =>
    if varintParseLen first > b.cap then .error ⟨⟩
    else
      match varintParseLen first with
      | 1 => b.getU8
      | 2 => b.getU16.map fun (v, b) => (v &&& 0x3fff, b)
      | 4 => b.getU32.map fun (v, b) => (v &&& 0x3fffffff, b)
      | _ => b.getU64.map fun (v, b) => (v &&& 0x3fffffffffffffff, b)

def getBytes (b : Octets) (len : Nat) : Except BufferTooShortError (Octets × Octets) :=
  if b.cap < len then .error ⟨⟩
  else .ok (⟨(b.buf.drop b.off).take len, 0⟩, { b with off := b.off + len })

def advance (b : Octets) (n : Nat) : Octets := { b with off := b.off + n }

@[simp] theorem toVec_withSlice (buf : Bytes) : (withSlice buf).toVec = buf := rfl

@[simp] theorem toVec_advance (b : Octets) (n : Nat) : (b.advance n).toVec = b.toVec.drop n := by
  simp [advance, toVec]

theorem cap_eq (b : Octets) : b.cap = b.toVec.length := by simp [cap, toVec]

variable {b : Octets} {len : Nat}

theorem peekU_of_le (enough : len ≤ b.toVec.length) :
    b.peekU len = .ok (BigEndian.ofBytes (b.toVec.take len)) := if_neg (Nat.not_lt.mpr enough)

theorem peekU_of_lt (short : b.toVec.length < len) :
    b.peekU len = .error ⟨⟩ := if_pos short

theorem getU_of_le (enough : len ≤ b.toVec.length) :
    b.getU len = .ok (BigEndian.ofBytes (b.toVec.take len), b.advance len) := by
  rw [getU, peekU_of_le enough]
  rfl

theorem size_cases (first : UInt8) :
    varintParseLen first.toNat = Varint.size first ∧
      (Varint.size first = 1 ∧ first.toNat / 64 = 0 ∨ Varint.size first = 2 ∧ first.toNat / 64 = 1 ∨
        Varint.size first = 4 ∧ first.toNat / 64 = 2 ∨
        Varint.size first = 8 ∧ first.toNat / 64 = 3) := by
  have shifted : first.toNat >>> 6 = first.toNat / 64 := Nat.shiftRight_eq_div_pow ..
  have byte := first.toNat_lt
  obtain top | top | top | top : first.toNat / 64 = 0 ∨ first.toNat / 64 = 1 ∨
      first.toNat / 64 = 2 ∨ first.toNat / 64 = 3 := by omega
  all_goals simp [varintParseLen, Varint.size, shifted, top]

theorem getVarint_eq (b : Octets) :
    b.getVarint = match Varint.decode b.toVec with
      | none => .error ⟨⟩
      | some (v, rest) => .ok (v, b.advance (b.toVec.length - rest.length)) := by
  cases bytes : b.toVec with
  | nil =>
    have short : b.peekU8 = .error ⟨⟩ := peekU_of_lt (by simp [bytes])
    simp [getVarint, short, Varint.decode]
  | cons first more =>
    have peeked : b.peekU8 = .ok first.toNat := by
      rw [peekU8, peekU_of_le (by simp [bytes]), bytes]
      simp [BigEndian.ofBytes]
    obtain ⟨parsed, sizes⟩ := size_cases first
    have masks : ∀ v : Nat, v &&& 0x3fff = v % 2 ^ 14 ∧ v &&& 0x3fffffff = v % 2 ^ 30 ∧
        v &&& 0x3fffffffffffffff = v % 2 ^ 62 := fun v =>
      ⟨Nat.and_two_pow_sub_one_eq_mod v 14, Nat.and_two_pow_sub_one_eq_mod v 30,
        Nat.and_two_pow_sub_one_eq_mod v 62⟩
    simp only [getVarint, peeked, parsed, cap_eq, bytes, Varint.decode]
    by_cases short : (first :: more).length < Varint.size first
    · rw [if_pos short, if_pos short]
    · rw [if_neg short, if_neg short]
      have got : b.getU (Varint.size first) = _ := getU_of_le (bytes ▸ Nat.not_lt.mp short)
      rw [bytes] at got
      have skipped : (first :: more).length - ((first :: more).drop (Varint.size first)).length =
          Varint.size first := by
        rw [length_drop]
        omega
      simp only [skipped]
      rcases sizes with ⟨size, top⟩ | ⟨size, top⟩ | ⟨size, top⟩ | ⟨size, top⟩
      · rw [size] at got ⊢
        have small : first.toNat < Varint.bound 0 := by
          have : Varint.bound 0 = 64 := rfl
          omega
        simp [getU8, got, top, BigEndian.ofBytes, Nat.mod_eq_of_lt small]
      · rw [size] at got ⊢
        simp [getU16, got, top, Except.map, masks, Varint.bound]
      · rw [size] at got ⊢
        simp [getU32, got, top, Except.map, masks, Varint.bound]
      · rw [size] at got ⊢
        simp [getU64, got, top, Except.map, masks, Varint.bound]

theorem getBytes_of_le (enough : len ≤ b.toVec.length) :
    b.getBytes len = .ok (⟨b.toVec.take len, 0⟩, b.advance len) := by
  rw [getBytes, if_neg (by rw [cap_eq]; omega)]
  rfl

theorem getBytes_of_lt (short : b.toVec.length < len) :
    b.getBytes len = .error ⟨⟩ := by
  rw [getBytes, if_pos (by rw [cap_eq]; omega)]

/-- `b'` is `b` after `bytes` have been read. -/
def Past (b : Octets) (bytes : Bytes) (b' : Octets) : Prop :=
  b' = b.advance bytes.length ∧ b.toVec = bytes ++ b'.toVec

theorem past_advance {bytes rest : Bytes} (here : b.toVec = bytes ++ rest) :
    b.Past bytes (b.advance bytes.length) :=
  ⟨rfl, by rw [toVec_advance, here, drop_left]⟩

variable {b' : Octets}

theorem past_append {left right : Bytes} :
    b.Past (left ++ right) b' ↔ ∃ middle, b.Past left middle ∧ middle.Past right b' := by
  constructor
  · rintro ⟨rfl, here⟩
    rw [append_assoc] at here
    have first := past_advance here
    refine ⟨_, first, ?_, ?_⟩
    · simp [advance, Nat.add_assoc]
    · rw [toVec_advance, here, drop_left]
  · rintro ⟨middle, ⟨rfl, here⟩, ⟨rfl, there⟩⟩
    refine ⟨?_, ?_⟩
    · simp [advance, Nat.add_assoc]
    · rw [here, there, append_assoc]

variable {v : Nat}

theorem getVarint_eq_ok :
    b.getVarint = .ok (v, b') ↔
      ∃ log, log < 4 ∧ v < Varint.bound log ∧ b.Past (Varint.encodeAs log v) b' := by
  rw [getVarint_eq]
  constructor
  · cases decoded : Varint.decode b.toVec with
    | none => simp
    | some next =>
      rintro ⟨⟩
      obtain ⟨log, small, fits, here⟩ := Varint.exists_encodeAs decoded
      have length : b.toVec.length - next.2.length = (Varint.encodeAs log next.1).length := by
        rw [here, length_append, Nat.add_sub_cancel]
      rw [length]
      exact ⟨log, small, fits, past_advance here⟩
  · rintro ⟨log, small, fits, rfl, here⟩
    rw [here, Varint.decode_encodeAs small fits]
    simp

theorem getVarint_of_decode {rest : Bytes}
    (decoded : Varint.decode b.toVec = some (v, rest)) :
    ∃ n, b.getVarint = .ok (v, b.advance n) ∧ (b.advance n).toVec = rest := by
  obtain ⟨front, -, here⟩ := Varint.decode_suffix decoded
  refine ⟨_, by rw [getVarint_eq, decoded], ?_⟩
  rw [toVec_advance, here, length_append, Nat.add_sub_cancel, drop_left]

theorem getBytes_eq_ok {out : Octets} :
    b.getBytes len = .ok (out, b') ↔
      out = .withSlice out.toVec ∧ out.toVec.length = len ∧ b.Past out.toVec b' := by
  constructor
  · intro got
    rcases Nat.lt_or_ge b.toVec.length len with short | enough
    · rw [getBytes_of_lt short] at got
      cases got
    · rw [getBytes_of_le enough] at got
      cases got
      have length : (b.toVec.take len).length = len := length_take_of_le enough
      have past := past_advance (take_append_drop len b.toVec).symm
      rw [length] at past
      exact ⟨rfl, length, past⟩
  · rintro ⟨whole, rfl, rfl, here⟩
    rw [getBytes_of_le (by rw [here, length_append]; omega), here, take_left]
    exact congrArg (fun out' => Except.ok (out', b.advance out.toVec.length)) whole.symm

theorem getU8_eq_ok :
    b.getU8 = .ok (v, b') ↔ ∃ byte : UInt8, v = byte.toNat ∧ b.Past [byte] b' := by
  constructor
  · intro got
    cases bytes : b.toVec with
    | nil =>
      rw [getU8, getU, peekU_of_lt (by simp [bytes])] at got
      cases got
    | cons byte rest =>
      rw [getU8, getU_of_le (by simp [bytes]), bytes] at got
      cases got
      exact ⟨byte, by simp [BigEndian.ofBytes], past_advance bytes⟩
  · rintro ⟨byte, rfl, rfl, here⟩
    have enough : 1 ≤ b.toVec.length := by
      rw [here, length_append]
      exact Nat.le_add_right ..
    have first : b.toVec.take 1 = [byte] := by
      rw [here]
      rfl
    rw [getU8, getU_of_le enough, first]
    simp [BigEndian.ofBytes]

end Octets

structure OctetsMut where
  buf : Bytes
  off : Nat
  deriving DecidableEq

namespace OctetsMut

def withSlice (buf : Bytes) : OctetsMut := ⟨buf, 0⟩

def cap (b : OctetsMut) : Nat := b.buf.length - b.off

def write (b : OctetsMut) (bytes : Bytes) : OctetsMut :=
  ⟨b.buf.take b.off ++ bytes ++ b.buf.drop (b.off + bytes.length), b.off + bytes.length⟩

def putU (b : OctetsMut) (v len : Nat) : Except BufferTooShortError OctetsMut :=
  if b.buf.length < b.off + len then .error ⟨⟩
  else .ok (b.write (BigEndian.toBytes len v))

def setBits (b : OctetsMut) (place : Nat) (bits : UInt8) : OctetsMut :=
  { b with buf := b.buf.modify place (· ||| bits) }

def putVarintWithLen (b : OctetsMut) (v len : Nat) :
    Option (Except BufferTooShortError OctetsMut) :=
  if b.cap < len then some (.error ⟨⟩)
  else
    match len with
    | 1 => some (b.putU (v % 2 ^ 8) 1)
    | 2 => some ((b.putU (v % 2 ^ 16) 2).map fun b' => b'.setBits b.off 0x40)
    | 4 => some ((b.putU (v % 2 ^ 32) 4).map fun b' => b'.setBits b.off 0x80)
    | 8 => some ((b.putU v 8).map fun b' => b'.setBits b.off 0xc0)
    | _ => none

def putVarint (b : OctetsMut) (v : Nat) : Option (Except BufferTooShortError OctetsMut) :=
  (varintLen v).bind (b.putVarintWithLen v)

def putBytes (b : OctetsMut) (v : Bytes) : Except BufferTooShortError OctetsMut :=
  if b.cap < v.length then .error ⟨⟩
  else if v.length = 0 then .ok b
  else .ok (b.write v)

def after (front free : Bytes) : OctetsMut := ⟨front ++ free, front.length⟩

theorem cap_after (front free : Bytes) : (after front free).cap = free.length := by
  simp [cap, after]

theorem write_after (front free bytes : Bytes) :
    (after front free).write bytes = after (front ++ bytes) (free.drop bytes.length) := by
  simp [write, after]

variable {front free : Bytes}

theorem putU_after {len : Nat} (v : Nat) (enough : len ≤ free.length) :
    (after front free).putU v len =
      .ok (after (front ++ BigEndian.toBytes len v) (free.drop len)) := by
  rw [putU, if_neg, write_after, BigEndian.length_toBytes]
  simp only [after, length_append]
  omega

theorem setBits_after (first : UInt8) (tail : Bytes) (bits : UInt8) :
    (after (front ++ first :: tail) free).setBits front.length bits =
      after (front ++ (first ||| bits) :: tail) free := by
  have modified : (front ++ (first :: tail ++ free)).modify front.length (· ||| bits) =
      front ++ ((first ||| bits) :: tail ++ free) := by
    induction front with
    | nil => rfl
    | cons b front ih => simpa using ih
  simp only [setBits, after, append_assoc, modified, length_append, length_cons]

theorem putU_setBits_after {len : Nat} (v : Nat) (bits : UInt8)
    (positive : 0 < len) (enough : len ≤ free.length) :
    ((after front free).putU v len).map (fun b' => b'.setBits (after front free).off bits) =
      .ok (after (front ++ (BigEndian.toBytes len v).modify 0 (· ||| bits)) (free.drop len)) := by
  obtain ⟨size, rfl⟩ : ∃ size, len = size + 1 := Nat.exists_eq_add_of_le' positive
  rw [putU_after v enough, BigEndian.toBytes_succ, modify_zero_cons]
  exact congrArg Except.ok (setBits_after ..)

theorem varintLen_eq {v : Nat} (fits : v < 2 ^ 62) : varintLen v = some (2 ^ Varint.log v) := by
  obtain ⟨one, two, four⟩ :
      Varint.bound 0 = 64 ∧ Varint.bound 1 = 16384 ∧ Varint.bound 2 = 1073741824 := by decide
  have eight : v ≤ maxVarInt := Nat.le_of_lt_succ fits
  rw [varintLen, Varint.log, one, two, four, if_pos eight]
  split_ifs <;> first | rfl | omega

theorem putVarint_after {v : Nat} (fits : v < 2 ^ 62)
    (enough : (Varint.encode v).length ≤ free.length) :
    (after front free).putVarint v =
      some (.ok (after (front ++ Varint.encode v) (free.drop (Varint.encode v).length))) := by
  have small := Varint.lt_bound_log fits
  have four := Varint.log_lt v
  have length : (Varint.encode v).length = 2 ^ Varint.log v := Varint.length_encodeAs _ _
  rw [length] at enough
  rw [putVarint, varintLen_eq fits, Option.bind_some, putVarintWithLen.eq_def, cap_after,
    if_neg (Nat.not_lt.mpr enough), length, Varint.encode, Varint.encodeAs_eq_modify small]
  generalize Varint.log v = log at *
  have same : ∀ {bits : Nat}, Varint.bound log ≤ 2 ^ bits → v % 2 ^ bits = v := fun le =>
    Nat.mod_eq_of_lt (Nat.lt_of_lt_of_le small le)
  obtain rfl | rfl | rfl | rfl : log = 0 ∨ log = 1 ∨ log = 2 ∨ log = 3 := by omega
  · have unset : (BigEndian.toBytes 1 v).modify 0 (· ||| UInt8.ofNat (64 * 0)) =
        BigEndian.toBytes 1 v := by simp [BigEndian.toBytes]
    simp only [Nat.pow_zero, same (by decide : Varint.bound 0 ≤ 2 ^ 8), unset]
    exact congrArg some (putU_after v enough)
  · simp only [same (by decide : Varint.bound 1 ≤ 2 ^ 16)]
    exact congrArg some (putU_setBits_after v _ (by decide) enough)
  · simp only [same (by decide : Varint.bound 2 ≤ 2 ^ 32)]
    exact congrArg some (putU_setBits_after v _ (by decide) enough)
  · exact congrArg some (putU_setBits_after v _ (by decide) enough)

theorem putVarint_eq_none {b : OctetsMut} {v : Nat} (large : 2 ^ 62 ≤ v) : b.putVarint v = none := by
  have none : varintLen v = none := by
    rw [varintLen, maxVarInt, if_neg (by omega), if_neg (by omega), if_neg (by omega),
      if_neg (by omega)]
  rw [putVarint, none, Option.bind_none]

theorem putBytes_after {bytes : Bytes} (enough : bytes.length ≤ free.length) :
    (after front free).putBytes bytes =
      .ok (after (front ++ bytes) (free.drop bytes.length)) := by
  rw [putBytes, cap_after, if_neg (Nat.not_lt.mpr enough), write_after]
  cases bytes with
  | nil => simp
  | cons => rfl

end OctetsMut

end Gozarbin
