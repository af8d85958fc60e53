import Gozarbin.Lib.PercentCoding
import Gozarbin.Octets

/-! # Percent signs in credentials and queries

`upstream.rs` decodes the credentials of a proxy, `zerotrust.rs` the values of a query, each
with a `percent_decode` of its own. Both leave it to `from_str_radix` to say what two digits
are, and it takes a plus sign in front of one digit for a number too.
-/

namespace Gozarbin

open List Text PercentCoding

def hexByte (high low : UInt8) : Option UInt8 :=
  (fromStrRadix 16 256 ((fromUtf8 [high, low]).getD [])).map .ofNat

def percentLoop (single : UInt8 → UInt8) (bytes : Bytes) : Bytes := decode hexByte single bytes

def Upstream.percentDecode (value : Text) : Text := fromUtf8Lossy (percentLoop id (toUtf8 value))

def ZeroTrust.querySingle (b : UInt8) : UInt8 := if b = 0x2b then 0x20 else b

def ZeroTrust.percentDecode (raw : Text) : Text :=
  fromUtf8Lossy (percentLoop ZeroTrust.querySingle (toUtf8 raw))

section
variable {high low byte : UInt8} {single : UInt8 → UInt8} {bytes : Bytes}

theorem hexByte_eq {text : Text} (ascii : ∀ c ∈ text, c.toNat < 128)
    (written : [high, low] = text.map fun c => c.toNat.toUInt8) :
    hexByte high low = (fromStrRadix 16 256 text).map .ofNat := by
  have read : fromUtf8 [high, low] = some text := by
    rw [fromUtf8_eq_some, toUtf8_ascii ascii, written]
  rw [hexByte, read]
  rfl

variable {b : UInt8}

theorem exists_of_hexValue {n : Nat} (value : hexValue b = some n) :
    ∃ c : Char, c.toNat < 128 ∧ b = c.toNat.toUInt8 ∧ digit? 16 c = some n := by
  refine ⟨.ofNat b.toNat, ?_, ?_, value⟩
  · rw [toNat_ofNat_byte]
    exact hexValue_ascii (by simp [value])
  · rw [toNat_ofNat_byte]
    exact UInt8.ofNat_toNat.symm

theorem hexByte_of_hexPair (value : hexPair high low = some byte) : hexByte high low = some byte := by
  obtain ⟨h, l, read, read', rfl⟩ := hexPair_eq_some.mp value
  have small : 16 * h + l < 256 := by
    have := hexValue_lt read
    have := hexValue_lt read'
    omega
  obtain ⟨c, ascii, rfl, digit⟩ := exists_of_hexValue read
  obtain ⟨d, ascii', rfl, digit'⟩ := exists_of_hexValue read'
  have numeral : Numeral 16 [c, d] := ⟨by simp [digit, digit'], by simp⟩
  have number : numberFrom 16 0 [c, d] = 16 * h + l := by
    simp [numberFrom, digit, digit', Nat.mul_comm]
  have text : ∀ e ∈ [c, d], e.toNat < 128 := by simp [ascii, ascii']
  rw [hexByte_eq text rfl, numeral.fromStrRadix_eq (by decide) (by rwa [number]), number]
  rfl

theorem hexByte_plus {n : Nat} (value : hexValue low = some n) : hexByte 0x2b low = some (.ofNat n) := by
  have small := hexValue_lt value
  obtain ⟨d, ascii, rfl, digit⟩ := exists_of_hexValue value
  have text : ∀ e ∈ ['+', d], e.toNat < 128 := by simp [ascii]
  have written : [0x2b, d.toNat.toUInt8] = ['+', d].map fun c => c.toNat.toUInt8 := rfl
  rw [hexByte_eq text written]
  simp only [fromStrRadix, radixDigits, digit]
  rw [if_neg (by simp), if_pos (by omega), Nat.zero_mul, Nat.zero_add]
  rfl

theorem text_of_hexByte (value : hexByte high low = some byte) :
    ∃ text n, [high, low] = toUtf8 text ∧ fromStrRadix 16 256 text = some n ∧ .ofNat n = byte := by
  obtain ⟨n, read, same⟩ := Option.map_eq_some_iff.mp value
  cases decoded : fromUtf8 [high, low] with
  | none =>
    rw [decoded] at read
    cases read
  | some text =>
    rw [decoded] at read
    exact ⟨text, n, fromUtf8_eq_some.mp decoded, read, same⟩

theorem hexByte_cases (value : hexByte high low = some byte) :
    hexPair high low = some byte ∨ high = 0x2b ∧ (hexValue low).isSome ∧ byte < 0x80 := by
  obtain ⟨text, n, written, read, rfl⟩ := text_of_hexByte value
  obtain ⟨digits, shape, numeral, rfl⟩ := numeral_of_fromStrRadix read
  have ascii : ∀ c ∈ digits, c.toNat < 128 := fun c member => hex_ascii (numeral.digits c member)
  rcases shape with rfl | rfl
  · left
    rw [toUtf8_ascii ascii] at written
    obtain ⟨c, d, rfl⟩ := length_eq_two.mp (by simpa using (congrArg List.length written).symm)
    obtain ⟨rfl, last⟩ := List.cons.inj written
    obtain ⟨rfl, -⟩ := List.cons.inj last
    obtain ⟨h, digit⟩ := Option.isSome_iff_exists.mp (numeral.digits c (by simp))
    obtain ⟨l, digit'⟩ := Option.isSome_iff_exists.mp (numeral.digits d (by simp))
    refine hexPair_eq_some.mpr ⟨h, l, ?_, ?_, ?_⟩
    · rw [hexValue_byte (ascii c (by simp)), digit]
    · rw [hexValue_byte (ascii d (by simp)), digit']
    · simp [numberFrom, digit, digit', Nat.mul_comm]
  · right
    have all : ∀ c ∈ '+' :: digits, c.toNat < 128 := forall_mem_cons.mpr ⟨by decide, ascii⟩
    rw [toUtf8_ascii all] at written
    obtain ⟨d, rfl⟩ := length_eq_one_iff.mp (by simpa using (congrArg List.length written).symm)
    obtain ⟨rfl, last⟩ := List.cons.inj written
    obtain ⟨rfl, -⟩ := List.cons.inj last
    obtain ⟨n, digit⟩ := Option.isSome_iff_exists.mp (numeral.digits d (by simp))
    have known : hexValue d.toNat.toUInt8 = some n := by rw [hexValue_byte (ascii d (by simp)), digit]
    have number : numberFrom 16 0 [d] = n := by simp [numberFrom, digit]
    have small := hexValue_lt known
    refine ⟨rfl, by simp [known], ?_⟩
    rw [number, UInt8.lt_iff_toNat_lt, toNat_ofNat_lt (by omega)]
    exact Nat.lt_trans small (by decide)

/-- Somewhere there is a percent sign, a plus sign and a digit. -/
def Signed (bytes : Bytes) : Prop := ∃ digit, (hexValue digit).isSome ∧ [0x25, 0x2b, digit] <:+: bytes

variable {rest : Bytes}

theorem signed_cons :
    Signed (b :: rest) ↔
      (∃ digit more, (hexValue digit).isSome ∧ b = 0x25 ∧ rest = 0x2b :: digit :: more) ∨ Signed rest := by
  simp only [Signed, infix_cons_iff, and_or_left, exists_or]
  refine or_congr (exists_congr fun digit => ?_) Iff.rfl
  constructor
  · rintro ⟨known, more, same⟩
    cases same
    exact ⟨more, known, rfl, rfl⟩
  · rintro ⟨more, known, rfl, rfl⟩
    exact ⟨known, more, rfl⟩

theorem signed_cons_of_ne (other : b ≠ 0x25) (rest : Bytes) :
    Signed (b :: rest) ↔ Signed rest := by
  simp [signed_cons, other]

theorem signed_pair (value : hexPair high low = some byte) :
    Signed (0x25 :: high :: low :: rest) ↔ Signed rest := by
  obtain ⟨h, l, read, read', -⟩ := hexPair_eq_some.mp value
  have digit : (hexValue high).isSome := by simp [read]
  have digit' : (hexValue low).isSome := by simp [read']
  have plus : high ≠ 0x2b := ne_of_hexValue digit rfl
  rw [signed_cons, signed_cons_of_ne (ne_of_hexValue digit rfl),
    signed_cons_of_ne (ne_of_hexValue digit' rfl)]
  simp [plus]

theorem signed_alone (alone : Alone hexByte b rest) :
    Signed (b :: rest) ↔ Signed rest := by
  rw [signed_cons]
  refine or_iff_right ?_
  rintro ⟨digit, more, known, percent, split⟩
  obtain ⟨n, value⟩ := Option.isSome_iff_exists.mp known
  have none_ := alone _ _ _ percent split
  rw [hexByte_plus value] at none_
  cases none_

theorem alone_hexPair (alone : Alone hexByte b rest) : Alone hexPair b rest := by
  intro high low more percent split
  cases value : hexPair high low with
  | none => rfl
  | some byte =>
    have none_ := alone high low more percent split
    rw [hexByte_of_hexPair value] at none_
    cases none_

theorem alone_of_ne {pair : UInt8 → UInt8 → Option UInt8} (other : b ≠ 0x25) (rest : Bytes) :
    Alone pair b rest := fun _ _ _ percent => absurd percent other

theorem decode_signed (own : single 0x25 = 0x25) (digit : (hexValue low).isSome) (rest : Bytes) :
    decode hexPair single (0x25 :: 0x2b :: low :: rest) =
      0x25 :: single 0x2b :: single low :: decode hexPair single rest := by
  have none_ : hexPair 0x2b low = none := rfl
  have alone : Alone hexPair 0x25 (0x2b :: low :: rest) := by
    rintro _ _ _ - split
    cases split
    exact none_
  rw [decode_single own alone, own, decode_single own (alone_of_ne (by decide) _),
    decode_single own (alone_of_ne (ne_of_hexValue digit rfl) _)]

theorem loop_induction {P : Bytes → Prop} (nil : P [])
    (pair : ∀ high low byte rest, hexPair high low = some byte → P rest → P (0x25 :: high :: low :: rest))
    (signed : ∀ low byte rest, hexByte 0x2b low = some byte → (hexValue low).isSome → byte < 0x80 →
      P rest → P (0x25 :: 0x2b :: low :: rest))
    (alone : ∀ b rest, Alone hexByte b rest → P rest → P (b :: rest)) (bytes : Bytes) : P bytes := by
  induction bytes using pair_induction hexByte with
  | nil => exact nil
  | taken high low byte rest value ih =>
    rcases hexByte_cases value with strict | ⟨rfl, digit, small⟩
    · exact pair high low byte rest strict ih
    · exact signed low byte rest value digit small ih
  | alone b rest free ih => exact alone b rest free ih

theorem length_percentLoop (own : single 0x25 = 0x25) (bytes : Bytes) :
    (percentLoop single bytes).length ≤ (decode hexPair single bytes).length := by
  unfold percentLoop
  induction bytes using loop_induction with
  | nil => exact Nat.le_refl _
  | pair high low byte rest value ih =>
    rw [decode_pair value, decode_pair (hexByte_of_hexPair value)]
    exact Nat.succ_le_succ ih
  | signed low byte rest value digit _ ih =>
    rw [decode_pair value, decode_signed own digit]
    simp only [length_cons]
    omega
  | alone b rest free ih =>
    rw [decode_single own free, decode_single own (alone_hexPair free)]
    exact Nat.succ_le_succ ih

theorem percentLoop_eq_iff (own : single 0x25 = 0x25) (bytes : Bytes) :
    percentLoop single bytes = decode hexPair single bytes ↔ ¬ Signed bytes := by
  induction bytes using loop_induction with
  | nil =>
    have none_ : ¬ Signed [] := by simp [Signed]
    exact iff_of_true rfl none_
  | pair high low byte rest value ih =>
    rw [signed_pair value, ← ih, percentLoop, decode_pair value, decode_pair (hexByte_of_hexPair value),
      cons_inj_right]
    rfl
  | signed low byte rest value digit _ =>
    have here : Signed (0x25 :: 0x2b :: low :: rest) :=
      signed_cons.mpr (.inl ⟨low, rest, digit, rfl, rfl⟩)
    refine iff_of_false (fun same => ?_) (not_not.mpr here)
    -- the loop writes one byte here, the strict decoder three
    have shorter := length_percentLoop own rest
    rw [percentLoop] at same shorter
    rw [decode_pair value, decode_signed own digit] at same
    have lengths := congrArg List.length same
    simp only [length_cons] at lengths
    omega
  | alone b rest free ih =>
    rw [signed_alone free, ← ih, percentLoop, decode_single own free,
      decode_single own (alone_hexPair free), cons_inj_right]
    rfl

theorem isUtf8_percentLoop (own : single 0x25 = 0x25) (ascii : ∀ b < 0x80, single b < 0x80)
    (front : Bytes) (valid : IsUtf8 (front ++ decode hexPair single bytes)) :
    IsUtf8 (front ++ percentLoop single bytes) := by
  unfold percentLoop
  induction bytes using loop_induction generalizing front with
  | nil => exact valid
  | pair high low byte rest value ih =>
    rw [decode_pair value, append_cons] at valid
    rw [decode_pair (hexByte_of_hexPair value), append_cons]
    exact ih _ valid
  | signed low byte rest value digit small ih =>
    rw [decode_signed own digit, isUtf8_append_ascii (by decide)] at valid
    obtain ⟨before, after⟩ := valid
    have skip := (isUtf8_append_ascii (ascii 0x2b (by decide)) [] _).mp after
    have skip' := (isUtf8_append_ascii (ascii low (hexValue_ascii digit)) [] _).mp skip.2
    rw [decode_pair value, isUtf8_append_ascii small]
    exact ⟨before, ih [] skip'.2⟩
  | alone b rest free ih =>
    rw [decode_single own (alone_hexPair free), append_cons] at valid
    rw [decode_single own free, append_cons]
    exact ih _ valid

theorem decodes_percentLoop_iff (own : single 0x25 = 0x25) (ascii : ∀ b < 0x80, single b < 0x80)
    (bytes : Bytes) :
    Decodes single bytes (toUtf8 (fromUtf8Lossy (percentLoop single bytes))) ↔
      ¬ Signed bytes ∧ ∀ out, Decodes single bytes out → IsUtf8 out := by
  simp only [decodes_iff own, forall_eq]
  constructor
  · intro same
    have valid : IsUtf8 (decode hexPair single bytes) := same ▸ isUtf8_toUtf8 _
    have loop : IsUtf8 (percentLoop single bytes) := isUtf8_percentLoop own ascii [] valid
    rw [loop] at same
    exact ⟨(percentLoop_eq_iff own bytes).mp same, valid⟩
  · rintro ⟨unsigned, valid⟩
    rw [(percentLoop_eq_iff own bytes).mpr unsigned, valid]

end

/-- Exactly the pairs of digits are decoded, in the texts with no plus sign between a percent
    sign and a digit that stand for the bytes of a text. -/
theorem percentDecode_strict_iff (text : Text) :
    (Decodes id (toUtf8 text) (toUtf8 (Upstream.percentDecode text)) ↔
        ¬ Signed (toUtf8 text) ∧ ∀ out, Decodes id (toUtf8 text) out → IsUtf8 out) ∧
      (Decodes ZeroTrust.querySingle (toUtf8 text) (toUtf8 (ZeroTrust.percentDecode text)) ↔
        ¬ Signed (toUtf8 text) ∧ ∀ out, Decodes ZeroTrust.querySingle (toUtf8 text) out → IsUtf8 out) := by
  refine ⟨decodes_percentLoop_iff rfl (fun _ small => small) _, decodes_percentLoop_iff rfl ?_ _⟩
  intro b small
  rw [ZeroTrust.querySingle]
  split
  · decide
  · exact small

theorem plus_taken_for_digit :
    Upstream.percentDecode "%+F".toList = ['\x0f'] ∧ ZeroTrust.percentDecode "%+F".toList = ['\x0f'] ∧
      ¬ Decodes id (toUtf8 "%+F".toList) (toUtf8 (Upstream.percentDecode "%+F".toList)) ∧
      ¬ Decodes ZeroTrust.querySingle (toUtf8 "%+F".toList)
        (toUtf8 (ZeroTrust.percentDecode "%+F".toList)) := by
  refine ⟨by decide, by decide, ?_, ?_⟩
  · rw [decodes_iff rfl]
    decide
  · rw [decodes_iff rfl]
    decide

end Gozarbin
