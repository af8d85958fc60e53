import Gozarbin.Lib.Numerals
import Gozarbin.Lib.Utf8Valid

/-! # Percent coding

A percent sign and two hexadecimal digits stand for a byte. Bytes are read from left to
right, and a byte that starts no such pair stands for itself, or for what a form has it stand
for. `Decodes` says what coded bytes stand for; a decoder may take more than that for a pair.
-/

namespace Gozarbin.PercentCoding

def hexValue (b : UInt8) : Option Nat := Text.digit? 16 (.ofNat b.toNat)

def hexPair (high low : UInt8) : Option UInt8 := do
  return .ofNat (16 * (← hexValue high) + (← hexValue low))

/-- No pair starts with this byte. -/
def Alone (pair : UInt8 → UInt8 → Option UInt8) (b : UInt8) (rest : List UInt8) : Prop :=
  ∀ high low more, b = 0x25 → rest = high :: low :: more → pair high low = none

/-- What coded bytes stand for; a byte outside of all pairs stands for `single` of it. -/
inductive Decodes (single : UInt8 → UInt8) : List UInt8 → List UInt8 → Prop where
  | nil : Decodes single [] []
  | pair {high low byte : UInt8} {rest out : List UInt8} (value : hexPair high low = some byte)
      (later : Decodes single rest out) : Decodes single (0x25 :: high :: low :: rest) (byte :: out)
  | single {b : UInt8} {rest out : List UInt8} (alone : Alone hexPair b rest)
      (later : Decodes single rest out) : Decodes single (b :: rest) (single b :: out)

def decode (pair : UInt8 → UInt8 → Option UInt8) (single : UInt8 → UInt8) : List UInt8 → List UInt8
  | b :: high :: low :: rest =>
    if b = 0x25 then
      match pair high low with
      | some byte => byte :: decode pair single rest
      | none => b :: decode pair single (high :: low :: rest)
    else single b :: decode pair single (high :: low :: rest)
  | [b, next] => [single b, single next]
  | [b] => [single b]
  | [] => []

section
variable {pair : UInt8 → UInt8 → Option UInt8} {single : UInt8 → UInt8} {b high low byte : UInt8}
  {rest out bytes : List UInt8}

theorem decode_pair (value : pair high low = some byte) (rest : List UInt8) :
    decode pair single (0x25 :: high :: low :: rest) = byte :: decode pair single rest := by
  rw [decode, if_pos rfl, value]

theorem decode_single (own : single 0x25 = 0x25) (alone : Alone pair b rest) :
    decode pair single (b :: rest) = single b :: decode pair single rest := by
  match rest with
  | [] => rfl
  | [_] => rfl
  | high :: low :: more =>
    rw [decode]
    split
    next percent => rw [alone high low more percent rfl, percent, own]
    next => rfl

theorem pair_induction {P : List UInt8 → Prop} (pair : UInt8 → UInt8 → Option UInt8) (nil : P [])
    (taken : ∀ high low byte rest, pair high low = some byte → P rest → P (0x25 :: high :: low :: rest))
    (alone : ∀ b rest, Alone pair b rest → P rest → P (b :: rest)) (bytes : List UInt8) : P bytes := by
  induction length : bytes.length using Nat.strongRecOn generalizing bytes with
  | _ n ih =>
    subst length
    match bytes with
    | [] => exact nil
    | b :: rest =>
      by_cases free : Alone pair b rest
      · exact alone b rest free (ih _ (Nat.lt_succ_self _) rest rfl)
      · simp only [Alone, not_forall] at free
        obtain ⟨high, low, more, rfl, rfl, value⟩ := free
        obtain ⟨byte, value⟩ := Option.ne_none_iff_exists'.mp value
        exact taken high low byte more value (ih _ (by simp only [List.length_cons]; omega) more rfl)

theorem decodes_iff (own : single 0x25 = 0x25) :
    Decodes single bytes out ↔ out = decode hexPair single bytes := by
  constructor
  · intro decodes
    induction decodes with
    | nil => rfl
    | pair value _ ih => rw [decode_pair value, ih]
    | single alone _ ih => rw [decode_single own alone, ih]
  · rintro rfl
    induction bytes using pair_induction hexPair with
    | nil => exact .nil
    | taken high low byte rest value ih =>
      rw [decode_pair value]
      exact .pair value ih
    | alone b rest free ih =>
      rw [decode_single own free]
      exact .single free ih

theorem hexValue_byte {c : Char} (ascii : c.toNat < 128) : hexValue c.toNat.toUInt8 = Text.digit? 16 c := by
  have byte : c.toNat.toUInt8.toNat = c.toNat := Text.toNat_ofNat_lt (by omega)
  rw [hexValue, byte, Char.ofNat_toNat]

theorem hexValue_ascii (digit : (hexValue b).isSome) : b < 0x80 := by
  have small := Text.hex_ascii digit
  rwa [Text.toNat_ofNat_byte] at small

theorem ne_of_hexValue {c : UInt8} (digit : (hexValue b).isSome) (other : hexValue c = none) : b ≠ c := by
  rintro rfl
  simp [other] at digit

theorem hexValue_lt {a : Nat} (value : hexValue b = some a) : a < 16 := by
  rw [hexValue, Text.digit?, Option.filter_eq_some_iff] at value
  exact of_decide_eq_true value.2

theorem hexPair_eq_some :
    hexPair high low = some byte ↔
      ∃ h l, hexValue high = some h ∧ hexValue low = some l ∧ UInt8.ofNat (16 * h + l) = byte := by
  simp [hexPair, Option.bind_eq_some_iff]

end

end Gozarbin.PercentCoding
