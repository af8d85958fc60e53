import Mathlib.Data.List.Induction
import Mathlib.Tactic.NormNum
import Mathlib.Tactic.Ring

/-! # Numbers as bytes

Big-endian numbers of a fixed size, and the variable-length integers of QUIC: the top two bits
of the first byte are the binary logarithm of the number of bytes, the other bits are the
number.
-/

namespace Gozarbin

open List

namespace BigEndian

def ofBytes (bytes : List UInt8) : Nat := bytes.foldl (fun n b => 256 * n + b.toNat) 0

def toBytes : Nat → Nat → List UInt8
  | 0, _ => []
  | size + 1, n => toBytes size (n / 256) ++ [UInt8.ofNat n]

@[simp] theorem ofBytes_nil : ofBytes [] = 0 := rfl

theorem ofBytes_concat (bytes : List UInt8) (last : UInt8) :
    ofBytes (bytes ++ [last]) = 256 * ofBytes bytes + last.toNat := by
  simp [ofBytes]

theorem ofBytes_cons (first : UInt8) (bytes : List UInt8) :
    ofBytes (first :: bytes) = first.toNat * 256 ^ bytes.length + ofBytes bytes := by
  induction bytes using List.reverseRecOn with
  | nil => simp [ofBytes]
  | append_singleton bytes last ih =>
    rw [← cons_append, ofBytes_concat, ofBytes_concat, ih, length_append,
      length_singleton, Nat.pow_succ]
    ring

theorem ofBytes_lt (bytes : List UInt8) : ofBytes bytes < 256 ^ bytes.length := by
  induction bytes using List.reverseRecOn with
  | nil => simp
  | append_singleton bytes last ih =>
    have small := last.toNat_lt
    rw [ofBytes_concat, length_append, length_singleton, Nat.pow_succ]
    omega

@[simp] theorem length_toBytes (size n : Nat) : (toBytes size n).length = size := by
  induction size generalizing n with
  | zero => rfl
  | succ size ih => simp [toBytes, ih]

theorem ofBytes_toBytes (size n : Nat) : ofBytes (toBytes size n) = n % 256 ^ size := by
  induction size generalizing n with
  | zero => simp [toBytes, Nat.mod_one]
  | succ size ih =>
    have byte : (UInt8.ofNat n).toNat = n % 256 := UInt8.toNat_ofNat'
    rw [toBytes, ofBytes_concat, ih, byte, Nat.pow_succ, Nat.mul_comm (256 ^ size), Nat.mod_mul,
      Nat.add_comm]

theorem toBytes_succ (size n : Nat) :
    toBytes (size + 1) n = UInt8.ofNat (n / 256 ^ size) :: toBytes size n := by
  induction size generalizing n with
  | zero => simp [toBytes]
  | succ size ih =>
    rw [toBytes, ih, Nat.div_div_eq_div_mul, ← Nat.pow_succ']
    rfl

theorem toBytes_add_mul (size n m : Nat) : toBytes size (n + 256 ^ size * m) = toBytes size n := by
  induction size generalizing n with
  | zero => rfl
  | succ size ih =>
    have high : (n + 256 ^ (size + 1) * m) / 256 = n / 256 + 256 ^ size * m := by
      rw [Nat.pow_succ', Nat.mul_assoc, Nat.add_mul_div_left _ _ (by norm_num)]
    have low : UInt8.ofNat (n + 256 ^ (size + 1) * m) = UInt8.ofNat n := by
      apply UInt8.toNat_inj.mp
      rw [UInt8.toNat_ofNat', UInt8.toNat_ofNat', Nat.pow_succ', Nat.mul_assoc]
      exact Nat.add_mul_mod_self_left ..
    rw [toBytes, high, low, ih]
    rfl

theorem toBytes_ofBytes (bytes : List UInt8) : toBytes bytes.length (ofBytes bytes) = bytes := by
  induction bytes using List.reverseRecOn with
  | nil => rfl
  | append_singleton bytes last ih =>
    have small := last.toNat_lt
    have high : (256 * ofBytes bytes + last.toNat) / 256 = ofBytes bytes := by omega
    have low : UInt8.ofNat (256 * ofBytes bytes + last.toNat) = last := by
      apply UInt8.toNat_inj.mp
      rw [UInt8.toNat_ofNat']
      omega
    rw [length_append, length_singleton, toBytes, ofBytes_concat, high, low, ih]

end BigEndian

namespace Varint

open BigEndian

def size (first : UInt8) : Nat := 2 ^ (first.toNat / 64)

def bound (log : Nat) : Nat := 2 ^ (8 * 2 ^ log - 2)

def decode : List UInt8 → Option (Nat × List UInt8)
  | [] => none
  | first :: more =>
    if (first :: more).length < size first then none
    else
      some (ofBytes ((first :: more).take (size first)) % bound (first.toNat / 64),
        (first :: more).drop (size first))

def encodeAs (log n : Nat) : List UInt8 := toBytes (2 ^ log) (log * bound log + n)

def log (n : Nat) : Nat :=
  if n < bound 0 then 0 else if n < bound 1 then 1 else if n < bound 2 then 2 else 3

def encode (n : Nat) : List UInt8 := encodeAs (log n) n

variable {bytes rest more : List UInt8} {n : Nat}

theorem size_pos (first : UInt8) : 0 < size first := Nat.two_pow_pos _

theorem decode_eq_some_iff : decode bytes = some (n, rest) ↔
    ∃ first tail, bytes = first :: tail ++ rest ∧ (first :: tail).length = size first ∧
      n = ofBytes (first :: tail) % bound (first.toNat / 64) := by
  constructor
  · intro decoded
    cases bytes with
    | nil => cases decoded
    | cons first all =>
      rw [decode] at decoded
      split at decoded
      next => cases decoded
      next enough =>
        obtain ⟨later, split⟩ : ∃ later, size first = later + 1 :=
          Nat.exists_eq_add_of_le' (size_pos first)
        rw [split, length_cons] at enough
        simp only [split, drop_succ_cons, Option.some.injEq,
          Prod.mk.injEq] at decoded
        refine ⟨first, all.take later, ?_, ?_, decoded.1.symm⟩
        · rw [← decoded.2, cons_append, take_append_drop]
        · rw [split, length_cons, length_take]
          omega
  · rintro ⟨first, tail, rfl, length, rfl⟩
    rw [cons_append, decode, if_neg (by rw [← length]; simp), ← cons_append, ← length,
      take_left, drop_left]

theorem decode_append (decoded : decode bytes = some (n, rest)) :
    decode (bytes ++ more) = some (n, rest ++ more) := by
  obtain ⟨first, tail, rfl, length, number⟩ := decode_eq_some_iff.mp decoded
  exact decode_eq_some_iff.mpr ⟨first, tail, append_assoc .., length, number⟩

theorem decode_suffix (decoded : decode bytes = some (n, rest)) :
    ∃ front, front ≠ [] ∧ bytes = front ++ rest := by
  obtain ⟨first, tail, rfl, -, -⟩ := decode_eq_some_iff.mp decoded
  exact ⟨first :: tail, cons_ne_nil _ _, rfl⟩

theorem bound_eq (log : Nat) : bound log = 256 ^ (2 ^ log - 1) * 64 := by
  have positive := Nat.two_pow_pos log
  have exponent : 8 * 2 ^ log - 2 = 8 * (2 ^ log - 1) + 6 := by omega
  rw [bound, exponent, Nat.pow_add, Nat.pow_mul]

theorem length_encodeAs (log n : Nat) : (encodeAs log n).length = 2 ^ log := length_toBytes _ _

theorem bound_pos (log : Nat) : 0 < bound log := Nat.two_pow_pos _

theorem ofBytes_div_bound {log : Nat} {first : UInt8} {tail : List UInt8}
    (length : (first :: tail).length = 2 ^ log) :
    ofBytes (first :: tail) / bound log = first.toNat / 64 := by
  have digits : tail.length = 2 ^ log - 1 := by
    rw [length_cons] at length
    omega
  have low := ofBytes_lt tail
  rw [digits] at low
  rw [ofBytes_cons, bound_eq, ← Nat.div_div_eq_div_mul, digits, Nat.mul_comm,
    Nat.mul_add_div (Nat.pow_pos (by norm_num)), Nat.div_eq_of_lt low, Nat.add_zero]

theorem decode_encodeAs {log : Nat} (small : log < 4) (fits : n < bound log) :
    decode (encodeAs log n ++ rest) = some (n, rest) := by
  have length := length_encodeAs log n
  have number : ofBytes (encodeAs log n) = bound log * log + n := by
    rw [encodeAs, ofBytes_toBytes, Nat.mul_comm]
    apply Nat.mod_eq_of_lt
    calc bound log * log + n < bound log * (log + 1) := by rw [Nat.mul_succ]; omega
      _ ≤ bound log * 4 := Nat.mul_le_mul_left _ small
      _ = 256 ^ (2 ^ log - 1 + 1) := by rw [bound_eq, Nat.pow_succ]; ring
      _ = 256 ^ 2 ^ log := by rw [Nat.sub_add_cancel (Nat.two_pow_pos log)]
  cases bytes : encodeAs log n with
  | nil =>
    rw [bytes] at length
    exact absurd length (Nat.two_pow_pos log).ne
  | cons first tail =>
    rw [bytes] at length number
    have top := ofBytes_div_bound length
    rw [number, Nat.mul_add_div (bound_pos log), Nat.div_eq_of_lt fits, Nat.add_zero] at top
    refine decode_eq_some_iff.mpr ⟨first, tail, rfl, ?_, ?_⟩
    · rw [length, size, ← top]
    · rw [number, ← top, Nat.mul_add_mod, Nat.mod_eq_of_lt fits]

theorem encodeAs_eq_modify {log : Nat} (fits : n < bound log) :
    encodeAs log n = (toBytes (2 ^ log) n).modify 0 (· ||| UInt8.ofNat (64 * log)) := by
  obtain ⟨k, digits⟩ : ∃ k, 2 ^ log = k + 1 := Nat.exists_eq_add_of_le' (Nat.two_pow_pos log)
  have weight : bound log = 256 ^ k * 64 := by rw [bound_eq, digits, Nat.add_sub_cancel]
  have small : n / 256 ^ k < 64 := Nat.div_lt_of_lt_mul (weight ▸ fits)
  have top : (log * bound log + n) / 256 ^ k = 2 ^ 6 * log + n / 256 ^ k := by
    rw [weight, Nat.mul_comm, Nat.mul_assoc, Nat.mul_add_div (Nat.pow_pos (by norm_num))]
    rfl
  have below : log * bound log + n = n + 256 ^ k * (64 * log) := by
    rw [weight]
    ring
  rw [encodeAs, digits, toBytes_succ, toBytes_succ, top, below, toBytes_add_mul,
    Nat.two_pow_add_eq_or_of_lt small, modify_zero_cons, Nat.or_comm, UInt8.ofNat_or]

theorem exists_encodeAs (decoded : decode bytes = some (n, rest)) :
    ∃ log, log < 4 ∧ n < bound log ∧ bytes = encodeAs log n ++ rest := by
  obtain ⟨first, tail, rfl, length, rfl⟩ := decode_eq_some_iff.mp decoded
  have byte := first.toNat_lt
  have top := ofBytes_div_bound length
  refine ⟨first.toNat / 64, by omega, Nat.mod_lt _ (bound_pos _), ?_⟩
  have whole := Nat.div_add_mod (ofBytes (first :: tail)) (bound (first.toNat / 64))
  rw [top, Nat.mul_comm] at whole
  rw [encodeAs, whole, ← size, ← length, toBytes_ofBytes]

theorem log_lt (n : Nat) : log n < 4 := by
  unfold log
  split_ifs <;> omega

theorem lt_bound_log (fits : n < 2 ^ 62) : n < bound (log n) := by
  unfold log
  split_ifs <;> assumption

theorem decode_encode (fits : n < 2 ^ 62) : decode (encode n ++ rest) = some (n, rest) :=
  decode_encodeAs (log_lt n) (lt_bound_log fits)

end Varint

end Gozarbin
