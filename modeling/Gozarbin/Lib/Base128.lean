import Mathlib.Algebra.Group.Nat.Defs
import Mathlib.Data.List.Induction
import Mathlib.Data.Nat.Log

/-! # Numbers in base 128

A number is written with bytes of seven bits each, the highest bits first; every byte but the last
one has its top bit set. In front of a number there may be bytes without a bit of it, so there are
many forms for a number and one that is shortest.
-/

namespace Gozarbin.Base128

open List

def readForm : List UInt8 → Option (List UInt8 × List UInt8)
  | [] => none
  | b :: rest =>
    if b.toNat < 128 then some ([b], rest)
    else (readForm rest).map fun (form, rest) => (b :: form, rest)

def value (form : List UInt8) : Nat := form.foldl (fun n b => n * 128 + b.toNat % 128) 0

def IsForm (form : List UInt8) (n : Nat) : Prop := readForm form = some (form, []) ∧ value form = n

structure Shortest (form : List UInt8) (n : Nat) : Prop where
  isForm : IsForm form n
  least : ∀ other, IsForm other n → form.length ≤ other.length

def front (n : Nat) : List UInt8 :=
  if n = 0 then [] else front (n / 128) ++ [UInt8.ofNat (128 + n % 128)]

def encode (n : Nat) : List UInt8 := front (n / 128) ++ [UInt8.ofNat (n % 128)]

section
variable {n : Nat} {form rest : List UInt8}

theorem front_zero : front 0 = [] := by
  rw [front, if_pos rfl]

theorem front_pos (pos : 0 < n) : front n = front (n / 128) ++ [UInt8.ofNat (128 + n % 128)] := by
  rw [front, if_neg (by omega)]

theorem front_induction {P : Nat → Prop} (zero : P 0) (more : ∀ n > 0, P (n / 128) → P n) (n : Nat) :
    P n := by
  induction n using Nat.strongRecOn with
  | _ n ih =>
    rcases Nat.eq_zero_or_pos n with rfl | pos
    · exact zero
    · exact more n pos (ih _ (Nat.div_lt_self pos (by decide)))

theorem toNat_ofNat (small : n < 256) : (UInt8.ofNat n).toNat = n :=
  UInt8.toNat_ofNat_of_lt' small

theorem value_concat (form : List UInt8) (b : UInt8) :
    value (form ++ [b]) = value form * 128 + b.toNat % 128 := by
  simp [value]

theorem value_front (n : Nat) : value (front n) = n := by
  induction n using front_induction with
  | zero => simp [front_zero, value]
  | more n pos ih =>
    rw [front_pos pos, value_concat, ih, toNat_ofNat (by omega)]
    omega

theorem value_encode (n : Nat) : value (encode n) = n := by
  rw [encode, value_concat, value_front, toNat_ofNat (by omega)]
  omega

theorem readForm_front (n : Nat) (rest : List UInt8) :
    readForm (front n ++ rest) = (readForm rest).map fun read => (front n ++ read.1, read.2) := by
  induction n using front_induction generalizing rest with
  | zero =>
    rw [front_zero, nil_append]
    cases readForm rest <;> rfl
  | more n pos ih =>
    have top : ¬ (UInt8.ofNat (128 + n % 128)).toNat < 128 := by
      rw [toNat_ofNat (by omega)]
      omega
    rw [front_pos pos, append_assoc, ih, singleton_append, readForm, if_neg top]
    cases readForm rest <;> simp

theorem readForm_encode (n : Nat) (rest : List UInt8) :
    readForm (encode n ++ rest) = some (encode n, rest) := by
  have last : (UInt8.ofNat (n % 128)).toNat < 128 := by
    rw [toNat_ofNat (by omega)]
    omega
  rw [encode, append_assoc, readForm_front, singleton_append, readForm, if_pos last]
  rfl

theorem encode_ne_nil (n : Nat) : encode n ≠ [] := by simp [encode]

theorem value_lt (form : List UInt8) : value form < 128 ^ form.length := by
  induction form using List.reverseRecOn with
  | nil => simp [value]
  | append_singleton form b ih =>
    rw [value_concat, length_append, length_singleton, Nat.pow_succ]
    omega

theorem length_front (pos : 0 < n) : (front n).length = Nat.log 128 n + 1 := by
  induction n using front_induction with
  | zero => cases pos
  | more n _ ih =>
    rw [front_pos pos, length_append, length_singleton]
    rcases Nat.lt_or_ge n 128 with small | large
    · rw [Nat.div_eq_of_lt small, front_zero, Nat.log_of_lt small]
      rfl
    · rw [ih (Nat.div_pos large (by decide)), Nat.log_of_one_lt_of_le (by decide) large]

theorem length_encode (n : Nat) : (encode n).length = Nat.log 128 n + 1 := by
  rw [encode, length_append, length_singleton]
  rcases Nat.lt_or_ge n 128 with small | large
  · rw [Nat.div_eq_of_lt small, front_zero, Nat.log_of_lt small]
    rfl
  · rw [length_front (Nat.div_pos large (by decide)), Nat.log_of_one_lt_of_le (by decide) large]

theorem shortest_encode (n : Nat) : Shortest (encode n) n where
  isForm := by
    have read := readForm_encode n []
    rw [append_nil] at read
    exact ⟨read, value_encode n⟩
  least other isForm := by
    have below := value_lt other
    rw [isForm.2] at below
    rw [length_encode]
    rcases Nat.eq_zero_or_pos n with rfl | pos
    · cases other with
      | nil => cases isForm.1
      | cons b rest => simp
    · exact Nat.log_lt_of_lt_pow (by omega) below

end

end Gozarbin.Base128
