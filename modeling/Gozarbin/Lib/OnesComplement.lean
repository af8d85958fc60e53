import Gozarbin.Lib.Varint

/-! # One's complement sums

The sum of 16-bit words in which a carry is added at the low end. It is a sum modulo 65535, with the
one difference that a sum of words that are not all zero is never zero: it is 65535 instead.
-/

namespace Gozarbin.OnesComplement

open List

def words : List UInt8 → List Nat
  | high :: low :: rest => (high.toNat * 256 + low.toNat) :: words rest
  | [high] => [high.toNat * 256]
  | [] => []

def add (a b : Nat) : Nat := if a + b < 65536 then a + b else a + b - 65535

def sum (bytes : List UInt8) : Nat := (words bytes).foldl add 0

def residue (n : Nat) : Nat := if n = 0 then 0 else (n - 1) % 65535 + 1

section
variable {n : Nat} {bytes front rest : List UInt8}

theorem residue_le (n : Nat) : residue n ≤ 65535 := by
  unfold residue
  split <;> omega

theorem residue_of_lt (small : n < 65536) : residue n = n := by
  unfold residue
  split <;> omega

theorem residue_carry (n : Nat) : residue (n % 65536 + n / 65536) = residue n := by
  unfold residue
  split_ifs <;> omega

theorem add_residue (a : Nat) {b : Nat} (word : b < 65536) : add (residue a) b = residue (a + b) := by
  unfold add residue
  split_ifs <;> omega

theorem foldl_add {words : List Nat} (each : ∀ word ∈ words, word < 65536) (n : Nat) :
    words.foldl add (residue n) = residue (n + words.sum) := by
  induction words generalizing n with
  | nil => simp
  | cons word words ih =>
    obtain ⟨here, later⟩ := forall_mem_cons.mp each
    rw [foldl_cons, add_residue n here, ih later, sum_cons, Nat.add_assoc]

theorem words_lt (bytes : List UInt8) : ∀ word ∈ words bytes, word < 65536 := by
  induction bytes using words.induct with
  | case1 high low rest ih =>
    have := high.toNat_lt
    have := low.toNat_lt
    exact forall_mem_cons.mpr ⟨by omega, ih⟩
  | case2 high =>
    have := high.toNat_lt
    simp only [words, mem_singleton]
    omega
  | case3 => simp [words]

theorem sum_eq (bytes : List UInt8) : sum bytes = residue (words bytes).sum := by
  have folded := foldl_add (words_lt bytes) 0
  rw [Nat.zero_add] at folded
  exact folded

theorem words_append (even : front.length % 2 = 0) : words (front ++ rest) = words front ++ words rest := by
  induction front using words.induct with
  | case1 high low front ih =>
    have shorter : front.length % 2 = 0 := by
      simp only [length_cons] at even
      omega
    rw [cons_append, cons_append, words, words, ih shorter, cons_append]
  | case2 high => cases even
  | case3 => rfl

theorem words_toBytes (small : n < 65536) : words (BigEndian.toBytes 2 n) = [n] := by
  simp only [BigEndian.toBytes, nil_append, cons_append, words, List.cons.injEq, and_true,
    UInt8.toNat_ofNat']
  omega

theorem sum_words_le (bytes : List UInt8) : 2 * (words bytes).sum ≤ (bytes.length + 1) * 65535 := by
  induction bytes using words.induct with
  | case1 high low rest ih =>
    have := high.toNat_lt
    have := low.toNat_lt
    simp only [words, sum_cons, length_cons]
    omega
  | case2 high =>
    have := high.toNat_lt
    simp only [words, sum_cons, sum_nil, length_cons]
    omega
  | case3 => simp [words]

theorem residue_complement (n : Nat) : residue (n + (65535 - residue n)) = 65535 := by
  unfold residue
  split_ifs <;> omega

end

end Gozarbin.OnesComplement
