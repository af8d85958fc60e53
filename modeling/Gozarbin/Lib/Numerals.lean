import Mathlib.Data.List.Basic
import Mathlib.Data.List.Induction
import Gozarbin.Lib.Text

/-! # Numbers as text

`from_str_radix` reads a number in a radix of at most 16; `parse` is the same in decimal.
What is made of digits only is read as the number the digits stand for, if that fits.
-/

namespace Gozarbin.Text

open List

def radixDigits (radix bound : Nat) : (acc : Nat) → Text → Option Nat
  | acc, [] => some acc
  | acc, c :: rest =>
    match digit? radix c with
    | some d =>
      if acc * radix + d < bound then radixDigits radix bound (acc * radix + d) rest else none
    | none => none

def fromStrRadix (radix bound : Nat) : Text → Option Nat
  | [] => none
  | '+' :: rest => if rest.isEmpty then none else radixDigits radix bound 0 rest
  | text => radixDigits radix bound 0 text

/-- A numeral: digits, and at least one. -/
structure Numeral (radix : Nat) (text : Text) : Prop where
  digits : ∀ c ∈ text, (digit? radix c).isSome
  some_ : text ≠ []

def numberFrom (radix acc : Nat) (text : Text) : Nat :=
  text.foldl (fun n c => n * radix + (digit? radix c).getD 0) acc

def decimal (n : Nat) : Text := Nat.toDigits 10 n

section
variable {radix bound acc : Nat} {text : Text} {c : Char}

theorem parseDigits_eq (bound acc : Nat) (text : Text) :
    parseDigits bound acc text = radixDigits 10 bound acc text := by
  induction text generalizing acc with
  | nil => rfl
  | cons c rest ih =>
    rw [parseDigits, radixDigits]
    cases digit? 10 c with
    | none => rfl
    | some d => simp only [ih]

theorem parseUnsigned_eq (bound : Nat) (text : Text) :
    parseUnsigned bound text = fromStrRadix 10 bound text := by
  unfold parseUnsigned fromStrRadix
  split <;> simp only [parseDigits_eq]

theorem digit?_plus (radix : Nat) : digit? radix '+' = none := by
  rfl

theorem le_numberFrom (pos : 0 < radix) (acc : Nat) (text : Text) : acc ≤ numberFrom radix acc text := by
  induction text generalizing acc with
  | nil => exact Nat.le_refl _
  | cons c rest ih =>
    refine Nat.le_trans ?_ (ih _)
    exact Nat.le_trans (Nat.le_mul_of_pos_right _ pos) (Nat.le_add_right ..)

theorem radixDigits_of_digits (pos : 0 < radix) (digits : ∀ c ∈ text, (digit? radix c).isSome)
    (small : numberFrom radix acc text < bound) :
    radixDigits radix bound acc text = some (numberFrom radix acc text) := by
  induction text generalizing acc with
  | nil => rfl
  | cons c rest ih =>
    obtain ⟨here, later⟩ := forall_mem_cons.mp digits
    obtain ⟨d, read⟩ := Option.isSome_iff_exists.mp here
    have first : numberFrom radix acc (c :: rest) = numberFrom radix (acc * radix + d) rest := by
      simp [numberFrom, read]
    rw [first] at small ⊢
    have below := Nat.lt_of_le_of_lt (le_numberFrom pos _ rest) small
    rw [radixDigits, read]
    dsimp only
    rw [if_pos below, ih later small]

theorem Numeral.fromStrRadix_eq (numeral : Numeral radix text) (pos : 0 < radix)
    (small : numberFrom radix 0 text < bound) :
    fromStrRadix radix bound text = some (numberFrom radix 0 text) := by
  have read := radixDigits_of_digits pos numeral.digits small
  cases text with
  | nil => exact absurd rfl numeral.some_
  | cons c rest =>
    have unsigned : c ≠ '+' := by
      rintro rfl
      have digit := numeral.digits '+' (mem_cons_self ..)
      simp [digit?_plus] at digit
    rw [fromStrRadix]
    · exact read
    · simp
    · rintro _ same
      exact absurd (List.cons.inj same).1 unsigned

variable {n : Nat}

theorem digits_of_radixDigits (read : radixDigits radix bound acc text = some n) :
    (∀ c ∈ text, (digit? radix c).isSome) ∧ n = numberFrom radix acc text := by
  induction text generalizing acc with
  | nil =>
    obtain rfl : acc = n := Option.some.inj read
    exact ⟨by simp, rfl⟩
  | cons c rest ih =>
    rw [radixDigits] at read
    split at read
    next d digit =>
      rw [Option.ite_none_right_eq_some] at read
      obtain ⟨digits, number⟩ := ih read.2
      refine ⟨forall_mem_cons.mpr ⟨by simp [digit], digits⟩, ?_⟩
      simpa [numberFrom, digit] using number
    next => cases read

theorem numeral_of_fromStrRadix (read : fromStrRadix radix bound text = some n) :
    ∃ digits, (text = digits ∨ text = '+' :: digits) ∧ Numeral radix digits ∧
      n = numberFrom radix 0 digits := by
  unfold fromStrRadix at read
  split at read
  next => cases read
  next digits =>
    rw [Option.ite_none_left_eq_some, List.isEmpty_iff] at read
    obtain ⟨all, number⟩ := digits_of_radixDigits read.2
    exact ⟨digits, .inr rfl, ⟨all, read.1⟩, number⟩
  next some_ _ =>
    obtain ⟨all, number⟩ := digits_of_radixDigits read
    exact ⟨_, .inl rfl, ⟨all, some_⟩, number⟩

theorem radixDigits_lt (start : acc < bound) (read : radixDigits radix bound acc text = some n) :
    n < bound := by
  induction text generalizing acc with
  | nil =>
    cases read
    exact start
  | cons c rest ih =>
    rw [radixDigits] at read
    split at read
    next d _ =>
      rw [Option.ite_none_right_eq_some] at read
      exact ih read.1 read.2
    next => cases read

theorem fromStrRadix_lt (pos : 0 < bound) (read : fromStrRadix radix bound text = some n) :
    n < bound := by
  unfold fromStrRadix at read
  split at read
  next => cases read
  next =>
    rw [Option.ite_none_left_eq_some] at read
    exact radixDigits_lt pos read.2
  next => exact radixDigits_lt pos read

theorem of_hex {P : Char → Prop} (ascii : ∀ n < 128, (digit? 16 (.ofNat n)).isSome → P (.ofNat n))
    {c : Char} (digit : (digit? 16 c).isSome) : P c := by
  have small : c.toNat < 128 := by
    by_contra large
    have above : ∀ d : Char, d.toNat < 128 → ¬ c ≤ d := by
      intro d ascii_d le
      have := UInt32.le_iff_toNat_le.mp (Char.le_def.mp le)
      simp only [Char.toNat] at large ascii_d
      omega
    simp [digit?, above '9' (by decide), above 'f' (by decide), above 'F' (by decide)] at digit
  simpa using ascii c.toNat small (by simpa using digit)

theorem ne_of_hex {c d : Char} (digit : (digit? 16 c).isSome) (other : digit? 16 d = none) :
    c ≠ d := by
  rintro rfl
  simp [other] at digit

theorem hex_ascii {c : Char} (digit : (digit? 16 c).isSome) : c.toNat < 128 :=
  of_hex (P := fun c => c.toNat < 128) (by decide) digit

theorem hex_toLower {c : Char} (digit : (digit? 16 c).isSome) :
    (digit? 16 c.toLower).isSome :=
  of_hex (P := fun c => (digit? 16 c.toLower).isSome) (by decide) digit

theorem hex_not_blank {c : Char} (digit : (digit? 16 c).isSome) : isWhitespace c = false :=
  of_hex (P := fun c => isWhitespace c = false) (by decide) digit

theorem digit?_of_hex {c : Char} (no_digit : digit? 16 c = none) : digit? 10 c = none := by
  unfold digit? at no_digit ⊢
  rw [Option.filter_eq_none_iff] at no_digit ⊢
  intro d found small
  refine no_digit d found ?_
  rw [decide_eq_true_eq] at small ⊢
  omega

theorem hex_of_decimal {c : Char} (digit : (digit? 10 c).isSome) : (digit? 16 c).isSome := by
  by_contra none_
  rw [Option.not_isSome_iff_eq_none] at none_
  simp [digit?_of_hex none_] at digit

theorem Numeral.not_mem (numeral : Numeral radix text) (other : digit? radix c = none) : c ∉ text := by
  intro member
  have digit := numeral.digits c member
  simp [other] at digit

theorem Numeral.visible (numeral : Numeral 10 text) : ∀ c ∈ text, isWhitespace c = false :=
  fun c member => hex_not_blank (hex_of_decimal (numeral.digits c member))

theorem digit?_digitChar : ∀ d < 10, digit? 10 (Nat.digitChar d) = some d := by decide

theorem decimal_of_lt (small : n < 10) : decimal n = [Nat.digitChar n] :=
  Nat.toDigits_of_lt_base small

theorem decimal_of_le (large : 10 ≤ n) :
    decimal n = decimal (n / 10) ++ [Nat.digitChar (n % 10)] := by
  rw [decimal, Nat.toDigits_eq_if (by decide), if_neg (Nat.not_lt.mpr large)]
  rfl

theorem decimal_induction {P : Nat → Prop} (one : ∀ n < 10, P n) (more : ∀ n ≥ 10, P (n / 10) → P n)
    (n : Nat) : P n := by
  induction n using Nat.strongRecOn with
  | _ n ih =>
    rcases Nat.lt_or_ge n 10 with small | large
    · exact one n small
    · exact more n large (ih _ (by omega))

theorem digits_decimal (n : Nat) : ∀ c ∈ decimal n, (digit? 10 c).isSome := by
  induction n using decimal_induction with
  | one n small =>
    rw [decimal_of_lt small]
    simp [digit?_digitChar n small]
  | more n large ih =>
    rw [decimal_of_le large]
    intro c member
    rcases mem_append.mp member with front | last
    · exact ih c front
    · rw [mem_singleton.mp last, digit?_digitChar _ (Nat.mod_lt _ (by decide))]
      rfl

theorem numeral_decimal (n : Nat) : Numeral 10 (decimal n) where
  digits := digits_decimal n
  some_ := by
    rcases Nat.lt_or_ge n 10 with small | large
    · simp [decimal_of_lt small]
    · simp [decimal_of_le large]

theorem numberFrom_decimal (n : Nat) : numberFrom 10 0 (decimal n) = n := by
  induction n using decimal_induction with
  | one n small => simp [decimal_of_lt small, numberFrom, digit?_digitChar n small]
  | more n large ih =>
    have last := digit?_digitChar (n % 10) (Nat.mod_lt _ (by decide))
    rw [numberFrom] at ih
    rw [decimal_of_le large, numberFrom, foldl_append, ih, foldl_cons, foldl_nil, last,
      Option.getD_some]
    omega

theorem head?_decimal (pos : 0 < n) : (decimal n).head? ≠ some '0' := by
  induction n using decimal_induction with
  | one n small =>
    have first : ∀ d < 10, 0 < d → Nat.digitChar d ≠ '0' := by decide
    rw [decimal_of_lt small]
    simpa using first n small pos
  | more n large ih =>
    rw [decimal_of_le large, List.head?_append_of_ne_nil _ (numeral_decimal _).some_]
    exact ih (by omega)

theorem length_of_head?_decimal (leading : (decimal n).head? = some '0') :
    (decimal n).length ≤ 1 := by
  rcases Nat.eq_zero_or_pos n with rfl | pos
  · decide
  · exact absurd leading (head?_decimal pos)

theorem eq_digitChar {d : Nat} (digit : digit? 10 c = some d) : d < 10 ∧ c = Nat.digitChar d := by
  have small : d < 10 := by
    simpa using (Option.filter_eq_some_iff.mp digit).2
  refine ⟨small, ?_⟩
  have some_ : (digit? 10 c).isSome := by simp [digit]
  have ascii := hex_ascii (hex_of_decimal some_)
  have all : ∀ n < 128, ∀ d < 10, digit? 10 (.ofNat n) = some d → Char.ofNat n = Nat.digitChar d := by
    decide +kernel
  have found := all c.toNat ascii d small
  rw [Char.ofNat_toNat] at found
  exact found digit

theorem decimal_numberFrom (numeral : Numeral 10 text)
    (canonical : text.head? = some '0' → text.length ≤ 1) : decimal (numberFrom 10 0 text) = text := by
  induction text using List.reverseRecOn with
  | nil => exact absurd rfl numeral.some_
  | append_singleton front c ih =>
    obtain ⟨d, digit⟩ := Option.isSome_iff_exists.mp (numeral.digits c (by simp))
    obtain ⟨small, rfl⟩ := eq_digitChar digit
    have number : numberFrom 10 0 (front ++ [Nat.digitChar d]) = numberFrom 10 0 front * 10 + d := by
      simp [numberFrom, digit]
    rw [number]
    by_cases empty : front = []
    · subst empty
      rw [show numberFrom 10 0 [] = 0 from rfl, Nat.zero_mul, Nat.zero_add, decimal_of_lt small]
      rfl
    · have first : front.head? ≠ some '0' := by
        intro leading
        rw [List.head?_append_of_ne_nil _ empty] at canonical
        have short := canonical leading
        have long := length_pos_iff.mpr empty
        rw [length_append, length_singleton] at short
        omega
      have same := ih ⟨fun e member => numeral.digits e (by simp [member]), empty⟩
        fun leading => absurd leading first
      have pos : 0 < numberFrom 10 0 front := by
        rcases Nat.eq_zero_or_pos (numberFrom 10 0 front) with zero | pos
        · rw [← same, zero] at first
          exact absurd rfl first
        · exact pos
      rw [decimal_of_le (by omega), show (numberFrom 10 0 front * 10 + d) / 10 = numberFrom 10 0 front by
        omega, show (numberFrom 10 0 front * 10 + d) % 10 = d by omega, same]

theorem parseUnsigned_decimal (small : n < bound) :
    parseUnsigned bound (decimal n) = some n := by
  have number := numberFrom_decimal n
  rw [parseUnsigned_eq, (numeral_decimal n).fromStrRadix_eq (by decide) (by rwa [number]), number]

end

end Gozarbin.Text
