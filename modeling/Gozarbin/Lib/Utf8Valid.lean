import Mathlib.Algebra.Group.Nat.Defs
import Gozarbin.Lib.Utf8

/-! # Valid bytes

A text is read as it was written, so the valid bytes are those a text is written with. An
ASCII character stands for itself wherever it is: it parts valid bytes into valid bytes,
and it is read only from its own byte.
-/

namespace Gozarbin.Text

open List

section
variable {first b : UInt8} {rest : List UInt8}

theorem continuations_one (low : 0xc2 ≤ first.toNat) (high : first.toNat ≤ 0xdf) :
    continuations first = some 1 := by
  simp only [continuations, UInt8.lt_iff_toNat_lt, UInt8.reduceToNat,
    Bool.and_eq_true, decide_eq_true_eq]
  rw [if_neg (by omega), if_pos ⟨low, high⟩]

theorem continuations_two (low : 0xe0 ≤ first.toNat) (high : first.toNat ≤ 0xef) :
    continuations first = some 2 := by
  simp only [continuations, UInt8.lt_iff_toNat_lt, UInt8.le_iff_toNat_le, UInt8.reduceToNat,
    Bool.and_eq_true, decide_eq_true_eq]
  rw [if_neg (by omega), if_neg (by omega), if_pos ⟨low, high⟩]

theorem continuations_three (low : 0xf0 ≤ first.toNat) (high : first.toNat ≤ 0xf4) :
    continuations first = some 3 := by
  simp only [continuations, UInt8.lt_iff_toNat_lt, UInt8.le_iff_toNat_le, UInt8.reduceToNat,
    Bool.and_eq_true, decide_eq_true_eq]
  rw [if_neg (by omega), if_neg (by omega), if_neg (by omega), if_pos ⟨low, high⟩]

theorem isContinuation_of (low : 0x80 ≤ b.toNat) (high : b.toNat ≤ 0xbf) : isContinuation b = true := by
  simp only [isContinuation, Bool.and_eq_true,
    decide_eq_true_eq]
  exact ⟨low, high⟩

theorem isSecond_of (low : 0x80 ≤ b.toNat) (high : b.toNat ≤ 0xbf)
    (overlong : first.toNat = 0xe0 → 0xa0 ≤ b.toNat) (surrogate : first.toNat = 0xed → b.toNat ≤ 0x9f)
    (overlong' : first.toNat = 0xf0 → 0x90 ≤ b.toNat) (large : first.toNat = 0xf4 → b.toNat ≤ 0x8f) :
    isSecond first b = true := by
  simp only [isSecond, ← UInt8.toNat_inj]
  split_ifs with e0 ed f0 f4
  · simpa [UInt8.le_iff_toNat_le, high] using overlong e0
  · simpa [UInt8.le_iff_toNat_le, low] using surrogate ed
  · simpa [UInt8.le_iff_toNat_le, high] using overlong' f0
  · simpa [UInt8.le_iff_toNat_le, low] using large f4
  · exact isContinuation_of low high

theorem toNat_ofNat_byte (b : UInt8) : (Char.ofNat b.toNat).toNat = b.toNat := by
  have small := b.toNat_lt
  rw [Char.ofNat, dif_pos (.inl (by omega))]
  rfl

variable {n : Nat}

theorem toNat_ofNat_lt (small : n < 256) : (UInt8.ofNat n).toNat = n := by
  rw [UInt8.toNat_ofNat']
  omega

theorem readChar_second (count : continuations first = some (n + 1))
    (second : isSecond first b = true) :
    readChar first (b :: rest) =
      readContinuations n (firstBits first (n + 1) * 64 + b.toNat % 64) rest := by
  rw [readChar, count]
  dsimp only
  rw [if_pos second]

theorem readContinuations_cons {value : Nat} (low : 0x80 ≤ b.toNat) (high : b.toNat ≤ 0xbf) :
    readContinuations (n + 1) value (b :: rest) =
      readContinuations n (value * 64 + b.toNat % 64) rest := by
  rw [readContinuations, if_pos (isContinuation_of low high)]

theorem readChar_encode (c : Char) (rest : List UInt8) :
    ∃ first more, String.utf8EncodeChar c = first :: more ∧ readChar first (more ++ rest) = (c, rest) := by
  have whole : Char.ofNat c.val.toNat = c := Char.ofNat_toNat c
  have valid : c.val.toNat.isValidChar := c.valid
  rw [String.utf8EncodeChar]
  generalize c.val.toNat = v at *
  subst whole
  split_ifs with one two three
  · have byte : (UInt8.ofNat v).toNat = v := toNat_ofNat_lt (by omega)
    have ascii : UInt8.ofNat v < 0x80 := by
      rw [UInt8.lt_iff_toNat_lt, byte]
      exact Nat.lt_succ_of_le one
    refine ⟨_, [], rfl, ?_⟩
    rw [readChar, continuations, if_pos ascii, byte]
    rfl
  · have first : (UInt8.ofNat (v / 64 % 32 + 192)).toNat = v / 64 % 32 + 192 := toNat_ofNat_lt (by omega)
    have last : (UInt8.ofNat (v % 64 + 128)).toNat = v % 64 + 128 := toNat_ofNat_lt (by omega)
    refine ⟨_, _, rfl, ?_⟩
    rw [cons_append, readChar_second (continuations_one (by omega) (by omega))
      (isSecond_of (by omega) (by omega) (by omega) (by omega) (by omega) (by omega)),
      readContinuations, firstBits, first, last]
    congr 2
    omega
  · have first : (UInt8.ofNat (v / 4096 % 16 + 224)).toNat = v / 4096 % 16 + 224 :=
      toNat_ofNat_lt (by omega)
    have second : (UInt8.ofNat (v / 64 % 64 + 128)).toNat = v / 64 % 64 + 128 := toNat_ofNat_lt (by omega)
    have last : (UInt8.ofNat (v % 64 + 128)).toNat = v % 64 + 128 := toNat_ofNat_lt (by omega)
    refine ⟨_, _, rfl, ?_⟩
    rw [cons_append, cons_append,
      readChar_second (continuations_two (by omega) (by omega))
        (isSecond_of (by omega) (by omega) (by omega) (by omega) (by omega) (by omega)),
      readContinuations_cons (by omega) (by omega), readContinuations, firstBits, first, second, last]
    congr 2
    omega
  · have first : (UInt8.ofNat (v / 262144 % 8 + 240)).toNat = v / 262144 % 8 + 240 :=
      toNat_ofNat_lt (by omega)
    have second : (UInt8.ofNat (v / 4096 % 64 + 128)).toNat = v / 4096 % 64 + 128 :=
      toNat_ofNat_lt (by omega)
    have third : (UInt8.ofNat (v / 64 % 64 + 128)).toNat = v / 64 % 64 + 128 := toNat_ofNat_lt (by omega)
    have last : (UInt8.ofNat (v % 64 + 128)).toNat = v % 64 + 128 := toNat_ofNat_lt (by omega)
    refine ⟨_, _, rfl, ?_⟩
    rw [cons_append, cons_append, cons_append,
      readChar_second (continuations_three (by omega) (by omega))
        (isSecond_of (by omega) (by omega) (by omega) (by omega) (by omega) (by omega)),
      readContinuations_cons (by omega) (by omega), readContinuations_cons (by omega) (by omega),
      readContinuations, firstBits, first, second, third, last]
    · congr 2
      omega
    all_goals simp

theorem fromUtf8Lossy_toUtf8 (text : Text) : fromUtf8Lossy (toUtf8 text) = text := by
  induction text with
  | nil => rfl
  | cons c text ih =>
    obtain ⟨first, more, written, read⟩ := readChar_encode c (toUtf8 text)
    have split : toUtf8 (c :: text) = first :: (more ++ toUtf8 text) := by
      rw [toUtf8, flatMap_cons, written]
      rfl
    rw [split, fromUtf8Lossy_cons, read, ih]

theorem fromUtf8_eq_some {bytes : List UInt8} {text : Text} :
    fromUtf8 bytes = some text ↔ bytes = toUtf8 text := by
  rw [fromUtf8, Option.ite_none_right_eq_some, Option.some.injEq]
  constructor
  · rintro ⟨same, rfl⟩
    exact same.symm
  · rintro rfl
    rw [fromUtf8Lossy_toUtf8]
    exact ⟨rfl, rfl⟩

theorem toUtf8_append (a b : Text) : toUtf8 (a ++ b) = toUtf8 a ++ toUtf8 b := flatMap_append

theorem toUtf8_cons (c : Char) (text : Text) :
    toUtf8 (c :: text) = String.utf8EncodeChar c ++ toUtf8 text :=
  rfl

variable {c : Char}

theorem utf8EncodeChar_ascii (ascii : c.toNat < 128) :
    String.utf8EncodeChar c = [c.toNat.toUInt8] := by
  have small : c.val.toNat ≤ 127 := Nat.le_of_lt_succ ascii
  rw [String.utf8EncodeChar, if_pos small]
  rfl

theorem toUtf8_ascii {text : Text} (ascii : ∀ c ∈ text, c.toNat < 128) :
    toUtf8 text = text.map fun c => c.toNat.toUInt8 := by
  induction text with
  | nil => rfl
  | cons c text ih =>
    obtain ⟨here, later⟩ := forall_mem_cons.mp ascii
    rw [toUtf8_cons, utf8EncodeChar_ascii here, ih later]
    rfl

theorem ascii_of_utf8EncodeChar (ascii : ∀ b ∈ String.utf8EncodeChar c, b < 0x80) :
    c.toNat < 128 := by
  obtain ⟨first, more, written, read⟩ := readChar_encode c []
  rw [written] at ascii
  have small : first < 0x80 := ascii first (mem_cons_self ..)
  rw [readChar, continuations, if_pos small] at read
  rw [← (Prod.mk.inj read).1, toNat_ofNat_byte]
  exact small

/-- The bytes are read without loss. -/
def IsUtf8 (bytes : List UInt8) : Prop := toUtf8 (fromUtf8Lossy bytes) = bytes

instance (bytes : List UInt8) : Decidable (IsUtf8 bytes) := inferInstanceAs (Decidable (_ = _))

theorem isUtf8_toUtf8 (text : Text) : IsUtf8 (toUtf8 text) := by
  rw [IsUtf8, fromUtf8Lossy_toUtf8]

theorem isUtf8_cons :
    IsUtf8 (b :: rest) ↔
      b :: rest = String.utf8EncodeChar (readChar b rest).1 ++ (readChar b rest).2 ∧
        IsUtf8 (readChar b rest).2 := by
  constructor
  · intro valid
    rw [IsUtf8, fromUtf8Lossy_cons, toUtf8_cons] at valid
    obtain ⟨first, more, written, read⟩ :=
      readChar_encode (readChar b rest).1 (toUtf8 (fromUtf8Lossy (readChar b rest).2))
    have split := valid
    rw [written, cons_append] at split
    obtain ⟨rfl, tail⟩ := List.cons.inj split
    rw [tail] at read
    have later : IsUtf8 (readChar first rest).2 := (congrArg Prod.snd read).symm
    rw [later] at valid
    exact ⟨valid.symm, later⟩
  · rintro ⟨split, valid⟩
    rw [IsUtf8, fromUtf8Lossy_cons, toUtf8_cons, valid]
    exact split.symm

theorem isUtf8_append_ascii {c : UInt8} (ascii : c < 0x80) (bytes more : List UInt8) :
    IsUtf8 (bytes ++ c :: more) ↔ IsUtf8 bytes ∧ IsUtf8 more := by
  induction bytes using bytes_induction with
  | nil =>
    have empty : IsUtf8 [] := rfl
    have alone : readChar c more = (Char.ofNat c.toNat, more) := by
      rw [readChar, continuations, if_pos ascii]
    have small : c.toNat < 128 := ascii
    have char := toNat_ofNat_byte c
    have written : String.utf8EncodeChar (Char.ofNat c.toNat) = [c] := by
      rw [utf8EncodeChar_ascii (by omega), char]
      exact congrArg (fun b => [b]) UInt8.ofNat_toNat
    rw [nil_append, isUtf8_cons, alone, written]
    simp [empty]
  | cons b rest ih =>
    rw [cons_append, isUtf8_cons, readChar_ascii ascii, ih, @isUtf8_cons b rest, and_assoc,
      ← append_assoc, ← cons_append, append_left_inj]

theorem ofNat_ne (ascii : c.toNat < 128) (large : 128 ≤ n) (given : c ≠ '\x00') :
    Char.ofNat n ≠ c := by
  rintro rfl
  rw [Char.ofNat] at ascii given
  by_cases valid : n.isValidChar
  · rw [dif_pos valid] at ascii
    have whole : (Char.ofNatAux n valid).toNat = n := rfl
    omega
  · exact given (by rw [dif_neg valid]; rfl)

theorem readContinuations_value (n value : Nat) (rest : List UInt8) :
    (readContinuations n value rest).1 = '\uFFFD' ∨
      ∃ m, value * 64 ^ n ≤ m ∧ (readContinuations n value rest).1 = Char.ofNat m := by
  induction n generalizing value rest with
  | zero => exact .inr ⟨value, by simp, rfl⟩
  | succ n ih =>
    cases rest with
    | nil => exact .inl rfl
    | cons b rest =>
      rw [readContinuations]
      split
      · rcases ih (value * 64 + b.toNat % 64) rest with replaced | ⟨m, bound, read⟩
        · exact .inl replaced
        · refine .inr ⟨m, ?_, read⟩
          calc value * 64 ^ (n + 1) = value * 64 * 64 ^ n := by rw [Nat.pow_succ', Nat.mul_assoc]
            _ ≤ (value * 64 + b.toNat % 64) * 64 ^ n := Nat.mul_le_mul_right _ (by omega)
            _ ≤ m := bound
      · exact .inl rfl

theorem continuations_eq (count : continuations first = some n) :
    first.toNat < 0x80 ∧ n = 0 ∨ 0xc2 ≤ first.toNat ∧ first.toNat ≤ 0xdf ∧ n = 1 ∨
      0xe0 ≤ first.toNat ∧ first.toNat ≤ 0xef ∧ n = 2 ∨
      0xf0 ≤ first.toNat ∧ first.toNat ≤ 0xf4 ∧ n = 3 := by
  simp only [continuations, UInt8.lt_iff_toNat_lt, UInt8.le_iff_toNat_le, UInt8.reduceToNat,
    Bool.and_eq_true, decide_eq_true_eq] at count
  split_ifs at count
  all_goals
    cases count
    omega

theorem le_of_isSecond (count : continuations first = some (n + 1))
    (second : isSecond first b = true) :
    128 ≤ (firstBits first (n + 1) * 64 + b.toNat % 64) * 64 ^ n := by
  have zero : first.toNat = 0xe0 → 0xa0 ≤ b.toNat ∧ b.toNat ≤ 0xbf := by
    intro e0
    rw [isSecond, if_pos (UInt8.toNat_inj.mp e0)] at second
    simpa [UInt8.le_iff_toNat_le] using second
  have zero' : first.toNat = 0xf0 → 0x90 ≤ b.toNat ∧ b.toNat ≤ 0xbf := by
    intro f0
    have same : first = 0xf0 := UInt8.toNat_inj.mp f0
    subst same
    simpa [isSecond, UInt8.le_iff_toNat_le] using second
  rcases continuations_eq count with ⟨-, none_⟩ | ⟨low, high, one⟩ | ⟨low, high, two⟩ | ⟨low, high, three⟩
  · cases none_
  · cases one
    simp only [firstBits]
    omega
  · cases two
    simp only [firstBits]
    omega
  · cases three
    simp only [firstBits]
    omega

theorem eq_of_readChar (ascii : c.toNat < 128) (given : c ≠ '\x00')
    (read : (readChar b rest).1 = c) : b = c.toNat.toUInt8 := by
  have replaced : '\uFFFD' ≠ c := by
    rintro rfl
    exact absurd ascii (by decide)
  unfold readChar at read
  cases count : continuations b with
  | none =>
    rw [count] at read
    exact absurd read replaced
  | some n =>
    rw [count] at read
    cases n with
    | zero =>
      have small : b.toNat < 128 := by
        rcases continuations_eq count with ⟨small, -⟩ | ⟨-, -, no⟩ | ⟨-, -, no⟩ | ⟨-, -, no⟩
        · exact small
        all_goals cases no
      obtain rfl : Char.ofNat b.toNat = c := read
      rw [Char.ofNat, dif_pos (.inl (by omega))]
      exact UInt8.ofNat_toNat.symm
    | succ n =>
      cases rest with
      | nil => exact absurd read replaced
      | cons d rest =>
        dsimp only at read
        split at read
        next second =>
          rcases readContinuations_value n (firstBits b (n + 1) * 64 + d.toNat % 64) rest with
            no | ⟨m, bound, value⟩
          · exact absurd (no.symm.trans read) replaced
          · have large := Nat.le_trans (le_of_isSecond count second) bound
            exact absurd (value.symm.trans read) (ofNat_ne ascii large given)
        next => exact absurd read replaced

theorem mem_of_mem_fromUtf8Lossy (ascii : c.toNat < 128) (given : c ≠ '\x00')
    {bytes : List UInt8} (member : c ∈ fromUtf8Lossy bytes) : c.toNat.toUInt8 ∈ bytes := by
  induction bytes using bytes_induction with
  | nil => cases member
  | cons b rest ih =>
    rw [fromUtf8Lossy_cons] at member
    rcases mem_cons.mp member with here | later
    · rw [eq_of_readChar ascii given here.symm]
      exact mem_cons_self ..
    · exact mem_cons_of_mem _ ((suffix_readChar b rest).subset (ih later))

end

end Gozarbin.Text
