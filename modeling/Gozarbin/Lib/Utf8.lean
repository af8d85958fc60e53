import Gozarbin.Lib.Text

/-! # What longer bytes are read as

Bytes that come later change what a character cut off at the end is read as, and
nothing before it.
-/

namespace Gozarbin.Text

open List

section
variable {b c : UInt8} {rest bytes : List UInt8}

theorem isContinuation_ascii (ascii : c < 0x80) : isContinuation c = false := by
  have beyond : ¬ 0x80 ≤ c := UInt8.not_le.mpr ascii
  simp [isContinuation, beyond]

theorem isSecond_ascii (ascii : c < 0x80) (b : UInt8) : isSecond b c = false := by
  have low : c.toNat < 0x80 := ascii
  unfold isSecond
  split_ifs <;> simp [UInt8.le_iff_toNat_le, isContinuation] <;> omega

theorem readContinuations_append (n value : Nat) (rest : List UInt8) :
    (∀ more, readContinuations n value (rest ++ more) =
        ((readContinuations n value rest).1, (readContinuations n value rest).2 ++ more)) ∨
      (readContinuations n value rest = ('�', []) ∧
        ∀ c more, c < 0x80 → readContinuations n value (rest ++ c :: more) = ('�', c :: more)) := by
  induction n generalizing value rest with
  | zero => exact .inl fun _ => rfl
  | succ n ih =>
    cases rest with
    | nil =>
      refine .inr ⟨rfl, fun c more ascii => ?_⟩
      simp [readContinuations, isContinuation_ascii ascii]
    | cons b rest =>
      simp only [cons_append, readContinuations]
      split
      · exact ih _ rest
      · exact .inl fun _ => rfl

theorem readChar_append (b : UInt8) (rest : List UInt8) :
    (∀ more, readChar b (rest ++ more) = ((readChar b rest).1, (readChar b rest).2 ++ more)) ∨
      (readChar b rest = ('�', []) ∧
        ∀ c more, c < 0x80 → readChar b (rest ++ c :: more) = ('�', c :: more)) := by
  unfold readChar
  cases continuations b with
  | none => exact .inl fun _ => rfl
  | some n =>
    cases n with
    | zero => exact .inl fun _ => rfl
    | succ n =>
      cases rest with
      | nil =>
        refine .inr ⟨rfl, fun c more ascii => ?_⟩
        simp [isSecond_ascii ascii]
      | cons d rest =>
        simp only [cons_append]
        split
        · exact readContinuations_append n _ rest
        · exact .inl fun _ => rfl

theorem readChar_ascii (ascii : c < 0x80) (b : UInt8) (rest more : List UInt8) :
    readChar b (rest ++ c :: more) = ((readChar b rest).1, (readChar b rest).2 ++ c :: more) := by
  obtain same | ⟨ended, stops⟩ := readChar_append b rest
  · exact same _
  · rw [stops c more ascii, ended]
    rfl

theorem suffix_readContinuations (n value : Nat) (rest : List UInt8) :
    (readContinuations n value rest).2 <:+ rest := by
  induction n generalizing value rest with
  | zero => exact suffix_refl _
  | succ n ih =>
    cases rest with
    | nil => exact suffix_refl _
    | cons b rest =>
      rw [readContinuations]
      split
      · exact (ih _ rest).trans (suffix_cons ..)
      · exact suffix_refl _

theorem suffix_readChar (b : UInt8) (rest : List UInt8) : (readChar b rest).2 <:+ rest := by
  unfold readChar
  split
  · exact suffix_refl _
  · exact suffix_refl _
  · cases rest with
    | nil => exact suffix_refl _
    | cons d rest =>
      dsimp only
      split
      · exact (suffix_readContinuations ..).trans (suffix_cons ..)
      · exact suffix_refl _

theorem length_readChar (b : UInt8) (rest : List UInt8) :
    (readChar b rest).2.length ≤ rest.length := (suffix_readChar b rest).length_le

theorem lossy_fuel {fuel fuel' : Nat} (enough : bytes.length ≤ fuel) (enough' : bytes.length ≤ fuel') :
    lossy fuel bytes = lossy fuel' bytes := by
  induction fuel generalizing fuel' bytes with
  | zero =>
    rw [eq_nil_of_length_eq_zero (Nat.le_zero.mp enough)]
    cases fuel' <;> rfl
  | succ fuel ih =>
    cases bytes with
    | nil => cases fuel' <;> rfl
    | cons b rest =>
      have shorter := length_readChar b rest
      obtain ⟨fuel', rfl⟩ := Nat.exists_eq_add_one_of_ne_zero (Nat.ne_zero_of_lt enough')
      rw [length_cons] at enough enough'
      exact congrArg _ (ih (by omega) (by omega))

theorem fromUtf8Lossy_cons (b : UInt8) (rest : List UInt8) :
    fromUtf8Lossy (b :: rest) = (readChar b rest).1 :: fromUtf8Lossy (readChar b rest).2 := by
  rw [fromUtf8Lossy, fromUtf8Lossy, length_cons, lossy,
    lossy_fuel (length_readChar b rest) (Nat.le_refl _)]

theorem bytes_induction {P : List UInt8 → Prop} (nil : P [])
    (cons : ∀ b rest, P (readChar b rest).2 → P (b :: rest)) (bytes : List UInt8) : P bytes := by
  induction size : bytes.length using Nat.strong_induction_on generalizing bytes with
  | _ n ih =>
    cases bytes with
    | nil => exact nil
    | cons b rest =>
      have shorter := length_readChar b rest
      rw [length_cons] at size
      exact cons b rest (ih _ (by omega) _ rfl)

theorem fromUtf8Lossy_ascii (ascii : c < 0x80) (bytes more : List UInt8) :
    fromUtf8Lossy (bytes ++ c :: more) =
      fromUtf8Lossy bytes ++ Char.ofNat c.toNat :: fromUtf8Lossy more := by
  induction bytes using bytes_induction with
  | nil =>
    have alone : readChar c more = (Char.ofNat c.toNat, more) := by
      rw [readChar, continuations, if_pos ascii]
    rw [nil_append, fromUtf8Lossy_cons, alone]
    rfl
  | cons b rest ih =>
    rw [cons_append, fromUtf8Lossy_cons, readChar_ascii ascii, ih, fromUtf8Lossy_cons,
      cons_append]

theorem fromUtf8Lossy_append {front : Text} {last : Char} (more : List UInt8)
    (read : front ++ [last] <+: fromUtf8Lossy bytes) (whole : last ≠ '�') :
    front ++ [last] <+: fromUtf8Lossy (bytes ++ more) := by
  induction bytes using bytes_induction generalizing front with
  | nil => simp [fromUtf8Lossy, lossy] at read
  | cons b rest ih =>
    rw [fromUtf8Lossy_cons] at read
    obtain same | ⟨ended, -⟩ := readChar_append b rest
    · rw [cons_append, fromUtf8Lossy_cons, same]
      cases front with
      | nil =>
        obtain ⟨here, -⟩ := cons_prefix_cons.mp read
        exact cons_prefix_cons.mpr ⟨here, nil_prefix⟩
      | cons d front =>
        obtain ⟨here, later⟩ := cons_prefix_cons.mp read
        exact cons_prefix_cons.mpr ⟨here, ih later⟩
    · -- the replacement is the last character, so nothing else can end there
      rw [ended] at read
      have only : front ++ [last] <+: ['�'] := read
      cases front with
      | nil => exact absurd (cons_prefix_cons.mp only).1 whole
      | cons d front => simp at only

theorem toUtf8_inj {a b : Text} (same : toUtf8 a = toUtf8 b) : a = b := by
  refine String.ofList_inj.mp (String.toByteArray_inj.mp ?_)
  exact congrArg List.toByteArray same

end

end Gozarbin.Text
