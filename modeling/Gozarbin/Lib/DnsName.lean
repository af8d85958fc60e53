import Gozarbin.Lib.Fields

/-! # Domain names in a DNS message

A name is a list of labels of 1 to 63 bytes, each behind its length, and ends with a length
of zero or with a pointer to another place in the message.
-/

namespace Gozarbin.DnsName

open List Fields

def encodeLabel (label : List UInt8) : List UInt8 := UInt8.ofNat label.length :: label

def encodeLabels (labels : List (List UInt8)) : List UInt8 := labels.flatMap encodeLabel

theorem encodeLabels_cons (label : List UInt8) (labels : List (List UInt8)) :
    encodeLabels (label :: labels) = encodeLabel label ++ encodeLabels labels := rfl

/-- The lengths a label may have. -/
def Fits (label : List UInt8) : Prop := 0 < label.length ∧ label.length ≤ 63

instance (label : List UInt8) : Decidable (Fits label) := inferInstanceAs (Decidable (_ ∧ _))

/-- The name at a position of a message, and the position behind it. -/
inductive NameAt (msg : List UInt8) : (pos : Nat) → (labels : List (List UInt8)) → (next : Nat) → Prop
  | root {pos rest} : msg.drop pos = 0 :: rest → NameAt msg pos [] (pos + 1)
  | label {pos label rest labels next} : Fits label →
      msg.drop pos = encodeLabel label ++ rest →
      NameAt msg (pos + (encodeLabel label).length) labels next →
      NameAt msg pos (label :: labels) next
  | pointer {pos hi lo rest labels next} : 0xc0 ≤ hi → msg.drop pos = hi :: lo :: rest →
      NameAt msg (hi.toNat % 64 * 256 + lo.toNat) labels next → NameAt msg pos labels (pos + 2)

section
variable {msg rest label : List UInt8} {pos next : Nat} {labels ls : List (List UInt8)}

theorem NameAt.fits (name : NameAt msg pos labels next) : ∀ l ∈ labels, Fits l := by
  induction name with
  | root => simp
  | label fits _ _ ih => exact forall_mem_cons.mpr ⟨fits, ih⟩
  | pointer _ _ _ ih => exact ih

theorem NameAt.encode (fits : ∀ l ∈ labels, Fits l)
    (split : msg.drop pos = encodeLabels labels ++ 0 :: rest) :
    NameAt msg pos labels (pos + (encodeLabels labels).length + 1) := by
  induction labels generalizing pos with
  | nil => exact .root split
  | cons l labels ih =>
    obtain ⟨here, later⟩ := forall_mem_cons.mp fits
    rw [encodeLabels_cons, append_assoc] at split
    have behind := ih later (drop_add split)
    rw [encodeLabels_cons, length_append, ← Nat.add_assoc]
    exact .label here split behind

theorem toNat_length (fits : Fits label) : (UInt8.ofNat label.length).toNat = label.length := by
  have most := fits.2
  rw [UInt8.toNat_ofNat']
  omega

theorem length_ne_zero (fits : Fits label) : UInt8.ofNat label.length ≠ 0 := by
  intro zero
  have length := toNat_length fits
  have least := fits.1
  rw [zero, UInt8.toNat_zero] at length
  omega

theorem not_pointer (fits : Fits label) : ¬ 0xc0 ≤ UInt8.ofNat label.length := by
  have most := fits.2
  rw [UInt8.le_iff_toNat_le, toNat_length fits]
  exact Nat.not_le.mpr (Nat.lt_of_le_of_lt most (by decide))

theorem encodeLabel_inj {label' rest' : List UInt8} (fits : Fits label) (fits' : Fits label')
    (same : encodeLabel label ++ rest = encodeLabel label' ++ rest') : label = label' := by
  obtain ⟨lengths, tails⟩ := List.cons.inj same
  have length : label.length = label'.length := by
    rw [← toNat_length fits, ← toNat_length fits', lengths]
  exact (append_inj tails length).1

theorem NameAt.unique (fits : ∀ l ∈ labels, Fits l)
    (split : msg.drop pos = encodeLabels labels ++ 0 :: rest) (name : NameAt msg pos ls next) :
    ls = labels ∧ next = pos + (encodeLabels labels).length + 1 := by
  induction labels generalizing pos ls with
  | nil =>
    cases name with
    | root => exact ⟨rfl, rfl⟩
    | label fits' other =>
      obtain ⟨zero, -⟩ := List.cons.inj (split.symm.trans other)
      exact absurd zero.symm (length_ne_zero fits')
    | pointer high other =>
      obtain ⟨rfl, -⟩ := List.cons.inj (split.symm.trans other)
      exact absurd high (by decide)
  | cons l labels ih =>
    obtain ⟨here, later⟩ := forall_mem_cons.mp fits
    rw [encodeLabels_cons, append_assoc] at split
    cases name with
    | root other =>
      obtain ⟨zero, -⟩ := List.cons.inj (split.symm.trans other)
      exact absurd zero (length_ne_zero here)
    | pointer high other =>
      obtain ⟨rfl, -⟩ := List.cons.inj (split.symm.trans other)
      exact absurd high (not_pointer here)
    | label fits' other behind =>
      obtain rfl := encodeLabel_inj here fits' (split.symm.trans other)
      obtain ⟨rfl, rfl⟩ := ih later (drop_add split) behind
      refine ⟨rfl, ?_⟩
      rw [encodeLabels_cons, length_append, ← Nat.add_assoc]

end

end Gozarbin.DnsName
