import Mathlib.Algebra.Group.Nat.Defs
import Gozarbin.Lib.Numerals
import Gozarbin.Lib.Split

/-! # Entities in the pages of a sign-in

Values taken out of a page are decoded with `decode_entities`. It looks for a semicolon not far
behind each ampersand; where there is none, or where no entity is between the two, the ampersand
stands for itself.
-/

namespace Gozarbin.ZeroTrust

open List Text

def charFromU32 (n : Nat) : Option Char := if n.isValidChar then some (.ofNat n) else none

def decodeEntity (entity : Text) : Option Char :=
  if entity = "amp".toList then some '&'
  else if entity = "lt".toList then some '<'
  else if entity = "gt".toList then some '>'
  else if entity = "quot".toList then some '"'
  else if entity = "apos".toList || entity = "#39".toList then some '\''
  else
    let hex := (strip "#x".toList entity).or (strip "#X".toList entity)
    ((hex.bind (fromStrRadix 16 (2 ^ 32))).or
      ((strip "#".toList entity).bind (parseUnsigned (2 ^ 32)))).bind charFromU32

def decodeLoop : (fuel : Nat) → (rest : Text) → Text
  | 0, rest => rest
  | fuel + 1, rest =>
    match before? ['&'] rest with
    | none => rest
    | some start =>
      let rest := rest.drop start.length
      start ++
        match (before? [';'] rest).filter (byteLength · ≤ 8) with
        | none => '&' :: decodeLoop fuel (rest.drop 1)
        | some upto =>
          match decodeEntity (upto.drop 1) with
          | some c => c :: decodeLoop fuel (rest.drop (upto.length + 1))
          | none => '&' :: decodeLoop fuel (rest.drop 1)

def decodeEntities (raw : Text) : Text := decodeLoop raw.length raw

def entityNames : List (Text × Char) :=
  [("amp".toList, '&'), ("lt".toList, '<'), ("gt".toList, '>'), ("quot".toList, '"'),
    ("apos".toList, '\'')]

/-- A character as itself, by one of the five names, or by its number, in at most seven
    characters. -/
inductive Written : Char → Text → Prop where
  | self {c : Char} (other : c ≠ '&') : Written c [c]
  | named {c : Char} {name : Text} (listed : (name, c) ∈ entityNames) : Written c ('&' :: name ++ [';'])
  | decimal {c : Char} {digits : Text} (numeral : Numeral 10 digits)
      (number : numberFrom 10 0 digits = c.toNat) (short : ('#' :: digits).length ≤ 7) :
      Written c ('&' :: ('#' :: digits) ++ [';'])
  | hex {c x : Char} {digits : Text} (mark : x = 'x' ∨ x = 'X') (numeral : Numeral 16 digits)
      (number : numberFrom 16 0 digits = c.toNat) (short : ('#' :: x :: digits).length ≤ 7) :
      Written c ('&' :: ('#' :: x :: digits) ++ [';'])

/-- A character and how it is written. -/
structure Spelling where
  char : Char
  form : Text
  written : Written char form

/-- What is decoded as an entity. -/
structure IsEntity (entity : Text) (c : Char) : Prop where
  decoded : decodeEntity entity = some c
  ascii : ∀ d ∈ entity, d.toNat < 128
  clean : ';' ∉ entity
  short : entity.length ≤ 7

theorem charFromU32_toNat (c : Char) : charFromU32 c.toNat = some c := by
  have valid : c.toNat.isValidChar := c.valid
  rw [charFromU32, if_pos valid, Char.ofNat_toNat]

theorem toNat_lt (c : Char) : c.toNat < 2 ^ 32 := c.val.toNat_lt

theorem byteLength_ascii {text : Text} (ascii : ∀ c ∈ text, c.toNat < 128) :
    byteLength text = text.length := by
  induction text with
  | nil => rfl
  | cons c text ih =>
    obtain ⟨here, later⟩ := forall_mem_cons.mp ascii
    have one : c.utf8Size = 1 := Char.utf8Size_eq_one_iff.mpr (Nat.le_of_lt_succ here)
    change c.utf8Size + byteLength text = text.length + 1
    rw [one, ih later, Nat.add_comm]

variable {c : Char}

theorem isEntity_named {name : Text} (listed : (name, c) ∈ entityNames) : IsEntity name c := by
  have each : ∀ entry ∈ entityNames,
      decodeEntity entry.1 = some entry.2 ∧ (entry.1.all fun d => d.toNat < 128 && d ≠ ';') = true ∧
        entry.1.length ≤ 7 := by decide
  obtain ⟨decoded, chars, short⟩ := each _ listed
  simp only [all_eq_true, Bool.and_eq_true, decide_eq_true_eq] at chars
  exact ⟨decoded, fun d member => (chars d member).1, fun member => (chars ';' member).2 rfl, short⟩

variable {digits : Text}

theorem decodeEntity_number (other : digits ≠ ['3', '9']) :
    decodeEntity ('#' :: digits) =
      (((((strip ['#', 'x'] ('#' :: digits)).or (strip ['#', 'X'] ('#' :: digits))).bind
        (fromStrRadix 16 (2 ^ 32))).or (parseUnsigned (2 ^ 32) digits)).bind charFromU32) := by
  have marked : strip ['#'] ('#' :: digits) = some digits := strip_append ['#'] digits
  simp [decodeEntity, marked, other]

theorem strip_mark {x : Char} (other : digits.head? ≠ some x) :
    strip ['#', x] ('#' :: digits) = none := by
  cases found : strip ['#', x] ('#' :: digits) with
  | none => rfl
  | some rest =>
    have same := (List.cons.inj (strip_eq_some found)).2
    rw [same] at other
    exact absurd rfl other

theorem isEntity_decimal (numeral : Numeral 10 digits)
    (number : numberFrom 10 0 digits = c.toNat) (short : ('#' :: digits).length ≤ 7) :
    IsEntity ('#' :: digits) c where
  decoded := by
    by_cases apostrophe : digits = ['3', '9']
    · have same : c = '\'' := by
        rw [apostrophe] at number
        rw [← Char.ofNat_toNat c, ← number]
        decide
      rw [apostrophe, same]
      decide
    · have unmarked (x : Char) (letter : digit? 10 x = none) : digits.head? ≠ some x := by
        intro first
        exact numeral.not_mem letter (mem_of_head? first)
      have small : numberFrom 10 0 digits < 2 ^ 32 := number ▸ toNat_lt c
      have read : parseUnsigned (2 ^ 32) digits = some c.toNat := by
        rw [parseUnsigned_eq, numeral.fromStrRadix_eq (by decide) small, number]
      rw [decodeEntity_number apostrophe, strip_mark (unmarked 'x' (by decide)),
        strip_mark (unmarked 'X' (by decide)), read]
      exact charFromU32_toNat c
  ascii := by
    intro d member
    rcases mem_cons.mp member with rfl | digit
    · decide
    · exact hex_ascii (hex_of_decimal (numeral.digits d digit))
  clean := by
    intro member
    exact numeral.not_mem (by decide) ((mem_cons.mp member).resolve_left (by decide))
  short := short

theorem isEntity_hex {x : Char} (mark : x = 'x' ∨ x = 'X') (numeral : Numeral 16 digits)
    (number : numberFrom 16 0 digits = c.toNat) (short : ('#' :: x :: digits).length ≤ 7) :
    IsEntity ('#' :: x :: digits) c where
  decoded := by
    have other : x :: digits ≠ ['3', '9'] := by
      intro same
      rcases mark with rfl | rfl <;> cases same
    have stripped : (strip ['#', 'x'] ('#' :: x :: digits)).or (strip ['#', 'X'] ('#' :: x :: digits)) =
        some digits := by
      rcases mark with rfl | rfl
      · rw [show strip ['#', 'x'] ('#' :: 'x' :: digits) = some digits from strip_append ['#', 'x'] digits]
        rfl
      · rw [strip_mark (by simp)]
        exact strip_append ['#', 'X'] digits
    have small : numberFrom 16 0 digits < 2 ^ 32 := number ▸ toNat_lt c
    rw [decodeEntity_number other, stripped, Option.bind_some,
      numeral.fromStrRadix_eq (by decide) small, number]
    exact charFromU32_toNat c
  ascii := by
    intro d member
    rcases mem_cons.mp member with rfl | later
    · decide
    · rcases mem_cons.mp later with rfl | digit
      · rcases mark with rfl | rfl <;> decide
      · exact hex_ascii (numeral.digits d digit)
  clean := by
    intro member
    rcases mem_cons.mp member with same | later
    · exact absurd same (by decide)
    · rcases mem_cons.mp later with rfl | digit
      · exact mark.elim (by decide) (by decide)
      · exact numeral.not_mem (by decide) digit
  short := short

theorem decodeLoop_nil (fuel : Nat) : decodeLoop fuel [] = [] := by
  cases fuel <;> rfl

theorem decodeLoop_self (other : c ≠ '&') (fuel : Nat) (rest : Text) :
    decodeLoop fuel (c :: rest) = c :: decodeLoop fuel rest := by
  cases fuel with
  | zero => rfl
  | succ fuel =>
    have later : before? ['&'] (c :: rest) = (before? ['&'] rest).map (c :: ·) := by
      simp [before?, other.symm]
    rw [decodeLoop, decodeLoop, later]
    cases before? ['&'] rest <;> rfl

theorem decodeLoop_entity {entity : Text} (isEntity : IsEntity entity c) (fuel : Nat)
    (rest : Text) :
    decodeLoop (fuel + 1) ('&' :: entity ++ ';' :: rest) = c :: decodeLoop fuel rest := by
  have start : before? ['&'] ('&' :: entity ++ ';' :: rest) = some [] :=
    before?_append not_mem_nil
  have ends : before? [';'] ('&' :: entity ++ ';' :: rest) = some ('&' :: entity) := by
    apply before?_append
    simp [isEntity.clean]
  have near : byteLength ('&' :: entity) ≤ 8 := by
    rw [byteLength_ascii (forall_mem_cons.mpr ⟨by decide, isEntity.ascii⟩)]
    exact Nat.succ_le_succ isEntity.short
  rw [decodeLoop, start]
  simp only [length_nil, drop_zero, ends, Option.filter_some, near, decide_true, if_true,
    drop_one, tail_cons, isEntity.decoded, nil_append]
  rw [show ('&' :: entity).length + 1 = ('&' :: entity ++ [';']).length by simp,
    show '&' :: entity ++ ';' :: rest = '&' :: entity ++ [';'] ++ rest by simp, drop_left]

theorem Written.cases_entity {form : Text} (written : Written c form) :
    (c ≠ '&' ∧ form = [c]) ∨ ∃ entity, IsEntity entity c ∧ form = '&' :: entity ++ [';'] := by
  cases written with
  | self other => exact .inl ⟨other, rfl⟩
  | named listed => exact .inr ⟨_, isEntity_named listed, rfl⟩
  | decimal numeral number short => exact .inr ⟨_, isEntity_decimal numeral number short, rfl⟩
  | hex mark numeral number short => exact .inr ⟨_, isEntity_hex mark numeral number short, rfl⟩

theorem decodeLoop_spellings {spellings : List Spelling} {fuel : Nat}
    (enough : (spellings.flatMap (·.form)).length ≤ fuel) :
    decodeLoop fuel (spellings.flatMap (·.form)) = spellings.map (·.char) := by
  induction spellings generalizing fuel with
  | nil => exact decodeLoop_nil fuel
  | cons spelling spellings ih =>
    rw [flatMap_cons, length_append] at enough
    rw [flatMap_cons, map_cons]
    rcases spelling.written.cases_entity with ⟨other, form⟩ | ⟨entity, isEntity, form⟩
    · rw [form, singleton_append, decodeLoop_self other, ih (by omega)]
    · rw [form, length_append, length_singleton] at enough
      obtain ⟨fuel, rfl⟩ : ∃ less, fuel = less + 1 := ⟨fuel - 1, by omega⟩
      rw [form, append_assoc, singleton_append, decodeLoop_entity isEntity, ih (by omega)]

/-- However the characters of a text are written, it is what decoding gives. -/
theorem decodeEntities_spellings (spellings : List Spelling) :
    decodeEntities (spellings.flatMap (·.form)) = spellings.map (·.char) :=
  decodeLoop_spellings (Nat.le_refl _)

-- What decoding gives is not decoded again.
example : decodeEntities "&amp;lt;&#38;#x26;".toList = "&lt;&#x26;".toList := by decide

end Gozarbin.ZeroTrust
