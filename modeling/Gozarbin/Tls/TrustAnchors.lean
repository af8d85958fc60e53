import Mathlib.Data.List.Forall2
import Gozarbin.Lib.Base128
import Gozarbin.Lib.Fallible
import Gozarbin.Lib.Numerals
import Gozarbin.Lib.Prefixed
import Gozarbin.Lib.Split
import Gozarbin.Net.Addr

/-! # Trust anchor IDs

`AETHER_TLS_TRUST_ANCHORS` names the trust anchors a handshake asks for, each by a relative OID in
dotted decimal. The TLS library takes them in the format of the wire: the length of an ID in one
byte, and its arcs in base 128.
-/

namespace Gozarbin.Tls

open List Text

/-- The error about an ID. -/
structure NoTrustAnchorId where
  id : Text
  deriving DecidableEq

def NoTrustAnchorId.display (debug : Text → Text) (error : NoTrustAnchorId) : Text :=
  "tls: ".toList ++ debug error.id ++
    " is no trust anchor ID (a relative OID in dotted decimal, such as 11129.9.1)".toList

def pushGroups (base128 : Bytes) (value : Nat) : Bytes :=
  if value = 0 then base128
  else pushGroups (base128 ++ [UInt8.ofNat (0x80 ||| value &&& 0x7f)]) (value >>> 7)
termination_by value
decreasing_by
  rw [Nat.shiftRight_eq_div_pow]
  omega

def base128 (value : Nat) : Bytes :=
  (pushGroups [UInt8.ofNat (value &&& 0x7f)] (value >>> 7)).reverse

def encodeArc (id arc : Text) : Except NoTrustAnchorId Bytes :=
  if arc.isEmpty || !arc.all Char.isDigit || (1 < byteLength arc && arc.startsWith ['0']) then
    .error ⟨id⟩
  else
    match parseUnsigned (2 ^ 64) arc with
    | some value => .ok (base128 value)
    | none => .error ⟨id⟩

def encodeId (id : Text) : Except NoTrustAnchorId Bytes := do
  let arcs ← (splitAt '.' id).mapM (encodeArc id)
  let encoded := arcs.flatten
  if encoded.length < 256 then return UInt8.ofNat encoded.length :: encoded else .error ⟨id⟩

def trustAnchorIds (list : Text) : Except NoTrustAnchorId Bytes := do
  let ids ← (splitAt ':' list).mapM encodeId
  return ids.flatten

/-- The arcs of an ID: numbers of 64 bits that take no more than 255 bytes in base 128. -/
structure IsId (arcs : List Nat) : Prop where
  some_ : arcs ≠ []
  small : ∀ n ∈ arcs, n < 2 ^ 64
  short : (arcs.map fun n => Nat.log 128 n + 1).sum ≤ 255

def dotted (arcs : List Nat) : Text := ['.'].intercalate (arcs.map decimal)

/-- The list names these IDs. -/
structure Names (list : Text) (ids : List (List Nat)) : Prop where
  some_ : ids ≠ []
  each : ∀ arcs ∈ ids, IsId arcs
  text : list = [':'].intercalate (ids.map dotted)

def readForms (bytes : Bytes) : Option (List Bytes) :=
  Prefixed.readItems Base128.readForm (fun forms form => forms ++ [form]) bytes.length bytes []

def readIds (wire : Bytes) : Option (List (List Bytes)) :=
  Prefixed.readItems (fun bytes => do
    let (encoded, rest) ← Prefixed.u8Prefixed bytes
    let forms ← readForms encoded
    return (forms, rest)) (fun ids forms => ids ++ [forms]) wire.length wire []

theorem or_and_eq (value : Nat) : 0x80 ||| value &&& 0x7f = 128 + value % 128 := by
  have low : value &&& 0x7f = value % 128 := Nat.and_two_pow_sub_one_eq_mod value 7
  have high := Nat.two_pow_add_eq_or_of_lt (i := 7) (Nat.mod_lt value (by decide : 0 < 2 ^ 7)) 1
  rw [low]
  exact high.symm

theorem pushGroups_eq (base128 : Bytes) (value : Nat) :
    pushGroups base128 value = base128 ++ (Base128.front value).reverse := by
  induction value using Base128.front_induction generalizing base128 with
  | zero => rw [pushGroups, if_pos rfl, Base128.front_zero, reverse_nil, append_nil]
  | more value pos ih =>
    have shift : value >>> 7 = value / 128 := Nat.shiftRight_eq_div_pow value 7
    rw [pushGroups, if_neg (by omega), or_and_eq, shift, ih, Base128.front_pos pos,
      reverse_append, append_assoc]
    rfl

theorem base128_eq (value : Nat) : base128 value = Base128.encode value := by
  have shift : value >>> 7 = value / 128 := Nat.shiftRight_eq_div_pow value 7
  have low : value &&& 0x7f = value % 128 := Nat.and_two_pow_sub_one_eq_mod value 7
  rw [base128, pushGroups_eq, shift, low, reverse_append, reverse_reverse]
  rfl

theorem isDigit_iff {c : Char} : c.isDigit = true ↔ (digit? 10 c).isSome := by
  have table : ∀ n < 128, (Char.ofNat n).isDigit = true ↔ (digit? 10 (.ofNat n)).isSome := by decide
  have here := table c.toNat
  rw [Char.ofNat_toNat] at here
  constructor
  · intro digit
    have high : c.toNat ≤ 57 := by
      rw [Char.isDigit, Bool.and_eq_true, decide_eq_true_eq, decide_eq_true_eq] at digit
      exact digit.2
    exact (here (by omega)).mp digit
  · intro digit
    exact (here (hex_ascii (hex_of_decimal digit))).mpr digit

theorem length_le_byteLength (text : Text) : text.length ≤ byteLength text := by
  induction text with
  | nil => exact Nat.le_refl _
  | cons c text ih =>
    have pos := Char.utf8Size_pos c
    change text.length + 1 ≤ c.utf8Size + byteLength text
    omega

theorem encodeArc_eq_ok {id arc : Text} {bytes : Bytes} :
    encodeArc id arc = .ok bytes ↔ ∃ n, n < 2 ^ 64 ∧ arc = decimal n ∧ bytes = Base128.encode n := by
  constructor
  · intro read
    unfold encodeArc at read
    split at read
    next => cases read
    next good =>
      split at read
      next n number =>
        cases read
        simp only [Bool.or_eq_true, Bool.and_eq_true, decide_eq_true_eq, not_or, not_and] at good
        obtain ⟨⟨some_, digits⟩, canonical⟩ := good
        have numeral : Numeral 10 arc := by
          refine ⟨fun c member => isDigit_iff.mp ?_, by simpa using some_⟩
          simp only [Bool.not_eq_true', Bool.not_eq_false, all_eq_true] at digits
          exact digits c member
        rw [parseUnsigned_eq] at number
        have value : n = numberFrom 10 0 arc := by
          obtain ⟨_, rfl | rfl, _, value⟩ := numeral_of_fromStrRadix number
          · exact value
          · have plus := numeral.digits '+' (mem_cons_self ..)
            simp [digit?_plus] at plus
        have single : arc.head? = some '0' → arc.length ≤ 1 := by
          intro leading
          by_contra long
          apply canonical (Nat.lt_of_lt_of_le (Nat.lt_of_not_le long) (length_le_byteLength arc))
          exact (startsWith_singleton arc '0').mpr leading
        refine ⟨n, fromStrRadix_lt (by decide) number, ?_, base128_eq n⟩
        rw [value, decimal_numberFrom numeral single]
      next => cases read
  · intro ⟨n, small, spelled, same⟩
    have digits : arc.all Char.isDigit = true := by
      rw [spelled, all_eq_true]
      exact fun c member => isDigit_iff.mpr (digits_decimal n c member)
    have single : ¬ (1 < byteLength arc ∧ arc.startsWith ['0'] = true) := by
      intro ⟨long, leading⟩
      rw [startsWith_singleton] at leading
      have short : arc.length ≤ 1 := by
        rw [spelled] at leading ⊢
        exact length_of_head?_decimal leading
      obtain ⟨rest, rfl⟩ := List.head?_eq_some_iff.mp leading
      obtain rfl : rest = [] := by simpa using short
      exact absurd long (by decide)
    have some_ : arc ≠ [] := spelled ▸ (numeral_decimal n).some_
    have read := parseUnsigned_decimal small
    rw [← spelled] at read
    rw [encodeArc, if_neg (by simp [some_, digits, single]), read, same]
    exact congrArg _ (base128_eq n)

theorem length_flatMap_encode (arcs : List Nat) :
    (arcs.flatMap Base128.encode).length = (arcs.map fun n => Nat.log 128 n + 1).sum := by
  simp only [length_flatMap, Base128.length_encode]

theorem not_mem_decimal {c : Char} (other : digit? 10 c = none) {arcs : List Nat} :
    ∀ arc ∈ arcs.map decimal, c ∉ arc := by
  intro arc member
  obtain ⟨n, _, rfl⟩ := mem_map.mp member
  exact (numeral_decimal n).not_mem other

def wireId (arcs : List Nat) : Bytes := Prefixed.framed 1 (arcs.flatMap Base128.encode)

theorem encodeId_eq_ok {id : Text} {bytes : Bytes} :
    encodeId id = .ok bytes ↔ ∃ arcs, IsId arcs ∧ id = dotted arcs ∧ bytes = wireId arcs := by
  rw [encodeId, Fallible.bind_eq_ok]
  constructor
  · intro ⟨encoded, read, framed⟩
    obtain ⟨arcs, small, pieces, rfl⟩ := (Fallible.mapM_eq_ok encodeArc_eq_ok).mp read
    obtain ⟨some_, _, spelled⟩ := splitAt_eq_iff.mp pieces
    dsimp only at framed
    split at framed
    next short =>
      cases framed
      refine ⟨arcs, ⟨by simpa using some_, small, ?_⟩, spelled, rfl⟩
      rw [← length_flatMap_encode]
      exact Nat.le_of_lt_succ short
    next => cases framed
  · intro ⟨arcs, isId, spelled, same⟩
    have pieces : splitAt '.' id = arcs.map decimal :=
      splitAt_eq_iff.mpr ⟨by simpa using isId.some_, not_mem_decimal (by decide), spelled⟩
    have short : (arcs.map Base128.encode).flatten.length < 256 := by
      have short := isId.short
      rw [← length_flatMap_encode] at short
      exact Nat.lt_succ_of_le short
    refine ⟨arcs.map Base128.encode, ?_, ?_⟩
    · rw [pieces]
      exact (Fallible.mapM_eq_ok encodeArc_eq_ok).mpr ⟨arcs, isId.small, rfl, rfl⟩
    · rw [if_pos short, same]
      rfl

theorem not_mem_dotted (arcs : List Nat) : ':' ∉ dotted arcs := by
  intro member
  rcases mem_intercalate member with same | ⟨arc, listed, inside⟩
  · exact absurd same (by decide)
  · exact not_mem_decimal (by decide) arc listed inside

theorem trustAnchorIds_eq_ok {list : Text} {wire : Bytes} :
    trustAnchorIds list = .ok wire ↔ ∃ ids, Names list ids ∧ wire = ids.flatMap wireId := by
  rw [trustAnchorIds, Fallible.bind_eq_ok]
  constructor
  · intro ⟨encoded, read, same⟩
    obtain ⟨ids, each, pieces, rfl⟩ := (Fallible.mapM_eq_ok encodeId_eq_ok).mp read
    obtain ⟨some_, _, spelled⟩ := splitAt_eq_iff.mp pieces
    cases same
    exact ⟨ids, ⟨by simpa using some_, each, spelled⟩, rfl⟩
  · intro ⟨ids, names, same⟩
    have clean : ∀ id ∈ ids.map dotted, ':' ∉ id := by
      intro id member
      obtain ⟨arcs, _, rfl⟩ := mem_map.mp member
      exact not_mem_dotted arcs
    have pieces : splitAt ':' list = ids.map dotted :=
      splitAt_eq_iff.mpr ⟨by simpa using names.some_, clean, names.text⟩
    refine ⟨ids.map wireId, ?_, by rw [same]; rfl⟩
    rw [pieces]
    exact (Fallible.mapM_eq_ok encodeId_eq_ok).mpr ⟨ids, names.each, rfl, rfl⟩

theorem readForms_flatMap (arcs : List Nat) :
    readForms (arcs.flatMap Base128.encode) = some (arcs.map Base128.encode) :=
  Prefixed.readItems_concat (fun n _ => Base128.readForm_encode n) fun n _ => Base128.encode_ne_nil n

theorem readIds_flatMap {ids : List (List Nat)} (each : ∀ arcs ∈ ids, IsId arcs) :
    readIds (ids.flatMap wireId) = some (ids.map fun arcs => arcs.map Base128.encode) := by
  have reads : ∀ arcs ∈ ids, ∀ rest,
      (do
        let (encoded, rest) ← Prefixed.u8Prefixed (wireId arcs ++ rest)
        let forms ← readForms encoded
        return (forms, rest)) = some (arcs.map Base128.encode, rest) := by
    intro arcs member rest
    have short := (each arcs member).short
    rw [← length_flatMap_encode] at short
    have framed : Prefixed.u8Prefixed (wireId arcs ++ rest) =
        some (arcs.flatMap Base128.encode, rest) :=
      Prefixed.u8Prefixed_eq_some.mpr ⟨Nat.lt_succ_of_le short, rfl⟩
    rw [framed]
    simp only [Option.bind_eq_bind, Option.bind_some, readForms_flatMap]
    rfl
  have nonempty : ∀ arcs ∈ ids, wireId arcs ≠ [] := by
    simp [wireId, ← length_pos_iff]
  exact Prefixed.readItems_concat reads nonempty

/-- A list is taken if it names IDs, which are sent with each number in its shortest form. -/
theorem trustAnchorIds_spec (list : Text) :
    ((∃ wire, trustAnchorIds list = .ok wire) ↔ ∃ ids, Names list ids) ∧
      ∀ wire ids, trustAnchorIds list = .ok wire → Names list ids →
        ∃ forms, readIds wire = some forms ∧
          List.Forall₂ (List.Forall₂ Base128.Shortest) forms ids := by
  constructor
  · constructor
    · intro ⟨wire, taken⟩
      obtain ⟨ids, names, _⟩ := trustAnchorIds_eq_ok.mp taken
      exact ⟨ids, names⟩
    · intro ⟨ids, names⟩
      exact ⟨_, trustAnchorIds_eq_ok.mpr ⟨ids, names, rfl⟩⟩
  · intro wire ids taken names
    have sent := trustAnchorIds_eq_ok.mpr ⟨ids, names, rfl⟩
    obtain rfl : wire = ids.flatMap wireId := by
      rw [taken] at sent
      exact Except.ok.inj sent
    refine ⟨_, readIds_flatMap names.each, ?_⟩
    rw [forall₂_map_left_iff, forall₂_same]
    intro arcs _
    rw [forall₂_map_left_iff, forall₂_same]
    exact fun n _ => Base128.shortest_encode n

end Gozarbin.Tls
