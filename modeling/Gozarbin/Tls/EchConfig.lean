import Mathlib.Data.Nat.Bitwise
import Gozarbin.Lib.Prefixed
import Gozarbin.Net.Addr

/-! # Lists of ECH configs

A list of configs that cannot be used makes the handshake send the server name in the clear, so
a list is checked first. As in the TLS library, the list has to parse as a whole, and the first
config that can be offered has to have a key of the right length.
-/

namespace Gozarbin.Tls

open List Prefixed Fields

def echConfigVersion : Nat := 0xfe0d

def hpkeDhkemX25519HkdfSha256 : Nat := 0x0020

def hpkeHkdfSha256 : Nat := 0x0001

def hpkeAeads : List Nat := [0x0001, 0x0002, 0x0003]

def x25519PublicKeyLen : Nat := 32

def isAsciiDigit (b : UInt8) : Bool := 0x30 ≤ b && b ≤ 0x39

def isAsciiAlphanumeric (b : UInt8) : Bool :=
  isAsciiDigit b || (0x41 ≤ b && b ≤ 0x5a) || (0x61 ≤ b && b ≤ 0x7a)

def isAsciiHexdigit (b : UInt8) : Bool :=
  isAsciiDigit b || (0x41 ≤ b && b ≤ 0x46) || (0x61 ≤ b && b ≤ 0x66)

def dot : UInt8 := 0x2e

def hyphen : UInt8 := 0x2d

def isLabel (label : Bytes) : Bool :=
  let ldh := label.all fun b => isAsciiAlphanumeric b || b == hyphen
  !(label.isEmpty || label.length > 63 || label.head? == some hyphen ||
    label.getLast? == some hyphen || !ldh)

def isHex : Bytes → Bool
  | zero :: x :: rest => zero == 0x30 && (x == 0x78 || x == 0x58) && rest.all isAsciiHexdigit
  | _ => false

def validPublicName (name : Bytes) : Bool :=
  let labels := name.splitOn dot
  let last := labels.getLastD []
  labels.all isLabel && (!last.all isAsciiDigit && !isHex last)

def readExtension (extensions : Bytes) : Option (Nat × Bytes) := do
  let (kind, extensions) ← u16 extensions
  let (_, extensions) ← u16Prefixed extensions
  return (kind, extensions)

def readCipherSuite (cipherSuites : Bytes) : Option ((Nat × Nat) × Bytes) := do
  let (kdf, cipherSuites) ← u16 cipherSuites
  let (aead, cipherSuites) ← u16 cipherSuites
  return ((kdf, aead), cipherSuites)

def echContents (contents : Bytes) : Option (Option Bytes) := do
  let (_, contents) ← u8 contents
  let (kemId, contents) ← u16 contents
  let (publicKey, contents) ← u16Prefixed contents
  let (cipherSuites, contents) ← u16Prefixed contents
  let (_, contents) ← u8 contents
  let (publicName, contents) ← u8Prefixed contents
  let (extensions, contents) ← u16Prefixed contents
  if publicKey.isEmpty || cipherSuites.isEmpty || cipherSuites.length % 4 != 0 || publicName.isEmpty ||
      !contents.isEmpty then none
  -- A config whose public name is invalid is passed over before its extensions are read.
  else if !validPublicName publicName then some none
  else
    let mandatoryExtension ← readItems readExtension (fun found kind => found || kind &&& 0x8000 != 0)
      extensions.length extensions false
    let cipherSuite ← readItems readCipherSuite
      (fun found (kdf, aead) => found || kdf == hpkeHkdfSha256 && hpkeAeads.elem aead)
      cipherSuites.length cipherSuites false
    let offered := !mandatoryExtension && kemId == hpkeDhkemX25519HkdfSha256 && cipherSuite
    some (if offered then some publicKey else none)

def echConfig (configs : Bytes) : Option (Option Bytes × Bytes) := do
  let (version, configs) ← u16 configs
  let (contents, configs) ← u16Prefixed configs
  if version ≠ echConfigVersion then some (none, configs)
  else
    let publicKey ← echContents contents
    some (publicKey, configs)

def malformed : String := "it is no ECHConfigList"

def checkEchConfigList (list : Bytes) : Except String Unit :=
  match u16Prefixed list with
  | none => .error malformed
  | some (configs, whole) =>
    if configs.isEmpty || !whole.isEmpty then .error malformed
    else
      match readItems echConfig (fun picked config => picked.or config) configs.length configs none with
      | none => .error malformed
      | some (some key) =>
        if key.length = x25519PublicKeyLen then .ok ()
        else .error "the X25519 key of its config is not 32 bytes long"
      | some none =>
        .error ("it holds no config BoringSSL offers: ECH version 0xfe0d, X25519, and " ++
          "HKDF-SHA256 with AES-GCM or ChaCha20-Poly1305")

structure IsLabel (label : Bytes) : Prop where
  size : 1 ≤ label.length ∧ label.length ≤ 63
  ldh : ∀ b ∈ label, isAsciiAlphanumeric b = true ∨ b = hyphen
  front : label.head? ≠ some hyphen
  back : label.getLast? ≠ some hyphen

/-- A decimal number, or a hexadecimal one behind `0x`. -/
def IsNumber (label : Bytes) : Prop :=
  (∀ b ∈ label, isAsciiDigit b = true) ∨
    ∃ x rest, label = 0x30 :: x :: rest ∧ (x = 0x78 ∨ x = 0x58) ∧ ∀ b ∈ rest, isAsciiHexdigit b = true

/-- Labels with dots between them, the last of which is no number. -/
def IsPublicName (name : Bytes) : Prop :=
  ∃ front last, name = [dot].intercalate (front ++ [last]) ∧ (∀ label ∈ front ++ [last], IsLabel label) ∧
    ¬IsNumber last

theorem isLabel_iff {label : Bytes} : isLabel label = true ↔ IsLabel label := by
  have size : (label.isEmpty = false ∧ ¬63 < label.length) ↔ 1 ≤ label.length ∧ label.length ≤ 63 := by
    rw [isEmpty_eq_false_iff, ← length_pos_iff]
    omega
  constructor
  · intro good
    simp only [isLabel, Bool.not_eq_true', Bool.or_eq_false_iff, Bool.not_eq_false', all_eq_true,
      Bool.or_eq_true, beq_iff_eq, beq_eq_false_iff_ne, decide_eq_false_iff_not] at good
    obtain ⟨⟨⟨⟨some, short⟩, front⟩, back⟩, ldh⟩ := good
    exact ⟨size.mp ⟨some, short⟩, ldh, front, back⟩
  · rintro ⟨long, ldh, front, back⟩
    obtain ⟨some, short⟩ := size.mpr long
    simp only [isLabel, Bool.not_eq_true', Bool.or_eq_false_iff, Bool.not_eq_false', all_eq_true,
      Bool.or_eq_true, beq_iff_eq, beq_eq_false_iff_ne, decide_eq_false_iff_not]
    exact ⟨⟨⟨⟨some, short⟩, front⟩, back⟩, ldh⟩

theorem IsLabel.no_dot {label : Bytes} (isLabel : IsLabel label) : dot ∉ label := fun mem => by
  rcases isLabel.ldh dot mem with letter | same
  · cases letter
  · cases same

theorem isHex_iff {label : Bytes} :
    isHex label = true ↔
      ∃ x rest, label = 0x30 :: x :: rest ∧ (x = 0x78 ∨ x = 0x58) ∧
        ∀ b ∈ rest, isAsciiHexdigit b = true := by
  rcases label with _ | ⟨zero, _ | ⟨x, rest⟩⟩
  · simp [isHex]
  · simp [isHex]
  · simp [isHex, and_assoc]

theorem isNumber_iff {label : Bytes} :
    (!label.all isAsciiDigit && !isHex label) = true ↔ ¬IsNumber label := by
  rw [← Bool.not_or, Bool.not_eq_true', ← Bool.not_eq_true, Bool.or_eq_true, isHex_iff, all_eq_true,
    IsNumber]

theorem validPublicName_iff {name : Bytes} : validPublicName name = true ↔ IsPublicName name := by
  rw [validPublicName, Bool.and_eq_true, isNumber_iff, all_eq_true]
  constructor
  · rintro ⟨labels, last⟩
    have some := splitOn_ne_nil dot name
    refine ⟨(name.splitOn dot).dropLast, (name.splitOn dot).getLastD [], ?_, ?_, last⟩
    · rw [getLastD_eq_getLast?, List.getLast?_eq_some_getLast some, Option.getD_some,
        dropLast_append_getLast, intercalate_splitOn]
    · rw [getLastD_eq_getLast?, List.getLast?_eq_some_getLast some, Option.getD_some,
        dropLast_append_getLast]
      exact fun label mem => isLabel_iff.mp (labels label mem)
  · rintro ⟨front, last, rfl, labels, notNumber⟩
    rw [splitOn_intercalate dot (fun label mem => (labels label mem).no_dot) (by simp)]
    rw [getLastD_concat]
    exact ⟨fun label mem => isLabel_iff.mpr (labels label mem), notNumber⟩

def encodeCipherSuite (suite : Nat × Nat) : Bytes :=
  BigEndian.toBytes 2 suite.1 ++ BigEndian.toBytes 2 suite.2

/-- Extensions one after another. -/
structure AreExtensions (records : List Record) (bytes : Bytes) : Prop where
  fits : ∀ r ∈ records, r.Fits 2
  bytes : bytes = records.flatMap (Record.encode 2)

/-- What a config of the known version holds. -/
structure EchContents where
  configId : Nat
  kemId : Nat
  publicKey : Bytes
  cipherSuites : List (Nat × Nat)
  maximumNameLength : Nat
  publicName : Bytes
  extensions : Bytes
  configId_lt : configId < 256
  kemId_lt : kemId < 65536
  publicKey_ne : publicKey ≠ []
  publicKey_lt : publicKey.length < 65536
  cipherSuites_ne : cipherSuites ≠ []
  cipherSuite_lt : ∀ suite ∈ cipherSuites, suite.1 < 65536 ∧ suite.2 < 65536
  cipherSuites_lt : (cipherSuites.flatMap encodeCipherSuite).length < 65536
  maximumNameLength_lt : maximumNameLength < 256
  publicName_ne : publicName ≠ []
  publicName_lt : publicName.length < 256
  extensions_lt : extensions.length < 65536
  extensions_good : IsPublicName publicName → ∃ records, AreExtensions records extensions

namespace EchContents

def encode (c : EchContents) : Bytes :=
  BigEndian.toBytes 1 c.configId ++ (BigEndian.toBytes 2 c.kemId ++ (framed 2 c.publicKey ++
    (framed 2 (c.cipherSuites.flatMap encodeCipherSuite) ++ (BigEndian.toBytes 1 c.maximumNameLength ++
      (framed 1 c.publicName ++ framed 2 c.extensions)))))

/-- The library can offer it, but for its key. -/
structure Usable (c : EchContents) : Prop where
  name : IsPublicName c.publicName
  optional : ∀ records, AreExtensions records c.extensions → ∀ r ∈ records, r.kind < 0x8000
  kem : c.kemId = 0x0020
  suite : ∃ suite ∈ c.cipherSuites, suite.1 = 1 ∧ (suite.2 = 1 ∨ suite.2 = 2 ∨ suite.2 = 3)

end EchContents

/-- A config of a list. Nothing is known of the contents of one of another version. -/
inductive EchConfig where
  | known (contents : EchContents) (short : contents.encode.length < 65536)
  | other (version : Nat) (contents : Bytes) (version_lt : version < 65536)
      (other : version ≠ echConfigVersion) (short : contents.length < 65536)

namespace EchConfig

def encode : EchConfig → Bytes
  | .known contents _ => BigEndian.toBytes 2 echConfigVersion ++ framed 2 contents.encode
  | .other version contents _ _ _ => BigEndian.toBytes 2 version ++ framed 2 contents

end EchConfig

/-- Configs, of which the first that can be offered has a key of 32 bytes. -/
def IsOfferable (list : Bytes) : Prop :=
  ∃ configs : List EchConfig, configs ≠ [] ∧ (configs.flatMap EchConfig.encode).length < 65536 ∧
    list = framed 2 (configs.flatMap EchConfig.encode) ∧
    ∃ front contents short back, configs = front ++ .known contents short :: back ∧ contents.Usable ∧
      (∀ c short, EchConfig.known c short ∈ front → ¬c.Usable) ∧ contents.publicKey.length = 32

section
variable {bytes rest : Bytes}

theorem readExtension_eq_some {kind : Nat} :
    readExtension bytes = some (kind, rest) ↔
      ∃ r : Record, r.Fits 2 ∧ r.kind = kind ∧ bytes = r.encode 2 ++ rest := by
  simp only [readExtension, Option.bind_eq_bind, Option.bind_eq_some_iff, Prod.exists, u16_eq_some,
    u16Prefixed_eq_some, Option.pure_def, Option.some.injEq, Prod.mk.injEq]
  constructor
  · rintro ⟨kind', after, ⟨small, rfl⟩, value, rest', ⟨short, rfl⟩, rfl, rfl⟩
    exact ⟨⟨kind', value⟩, ⟨small, short⟩, rfl, by simp [Record.encode, framed]⟩
  · rintro ⟨r, fits, rfl, rfl⟩
    exact ⟨r.kind, framed 2 r.value ++ rest, ⟨fits.kind, by simp [Record.encode, framed]⟩, r.value, rest,
      ⟨fits.length, rfl⟩, rfl, rfl⟩

theorem readCipherSuite_eq_some {suite : Nat × Nat} :
    readCipherSuite bytes = some (suite, rest) ↔
      ∃ s : Nat × Nat, (s.1 < 65536 ∧ s.2 < 65536) ∧ s = suite ∧ bytes = encodeCipherSuite s ++ rest := by
  simp only [readCipherSuite, Option.bind_eq_bind, Option.bind_eq_some_iff, Prod.exists, u16_eq_some,
    Option.pure_def, Option.some.injEq, Prod.mk.injEq]
  constructor
  · rintro ⟨kdf, after, ⟨small, rfl⟩, aead, rest', ⟨small', rfl⟩, rfl, rfl⟩
    exact ⟨kdf, aead, ⟨small, small'⟩, rfl, by simp [encodeCipherSuite]⟩
  · rintro ⟨kdf, aead, ⟨small, small'⟩, rfl, rfl⟩
    exact ⟨kdf, BigEndian.toBytes 2 aead ++ rest, ⟨small, by simp [encodeCipherSuite]⟩, aead, rest,
      ⟨small', rfl⟩, rfl, rfl⟩

theorem length_cipherSuites (suites : List (Nat × Nat)) :
    (suites.flatMap encodeCipherSuite).length = 4 * suites.length := by
  induction suites with
  | nil => rfl
  | cons suite suites ih =>
    rw [flatMap_cons, length_append, ih, length_cons]
    simp only [encodeCipherSuite, length_append, BigEndian.length_toBytes]
    omega

theorem exists_cipherSuites (n : Nat) (length : bytes.length = 4 * n) :
    ∃ suites : List (Nat × Nat), (∀ suite ∈ suites, suite.1 < 65536 ∧ suite.2 < 65536) ∧
      bytes = suites.flatMap encodeCipherSuite := by
  induction n generalizing bytes with
  | zero =>
    obtain rfl := length_eq_zero_iff.mp length
    exact ⟨[], by simp, rfl⟩
  | succ n ih =>
    obtain ⟨a, b, c, d, rest, rfl⟩ : ∃ a b c d rest, bytes = a :: b :: c :: d :: rest := by
      rcases bytes with _ | ⟨a, _ | ⟨b, _ | ⟨c, _ | ⟨d, rest⟩⟩⟩⟩ <;> simp at length <;> try omega
      exact ⟨a, b, c, d, rest, rfl⟩
    have shorter : rest.length = 4 * n := by simp at length; omega
    obtain ⟨suites, small, rfl⟩ := ih shorter
    have pair : ∀ x y : UInt8, BigEndian.ofBytes [x, y] < 256 ^ 2 ∧
        BigEndian.toBytes 2 (BigEndian.ofBytes [x, y]) = [x, y] := fun x y =>
      ⟨BigEndian.ofBytes_lt [x, y], BigEndian.toBytes_ofBytes [x, y]⟩
    refine ⟨(BigEndian.ofBytes [a, b], BigEndian.ofBytes [c, d]) :: suites,
      forall_mem_cons.mpr ⟨⟨(pair a b).1, (pair c d).1⟩, small⟩, ?_⟩
    rw [flatMap_cons, encodeCipherSuite, (pair a b).2, (pair c d).2]
    rfl

end

theorem foldl_or {α : Type} (p : α → Bool) (list : List α) (found : Bool) :
    list.foldl (fun found a => found || p a) found = (found || list.any p) := by
  induction list generalizing found with
  | nil => simp
  | cons a list ih => rw [foldl_cons, ih, any_cons, Bool.or_assoc]

theorem top_bit {kind : Nat} (small : kind < 65536) : (kind &&& 0x8000 != 0) = decide (0x8000 ≤ kind) := by
  have bit : kind &&& 0x8000 = (kind.testBit 15).toNat * 2 ^ 15 := Nat.and_two_pow kind 15
  rw [bit, Nat.testBit_eq_decide_div_mod_eq]
  by_cases top : 0x8000 ≤ kind
  · have one : kind / 2 ^ 15 % 2 = 1 := by omega
    rw [one, decide_eq_true top]
    rfl
  · have zero : kind / 2 ^ 15 % 2 = 0 := by omega
    rw [zero, decide_eq_false top]
    rfl

theorem encode_record_ne (r : Record) : r.encode 2 ≠ [] := by
  rw [← length_pos_iff, Record.length_encode]
  omega

theorem read_extensions {records : List Record} {bytes : Bytes} (are : AreExtensions records bytes) :
    readItems readExtension (fun found kind => found || kind &&& 0x8000 != 0) bytes.length bytes false =
      some (records.any fun r => 0x8000 ≤ r.kind) := by
  refine (readItems_eq_some readExtension_eq_some encode_record_ne (Nat.le_refl _)).mpr
    ⟨records, are.fits, are.bytes, ?_⟩
  rw [foldl_or fun r : Record => r.kind &&& 0x8000 != 0, Bool.false_or, Bool.eq_iff_iff, any_eq_true,
    any_eq_true]
  exact exists_congr fun r => and_congr_right fun mem => by rw [top_bit (are.fits r mem).kind]

theorem exists_extensions {bytes : Bytes} {found : Bool}
    (read : readItems readExtension (fun found kind => found || kind &&& 0x8000 != 0) bytes.length bytes
      false = some found) : ∃ records, AreExtensions records bytes := by
  obtain ⟨records, fits, whole, -⟩ :=
    (readItems_eq_some readExtension_eq_some encode_record_ne (Nat.le_refl _)).mp read
  exact ⟨records, fits, whole⟩

theorem read_cipherSuites {suites : List (Nat × Nat)}
    (small : ∀ suite ∈ suites, suite.1 < 65536 ∧ suite.2 < 65536) :
    readItems readCipherSuite
      (fun found (kdf, aead) => found || kdf == hpkeHkdfSha256 && hpkeAeads.elem aead)
      (suites.flatMap encodeCipherSuite).length (suites.flatMap encodeCipherSuite) false =
      some (suites.any fun (kdf, aead) => kdf == hpkeHkdfSha256 && hpkeAeads.elem aead) := by
  refine (readItems_eq_some readCipherSuite_eq_some (by simp [encodeCipherSuite, BigEndian.toBytes])
    (Nat.le_refl _)).mpr ⟨suites, small, rfl, ?_⟩
  exact ((foldl_or (fun s : Nat × Nat => s.1 == hpkeHkdfSha256 && hpkeAeads.elem s.2) suites false).trans
    (Bool.false_or _)).symm

namespace EchContents

open Classical in
noncomputable def offered (c : EchContents) : Option Bytes := if c.Usable then some c.publicKey else none

variable {c : EchContents}

theorem usable_iff {records : List Record} (name : IsPublicName c.publicName)
    (are : AreExtensions records c.extensions) :
    c.Usable ↔ (!(records.any fun r => 0x8000 ≤ r.kind) && c.kemId == hpkeDhkemX25519HkdfSha256 &&
      c.cipherSuites.any fun (kdf, aead) => kdf == hpkeHkdfSha256 && hpkeAeads.elem aead) = true := by
  have only : ∀ records', AreExtensions records' c.extensions →
      ((records'.any fun r => 0x8000 ≤ r.kind) = records.any fun r => 0x8000 ≤ r.kind) :=
    fun records' are' => Option.some.inj ((read_extensions are').symm.trans (read_extensions are))
  have optional : (∀ records', AreExtensions records' c.extensions → ∀ r ∈ records', r.kind < 0x8000) ↔
      (records.any fun r => 0x8000 ≤ r.kind) = false := by
    constructor
    · intro all
      simpa using all records are
    · intro none records' are'
      have none' := (only records' are').trans none
      simpa using none'
  have suite : (∃ suite ∈ c.cipherSuites, suite.1 = 1 ∧ (suite.2 = 1 ∨ suite.2 = 2 ∨ suite.2 = 3)) ↔
      (c.cipherSuites.any fun (kdf, aead) => kdf == hpkeHkdfSha256 && hpkeAeads.elem aead) = true := by
    simp [hpkeHkdfSha256, hpkeAeads]
  rw [Bool.and_eq_true, Bool.and_eq_true, Bool.not_eq_true', ← optional, beq_iff_eq, ← suite]
  exact ⟨fun usable => ⟨⟨usable.optional, usable.kem⟩, usable.suite⟩,
    fun ⟨⟨optional, kem⟩, suite⟩ => ⟨name, optional, kem, suite⟩⟩

theorem echContents_encode (c : EchContents) : echContents c.encode = some c.offered := by
  have suites_ne : c.cipherSuites.flatMap encodeCipherSuite ≠ [] := by
    rw [← length_pos_iff, length_cipherSuites]
    have := length_pos_iff.mpr c.cipherSuites_ne
    omega
  have four : (c.cipherSuites.flatMap encodeCipherSuite).length % 4 = 0 := by
    rw [length_cipherSuites]
    omega
  have last := u16Prefixed_eq_some.mpr ⟨c.extensions_lt, (append_nil (framed 2 c.extensions)).symm⟩
  simp only [echContents, encode, Option.bind_eq_bind, u8_eq_some.mpr ⟨c.configId_lt, rfl⟩,
    u16_eq_some.mpr ⟨c.kemId_lt, rfl⟩, u16Prefixed_eq_some.mpr ⟨c.publicKey_lt, rfl⟩,
    u16Prefixed_eq_some.mpr ⟨c.cipherSuites_lt, rfl⟩, u8_eq_some.mpr ⟨c.maximumNameLength_lt, rfl⟩,
    u8Prefixed_eq_some.mpr ⟨c.publicName_lt, rfl⟩, last, Option.bind_some]
  rw [if_neg (by rw [four]; simp [c.publicKey_ne, c.publicName_ne, suites_ne])]
  by_cases name : IsPublicName c.publicName
  · obtain ⟨records, are⟩ := c.extensions_good name
    rw [if_neg (by simp [validPublicName_iff.mpr name]), read_extensions are, Option.bind_some,
      read_cipherSuites c.cipherSuite_lt, Option.bind_some, offered]
    by_cases usable : c.Usable
    · rw [if_pos usable, if_pos ((usable_iff name are).mp usable)]
    · rw [if_neg usable, if_neg (mt (usable_iff name are).mpr usable)]
  · rw [if_pos (by simpa using mt validPublicName_iff.mp name), offered,
      if_neg fun usable => name usable.name]

theorem exists_of_echContents {bytes : Bytes} {key : Option Bytes} (read : echContents bytes = some key) :
    ∃ c : EchContents, bytes = c.encode := by
  simp only [echContents, Option.bind_eq_bind, Option.bind_eq_some_iff, Prod.exists, u8_eq_some,
    u16_eq_some, u8Prefixed_eq_some, u16Prefixed_eq_some] at read
  obtain ⟨configId, _, ⟨configId_lt, rfl⟩, kemId, _, ⟨kemId_lt, rfl⟩, publicKey, _, ⟨publicKey_lt, rfl⟩,
    cipherSuites, _, ⟨cipherSuites_lt, rfl⟩, maximumNameLength, _, ⟨maximumNameLength_lt, rfl⟩,
    publicName, _, ⟨publicName_lt, rfl⟩, extensions, left, ⟨extensions_lt, rfl⟩, read⟩ := read
  rw [Option.ite_none_left_eq_some] at read
  obtain ⟨shape, read⟩ := read
  simp only [Bool.or_eq_true, not_or, List.isEmpty_iff, bne_iff_ne, ne_eq, not_not, Bool.not_eq_true',
    Bool.not_eq_false] at shape
  obtain ⟨⟨⟨⟨publicKey_ne, suites_ne⟩, four⟩, publicName_ne⟩, rfl⟩ := shape
  have groups : cipherSuites.length = 4 * (cipherSuites.length / 4) := by omega
  obtain ⟨suites, suite_lt, rfl⟩ := exists_cipherSuites _ groups
  have extensions_good : IsPublicName publicName → ∃ records, AreExtensions records extensions := by
    intro name
    rw [if_neg (by simp [validPublicName_iff.mpr name])] at read
    obtain ⟨found, extensionsRead, -⟩ := Option.bind_eq_some_iff.mp read
    exact exists_extensions extensionsRead
  refine ⟨⟨configId, kemId, publicKey, suites, maximumNameLength, publicName, extensions, configId_lt,
    kemId_lt, publicKey_ne, publicKey_lt, ?_, suite_lt, cipherSuites_lt, maximumNameLength_lt,
    publicName_ne, publicName_lt, extensions_lt, extensions_good⟩, ?_⟩
  · rintro rfl
    exact suites_ne rfl
  · rw [encode, append_nil]

end EchContents

namespace EchConfig

noncomputable def offered : EchConfig → Option Bytes
  | .known contents _ => contents.offered
  | .other .. => none

theorem encode_ne (config : EchConfig) : config.encode ≠ [] := by
  rw [← length_pos_iff]
  cases config with
  | known => simp [encode]
  | other => simp [encode]

theorem echConfig_eq_some {bytes rest : Bytes} {key : Option Bytes} :
    echConfig bytes = some (key, rest) ↔
      ∃ config : EchConfig, True ∧ config.offered = key ∧ bytes = config.encode ++ rest := by
  simp only [echConfig, Option.bind_eq_bind, Option.bind_eq_some_iff, Prod.exists, u16_eq_some,
    u16Prefixed_eq_some]
  constructor
  · rintro ⟨version, _, ⟨version_lt, rfl⟩, contents, left, ⟨short, rfl⟩, read⟩
    by_cases known : version = echConfigVersion
    · subst known
      obtain ⟨key', contentsRead, same⟩ := Option.bind_eq_some_iff.mp read
      cases same
      obtain ⟨c, rfl⟩ := EchContents.exists_of_echContents contentsRead
      rw [c.echContents_encode] at contentsRead
      exact ⟨.known c short, trivial, Option.some.inj contentsRead, by rw [encode, append_assoc]⟩
    · rw [if_pos known] at read
      cases read
      exact ⟨.other version contents version_lt known short, trivial, rfl,
        by rw [encode, append_assoc]⟩
  · rintro ⟨config, -, rfl, rfl⟩
    cases config with
    | known c short =>
      refine ⟨echConfigVersion, framed 2 c.encode ++ rest, ⟨by decide, by rw [encode, append_assoc]⟩,
        c.encode, rest, ⟨short, rfl⟩, ?_⟩
      rw [if_neg (not_not.mpr rfl), c.echContents_encode]
      rfl
    | other version contents version_lt other short =>
      refine ⟨version, framed 2 contents ++ rest, ⟨version_lt, by rw [encode, append_assoc]⟩,
        contents, rest, ⟨short, rfl⟩, ?_⟩
      rw [if_pos other]
      rfl

end EchConfig

theorem foldl_picked (configs : List EchConfig) (picked : Option Bytes) :
    configs.foldl (fun picked config => picked.or config.offered) picked =
      picked.or (configs.findSome? EchConfig.offered) := by
  induction configs generalizing picked with
  | nil => simp
  | cons config configs ih =>
    rw [foldl_cons, ih, List.findSome?_cons, Option.or_assoc]
    cases config.offered <;> rfl

theorem EchContents.offered_eq_some {c : EchContents} {key : Bytes} :
    c.offered = some key ↔ c.Usable ∧ c.publicKey = key := by
  rw [offered, Option.ite_none_right_eq_some, Option.some.injEq]

theorem picked_eq_some {configs : List EchConfig} {key : Bytes} :
    configs.findSome? EchConfig.offered = some key ↔
      ∃ front contents short back, configs = front ++ .known contents short :: back ∧ contents.Usable ∧
        (∀ c short, EchConfig.known c short ∈ front → ¬c.Usable) ∧ contents.publicKey = key := by
  rw [List.findSome?_eq_some_iff]
  constructor
  · rintro ⟨front, config, back, rfl, offers, passed⟩
    cases config with
    | other => cases offers
    | known c short =>
      obtain ⟨usable, key⟩ := EchContents.offered_eq_some.mp offers
      refine ⟨front, c, short, back, rfl, usable, fun c' short' mem usable' => ?_, key⟩
      have none := passed _ mem
      rw [EchConfig.offered, EchContents.offered_eq_some.mpr ⟨usable', rfl⟩] at none
      cases none
  · rintro ⟨front, c, short, back, rfl, usable, passed, key⟩
    refine ⟨front, .known c short, back, rfl, EchContents.offered_eq_some.mpr ⟨usable, key⟩, ?_⟩
    intro config mem
    cases config with
    | other => rfl
    | known c' short' =>
      rw [EchConfig.offered, EchContents.offered, if_neg (passed c' short' mem)]

theorem checkEchConfigList_eq_ok {list : Bytes} :
    checkEchConfigList list = .ok () ↔
      ∃ configs key, u16Prefixed list = some (configs, []) ∧ configs ≠ [] ∧
        readItems echConfig (fun picked config => picked.or config) configs.length configs none =
          some (some key) ∧ key.length = x25519PublicKeyLen := by
  rw [checkEchConfigList]
  constructor
  · intro passes
    split at passes
    · cases passes
    next configs whole read =>
      split at passes
      · cases passes
      next shape =>
        simp only [Bool.or_eq_true, not_or, List.isEmpty_iff, Bool.not_eq_true', Bool.not_eq_false] at shape
        obtain ⟨nonempty, rfl⟩ := shape
        split at passes
        · cases passes
        next key found =>
          split at passes
          next length => exact ⟨configs, key, read, nonempty, found, length⟩
          · cases passes
        · cases passes
  · rintro ⟨configs, key, read, nonempty, found, length⟩
    rw [read]
    dsimp only
    rw [if_neg (by simpa using nonempty), found]
    exact if_pos length

theorem read_configs {bytes : Bytes} {picked : Option Bytes} :
    readItems echConfig (fun picked config => picked.or config) bytes.length bytes none = some picked ↔
      ∃ configs : List EchConfig, bytes = configs.flatMap EchConfig.encode ∧
        configs.findSome? EchConfig.offered = picked := by
  rw [readItems_eq_some EchConfig.echConfig_eq_some EchConfig.encode_ne (Nat.le_refl _)]
  refine exists_congr fun configs => ?_
  rw [foldl_picked, Option.none_or, eq_comm (a := picked)]
  exact ⟨fun ⟨_, same, first⟩ => ⟨same, first⟩, fun ⟨same, first⟩ => ⟨by simp, same, first⟩⟩

/-- The check lets precisely the lists pass that can be offered. -/
theorem ech_config_list_checked (list : Bytes) : checkEchConfigList list = .ok () ↔ IsOfferable list := by
  rw [checkEchConfigList_eq_ok]
  constructor
  · rintro ⟨bytes, key, read, -, found, length⟩
    obtain ⟨short, rfl⟩ := u16Prefixed_eq_some.mp read
    obtain ⟨configs, rfl, picked⟩ := read_configs.mp found
    obtain ⟨front, c, short', back, rfl, usable, passed, rfl⟩ := picked_eq_some.mp picked
    exact ⟨_, by simp, short, append_nil _, front, c, short', back, rfl, usable, passed, length⟩
  · rintro ⟨configs, some, short, rfl, front, c, short', back, same, usable, passed, length⟩
    have picked := picked_eq_some.mpr ⟨front, c, short', back, same, usable, passed, rfl⟩
    refine ⟨_, c.publicKey, u16Prefixed_eq_some.mpr ⟨short, (append_nil _).symm⟩, ?_,
      read_configs.mpr ⟨configs, rfl, picked⟩, length⟩
    exact fun empty => some (eq_nil_of_flatMap EchConfig.encode_ne empty)

-- A config for the name `a.bc` passes; one for `a.0x` alone does not, its name being a number.
example : checkEchConfigList ([0, 55, 0xfe, 0x0d, 0, 51, 1, 0, 0x20, 0, 32] ++ List.replicate 32 7 ++
    [0, 4, 0, 1, 0, 1, 0, 4, 0x61, 0x2e, 0x62, 0x63, 0, 0]) = .ok () := by decide

example : checkEchConfigList ([0, 55, 0xfe, 0x0d, 0, 51, 1, 0, 0x20, 0, 32] ++ List.replicate 32 7 ++
    [0, 4, 0, 1, 0, 1, 0, 4, 0x61, 0x2e, 0x30, 0x78, 0, 0]) ≠ .ok () := by decide

end Gozarbin.Tls
