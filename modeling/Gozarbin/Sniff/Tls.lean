import Gozarbin.Sniff.Hello
import Gozarbin.Net.AddrText

/-! # The server name of a TLS connection

A TLS connection starts with a ClientHello, in which a client names the server it wants.
`tls_sni` reads that name off the first bytes of the connection, which may end anywhere:
the record, the hello and its extensions are all cut to what is there.
-/

namespace Gozarbin.Sniff

open List Fields AddrText BigEndian

def tlsHandshake : UInt8 := 0x16
def tlsClientHello : UInt8 := 0x01
def extServerName : Nat := 0x0000
def sniHostName : UInt8 := 0x00
def maxHostLen : Nat := 253

def be16 (buf : Bytes) (offset : Nat) : Option Nat := do
  let hi ← buf[offset]?
  let lo ← buf[offset + 1]?
  return (hi.toNat <<< 8) ||| lo.toNat

def be24 (buf : Bytes) (offset : Nat) : Option Nat := do
  let a ← buf[offset]?
  let b ← buf[offset + 1]?
  let c ← buf[offset + 2]?
  return (a.toNat <<< 16) ||| (b.toNat <<< 8) ||| c.toNat

def isHostChar (c : Char) : Bool := c.isAlphanum || c == '-' || c == '.' || c == '_'

def plausibleHost (ucd : Text.Ucd) (raw : Bytes) : Option Text :=
  if raw.isEmpty || raw.length > maxHostLen then none
  else do
    let name ← Text.fromUtf8 raw
    let name := Text.trimEndMatches '.' name.trim
    if name.isEmpty || name.byteLength > maxHostLen then none
    else if !name.all isHostChar || !name.contains ['.'] then none
    else if (parseIpAddr name).isSome then none
    else some (name.toLowercase ucd)

def clientHello (buf : Bytes) : Option Bytes := do
  let first ← buf.head?
  if first ≠ tlsHandshake then none
  else
    let recordLen ← be16 buf 3
    let recordEnd := min (5 + recordLen) buf.length
    let body ← range buf 5 recordEnd
    let kind ← body.head?
    if kind ≠ tlsClientHello then none
    else
      let helloLen ← be24 body 1
      let helloEnd := min (4 + helloLen) body.length
      range body 4 helloEnd

def extensionBounds (hello : Bytes) : Option (Nat × Nat) := do
  let offset := 2 + 32
  let sessionLen ← hello[offset]?
  let offset := offset + (1 + sessionLen.toNat)
  let cipherLen ← be16 hello offset
  let offset := offset + (2 + cipherLen)
  let compressionLen ← hello[offset]?
  let offset := offset + (1 + compressionLen.toNat)
  let extensionsLen ← be16 hello offset
  let offset := offset + 2
  return (offset, min (offset + extensionsLen) hello.length)

def findExtension (hello : Bytes) (extensionsEnd : Nat) : (fuel offset : Nat) → Option Bytes
  | 0, _ => none
  | fuel + 1, offset =>
    if offset + 4 ≤ extensionsEnd then do
      let kind ← be16 hello offset
      let len ← be16 hello (offset + 2)
      let dataStart := offset + 4
      let dataEnd := dataStart + len
      if dataEnd > extensionsEnd then none
      else if kind = extServerName then range hello dataStart dataEnd
      else findExtension hello extensionsEnd fuel dataEnd
    else none

def findHostName (data : Bytes) (listEnd : Nat) : (fuel offset : Nat) → Option Bytes
  | 0, _ => none
  | fuel + 1, offset =>
    if offset + 3 ≤ listEnd then do
      let kind ← data[offset]?
      let len ← be16 data (offset + 1)
      let start := offset + 3
      let stop := start + len
      if stop > listEnd then none
      else if kind = sniHostName then range data start stop
      else findHostName data listEnd fuel stop
    else none

def firstServerName (ucd : Text.Ucd) (data : Bytes) : Option Text := do
  let listLen ← be16 data 0
  let listEnd := min (2 + listLen) data.length
  let name ← findHostName data listEnd (data.length + 1) 2
  plausibleHost ucd name

def serverNames (buf : Bytes) : Option Bytes := do
  let hello ← clientHello buf
  let (offset, extensionsEnd) ← extensionBounds hello
  findExtension hello extensionsEnd (hello.length + 1) offset

def tlsSni (ucd : Text.Ucd) (buf : Bytes) : Option Text := do
  let data ← serverNames buf
  firstServerName ucd data

theorem byte_eq (buf : Bytes) (offset : Nat) : buf[offset]?.map UInt8.toNat = number 1 buf offset := by
  have shift : buf[offset]? = (buf.drop offset)[0]? := by rw [List.getElem?_drop, Nat.add_zero]
  rw [number_succ, shift]
  cases buf.drop offset with
  | nil => rfl
  | cons a rest => simp [BigEndian.ofBytes]

theorem shift_or_byte (n : Nat) (b : UInt8) : n <<< 8 ||| b.toNat = 256 * n + b.toNat := by
  rw [← Nat.shiftLeft_add_eq_or_of_lt b.toNat_lt, Nat.shiftLeft_eq, Nat.mul_comm]

theorem be16_eq (buf : Bytes) (offset : Nat) : be16 buf offset = number 2 buf offset := by
  have shift : ∀ i, buf[offset + i]? = (buf.drop offset)[i]? := fun i => List.getElem?_drop.symm
  rw [number_succ, be16, ← Nat.add_zero offset, shift 0, shift 1, Nat.add_zero]
  match buf.drop offset with
  | [] | [_] => rfl
  | hi :: lo :: rest => simp [BigEndian.ofBytes, shift_or_byte]

theorem be24_eq (buf : Bytes) (offset : Nat) : be24 buf offset = number 3 buf offset := by
  have shift : ∀ i, buf[offset + i]? = (buf.drop offset)[i]? := fun i => List.getElem?_drop.symm
  rw [number_succ, be24, ← Nat.add_zero offset, shift 0, shift 1, shift 2, Nat.add_zero]
  match buf.drop offset with
  | [] | [_] | [_, _] => rfl
  | a :: b :: c :: rest =>
    have twice : a.toNat <<< 16 ||| b.toNat <<< 8 = (a.toNat <<< 8 ||| b.toNat) <<< 8 := by
      rw [Nat.shiftLeft_or_distrib, ← Nat.shiftLeft_add]
    simp [BigEndian.ofBytes, shift_or_byte, twice]

theorem findExtension_eq (hello : Bytes) (extensionsEnd fuel offset : Nat) :
    findExtension hello extensionsEnd fuel offset =
      find 2 hello extensionsEnd extServerName fuel offset := by
  induction fuel generalizing offset with
  | zero => rfl
  | succ fuel ih =>
    simp only [findExtension, be16_eq, ih]
    rfl

theorem findHostName_eq (data : Bytes) (listEnd fuel offset : Nat) :
    findHostName data listEnd fuel offset = find 1 data listEnd sniHostName.toNat fuel offset := by
  induction fuel generalizing offset with
  | zero => rfl
  | succ fuel ih =>
    simp only [findHostName, find, be16_eq, ih, ← byte_eq]
    cases data[offset]? with
    | none => rfl
    | some kind => simp [UInt8.toNat_inj]

theorem findExtension_fuel {hello : Bytes} {extensionsEnd fuel : Nat}
    (inside : extensionsEnd ≤ hello.length) (enough : hello.length < fuel) (offset : Nat) :
    findExtension hello extensionsEnd fuel offset =
      findExtension hello extensionsEnd (hello.length + 1) offset := by
  rw [findExtension_eq, findExtension_eq]
  exact find_fuel (by omega) (by omega)

theorem findHostName_fuel {data : Bytes} {listEnd fuel : Nat} (inside : listEnd ≤ data.length)
    (enough : data.length < fuel) (offset : Nat) :
    findHostName data listEnd fuel offset = findHostName data listEnd (data.length + 1) offset := by
  rw [findHostName_eq, findHostName_eq]
  exact find_fuel (by omega) (by omega)

theorem extensionBounds_eq (hello : Bytes) :
    extensionBounds hello =
      (number 1 hello 34).bind fun session =>
        (number 2 hello (34 + (1 + session))).bind fun cipher =>
          (number 1 hello (34 + (1 + session) + (2 + cipher))).bind fun compression =>
            (number 2 hello (34 + (1 + session) + (2 + cipher) + (1 + compression))).bind fun length =>
              some (34 + (1 + session) + (2 + cipher) + (1 + compression) + 2,
                min (34 + (1 + session) + (2 + cipher) + (1 + compression) + 2 + length)
                  hello.length) := by
  simp only [extensionBounds, be16_eq, ← byte_eq, Option.bind_map]
  rfl

theorem range_message (r : HelloRecord) {buf trailing : Bytes}
    (split : buf.drop 3 = toBytes 2 r.message.length ++ (r.message ++ trailing)) :
    be16 buf 3 = some r.message.length ∧
      range buf 5 (min (5 + r.message.length) buf.length) = some r.message := by
  have fits := r.fits
  have small : r.message.length < 256 ^ 2 := by
    rw [r.length_message]
    omega
  have length := number_of_drop split small
  have inside := number_le length
  have behind := drop_add split
  rw [length_toBytes] at behind
  have total := congrArg List.length behind
  rw [length_drop, length_append] at total
  refine ⟨(be16_eq buf 3).trans length, ?_⟩
  rw [Nat.min_eq_left (by omega)]
  exact range_of_drop inside behind

theorem range_hello (r : HelloRecord) :
    be24 r.message 1 = some r.hello.encode.length ∧
      range r.message 4 (min (4 + r.hello.encode.length) r.message.length) = some r.hello.encode := by
  have fits := r.fits
  have split : r.message.drop 1 = toBytes 3 r.hello.encode.length ++ r.hello.encode := rfl
  have small : r.hello.encode.length < 256 ^ 3 := by omega
  have length := number_of_drop split small
  have inside := number_le length
  have behind := drop_add split
  rw [length_toBytes, ← append_nil r.hello.encode] at behind
  refine ⟨(be24_eq r.message 1).trans length, ?_⟩
  rw [r.length_message, Nat.add_comm _ 4, Nat.min_self]
  exact range_of_drop inside behind

theorem clientHello_encode (r : HelloRecord) (trailing : Bytes) :
    clientHello (r.encode ++ trailing) = some r.hello.encode := by
  have whole : (r.encode ++ trailing).drop 1 = r.version ++
      (toBytes 2 r.message.length ++ (r.message ++ trailing)) := by
    simp [HelloRecord.encode]
  have behind := drop_add whole
  rw [r.version_length] at behind
  obtain ⟨length, message⟩ := range_message r behind
  obtain ⟨length', hello⟩ := range_hello r
  have first : (r.encode ++ trailing).head? = some tlsHandshake := rfl
  have kind : r.message.head? = some tlsClientHello := rfl
  simp only [clientHello, Option.bind_eq_bind, first, Option.bind_some, ne_eq, not_true, if_false,
    length, message, kind, length', hello]

variable {h : Hello}

theorem extensionBounds_encode (h : Hello) :
    ∃ offset, h.encode.drop offset = Hello.extensionField h.extensions ∧
      offset ≤ h.encode.length ∧
      extensionBounds h.encode = (number 2 h.encode offset).bind fun length =>
        some (offset + 2, min (offset + 2 + length) h.encode.length) := by
  have at_version : h.encode.drop 0 = h.version ++ _ := rfl
  have at_random := drop_add at_version
  rw [h.version_length] at at_random
  have at_session := drop_add at_random
  rw [h.random_length] at at_session
  have session := number_of_drop at_session h.session_fits
  have at_ciphers := drop_add (drop_add at_session)
  rw [length_toBytes, Nat.add_assoc] at at_ciphers
  have ciphers := number_of_drop at_ciphers h.ciphers_fit
  have at_compression := drop_add (drop_add at_ciphers)
  rw [length_toBytes, Nat.add_assoc _ 2] at at_compression
  have compression := number_of_drop at_compression h.compression_fits
  have at_extensions := drop_add (drop_add at_compression)
  rw [length_toBytes, Nat.add_assoc _ 1 h.compression.length] at at_extensions
  refine ⟨_, at_extensions, ?_, ?_⟩
  · have inside := number_le compression
    have total := congrArg List.length at_compression
    rw [length_drop, length_append, length_append, length_toBytes] at total
    omega
  · rw [extensionBounds_eq, session, Option.bind_some, ciphers, Option.bind_some, compression,
      Option.bind_some]

theorem extensionBounds_some {list : List Extension} (has : h.extensions = some list) :
    ∃ offset, extensionBounds h.encode = some (offset, h.encode.length) ∧
      h.encode.drop offset = encodeExtensions list ∧
      offset + (encodeExtensions list).length = h.encode.length := by
  obtain ⟨offset, field, inside, bounds⟩ := extensionBounds_encode h
  rw [has, Hello.extensionField] at field
  have length := number_of_drop field (h.extensions_fit list has)
  have behind := drop_add field
  rw [length_toBytes] at behind
  have within := number_le length
  have total := congrArg List.length behind
  rw [length_drop] at total
  refine ⟨offset + 2, ?_, behind, by omega⟩
  rw [bounds, length, Option.bind_some, Nat.min_eq_right (by omega)]

theorem extensionBounds_none (without : h.extensions = none) : extensionBounds h.encode = none := by
  obtain ⟨offset, field, inside, bounds⟩ := extensionBounds_encode h
  rw [without, Hello.extensionField] at field
  have ends : number 2 h.encode offset = none := by
    rw [number_succ, field]
    rfl
  rw [bounds, ends]
  rfl

theorem serverNames_encode (r : HelloRecord) (trailing : Bytes) {before after : List Extension}
    {ext : Extension} (has : r.hello.extensions = some (before ++ ext :: after))
    (others : ∀ e ∈ before, e.kind ≠ 0) (names : ext.kind = 0) :
    serverNames (r.encode ++ trailing) = some ext.data := by
  obtain ⟨offset, bounds, split, total⟩ := extensionBounds_some has
  have parts : encodeExtensions (before ++ ext :: after) =
      (before.map Extension.record).flatMap (Record.encode 2) ++
        (ext.record.encode 2 ++ encodeExtensions after) := by
    simp [encodeExtensions]
  rw [parts] at split total
  simp only [serverNames, Option.bind_eq_bind, clientHello_encode, Option.bind_some, bounds,
    findExtension_eq]
  have wanted : ext.record.kind = extServerName := congrArg UInt16.toNat names
  have few := length_le_encode 2 (before.map Extension.record)
  rw [length_append, length_append] at total
  exact find_found (by decide) Extension.records_fit (Extension.records_differ others) ext.record_fits
    wanted split (by omega) (by omega)

theorem serverNames_absent (r : HelloRecord) (trailing : Bytes)
    (without : ∀ list ∈ r.hello.extensions, ∀ e ∈ list, e.kind ≠ 0) :
    serverNames (r.encode ++ trailing) = none := by
  simp only [serverNames, Option.bind_eq_bind, clientHello_encode, Option.bind_some]
  cases has : r.hello.extensions with
  | none => rw [extensionBounds_none has, Option.bind_none]
  | some list =>
    obtain ⟨offset, bounds, split, total⟩ := extensionBounds_some has
    rw [← append_nil (encodeExtensions list)] at split
    rw [bounds, Option.bind_some, findExtension_eq]
    exact find_absent (by decide) Extension.records_fit (Extension.records_differ (without list has))
      split total.symm

theorem findHostName_encode {others more : List ServerName} {name list : Bytes}
    (list_eq : encodeNames (others ++ ⟨sniHostName, name⟩ :: more) = list) (fits : list.length < 65536)
    (differ : ∀ o ∈ others, o.kind ≠ sniHostName) :
    findHostName (toBytes 2 list.length ++ list) (2 + list.length) (2 + list.length + 1) 2 =
      some name := by
  have parts : list = (others.map ServerName.record).flatMap (Record.encode 1) ++
      (Record.encode 1 ⟨sniHostName.toNat, name⟩ ++ encodeNames more) := by
    rw [← list_eq]
    simp [encodeNames, ServerName.record]
  have split : (toBytes 2 list.length ++ list).drop 2 = list := drop_left' (length_toBytes ..)
  have total := congrArg List.length parts
  rw [length_append, length_append] at total
  have few := length_le_encode 1 (others.map ServerName.record)
  rw [findHostName_eq]
  refine find_found (by decide) ?others_fit (ServerName.records_differ differ) ?fits rfl
    (split.trans parts) (by omega) (by omega)
  case others_fit =>
    rintro record member
    obtain ⟨o, within, rfl⟩ := mem_map.mp member
    exact ServerName.record_fits (mem_append_left _ within) (list_eq ▸ fits)
  case fits =>
    have member : (⟨sniHostName, name⟩ : ServerName) ∈ others ++ ⟨sniHostName, name⟩ :: more := by
      simp
    exact ServerName.record_fits member (list_eq ▸ fits)

theorem firstServerName_encode (ucd : Text.Ucd) {others more : List ServerName} {name : Bytes}
    (fits : (encodeNameList (others ++ ⟨sniHostName, name⟩ :: more)).length < 65536)
    (differ : ∀ o ∈ others, o.kind ≠ sniHostName) :
    firstServerName ucd (encodeNameList (others ++ ⟨sniHostName, name⟩ :: more)) =
      plausibleHost ucd name := by
  rw [encodeNameList] at fits ⊢
  generalize list_eq : encodeNames (others ++ ⟨sniHostName, name⟩ :: more) = list at fits ⊢
  rw [length_append, length_toBytes] at fits
  have whole : (toBytes 2 list.length ++ list).drop 0 = toBytes 2 list.length ++ list := rfl
  have length : be16 (toBytes 2 list.length ++ list) 0 = some list.length :=
    (be16_eq _ 0).trans (number_of_drop whole (by omega))
  have total : (toBytes 2 list.length ++ list).length = 2 + list.length := by
    rw [length_append, length_toBytes]
  have found := findHostName_encode list_eq (by omega) differ
  rw [firstServerName]
  simp only [Option.bind_eq_bind, length, Option.bind_some, total, Nat.min_self, found]

/-- The name in a well-formed hello is read, wherever in it it stands; a hello without the
    extension has none. -/
theorem tlsSni_hello (ucd : Text.Ucd) (r : HelloRecord) (trailing : Bytes) :
    (∀ (before after : List Extension) (ext : Extension) (others more : List ServerName)
        (name : Bytes), r.hello.extensions = some (before ++ ext :: after) →
        (∀ e ∈ before, e.kind ≠ 0) → ext.kind = 0 →
        ext.data = encodeNameList (others ++ ⟨sniHostName, name⟩ :: more) →
        (∀ o ∈ others, o.kind ≠ sniHostName) →
        tlsSni ucd (r.encode ++ trailing) = plausibleHost ucd name) ∧
      ((∀ list ∈ r.hello.extensions, ∀ e ∈ list, e.kind ≠ 0) →
        tlsSni ucd (r.encode ++ trailing) = none) := by
  constructor
  · intro before after ext others more name has first kind data differ
    have fits := ext.fits
    rw [data] at fits
    rw [tlsSni, serverNames_encode r trailing has first kind, data]
    exact firstServerName_encode ucd fits differ
  · intro without
    rw [tlsSni, serverNames_absent r trailing without]
    rfl

def sampleNames : List ServerName := [⟨1, [7]⟩, ⟨sniHostName, Text.ascii "ab.example"⟩]

def sampleRecord : HelloRecord where
  version := [3, 1]
  hello := {
    version := [3, 3]
    random := List.replicate 32 0x11
    sessionId := []
    cipherSuites := [0x13, 0x01]
    compression := [0]
    extensions := some [⟨43, [3, 4], by decide⟩, ⟨0, encodeNameList sampleNames, by decide⟩,
      ⟨16, [0, 0], by decide⟩]
    version_length := rfl
    random_length := rfl
    session_fits := by decide
    ciphers_fit := by decide
    compression_fits := by decide
    extensions_fit := by simp only [Option.mem_def, Option.some.injEq, forall_eq']; decide }
  version_length := rfl
  fits := by decide

theorem tlsSni_sample :
    tlsSni .ascii (sampleRecord.encode ++ [1, 2]) = plausibleHost .ascii (Text.ascii "ab.example") :=
  (tlsSni_hello .ascii sampleRecord [1, 2]).1 [⟨43, [3, 4], by decide⟩] [⟨16, [0, 0], by decide⟩]
    ⟨0, encodeNameList sampleNames, by decide⟩ [⟨1, [7]⟩] [] (Text.ascii "ab.example") rfl
    (by simp) rfl rfl (by simp [sniHostName])

section
variable {buf hello : Bytes}

theorem clientHello_append (read : clientHello buf = some hello) (more : Bytes) :
    ∃ added, clientHello (buf ++ more) = some (hello ++ added) := by
  simp only [clientHello, be16_eq, be24_eq, Option.bind_eq_bind] at read ⊢
  obtain ⟨first, at_first, read⟩ := Option.bind_eq_some_iff.mp read
  rw [Option.ite_none_left_eq_some] at read
  obtain ⟨handshake, read⟩ := read
  obtain ⟨recordLen, at_length, read⟩ := Option.bind_eq_some_iff.mp read
  obtain ⟨body, at_body, read⟩ := Option.bind_eq_some_iff.mp read
  obtain ⟨kind, at_kind, read⟩ := Option.bind_eq_some_iff.mp read
  rw [Option.ite_none_left_eq_some] at read
  obtain ⟨client, read⟩ := read
  obtain ⟨helloLen, at_hello, read⟩ := Option.bind_eq_some_iff.mp read
  have longer : min (5 + recordLen) buf.length ≤ min (5 + recordLen) (buf ++ more).length := by
    rw [length_append]
    omega
  obtain ⟨added, body'⟩ := range_extend at_body more longer (Nat.min_le_right _ _)
  have longer' : min (4 + helloLen) body.length ≤ min (4 + helloLen) (body ++ added).length := by
    rw [length_append]
    omega
  obtain ⟨added', hello'⟩ := range_extend read added longer' (Nat.min_le_right _ _)
  refine ⟨added', ?_⟩
  rw [List.head?_append, at_first, Option.some_or, Option.bind_some, if_neg handshake,
    number_append at_length, Option.bind_some, body', Option.bind_some, List.head?_append, at_kind,
    Option.some_or, Option.bind_some, if_neg client, number_append at_hello, Option.bind_some, hello']

theorem extensionBounds_append {offset stop : Nat} (read : extensionBounds hello = some (offset, stop))
    (more : Bytes) :
    ∃ stop', stop ≤ stop' ∧ extensionBounds (hello ++ more) = some (offset, stop') := by
  rw [extensionBounds_eq] at read ⊢
  obtain ⟨session, at_session, read⟩ := Option.bind_eq_some_iff.mp read
  obtain ⟨cipher, at_cipher, read⟩ := Option.bind_eq_some_iff.mp read
  obtain ⟨compression, at_compression, read⟩ := Option.bind_eq_some_iff.mp read
  obtain ⟨length, at_length, read⟩ := Option.bind_eq_some_iff.mp read
  cases read
  refine ⟨_, ?_, by rw [number_append at_session, Option.bind_some, number_append at_cipher,
    Option.bind_some, number_append at_compression, Option.bind_some, number_append at_length,
    Option.bind_some]⟩
  rw [length_append]
  omega

theorem serverNames_append {data : Bytes} (read : serverNames buf = some data) (more : Bytes) :
    serverNames (buf ++ more) = some data := by
  simp only [serverNames, findExtension_eq, Option.bind_eq_bind] at read ⊢
  obtain ⟨hello, at_hello, read⟩ := Option.bind_eq_some_iff.mp read
  obtain ⟨⟨offset, stop⟩, at_bounds, read⟩ := Option.bind_eq_some_iff.mp read
  obtain ⟨added, hello'⟩ := clientHello_append at_hello more
  obtain ⟨stop', later, bounds'⟩ := extensionBounds_append at_bounds added
  rw [hello', Option.bind_some, bounds', Option.bind_some]
  refine find_append read later ?_ added
  rw [length_append]
  omega

/-- A name that was read stays the name, whatever else arrives. -/
theorem tlsSni_append (ucd : Text.Ucd) (more : Bytes) {name : Text}
    (read : tlsSni ucd buf = some name) : tlsSni ucd (buf ++ more) = some name := by
  obtain ⟨data, found, named⟩ := Option.bind_eq_some_iff.mp read
  exact Option.bind_eq_some_iff.mpr ⟨data, serverNames_append found more, named⟩

theorem tlsSni_append_sample :
    tlsSni .ascii (sampleRecord.encode.take 84) = some "ab.example".toList ∧
      tlsSni .ascii (sampleRecord.encode.take 84 ++ [2, 0, 0]) = some "ab.example".toList := by
  have cut : tlsSni .ascii (sampleRecord.encode.take 84) = some "ab.example".toList := by decide
  exact ⟨cut, tlsSni_append .ascii [2, 0, 0] cut⟩

end

end Gozarbin.Sniff
