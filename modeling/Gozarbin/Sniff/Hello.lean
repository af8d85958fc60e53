import Gozarbin.Lib.Fields
import Gozarbin.Net.Addr

/-! # ClientHello messages

The format of the first message of a TLS connection, as far as its lengths go: every part
fits into the field that holds its length.
-/

namespace Gozarbin.Sniff

open Fields BigEndian

structure Extension where
  kind : UInt16
  data : Bytes
  fits : data.length < 65536

def Extension.record (e : Extension) : Record := ⟨e.kind.toNat, e.data⟩

def encodeExtensions (extensions : List Extension) : Bytes :=
  (extensions.map Extension.record).flatMap (Record.encode 2)

/-- An entry of a server name list. -/
structure ServerName where
  kind : UInt8
  name : Bytes

def ServerName.record (n : ServerName) : Record := ⟨n.kind.toNat, n.name⟩

def encodeNames (names : List ServerName) : Bytes :=
  (names.map ServerName.record).flatMap (Record.encode 1)

def encodeNameList (names : List ServerName) : Bytes :=
  toBytes 2 (encodeNames names).length ++ encodeNames names

/-- A hello; old ones have no field for extensions. -/
structure Hello where
  version : Bytes
  random : Bytes
  sessionId : Bytes
  cipherSuites : Bytes
  compression : Bytes
  extensions : Option (List Extension)
  version_length : version.length = 2
  random_length : random.length = 32
  session_fits : sessionId.length < 256
  ciphers_fit : cipherSuites.length < 65536
  compression_fits : compression.length < 256
  extensions_fit : ∀ list ∈ extensions, (encodeExtensions list).length < 65536

namespace Hello

def extensionField : Option (List Extension) → Bytes
  | none => []
  | some list => toBytes 2 (encodeExtensions list).length ++ encodeExtensions list

def encode (h : Hello) : Bytes :=
  h.version ++ (h.random ++ (toBytes 1 h.sessionId.length ++ (h.sessionId ++
    (toBytes 2 h.cipherSuites.length ++ (h.cipherSuites ++
      (toBytes 1 h.compression.length ++ (h.compression ++ extensionField h.extensions)))))))

end Hello

/-- A record that holds one hello. -/
structure HelloRecord where
  version : Bytes
  hello : Hello
  version_length : version.length = 2
  fits : hello.encode.length + 4 < 65536

namespace HelloRecord

def message (r : HelloRecord) : Bytes :=
  [0x01] ++ (toBytes 3 r.hello.encode.length ++ r.hello.encode)

def encode (r : HelloRecord) : Bytes :=
  [0x16] ++ (r.version ++ (toBytes 2 r.message.length ++ r.message))

@[simp] theorem length_message (r : HelloRecord) :
    r.message.length = r.hello.encode.length + 4 := by
  simp only [message, List.length_append, List.length_singleton, length_toBytes]
  omega

end HelloRecord

theorem Extension.record_fits (e : Extension) : e.record.Fits 2 where
  kind := e.kind.toNat_lt
  length := e.fits

theorem Extension.records_fit {list : List Extension} :
    ∀ record ∈ list.map Extension.record, record.Fits 2 := by
  intro record member
  obtain ⟨e, -, rfl⟩ := List.mem_map.mp member
  exact e.record_fits

theorem Extension.records_differ {list : List Extension} (others : ∀ e ∈ list, e.kind ≠ 0) :
    ∀ record ∈ list.map Extension.record, record.kind ≠ 0 := by
  intro record member
  obtain ⟨e, within, rfl⟩ := List.mem_map.mp member
  exact fun zero => others e within (UInt16.toNat_inj.mp zero)

theorem ServerName.record_fits {names : List ServerName} {n : ServerName} (member : n ∈ names)
    (fits : (encodeNames names).length < 65536) : n.record.Fits 1 where
  kind := n.kind.toNat_lt
  length := Nat.lt_of_le_of_lt (value_le_encode 1 (List.mem_map_of_mem member)) fits

theorem ServerName.records_differ {list : List ServerName} {kind : UInt8}
    (others : ∀ n ∈ list, n.kind ≠ kind) :
    ∀ record ∈ list.map ServerName.record, record.kind ≠ kind.toNat := by
  intro record member
  obtain ⟨n, within, rfl⟩ := List.mem_map.mp member
  exact fun same => others n within (UInt8.toNat_inj.mp same)

end Gozarbin.Sniff
