import Gozarbin.Lib.DnsName

/-! # DNS messages

A message is a header with the counts of its four sections, then the questions and the
records of the sections one behind the other. A name is written as labels that end with the
root or with a pointer to where the name goes on; the data of a record stands behind its
length.
-/

namespace Gozarbin.DnsName

open Fields BigEndian

/-- A name as it stands in a message. -/
structure WrittenName where
  labels : List (List UInt8)
  fits : ∀ l ∈ labels, Fits l
  pointer : Option (Fin 16384)

def encodeEnd : Option (Fin 16384) → List UInt8
  | none => [0]
  | some offset => toBytes 2 (0xc000 + offset)

def WrittenName.encode (name : WrittenName) : List UInt8 :=
  encodeLabels name.labels ++ encodeEnd name.pointer

structure Question where
  name : WrittenName
  qtype : UInt16
  qclass : UInt16

def Question.encode (q : Question) : List UInt8 :=
  q.name.encode ++ (toBytes 2 q.qtype.toNat ++ toBytes 2 q.qclass.toNat)

structure ResourceRecord where
  name : WrittenName
  rtype : UInt16
  rclass : UInt16
  ttl : UInt32
  rdata : List UInt8
  small : rdata.length < 65536

def ResourceRecord.fixed (r : ResourceRecord) : List UInt8 :=
  toBytes 2 r.rtype.toNat ++
    (toBytes 2 r.rclass.toNat ++ (toBytes 4 r.ttl.toNat ++ toBytes 2 r.rdata.length))

def ResourceRecord.encode (r : ResourceRecord) : List UInt8 := r.name.encode ++ (r.fixed ++ r.rdata)

abbrev Section (α : Type) := {entries : List α // entries.length < 65536}

def noEntries {α : Type} : Section α := ⟨[], Nat.zero_lt_succ _⟩

structure Message where
  id : UInt16
  flags : UInt16
  questions : Section Question
  answers : Section ResourceRecord
  authority : Section ResourceRecord
  additional : Section ResourceRecord

def Message.header (m : Message) : List UInt8 :=
  toBytes 2 m.id.toNat ++ (toBytes 2 m.flags.toNat ++ (toBytes 2 m.questions.1.length ++
    (toBytes 2 m.answers.1.length ++ (toBytes 2 m.authority.1.length ++ toBytes 2 m.additional.1.length))))

def Message.encode (m : Message) : List UInt8 :=
  m.header ++ (m.questions.1.flatMap Question.encode ++ (m.answers.1.flatMap ResourceRecord.encode ++
    (m.authority.1.flatMap ResourceRecord.encode ++ m.additional.1.flatMap ResourceRecord.encode)))

/-- What a reader finds at the start of a message. -/
structure Begins (m : Message) (msg : List UInt8) : Prop where
  long : 12 ≤ msg.length
  id : number 2 msg 0 = some m.id.toNat
  flags : msg[2]? = some (.ofNat (m.flags.toNat / 256))
  questions : number 2 msg 4 = some m.questions.1.length
  answers : number 2 msg 6 = some m.answers.1.length
  body : ∃ rest, msg.drop 12 =
    m.questions.1.flatMap Question.encode ++ (m.answers.1.flatMap ResourceRecord.encode ++ rest)

theorem Message.begins (m : Message) : Begins m m.encode := by
  have at_id : m.encode.drop 0 = toBytes 2 m.id.toNat ++ _ := List.append_assoc ..
  have at_flags := drop_add at_id
  rw [length_toBytes, List.append_assoc] at at_flags
  have at_questions := drop_add at_flags
  rw [length_toBytes, List.append_assoc] at at_questions
  have at_answers := drop_add at_questions
  rw [length_toBytes, List.append_assoc] at at_answers
  have at_counts := drop_add at_answers
  rw [length_toBytes, List.append_assoc] at at_counts
  have at_last := drop_add at_counts
  have at_body := drop_add at_last
  exact {
    long := by simp [Message.encode, Message.header]; omega
    id := number_of_drop at_id m.id.toNat_lt
    flags := getElem?_of_drop at_flags
    questions := number_of_drop at_questions m.questions.2
    answers := number_of_drop at_answers m.answers.2
    body := ⟨_, at_body⟩ }

end Gozarbin.DnsName
