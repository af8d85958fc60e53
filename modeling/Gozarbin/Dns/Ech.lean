import Gozarbin.Dns.Answers
import Gozarbin.Lib.Split
import Gozarbin.Socks.Query

/-! # The key in an HTTPS record

The configuration for an encrypted hello is published in an HTTPS record of the domain: a
priority, the name of a target, and parameters, of which number 5 is the one that is looked
for. `parse_https_ech` returns the first one it meets.
-/

namespace Gozarbin.Dns

open List Fields DnsName BigEndian Text
open Fragment (Machine)
open Socks (labelsOf nonEmptyLabels eqIgnoreCase dnsResponseMatches)

def rrHttps : UInt16 := 65
def svcparamEch : Nat := 5

def isDomainByte (b : UInt8) : Bool :=
  (0x61 ≤ b && b ≤ 0x7a) || (0x41 ≤ b && b ≤ 0x5a) || (0x30 ≤ b && b ≤ 0x39) || b == 0x2d || b == 0x5f

def validDomain (name : Text) : Bool :=
  let name := (stripEnd ['.'] name).getD name
  !name.isEmpty && decide ((toUtf8 name).length ≤ 253) &&
    (labelsOf name).all fun label =>
      !label.isEmpty && decide (label.length ≤ 63) && label.all isDomainByte

def responseMatches (msg : Bytes) (expectedId : UInt16) (expectedName : Text) (expectedQtype : UInt16) :
    Bool :=
  dnsResponseMatches msg expectedId expectedName expectedQtype

def buildQuery (id : UInt16) (name : Text) (qtype : UInt16) : Bytes :=
  toBytes 2 id.toNat ++ [0x01, 0x00] ++ [0x00, 0x01] ++ [0x00, 0x00, 0x00, 0x00, 0x00, 0x00] ++
    encodeLabels (nonEmptyLabels name) ++ [0x00] ++ toBytes 2 qtype.toNat ++ [0x00, 0x01]

def echParam (msg : Bytes) (stop : Nat) : (fuel p : Nat) → Machine Bytes
  | 0, _ => .error .loops
  | fuel + 1, p =>
    if p + 4 ≤ stop then do
      let key ← u16At msg p
      let len ← u16At msg (p + 2)
      if p + 4 + len > stop then .error .absent
      else if key = svcparamEch then slice msg (p + 4) (p + 4 + len)
      else echParam msg stop fuel (p + 4 + len)
    else .error .absent

def parseSvcparamsEch (msg : Bytes) (rdataStart rdlen : Nat) : Machine Bytes :=
  let stop := rdataStart + rdlen
  if rdataStart + 2 > stop then .error .absent
  else do
    let p ← skipName msg (rdataStart + 2)
    echParam msg stop (stop + 1) p

def takeEch (msg : Bytes) (rtype pos rdlen : Nat) : Machine Bytes :=
  if rtype = rrHttps.toNat then parseSvcparamsEch msg pos rdlen else .error .absent

def parseHttpsEch (msg : Bytes) : Machine Bytes := parseAnswers (takeEch msg) msg

/-- The data of an HTTPS record. In alias form there are no parameters. -/
structure ServiceBinding where
  priority : UInt16
  target : WrittenName
  params : List Fields.Record
  fits : ∀ p ∈ params, p.Fits 2

def ServiceBinding.encode (binding : ServiceBinding) : Bytes :=
  toBytes 2 binding.priority.toNat ++ (binding.target.encode ++ binding.params.flatMap (Record.encode 2))

def ServiceBinding.ech (binding : ServiceBinding) : Option Bytes :=
  (binding.params.find? fun p => p.kind = svcparamEch).map Record.value

/-- A record in a reply. -/
inductive EchRecord where
  | https (name : WrittenName) (rclass : UInt16) (ttl : UInt32) (binding : ServiceBinding)
      (small : binding.encode.length < 65536)
  | other (record : ResourceRecord) (type_ : record.rtype ≠ rrHttps)

def EchRecord.record : EchRecord → ResourceRecord
  | .https name rclass ttl binding small => ⟨name, rrHttps, rclass, ttl, binding.encode, small⟩
  | .other record _ => record

def EchRecord.ech : EchRecord → Option Bytes
  | .https _ _ _ binding _ => binding.ech
  | .other _ _ => none

/-- The same question, in letters of any case. -/
structure SameQuestion (q r : Question) : Prop where
  labels : List.Forall₂ (fun l w => eqIgnoreCase w l = true) q.name.labels r.name.labels
  pointer : r.name.pointer = q.name.pointer
  qtype : r.qtype = q.qtype
  qclass : r.qclass = q.qclass

/-- A reply has the bit of a response, and the id and the question of the query. -/
structure Replies (query reply : Message) : Prop where
  id : reply.id = query.id
  response : 0x8000 ≤ reply.flags.toNat
  question : List.Forall₂ SameQuestion query.questions.1 reply.questions.1

section
variable {name : Text} {msg rest : Bytes} {p stop fuel : Nat}

theorem nonEmptyLabels_stripEnd (name : Text) :
    nonEmptyLabels name = nonEmptyLabels ((stripEnd ['.'] name).getD name) := by
  cases stripped : stripEnd ['.'] name with
  | none => rfl
  | some front =>
    have last : labelsOf (front ++ ['.']) = labelsOf front ++ [[]] := by
      rw [labelsOf, splitAt_concat, map_append]
      rfl
    rw [Option.getD_some, stripEnd_eq_some stripped, nonEmptyLabels, last]
    simp [nonEmptyLabels]

theorem fits_of_validDomain (valid : validDomain name = true) : ∀ l ∈ nonEmptyLabels name, Fits l := by
  rw [nonEmptyLabels_stripEnd]
  intro l member
  have listed := mem_of_mem_filter member
  simp only [validDomain, Bool.and_eq_true, all_eq_true] at valid
  obtain ⟨⟨some_, most⟩, -⟩ := valid.2 l listed
  exact ⟨length_pos_iff.mpr (by simpa using some_), of_decide_eq_true most⟩

theorem matchLabels_filter (resp : Bytes) (labels : List Bytes) (pos : Nat) :
    Socks.matchLabels resp labels pos = Socks.matchLabels resp (labels.filter (· ≠ [])) pos := by
  induction labels generalizing pos with
  | nil => rfl
  | cons l labels ih =>
    by_cases empty : l = []
    · subst empty
      rw [Socks.matchLabels, isEmpty_nil, if_pos rfl, ih]
      simp
    · rw [filter_cons_of_pos (by simpa using empty)]
      simp only [Socks.matchLabels, ih]

def asked (name : Text) (valid : validDomain name = true) : Question :=
  ⟨⟨nonEmptyLabels name, fits_of_validDomain valid, none⟩, rrHttps, 1⟩

def queryFor (name : Text) (valid : validDomain name = true) (id : UInt16) : Message where
  id := id
  flags := 0x0100
  questions := ⟨[asked name valid], Nat.lt_of_sub_eq_succ rfl⟩
  answers := ⟨[], by decide⟩
  authority := ⟨[], by decide⟩
  additional := ⟨[], by decide⟩

theorem buildQuery_eq (valid : validDomain name = true) (id : UInt16) :
    buildQuery id name rrHttps = (queryFor name valid id).encode := by
  have flags : toBytes 2 0x0100 = [1, 0] := by decide
  have counts : toBytes 2 1 = [0, 1] ∧ toBytes 2 0 = [0, 0] := by decide
  simp [buildQuery, Message.encode, Message.header, queryFor, asked, Question.encode, WrittenName.encode,
    encodeEnd, flags, counts]

theorem response_bit : ∀ n < 128, UInt8.ofNat (0x80 + n) &&& 0x80 ≠ 0 := by decide

theorem responseMatches_reply (valid : validDomain name = true) {id : UInt16} {reply : Message}
    (replies : Replies (queryFor name valid id) reply) :
    responseMatches reply.encode id name rrHttps = true := by
  have begins := reply.begins
  obtain ⟨rest, body⟩ := begins.body
  obtain ⟨q, more, same, nothing, one⟩ := forall₂_cons_left_iff.mp replies.question
  obtain rfl := forall₂_nil_left_iff.mp nothing
  have count := begins.questions
  rw [one] at body count
  rw [flatMap_singleton, Question.encode, WrittenName.encode, same.pointer] at body
  simp only [append_assoc] at body
  have at_end := drop_add body
  have root : (encodeEnd (asked name valid).name.pointer).length = 1 := rfl
  have at_qtype := drop_add at_end
  have at_class := drop_add at_qtype
  rw [length_toBytes] at at_class
  have whole := number_le (number_of_drop at_class q.qclass.toNat_lt)
  have labels := (matchLabels_filter reply.encode (labelsOf name) 12).trans
    (Socks.matchLabels_same (fits_of_validDomain valid) same.labels body)
  have flag : reply.encode.getD 2 0 &&& 0x80 ≠ 0 := by
    have small := reply.flags.toNat_lt
    have high := replies.response
    obtain ⟨n, byte⟩ : ∃ n, reply.flags.toNat / 256 = 0x80 + n := ⟨reply.flags.toNat / 256 - 0x80, by omega⟩
    rw [getD_eq_getElem?_getD, begins.flags, byte]
    exact response_bit n (by omega)
  have at_id := begins.id
  rw [replies.id] at at_id
  have qtype := number_of_drop at_qtype q.qtype.toNat_lt
  rw [same.qtype] at qtype
  exact Socks.dnsResponseMatches_of begins.long at_id flag count labels
    (getElem?_of_drop at_end) qtype (by omega)

theorem number_of_inside (size p : Nat) (inside : p + size ≤ msg.length) :
    ∃ n, number size msg p = some n := by
  have found : range msg p (p + size) = some _ := range_eq_some.mpr ⟨by omega, inside, rfl⟩
  exact ⟨_, by rw [number, found]; rfl⟩

theorem echParam_eq (inside : stop ≤ msg.length) (some_ : 0 < fuel) (enough : stop < p + fuel) :
    echParam msg stop fuel p = .ofOption (find 2 msg stop svcparamEch fuel p) := by
  induction fuel generalizing p with
  | zero => exact absurd some_ (Nat.lt_irrefl 0)
  | succ fuel ih =>
    rw [echParam, find]
    split
    next head =>
      obtain ⟨key, at_key⟩ := number_of_inside 2 p (by omega : p + 2 ≤ msg.length)
      obtain ⟨len, at_len⟩ := number_of_inside 2 (p + 2) (by omega : p + 2 + 2 ≤ msg.length)
      rw [u16At_of_number at_key, u16At_of_number at_len, at_key, at_len]
      dsimp only [bind, Except.bind, Option.bind_some]
      split
      next => rfl
      next fits =>
        split
        next =>
          have found : range msg (p + 4) (p + 4 + len) = some _ :=
            range_eq_some.mpr ⟨by omega, by omega, rfl⟩
          rw [slice_of_range found, found]
          rfl
        next => exact ih (by omega) (by omega)
    next => rfl

theorem parseSvcparamsEch_encode (binding : ServiceBinding)
    (inside : p + binding.encode.length ≤ msg.length) (split : msg.drop p = binding.encode ++ rest) :
    parseSvcparamsEch msg p binding.encode.length = .ofOption binding.ech := by
  have size : binding.encode.length = 2 + binding.target.encode.length +
      (binding.params.flatMap (Record.encode 2)).length := by
    simp [ServiceBinding.encode, Nat.add_assoc]
  rw [ServiceBinding.encode] at split
  simp only [append_assoc] at split
  have at_target := drop_add split
  rw [length_toBytes] at at_target
  have at_params := drop_add at_target
  have whole : p + binding.encode.length = p + 2 + binding.target.encode.length +
      (binding.params.flatMap (Record.encode 2)).length := by omega
  rw [parseSvcparamsEch, if_neg (by omega), skipName_written binding.target at_target]
  refine (echParam_eq inside (Nat.succ_pos _) (by omega)).trans (congrArg _ ?_)
  rw [ServiceBinding.ech]
  cases first : binding.params.find? (fun p => decide (p.kind = svcparamEch)) with
  | none =>
    have differ : ∀ o ∈ binding.params, o.kind ≠ svcparamEch := by
      simpa using List.find?_eq_none.mp first
    exact find_absent (by decide) binding.fits differ at_params whole
  | some r =>
    obtain ⟨same, before, after, parts, differ⟩ := List.find?_eq_some_iff_append.mp first
    have fits := binding.fits
    rw [parts] at fits whole at_params
    rw [flatMap_append, flatMap_cons, append_assoc, append_assoc] at at_params
    rw [flatMap_append, flatMap_cons, length_append, length_append] at whole
    have short := length_le_encode 2 before
    refine find_found (by decide) (fun o member => fits o (by simp [member])) (by simpa using differ)
      (fits r (by simp)) (of_decide_eq_true same) at_params (by omega) (by omega)

theorem takeEch_record (record : EchRecord) (inside : p + record.record.rdata.length ≤ msg.length)
    (split : msg.drop p = record.record.rdata ++ rest) :
    takeEch msg record.record.rtype.toNat p record.record.rdata.length = .ofOption record.ech := by
  cases record with
  | https name rclass ttl binding small => exact parseSvcparamsEch_encode binding inside split
  | other record type_ =>
    have differ : record.rtype.toNat ≠ rrHttps.toNat := fun same => type_ (UInt16.toNat_inj.mp same)
    exact if_neg differ

theorem safe_parseHttpsEch (msg : Bytes) : Safe (parseHttpsEch msg) := by
  refine safe_parseAnswers fun rtype pos rdlen inside => ?_
  rw [takeEch]
  split
  next =>
    rw [parseSvcparamsEch]
    split
    next => exact safe_absent
    next =>
      refine (safe_skipName msg _).bind fun p _ => ?_
      rw [echParam_eq inside (Nat.succ_pos _) (by omega)]
      exact fun stop failed => (Fragment.Machine.ofOption_eq_error.mp failed).2
  next => exact safe_absent

end

/-- In every reply to the query for a domain the first key of the first record that has one is
    found. -/
theorem ech_found (name : Text) (valid : validDomain name = true) (id : UInt16) :
    buildQuery id name rrHttps = (queryFor name valid id).encode ∧
      ∀ (reply : Message) (records : List EchRecord), Replies (queryFor name valid id) reply →
        reply.answers.1 = records.map EchRecord.record →
        responseMatches reply.encode id name rrHttps = true ∧
          parseHttpsEch reply.encode = .ofOption (records.findSome? EchRecord.ech) := by
  refine ⟨buildQuery_eq valid id,
    fun reply records replies all => ⟨responseMatches_reply valid replies, ?_⟩⟩
  exact parseAnswers_encode all fun record _ p more inside split => takeEch_record record inside split

def echRecords : List EchRecord :=
  [.https ⟨[], by decide, some 12⟩ 1 300 ⟨0, ⟨[ascii "b"], by decide, none⟩, [], by simp⟩ (by decide),
    .https ⟨[ascii "b"], by decide, none⟩ 1 300 ⟨1, ⟨[], by decide, none⟩, [⟨1, [2, 0x68, 0x32]⟩],
      by simp only [forall_mem_singleton]; exact ⟨by decide, by decide⟩⟩ (by decide),
    .https ⟨[], by decide, some 12⟩ 1 300 ⟨2, ⟨[], by decide, some 12⟩, [⟨1, []⟩, ⟨5, [0xfe, 0x0d]⟩],
      by simp only [forall_mem_cons, not_mem_nil, false_imp_iff, implies_true, and_true]
         exact ⟨⟨by decide, by decide⟩, ⟨by decide, by decide⟩⟩⟩ (by decide)]

def echReply : Message where
  id := 7
  flags := 0x8180
  questions := ⟨[⟨⟨[ascii "A"], by decide, none⟩, rrHttps, 1⟩], by decide⟩
  answers := ⟨echRecords.map EchRecord.record, by decide⟩
  authority := ⟨[], by decide⟩
  additional := ⟨[], by decide⟩

theorem ech_found_behind_alias :
    responseMatches echReply.encode 7 "a.".toList rrHttps = true ∧
      parseHttpsEch echReply.encode = .ok [0xfe, 0x0d] := by
  have valid : validDomain "a.".toList = true := by decide
  have same : SameQuestion (asked "a.".toList valid) ⟨⟨[ascii "A"], by decide, none⟩, rrHttps, 1⟩ :=
    ⟨.cons (by decide) .nil, rfl, rfl, rfl⟩
  exact (ech_found "a.".toList valid 7).2 echReply echRecords ⟨rfl, by decide, .cons same .nil⟩ rfl

end Gozarbin.Dns
