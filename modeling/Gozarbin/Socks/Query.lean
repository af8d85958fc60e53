import Mathlib.Data.List.Forall2
import Gozarbin.Lib.DnsName
import Gozarbin.Lib.Utf8
import Gozarbin.Net.Addr

/-! # The questions of the resolver

A name a client asks for is looked up by a query to each server in turn until one answers.
`build_dns_query` writes what stands between the dots of the name as labels, whatever its
length; `dns_response_matches` passes over what is empty.
-/

namespace Gozarbin.Socks

open List Fields BigEndian DnsName

def qtypeA : UInt16 := 1
def qtypeAaaa : UInt16 := 28
def rcodeNxdomain : UInt8 := 3

def labelsOf (name : Text) : List Bytes := (Text.splitAt '.' name).map Text.toUtf8

def buildDnsQuery (id : UInt16) (name : Text) (qtype : UInt16) : Bytes :=
  toBytes 2 id.toNat ++ [0x01, 0x00] ++ [0x00, 0x01] ++ [0x00, 0x00, 0x00, 0x00, 0x00, 0x00] ++
    encodeLabels (labelsOf name) ++ [0x00] ++ toBytes 2 qtype.toNat ++ [0x00, 0x01]

def lowerByte (b : UInt8) : UInt8 := if 0x41 ≤ b && b ≤ 0x5a then b + 0x20 else b

def eqIgnoreCase (a b : Bytes) : Bool := a.map lowerByte == b.map lowerByte

def matchLabels (resp : Bytes) : (labels : List Bytes) → (pos : Nat) → Option Nat
  | [], pos => some pos
  | label :: labels, pos =>
    if label.isEmpty then matchLabels resp labels pos
    else
      match resp[pos]? with
      | none => none
      | some len =>
        if len.toNat ≠ label.length then none
        else
          match range resp (pos + 1) (pos + 1 + len.toNat) with
          | none => none
          | some slice =>
            if eqIgnoreCase slice label then matchLabels resp labels (pos + 1 + len.toNat)
            else none

def dnsResponseMatches (resp : Bytes) (expectedId : UInt16) (expectedName : Text)
    (expectedQtype : UInt16) : Bool :=
  if resp.length < 12 then false
  else if number 2 resp 0 ≠ some expectedId.toNat then false
  else if resp.getD 2 0 &&& 0x80 = 0 then false
  else if number 2 resp 4 ≠ some 1 then false
  else
    match matchLabels resp (labelsOf expectedName) 12 with
    | none => false
    | some pos =>
      if resp[pos]? ≠ some 0 then false
      else if pos + 1 + 4 > resp.length then false
      else number 2 resp (pos + 1) = some expectedQtype.toNat

def dnsRcode (resp : Bytes) : Option UInt8 := resp[3]?.map (· &&& 0x0f)

inductive DnsAnswer where
  | found (ip : IpAddr)
  | noRecord
  | noSuchName
  deriving DecidableEq

/-- `ε` are the errors of sending. -/
inductive DnsError (ε : Type) where
  | timeout
  | timeoutFrom (server : SocketAddr)
  | channelClosed
  | send (error : ε)
  deriving DecidableEq

/-- What comes back before the deadline. -/
inductive Received where
  | response (bytes : Bytes)
  | closed
  deriving DecidableEq

/-- A server of `resolver_addresses`, and what an exchange with it meets. -/
structure Server (ε : Type) where
  address : SocketAddr
  id : UInt16
  sendTo : Except ε Unit
  received : List Received

structure SentQuery where
  server : SocketAddr
  id : UInt16
  message : Bytes
  deriving DecidableEq

section
variable {ε : Type} (parseDnsAnswer : Bytes → UInt16 → Option IpAddr) (name : Text) (qtype : UInt16)

def awaitAnswer (id : UInt16) : List Received → Option (Except (DnsError ε) DnsAnswer)
  | [] => none
  | .closed :: _ => some (.error .channelClosed)
  | .response resp :: rest =>
    if !dnsResponseMatches resp id name qtype then awaitAnswer id rest
    else
      match parseDnsAnswer resp qtype with
      | some ip => some (.ok (.found ip))
      | none =>
        if dnsRcode resp = some rcodeNxdomain then some (.ok .noSuchName)
        else some (.ok .noRecord)

def dnsExchange : (last : DnsError ε) → List (Server ε) →
    List SentQuery × Except (DnsError ε) DnsAnswer
  | last, [] => ([], .error last)
  | _, server :: rest =>
    let query : SentQuery := ⟨server.address, server.id, buildDnsQuery server.id name qtype⟩
    match server.sendTo with
    | .error e =>
      let (sent, outcome) := dnsExchange (.send e) rest
      (query :: sent, outcome)
    | .ok () =>
      match awaitAnswer parseDnsAnswer name qtype server.id server.received with
      | some outcome => ([query], outcome)
      | none =>
        let (sent, outcome) := dnsExchange (.timeoutFrom server.address) rest
        (query :: sent, outcome)

end

def nonEmptyLabels (name : Text) : List Bytes := (labelsOf name).filter (· ≠ [])

def withQr (message : Bytes) : Bytes := message.modify 2 (· ||| 0x80)

/-- The question of the message is the name and the type. -/
structure AsksFor (name : Text) (qtype : UInt16) (query : SentQuery) : Prop where
  question : ∃ next, NameAt query.message 12 (nonEmptyLabels name) next ∧
    number 2 query.message next = some qtype.toNat ∧ number 2 query.message (next + 2) = some 1
  response : dnsResponseMatches (withQr query.message) query.id name qtype = true

section
variable {id qtype : UInt16} {name : Text} {resp rest : Bytes} {labels : List Bytes} {pos : Nat}

theorem drop_buildDnsQuery (id : UInt16) (name : Text) (qtype : UInt16) :
    (buildDnsQuery id name qtype).drop 12 =
      encodeLabels (labelsOf name) ++ 0 :: (toBytes 2 qtype.toNat ++ [0, 1]) := by
  simp [buildDnsQuery, toBytes]

theorem length_of_eqIgnoreCase {a b : Bytes} (same : eqIgnoreCase a b = true) : a.length = b.length := by
  simpa using congrArg List.length (beq_iff_eq.mp same)

theorem matchLabels_same {written : List Bytes} (fits : ∀ l ∈ labels, Fits l)
    (same : List.Forall₂ (fun l w => eqIgnoreCase w l = true) labels written)
    (split : resp.drop pos = encodeLabels written ++ rest) :
    matchLabels resp labels pos = some (pos + (encodeLabels written).length) := by
  induction same generalizing pos with
  | nil => rfl
  | @cons l w labels written equal _ ih =>
    obtain ⟨here, later⟩ := forall_mem_cons.mp fits
    have lengths := length_of_eqIgnoreCase equal
    rw [encodeLabels_cons, append_assoc] at split
    have visible : l.isEmpty = false := by
      simpa using ne_nil_of_length_pos here.1
    have first : resp[pos]? = some (UInt8.ofNat l.length) := lengths ▸ getElem?_of_drop split
    have behind : resp.drop (pos + 1) = w ++ (encodeLabels written ++ rest) := by
      rw [← drop_drop, split]
      rfl
    have inside : pos + 1 ≤ resp.length := (List.getElem?_eq_some_iff.mp first).1
    have slice := range_of_drop inside behind
    have next := ih later (drop_add split)
    have shift : pos + (encodeLabel w).length = pos + 1 + l.length := by
      rw [encodeLabel, length_cons, lengths]
      omega
    rw [lengths] at slice
    rw [shift] at next
    simp only [matchLabels, visible, Bool.false_eq_true, if_false, first, toNat_length here, ne_eq,
      not_true, slice, equal, if_true, next]
    rw [encodeLabels_cons, length_append, ← Nat.add_assoc, shift]

theorem matchLabels_encode (fits : ∀ l ∈ labels, Fits l)
    (split : resp.drop pos = encodeLabels labels ++ rest) :
    matchLabels resp labels pos = some (pos + (encodeLabels labels).length) :=
  matchLabels_same fits (forall₂_same.mpr fun _ _ => beq_self_eq_true _) split

theorem dnsResponseMatches_of (long : 12 ≤ resp.length) (at_id : number 2 resp 0 = some id.toNat)
    (flag : resp.getD 2 0 &&& 0x80 ≠ 0) (count : number 2 resp 4 = some 1)
    (labels : matchLabels resp (labelsOf name) 12 = some pos) (zero : resp[pos]? = some 0)
    (at_qtype : number 2 resp (pos + 1) = some qtype.toNat) (whole : pos + 1 + 4 ≤ resp.length) :
    dnsResponseMatches resp id name qtype = true := by
  simp only [dnsResponseMatches, if_neg (Nat.not_lt.mpr long), at_id, if_neg flag, count, labels, zero,
    if_neg (Nat.not_lt.mpr whole), at_qtype, ne_eq, not_true, if_false, decide_true]

theorem withQr_buildDnsQuery (id : UInt16) (name : Text) (qtype : UInt16) :
    withQr (buildDnsQuery id name qtype) =
      toBytes 2 id.toNat ++ ([0x81, 0x00] ++ (toBytes 2 1 ++ ([0x00, 0x00, 0x00, 0x00, 0x00, 0x00] ++
        (encodeLabels (labelsOf name) ++ (0 :: (toBytes 2 qtype.toNat ++ [0x00, 0x01])))))) := by
  have flags : (1 : UInt8) ||| 128 = 129 := by decide
  simp [withQr, buildDnsQuery, toBytes, flags]

theorem dnsResponseMatches_query (fits : ∀ l ∈ labelsOf name, Fits l) (id qtype : UInt16) :
    dnsResponseMatches (withQr (buildDnsQuery id name qtype)) id name qtype = true := by
  generalize message : withQr (buildDnsQuery id name qtype) = resp
  rw [withQr_buildDnsQuery] at message
  have at_id : resp.drop 0 = toBytes 2 id.toNat ++ _ := message.symm
  have at_flags := drop_add at_id
  rw [length_toBytes] at at_flags
  have at_count := drop_add at_flags
  have at_rest := drop_add at_count
  have at_labels : resp.drop 12 = encodeLabels (labelsOf name) ++ _ := drop_add at_rest
  have at_zero := drop_add at_labels
  have at_qtype : resp.drop (12 + (encodeLabels (labelsOf name)).length + 1) =
      toBytes 2 qtype.toNat ++ [0x00, 0x01] := by
    rw [← drop_drop]
    exact congrArg (List.drop 1) at_zero
  have id_eq : number 2 resp 0 = some id.toNat := number_of_drop at_id id.toNat_lt
  have flag : resp.getD 2 0 &&& 0x80 ≠ 0 := by
    rw [getD_eq_getElem?_getD, getElem?_of_drop at_flags]
    decide
  have count : number 2 resp 4 = some 1 := number_of_drop at_count (by decide)
  have labels := matchLabels_encode fits at_labels
  have zero := getElem?_of_drop at_zero
  have qtype_eq := number_of_drop at_qtype qtype.toNat_lt
  have size := congrArg List.length at_qtype
  rw [length_drop, length_append, length_toBytes, length_cons, length_singleton] at size
  exact dnsResponseMatches_of (by omega) id_eq flag count labels zero qtype_eq (by omega)

theorem filter_fits (fits : ∀ l ∈ labels, Fits l) : labels.filter (· ≠ []) = labels := by
  rw [filter_eq_self]
  intro l member
  simpa using ne_nil_of_length_pos (fits l member).1

theorem asksFor_query (fits : ∀ l ∈ labelsOf name, Fits l) (server : SocketAddr) (id qtype : UInt16) :
    AsksFor name qtype ⟨server, id, buildDnsQuery id name qtype⟩ where
  question := by
    have split := drop_buildDnsQuery id name qtype
    have at_name := NameAt.encode fits split
    have at_zero := drop_add split
    have at_qtype : (buildDnsQuery id name qtype).drop (12 + (encodeLabels (labelsOf name)).length + 1) =
        toBytes 2 qtype.toNat ++ [0, 1] := by
      rw [← drop_drop, at_zero]
      rfl
    have at_class := drop_add at_qtype
    refine ⟨_, ?_, number_of_drop at_qtype qtype.toNat_lt, number_of_drop at_class (by decide)⟩
    rw [nonEmptyLabels, filter_fits fits]
    exact at_name
  response := dnsResponseMatches_query fits id qtype

theorem number_behind_empty (kind : qtype = qtypeA ∨ qtype = qtypeAaaa) {post : List Bytes}
    (empty : ∀ l ∈ post, l = [])
    (split : resp.drop pos = encodeLabels post ++ 0 :: (toBytes 2 qtype.toNat ++ [0, 1])) :
    number 2 resp pos ≠ some qtype.toNat := by
  have zeros : ∃ rest, resp.drop pos = toBytes 2 0 ++ rest := by
    cases post with
    | nil => rcases kind with rfl | rfl <;> exact ⟨_, split⟩
    | cons l post =>
      obtain ⟨rfl, later⟩ := forall_mem_cons.mp empty
      cases post with
      | nil => exact ⟨_, split⟩
      | cons l' post =>
        obtain ⟨rfl, -⟩ := forall_mem_cons.mp later
        exact ⟨_, split⟩
  obtain ⟨rest, zeros⟩ := zeros
  rw [number_of_drop zeros (by decide)]
  rcases kind with rfl | rfl <;> decide

theorem fits_of_asksFor (kind : qtype = qtypeA ∨ qtype = qtypeAaaa) {server : SocketAddr}
    (asks : AsksFor name qtype ⟨server, id, buildDnsQuery id name qtype⟩) :
    ∀ l ∈ labelsOf name, Fits l := by
  obtain ⟨next, at_name, at_qtype, -⟩ := asks.question
  have visible : ∀ l ∈ labelsOf name, l ≠ [] → Fits l := by
    intro l member given
    exact at_name.fits l (mem_filter.mpr ⟨member, by simpa using given⟩)
  by_contra some_not
  -- a label that does not fit is empty; what is read ends at the first one
  have empty : [] ∈ labelsOf name := by
    by_contra none_empty
    exact some_not fun l member => visible l member fun same => none_empty (same ▸ member)
  obtain ⟨pre, post, split, first⟩ := eq_append_cons_of_mem empty
  have pre_fits : ∀ l ∈ pre, Fits l := by
    intro l member
    refine visible l (split ▸ mem_append_left _ member) ?_
    rintro rfl
    exact first member
  have parts : (buildDnsQuery id name qtype).drop 12 = encodeLabels pre ++
      0 :: (encodeLabels post ++ 0 :: (toBytes 2 qtype.toNat ++ [0, 1])) := by
    rw [drop_buildDnsQuery, split]
    simp [encodeLabels, encodeLabel]
  obtain ⟨same, rfl⟩ := NameAt.unique pre_fits parts at_name
  have post_empty : ∀ l ∈ post, l = [] := by
    rw [nonEmptyLabels, split, filter_append, filter_fits pre_fits] at same
    have none_left := append_right_eq_self.mp same
    intro l member
    simpa using filter_eq_nil_iff.mp none_left l (mem_cons_of_mem _ member)
  refine number_behind_empty kind post_empty ?_ at_qtype
  rw [← drop_drop, drop_add parts]
  rfl

theorem dnsExchange_cons {ε : Type} (parse : Bytes → UInt16 → Option IpAddr) (name : Text)
    (qtype : UInt16) (last : DnsError ε) (server : Server ε) (servers : List (Server ε)) :
    ∃ sent, (dnsExchange parse name qtype last (server :: servers)).1 =
        ⟨server.address, server.id, buildDnsQuery server.id name qtype⟩ :: sent ∧
      (sent = [] ∨ ∃ last', sent = (dnsExchange parse name qtype last' servers).1) := by
  rw [dnsExchange]
  cases server.sendTo with
  | error e => exact ⟨_, rfl, .inr ⟨_, rfl⟩⟩
  | ok =>
    cases (awaitAnswer parse name qtype server.id server.received :
        Option (Except (DnsError ε) DnsAnswer)) with
    | some outcome => exact ⟨_, rfl, .inl rfl⟩
    | none => exact ⟨_, rfl, .inr ⟨_, rfl⟩⟩

theorem message_of_dnsExchange {ε : Type} {parse : Bytes → UInt16 → Option IpAddr}
    {last : DnsError ε} {servers : List (Server ε)} {query : SentQuery}
    (member : query ∈ (dnsExchange parse name qtype last servers).1) :
    query.message = buildDnsQuery query.id name qtype := by
  induction servers generalizing last with
  | nil => cases member
  | cons server servers ih =>
    obtain ⟨sent, all, rest⟩ := dnsExchange_cons parse name qtype last server servers
    rw [all] at member
    rcases mem_cons.mp member with rfl | later
    · rfl
    · obtain rfl | ⟨last', rfl⟩ := rest
      · cases later
      · exact ih later

/-- The queries ask for the name precisely if all that stands between its dots has from 1 to 63
    bytes. -/
theorem asksFor_iff {ε : Type} (parse : Bytes → UInt16 → Option IpAddr) (last : DnsError ε)
    {servers : List (Server ε)} (any : servers ≠ []) (name : Text) {qtype : UInt16}
    (kind : qtype = qtypeA ∨ qtype = qtypeAaaa) :
    (∀ query ∈ (dnsExchange parse name qtype last servers).1, AsksFor name qtype query) ↔
      ∀ label ∈ labelsOf name, Fits label := by
  constructor
  · intro asked
    obtain ⟨server, servers, rfl⟩ := exists_cons_of_ne_nil any
    -- nothing is refused: the first server is sent a query
    obtain ⟨sent, all, -⟩ := dnsExchange_cons parse name qtype last server servers
    rw [all] at asked
    exact fits_of_asksFor kind (asked _ (mem_cons_self ..))
  · rintro fits ⟨server, id, message⟩ member
    have same : message = buildDnsQuery id name qtype := message_of_dnsExchange member
    rw [same]
    exact asksFor_query fits server id qtype

def silent : Server Unit := ⟨⟨.v4 ⟨0x01010101#32⟩, 53⟩, 0x4242, .ok (), []⟩

theorem asksFor_relative :
    AsksFor "example.com".toList qtypeA
      ⟨silent.address, 0x4242, buildDnsQuery 0x4242 "example.com".toList qtypeA⟩ :=
  have any : [silent] ≠ [] := by simp
  (asksFor_iff (fun _ _ => none) .timeout any "example.com".toList (.inl rfl)).mpr (by decide) _
    (by simp [dnsExchange, silent, awaitAnswer])

theorem absolute_name_misasked :
    ∃ query ∈ (dnsExchange (fun _ _ => none) "example.com.".toList qtypeA .timeout [silent]).1,
      ¬ AsksFor "example.com.".toList qtypeA query ∧ number 2 query.message 25 = some 0 := by
  have refused : dnsResponseMatches (withQr (buildDnsQuery 0x4242 "example.com.".toList qtypeA)) 0x4242
      "example.com.".toList qtypeA = false := by decide
  refine ⟨⟨silent.address, 0x4242, buildDnsQuery 0x4242 "example.com.".toList qtypeA⟩, by decide,
    fun asks => ?_, by decide⟩
  rw [asks.response] at refused
  cases refused

end

end Gozarbin.Socks
