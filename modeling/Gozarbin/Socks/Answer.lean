import Gozarbin.Dns.Answers
import Gozarbin.Socks.Query

/-! # The address in an answer

`parse_dns_answer` takes the first record of the type that was asked for, and of the size an
address of that type has. What comes before it may be anything, such as the aliases that lead
to the name the address belongs to.
-/

namespace Gozarbin.Socks

open Fields DnsName BigEndian Dns
open Fragment (Machine)

def takeAddress (resp : Bytes) (qtype : UInt16) (rtype pos rdlen : Nat) : Machine IpAddr :=
  if rtype = qtype.toNat ∧ qtype = qtypeA ∧ rdlen = 4 then do
    let octets ← slice resp pos (pos + 4)
    .ok (.v4 ⟨.ofNat 32 (ofBytes octets)⟩)
  else if rtype = qtype.toNat ∧ qtype = qtypeAaaa ∧ rdlen = 16 then do
    let octets ← slice resp pos (pos + 16)
    .ok (.v6 ⟨.ofNat 128 (ofBytes octets)⟩)
  else .error .absent

def parseDnsAnswer (resp : Bytes) (qtype : UInt16) : Machine IpAddr :=
  parseAnswers (takeAddress resp qtype) resp

def isUsable (qtype : UInt16) (r : ResourceRecord) : Bool :=
  r.rtype = qtype && r.rdata.length = if qtype = qtypeA then 4 else 16

def address (r : ResourceRecord) : IpAddr :=
  if r.rdata.length = 4 then .v4 ⟨.ofNat 32 (ofBytes r.rdata)⟩ else .v6 ⟨.ofNat 128 (ofBytes r.rdata)⟩

section
variable {resp rest : Bytes} {qtype : UInt16}

theorem safe_takeAddress (qtype : UInt16) (rtype pos rdlen : Nat) (inside : pos + rdlen ≤ resp.length) :
    Safe (takeAddress resp qtype rtype pos rdlen) := by
  rw [takeAddress]
  split
  next v4 => exact (safe_slice (by omega) (by omega)).bind fun _ _ => safe_ok _
  next =>
    split
    next v6 => exact (safe_slice (by omega) (by omega)).bind fun _ _ => safe_ok _
    next => exact safe_absent

theorem takeAddress_data (kind : qtype = qtypeA ∨ qtype = qtypeAaaa) (r : ResourceRecord) {pos : Nat}
    (inside : pos ≤ resp.length) (split : resp.drop pos = r.rdata ++ rest) :
    takeAddress resp qtype r.rtype.toNat pos r.rdata.length =
      .ofOption (if isUsable qtype r then some (address r) else none) := by
  have octets := slice_of_range (range_of_drop inside split)
  have other : qtypeAaaa ≠ qtypeA := by decide
  unfold takeAddress isUsable address
  simp only [UInt16.toNat_inj]
  rcases kind with rfl | rfl
  · by_cases usable : r.rtype = qtypeA ∧ r.rdata.length = 4
    · rw [usable.2] at octets
      simp only [usable.1, usable.2, octets]
      rfl
    · have first : ¬ (r.rtype = qtypeA ∧ qtypeA = qtypeA ∧ r.rdata.length = 4) := by tauto
      have unusable : (decide (r.rtype = qtypeA) && decide (r.rdata.length = 4)) = false := by
        simpa using usable
      rw [if_neg first, if_neg (by simp [other.symm]), if_pos rfl, unusable]
      rfl
  · by_cases usable : r.rtype = qtypeAaaa ∧ r.rdata.length = 16
    · rw [usable.2] at octets
      simp only [usable.1, usable.2, octets]
      rfl
    · have second : ¬ (r.rtype = qtypeAaaa ∧ qtypeAaaa = qtypeAaaa ∧ r.rdata.length = 16) := by tauto
      have unusable : (decide (r.rtype = qtypeAaaa) && decide (r.rdata.length = 16)) = false := by
        simpa using usable
      rw [if_neg (by simp [other]), if_neg second, if_neg other, unusable]
      rfl

theorem findSome?_ite {α β : Type} (p : α → Bool) (f : α → β) (l : List α) :
    l.findSome? (fun a => if p a then some (f a) else none) = (l.find? p).map f := by
  induction l with
  | nil => rfl
  | cons a l ih =>
    rw [List.findSome?_cons, List.find?_cons]
    cases p a with
    | true => rfl
    | false => exact ih

end

/-- The address of the first usable record is returned; whatever the bytes are, none outside of
    them is read. -/
theorem parseDnsAnswer_first (qtype : UInt16) (kind : qtype = qtypeA ∨ qtype = qtypeAaaa) :
    (∀ m : Message, parseDnsAnswer m.encode qtype =
        .ofOption ((m.answers.1.find? (isUsable qtype)).map address)) ∧
      ∀ resp, Safe (parseDnsAnswer resp qtype) := by
  constructor
  · intro m
    rw [← findSome?_ite]
    refine parseAnswers_encode (List.map_id _).symm fun r _ p more inside split => ?_
    exact takeAddress_data kind r (by omega) split
  · intro resp
    exact safe_parseAnswers fun rtype pos rdlen => safe_takeAddress qtype rtype pos rdlen

def aliased : Message where
  id := 0x1234
  flags := 0x8180
  questions := ⟨[⟨⟨[Text.ascii "a"], by decide, none⟩, qtypeA, 1⟩], by decide⟩
  answers := ⟨[⟨⟨[Text.ascii "a"], by decide, none⟩, 5, 1, 60, [1, 0x63, 0xc0, 12], by decide⟩,
    ⟨⟨[Text.ascii "c"], by decide, some ⟨12, by decide⟩⟩, qtypeA, 1, 60, [1, 2, 3, 4], by decide⟩], by decide⟩
  authority := noEntries
  additional := noEntries

theorem parseDnsAnswer_aliased : parseDnsAnswer aliased.encode qtypeA = .ok (.v4 (.new 1 2 3 4)) :=
  ((parseDnsAnswer_first qtypeA (.inl rfl)).1 aliased).trans rfl

end Gozarbin.Socks
