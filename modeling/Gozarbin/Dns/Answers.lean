import Gozarbin.Fragment.Range
import Gozarbin.Lib.DnsMessage

/-! # The answers of a DNS response

`socks.rs` looks for an address in a response and `dns.rs` for a key. Both readers pass over the
questions and go through the answers alike; what to make of the data is where they differ. An
index outside of the message panics, and positions are too small for a sum of them to overflow.
-/

namespace Gozarbin.Dns

open List Fields DnsName
open Fragment (Machine Stop)

def skipNameFrom (buf : Bytes) : (fuel pos : Nat) → Machine Nat
  | 0, _ => .error .loops
  | fuel + 1, pos =>
    match buf[pos]? with
    | none => .error .absent
    | some len =>
      if len &&& 0xc0 = 0xc0 then .ok (pos + 2)
      else if len = 0 then .ok (pos + 1)
      else skipNameFrom buf fuel (pos + (1 + len.toNat))

def skipName (buf : Bytes) (pos : Nat) : Machine Nat := skipNameFrom buf (buf.length + 1) pos

def u16At (msg : Bytes) (pos : Nat) : Machine Nat :=
  match number 2 msg pos with
  | some n => .ok n
  | none => .error .panics

def slice (msg : Bytes) (start stop : Nat) : Machine Bytes :=
  match range msg start stop with
  | some bytes => .ok bytes
  | none => .error .panics

def skipQuestions (msg : Bytes) : (count pos : Nat) → Machine Nat
  | 0, pos => .ok pos
  | count + 1, pos => do
      let pos ← skipName msg pos
      skipQuestions msg count (pos + 4)

section
variable {α : Type}

def scanAnswers (take : (rtype pos rdlen : Nat) → Machine α) (msg : Bytes) : (count pos : Nat) → Machine α
  | 0, _ => .error .absent
  | count + 1, pos => do
      let pos ← skipName msg pos
      if pos + 10 > msg.length then .error .absent
      else
        let rtype ← u16At msg pos
        let rdlen ← u16At msg (pos + 8)
        let pos := pos + 10
        if pos + rdlen > msg.length then .error .absent
        else
          match take rtype pos rdlen with
          | .error .absent => scanAnswers take msg count (pos + rdlen)
          | result => result

def parseAnswers (take : (rtype pos rdlen : Nat) → Machine α) (msg : Bytes) : Machine α :=
  if msg.length < 12 then .error .absent
  else do
    let qd ← u16At msg 4
    let an ← u16At msg 6
    let pos ← skipQuestions msg qd 12
    scanAnswers take msg an pos

end

/-- The computation ends with a result or with nothing, and neither panics nor loops. -/
def Safe {α : Type} (x : Machine α) : Prop := ∀ stop, x = .error stop → stop = .absent

section
variable {α β : Type} {msg rest : Bytes} {pos : Nat}

theorem safe_ok (a : α) : Safe (.ok a) := fun _ failed => by cases failed

theorem safe_absent : Safe (.error .absent : Machine α) := fun _ failed => by
  cases failed
  rfl

theorem Safe.bind {x : Machine α} {f : α → Machine β} (first : Safe x)
    (later : ∀ a, x = .ok a → Safe (f a)) :
    Safe (x >>= f) := by
  cases x with
  | ok a => exact later a rfl
  | error stop => exact fun _ failed => first _ (by cases failed; rfl)

variable {fuel : Nat}

theorem safe_skipNameFrom (some_ : 0 < fuel) (enough : msg.length < pos + fuel) :
    Safe (skipNameFrom msg fuel pos) := by
  induction fuel generalizing pos with
  | zero => exact absurd some_ (Nat.lt_irrefl 0)
  | succ fuel ih =>
    rw [skipNameFrom]
    split
    next => exact safe_absent
    next len found =>
      have inside := (List.getElem?_eq_some_iff.mp found).1
      split
      next => exact safe_ok _
      next =>
        split
        next => exact safe_ok _
        next => exact ih (by omega) (by omega)

theorem safe_skipName (msg : Bytes) (pos : Nat) : Safe (skipName msg pos) :=
  safe_skipNameFrom (Nat.succ_pos _) (by omega)

theorem safe_u16At (inside : pos + 2 ≤ msg.length) : Safe (u16At msg pos) := by
  have found : range msg pos (pos + 2) = some _ := range_eq_some.mpr ⟨by omega, inside, rfl⟩
  rw [u16At, number, found]
  exact safe_ok _

theorem safe_slice {start stop : Nat} (ordered : start ≤ stop) (inside : stop ≤ msg.length) :
    Safe (slice msg start stop) := by
  have found : range msg start stop = some _ := range_eq_some.mpr ⟨ordered, inside, rfl⟩
  rw [slice, found]
  exact safe_ok _

theorem safe_skipQuestions (msg : Bytes) (count pos : Nat) : Safe (skipQuestions msg count pos) := by
  induction count generalizing pos with
  | zero => exact safe_ok _
  | succ count ih => exact (safe_skipName msg pos).bind fun _ _ => ih _

variable {take : (rtype pos rdlen : Nat) → Machine α}

theorem safe_scanAnswers
    (safe : ∀ rtype pos rdlen, pos + rdlen ≤ msg.length → Safe (take rtype pos rdlen)) (count pos : Nat) :
    Safe (scanAnswers take msg count pos) := by
  induction count generalizing pos with
  | zero => exact safe_absent
  | succ count ih =>
    refine (safe_skipName msg pos).bind fun at_ _ => ?_
    split
    next => exact safe_absent
    next fixed =>
      refine (safe_u16At (by omega)).bind fun rtype _ => (safe_u16At (by omega)).bind fun rdlen _ => ?_
      dsimp only
      split
      next => exact safe_absent
      next data =>
        have taken := safe rtype (at_ + 10) rdlen (by omega)
        split
        next => exact ih _
        next => exact taken

theorem safe_parseAnswers
    (safe : ∀ rtype pos rdlen, pos + rdlen ≤ msg.length → Safe (take rtype pos rdlen)) :
    Safe (parseAnswers take msg) := by
  rw [parseAnswers]
  split
  next => exact safe_absent
  next long =>
    refine (safe_u16At (by omega)).bind fun qd _ => (safe_u16At (by omega)).bind fun an _ => ?_
    exact (safe_skipQuestions msg qd 12).bind fun _ _ => safe_scanAnswers safe _ _

theorem u16At_of_number {n : Nat} (found : number 2 msg pos = some n) : u16At msg pos = .ok n := by
  rw [u16At, found]

theorem slice_of_range {start stop : Nat} {bytes : Bytes} (found : range msg start stop = some bytes) :
    slice msg start stop = .ok bytes := by
  rw [slice, found]

theorem pointer_bits : ∀ n < 64, UInt8.ofNat (0xc0 + n) &&& 0xc0 = 0xc0 := by decide

theorem label_bits : ∀ n < 64, UInt8.ofNat n &&& 0xc0 ≠ 0xc0 := by decide

theorem skipNameFrom_end (pointer : Option (Fin 16384))
    (split : msg.drop pos = encodeEnd pointer ++ rest) :
    skipNameFrom msg (fuel + 1) pos = .ok (pos + (encodeEnd pointer).length) := by
  cases pointer with
  | none =>
    rw [skipNameFrom, getElem?_of_drop split]
    rfl
  | some offset =>
    rw [encodeEnd, BigEndian.toBytes_succ] at split
    have first : (0xc000 + offset.val) / 256 ^ 1 = 0xc0 + offset.val / 256 := by omega
    rw [first] at split
    rw [skipNameFrom, getElem?_of_drop split]
    dsimp only
    rw [if_pos (pointer_bits _ (by omega)), encodeEnd, BigEndian.length_toBytes]

theorem skipNameFrom_written {labels : List Bytes} (fits : ∀ l ∈ labels, Fits l)
    (pointer : Option (Fin 16384)) (enough : labels.length < fuel)
    (split : msg.drop pos = encodeLabels labels ++ (encodeEnd pointer ++ rest)) :
    skipNameFrom msg fuel pos = .ok (pos + (encodeLabels labels).length + (encodeEnd pointer).length) := by
  obtain ⟨fuel, rfl⟩ := Nat.exists_eq_add_one_of_ne_zero (Nat.ne_zero_of_lt enough)
  induction labels generalizing pos fuel with
  | nil => exact skipNameFrom_end pointer split
  | cons l labels ih =>
    obtain ⟨here, later⟩ := forall_mem_cons.mp fits
    obtain ⟨fuel, rfl⟩ := Nat.exists_eq_add_one_of_ne_zero
      (Nat.ne_zero_of_lt (Nat.lt_of_succ_lt_succ enough))
    rw [encodeLabels_cons, append_assoc] at split
    have first : msg[pos]? = some (UInt8.ofNat l.length) := getElem?_of_drop split
    have next := ih later (drop_add split) fuel (Nat.lt_of_succ_lt_succ enough)
    have length : (encodeLabel l).length = 1 + l.length := by simp [encodeLabel, Nat.add_comm]
    rw [skipNameFrom, first]
    dsimp only
    rw [if_neg (label_bits _ (by have := here.2; omega)), if_neg (length_ne_zero here), toNat_length here,
      ← length, next, encodeLabels_cons, length_append, Nat.add_assoc pos]

theorem length_le_encodeLabels (labels : List Bytes) : labels.length ≤ (encodeLabels labels).length := by
  induction labels with
  | nil => exact Nat.le_refl _
  | cons l labels ih =>
    rw [encodeLabels_cons, length_append, encodeLabel, length_cons, length_cons]
    omega

theorem skipName_written (name : WrittenName) (split : msg.drop pos = name.encode ++ rest) :
    skipName msg pos = .ok (pos + name.encode.length) := by
  have size := congrArg List.length split
  rw [length_drop, length_append] at size
  rw [WrittenName.encode, length_append] at size ⊢
  have labels := length_le_encodeLabels name.labels
  rw [WrittenName.encode, append_assoc] at split
  rw [skipName, skipNameFrom_written name.fits name.pointer (by omega) split, Nat.add_assoc]

theorem skipQuestions_written {questions : List Question}
    (split : msg.drop pos = questions.flatMap Question.encode ++ rest) :
    skipQuestions msg questions.length pos = .ok (pos + (questions.flatMap Question.encode).length) := by
  induction questions generalizing pos with
  | nil => rfl
  | cons q questions ih =>
    have next := ih (drop_add (split.trans (append_assoc ..)))
    have length : q.encode.length = q.name.encode.length + 4 := by simp [Question.encode]
    rw [flatMap_cons, append_assoc, Question.encode, append_assoc] at split
    rw [length_cons, skipQuestions, skipName_written q.name split]
    rw [length] at next
    rw [flatMap_cons, length_append, length, ← Nat.add_assoc, ← next]
    rfl

theorem fixed_of_drop {r : ResourceRecord} (split : msg.drop pos = r.fixed ++ rest) :
    number 2 msg pos = some r.rtype.toNat ∧ number 2 msg (pos + 8) = some r.rdata.length ∧
      msg.drop (pos + 10) = rest := by
  simp only [ResourceRecord.fixed, append_assoc] at split
  have at_class := drop_add split
  have at_ttl := drop_add at_class
  have at_length := drop_add at_ttl
  have at_data := drop_add at_length
  exact ⟨number_of_drop split r.rtype.toNat_lt, number_of_drop at_length r.small, at_data⟩

theorem scanAnswers_written {reads : β → Option α}
    {record : β → ResourceRecord} {entries : List β}
    (taken : ∀ e ∈ entries, ∀ p more, p + (record e).rdata.length ≤ msg.length →
      msg.drop p = (record e).rdata ++ more →
      take (record e).rtype.toNat p (record e).rdata.length = .ofOption (reads e))
    (split : msg.drop pos = (entries.map record).flatMap ResourceRecord.encode ++ rest) :
    scanAnswers take msg entries.length pos = .ofOption (entries.findSome? reads) := by
  induction entries generalizing pos with
  | nil => rfl
  | cons e entries ih =>
    obtain ⟨here, later⟩ := forall_mem_cons.mp taken
    rw [map_cons, flatMap_cons, append_assoc, ResourceRecord.encode, append_assoc,
      append_assoc] at split
    obtain ⟨rtype, rdlen, data⟩ := fixed_of_drop (drop_add split)
    have next := ih later (drop_add data)
    have fixed := number_le rdlen
    have size := congrArg List.length data
    rw [length_drop, length_append] at size
    have read := here _ _ (by omega) data
    rw [length_cons, scanAnswers, skipName_written (record e).name split]
    dsimp only [bind, Except.bind]
    rw [if_neg (by omega), u16At_of_number rtype, u16At_of_number rdlen]
    dsimp only
    rw [if_neg (by omega), read, List.findSome?_cons]
    cases reads e with
    | none => exact next
    | some a => rfl

theorem parseAnswers_encode {reads : β → Option α}
    {record : β → ResourceRecord} {entries : List β} {m : Message} (all : m.answers.1 = entries.map record)
    (taken : ∀ e ∈ entries, ∀ p more, p + (record e).rdata.length ≤ m.encode.length →
      m.encode.drop p = (record e).rdata ++ more →
      take (record e).rtype.toNat p (record e).rdata.length = .ofOption (reads e)) :
    parseAnswers take m.encode = .ofOption (entries.findSome? reads) := by
  have begins := m.begins
  have long := begins.long
  obtain ⟨rest, body⟩ := begins.body
  have count := begins.answers
  rw [all, length_map] at count
  rw [all] at body
  rw [parseAnswers, if_neg (by omega), u16At_of_number begins.questions, u16At_of_number count]
  dsimp only [bind, Except.bind]
  rw [skipQuestions_written body]
  exact scanAnswers_written taken (drop_add body)

end

end Gozarbin.Dns
