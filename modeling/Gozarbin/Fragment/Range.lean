import Gozarbin.Masque.Capsule
import Gozarbin.Sniff.Tls

/-! # Where the server name stands

`sni_host_range` is a second reader of ClientHellos. It looks for the place of the name
and not for the name, counts from the start of the record, and takes the lengths of the
record and of the hello for granted. Its sums are sums of machine words.
-/

namespace Gozarbin.Fragment

open Fields Sniff
open Masque (WordSize)

/-- Why a computation ends early. -/
inductive Stop where
  | absent
  | panics
  | loops
  deriving DecidableEq

abbrev Machine := Except Stop

def Machine.ofOption {α : Type} : Option α → Machine α
  | some a => .ok a
  | none => .error .absent

variable {α : Type}

theorem Machine.ofOption_eq_ok {x : Option α} {a : α} :
    Machine.ofOption x = .ok a ↔ x = some a := by
  cases x <;> simp [ofOption]

theorem Machine.ofOption_eq_error {x : Option α} {stop : Stop} :
    Machine.ofOption x = .error stop ↔ x = none ∧ stop = .absent := by
  cases x <;> simp [ofOption, eq_comm]

def add (word : WordSize) (a b : Nat) : Machine Nat :=
  if a + b < 2 ^ word.bits then .ok (a + b) else .error .panics

def sub (a b : Nat) : Machine Nat := if b ≤ a then .ok (a - b) else .error .panics

def takeNumber (word : WordSize) (buf : Bytes) (offset n : Nat) : Machine Nat :=
  if offset + n < 2 ^ word.bits then
    match range buf offset (offset + n) with
    | some slice => .ok (slice.foldl (fun acc b => (acc <<< 8) ||| b.toNat) 0)
    | none => .error .absent
  else .error .absent

def hostEntry (word : WordSize) (buf : Bytes) (body : Nat) : Machine (Nat × Nat) := do
  let entry ← add word body 2
  let kind ← takeNumber word buf entry 1
  if kind ≠ 0 then .error .absent
  else
    let hostLen ← takeNumber word buf (← add word entry 1) 2
    let host ← add word entry 3
    if hostLen = 0 then .error .absent
    else
      let hostEnd ← add word host hostLen
      if hostEnd > buf.length then .error .absent else .ok (host, hostEnd)

def scan (word : WordSize) (buf : Bytes) (extensionsEnd : Nat) :
    (fuel offset : Nat) → Machine (Nat × Nat)
  | 0, _ => .error .loops
  | fuel + 1, offset => do
      let head ← add word offset 4
      if head ≤ extensionsEnd then
        let kind ← takeNumber word buf offset 2
        let len ← takeNumber word buf (← add word offset 2) 2
        let body ← add word offset 4
        if kind = 0x0000 then hostEntry word buf body
        else scan word buf extensionsEnd fuel (← add word body len)
      else .error .absent

def sniHostRange (word : WordSize) (buf : Bytes) : Machine (Nat × Nat) := do
  let first ← Machine.ofOption buf.head?
  if first ≠ 0x16 then .error .absent
  else
    let kind ← Machine.ofOption buf[5]?
    if kind ≠ 0x01 then .error .absent
    else
      let offset := 43
      let offset ← add word offset (← add word 1 (← takeNumber word buf offset 1))
      let offset ← add word offset (← add word 2 (← takeNumber word buf offset 2))
      let offset ← add word offset (← add word 1 (← takeNumber word buf offset 1))
      let extensionsEnd ← add word (← add word offset 2) (← takeNumber word buf offset 2)
      let offset ← add word offset 2
      scan word buf extensionsEnd (buf.length + 1) offset

def nameAt (buf : Bytes) (body : Nat) : Option (Nat × Nat) :=
  (number 1 buf (body + 2)).bind fun kind =>
    if kind ≠ 0 then none
    else
      (number 2 buf (body + 3)).bind fun length =>
        if length = 0 ∨ body + 5 + length > buf.length then none
        else some (body + 5, body + 5 + length)

def scanNames (buf : Bytes) (extensionsEnd : Nat) : (fuel offset : Nat) → Option (Nat × Nat)
  | 0, _ => none
  | fuel + 1, offset =>
    if offset + 4 ≤ extensionsEnd then
      (number 2 buf offset).bind fun kind =>
        (number 2 buf (offset + 2)).bind fun length =>
          if kind = 0 then nameAt buf (offset + 4)
          else scanNames buf extensionsEnd fuel (offset + 4 + length)
    else none

def hostRange (buf : Bytes) : Option (Nat × Nat) :=
  buf.head?.bind fun first =>
    if first ≠ 0x16 then none
    else
      buf[5]?.bind fun kind =>
        if kind ≠ 0x01 then none
        else
          (number 1 buf 43).bind fun session =>
            (number 2 buf (43 + (1 + session))).bind fun cipher =>
              (number 1 buf (43 + (1 + session) + (2 + cipher))).bind fun compression =>
                (number 2 buf (43 + (1 + session) + (2 + cipher) + (1 + compression))).bind fun length =>
                  scanNames buf (43 + (1 + session) + (2 + cipher) + (1 + compression) + 2 + length)
                    (buf.length + 1) (43 + (1 + session) + (2 + cipher) + (1 + compression) + 2)

section
variable {word : WordSize} {buf : Bytes}

theorem bits_le (word : WordSize) : 2 ^ 32 ≤ 2 ^ word.bits := by
  cases word with
  | bits32 => exact Nat.le_refl _
  | bits64 => decide

theorem add_eq {a b : Nat} (small : a + b < 2 ^ 32) : add word a b = .ok (a + b) :=
  if_pos (Nat.lt_of_lt_of_le small (bits_le word))

variable {offset : Nat}

theorem takeNumber_eq {n : Nat} (small : offset + n < 2 ^ 32) :
    takeNumber word buf offset n = .ofOption (number n buf offset) := by
  have fold : ∀ (slice : Bytes) (acc : Nat), slice.foldl (fun acc b => (acc <<< 8) ||| b.toNat) acc =
      slice.foldl (fun n b => 256 * n + b.toNat) acc := by
    intro slice acc
    simp only [shift_or_byte]
  rw [takeNumber, if_pos (Nat.lt_of_lt_of_le small (bits_le word)), number]
  cases range buf offset (offset + n) with
  | none => rfl
  | some slice => simp only [fold, Option.map_some, Machine.ofOption, BigEndian.ofBytes]

theorem add_bind {a b : Nat} {f : Nat → Machine α} (small : a + b < 2 ^ 32) :
    (add word a b >>= f) = f (a + b) := by
  rw [add_eq small]
  rfl

theorem ofOption_bind {β : Type} {x : Option α} {f : α → Machine β} {g : α → Option β}
    (later : ∀ v, x = some v → f v = .ofOption (g v)) :
    (Machine.ofOption x >>= f) = .ofOption (x.bind g) := by
  cases x with
  | none => rfl
  | some v => exact later v rfl

theorem take_bind {n : Nat} {f : Nat → Machine α} {g : Nat → Option α}
    (small : offset + n < 2 ^ 32)
    (later : ∀ v < 256 ^ n, offset + n ≤ buf.length → f v = .ofOption (g v)) :
    (takeNumber word buf offset n >>= f) = .ofOption ((number n buf offset).bind g) := by
  rw [takeNumber_eq small]
  exact ofOption_bind fun v read => later v (number_lt read) (number_le read)

variable {body : Nat}

theorem hostEntry_eq (small : body < 2 ^ 31) :
    hostEntry word buf body = .ofOption (nameAt buf body) := by
  rw [hostEntry, add_bind (by omega)]
  refine take_bind (by omega) fun kind _ _ => ?_
  split
  · rfl
  rw [add_bind (by omega)]
  refine take_bind (by omega) fun length short _ => ?_
  rw [add_bind (by omega)]
  by_cases empty : length = 0
  · simp [empty, Machine.ofOption]
  · rw [if_neg empty, add_bind (by omega)]
    simp only [empty, false_or]
    split <;> rfl

variable {extensionsEnd fuel : Nat}

theorem scan_eq (small : extensionsEnd < 2 ^ 30)
    (near : offset < 2 ^ 31) (some_fuel : 0 < fuel) (enough : buf.length < offset + fuel) :
    scan word buf extensionsEnd fuel offset =
      .ofOption (scanNames buf extensionsEnd fuel offset) := by
  induction fuel generalizing offset with
  | zero => cases some_fuel
  | succ fuel ih =>
    rw [scan, add_bind (by omega), scanNames]
    split
    · refine take_bind (by omega) fun kind _ inside => ?_
      rw [add_bind (by omega)]
      refine take_bind (by omega) fun length short _ => ?_
      rw [add_bind (by omega)]
      split
      · exact hostEntry_eq (by omega)
      · rw [add_bind (by omega)]
        exact ih (by omega) (by omega) (by omega)
    · rfl

theorem sniHostRange_eq (word : WordSize) (buf : Bytes) :
    sniHostRange word buf = .ofOption (hostRange buf) := by
  refine ofOption_bind fun first _ => ?_
  split
  · rfl
  refine ofOption_bind fun kind _ => ?_
  split
  · rfl
  refine take_bind (by decide) fun session short _ => ?_
  rw [add_bind (by omega), add_bind (by omega)]
  refine take_bind (by omega) fun cipher short₁ _ => ?_
  rw [add_bind (by omega), add_bind (by omega)]
  refine take_bind (by omega) fun compression short₂ _ => ?_
  rw [add_bind (by omega), add_bind (by omega), add_bind (by omega)]
  refine take_bind (by omega) fun length short₃ _ => ?_
  rw [add_bind (by omega), add_bind (by omega)]
  exact scan_eq (by omega) (by omega) (by omega) (by omega)

theorem nameAt_inside {s e : Nat} (found : nameAt buf body = some (s, e)) :
    s < e ∧ e ≤ buf.length ∧ e < body + 65541 := by
  obtain ⟨kind, -, found⟩ := Option.bind_eq_some_iff.mp found
  rw [Option.ite_none_left_eq_some] at found
  obtain ⟨length, read, found⟩ := Option.bind_eq_some_iff.mp found.2
  have short : length < 65536 := number_lt read
  rw [Option.ite_none_left_eq_some] at found
  obtain ⟨bounds, same⟩ := found
  cases same
  omega

theorem scanNames_inside {s e : Nat}
    (found : scanNames buf extensionsEnd fuel offset = some (s, e)) :
    s < e ∧ e ≤ buf.length ∧ e < extensionsEnd + 65541 := by
  induction fuel generalizing offset with
  | zero => cases found
  | succ fuel ih =>
    rw [scanNames, Option.ite_none_right_eq_some] at found
    obtain ⟨head, found⟩ := found
    obtain ⟨kind, -, found⟩ := Option.bind_eq_some_iff.mp found
    obtain ⟨length, -, found⟩ := Option.bind_eq_some_iff.mp found
    split at found
    · have inside := nameAt_inside found
      omega
    · exact ih found

theorem hostRange_inside {s e : Nat} (found : hostRange buf = some (s, e)) :
    s < e ∧ e ≤ buf.length ∧ e < 2 ^ 32 := by
  obtain ⟨first, -, found⟩ := Option.bind_eq_some_iff.mp found
  rw [Option.ite_none_left_eq_some] at found
  obtain ⟨kind, -, found⟩ := Option.bind_eq_some_iff.mp found.2
  rw [Option.ite_none_left_eq_some] at found
  obtain ⟨session, read, found⟩ := Option.bind_eq_some_iff.mp found.2
  obtain ⟨cipher, read₁, found⟩ := Option.bind_eq_some_iff.mp found
  obtain ⟨compression, read₂, found⟩ := Option.bind_eq_some_iff.mp found
  obtain ⟨length, read₃, found⟩ := Option.bind_eq_some_iff.mp found
  have inside := scanNames_inside found
  have short := number_lt read
  have short₁ := number_lt read₁
  have short₂ := number_lt read₂
  have short₃ := number_lt read₃
  omega

variable {stop : Nat}

theorem byte_range {part : Bytes} {start : Nat} {b : UInt8}
    (outer : range buf start stop = some part) (found : part[offset]? = some b) :
    number 1 buf (start + offset) = some b.toNat := by
  refine number_range outer ?_
  rw [← byte_eq, found]
  rfl

theorem range_clientHello {hello : Bytes} (read : clientHello buf = some hello) :
    buf.head? = some 0x16 ∧ buf[5]? = some 0x01 ∧ ∃ stop, range buf 9 stop = some hello := by
  obtain ⟨first, at_first, read⟩ := Option.bind_eq_some_iff.mp read
  rw [Option.ite_none_left_eq_some] at read
  obtain ⟨handshake, read⟩ := read
  obtain ⟨recordLen, -, read⟩ := Option.bind_eq_some_iff.mp read
  obtain ⟨body, at_body, read⟩ := Option.bind_eq_some_iff.mp read
  obtain ⟨kind, at_kind, read⟩ := Option.bind_eq_some_iff.mp read
  rw [Option.ite_none_left_eq_some] at read
  obtain ⟨client, read⟩ := read
  obtain ⟨helloLen, -, read⟩ := Option.bind_eq_some_iff.mp read
  rw [not_not] at handshake client
  refine ⟨?_, ?_, _, range_range at_body read⟩
  · rw [at_first, handshake]
    rfl
  · rw [List.head?_eq_getElem?] at at_kind
    have fifth := byte_range at_body at_kind
    rw [← byte_eq, client] at fifth
    obtain ⟨b, at_fifth, same⟩ := Option.map_eq_some_iff.mp fifth
    rw [at_fifth, UInt8.toNat_inj.mp same]
    rfl

variable {data : Bytes}

theorem scanNames_of_find {hello : Bytes} {start last fuel' : Nat}
    (part : range buf start last = some hello)
    (taken : find 2 hello stop 0 fuel offset = some data)
    (later : start + stop ≤ extensionsEnd) (enough : fuel ≤ fuel') :
    ∃ body stop', range buf body stop' = some data ∧
      scanNames buf extensionsEnd fuel' (start + offset) = nameAt buf body := by
  induction fuel generalizing fuel' offset with
  | zero => cases taken
  | succ fuel ih =>
    obtain ⟨fuel', rfl⟩ := Nat.exists_eq_add_one_of_ne_zero (Nat.ne_zero_of_lt enough)
    rw [find, Option.ite_none_right_eq_some] at taken
    obtain ⟨head, taken⟩ := taken
    obtain ⟨kind, read_kind, taken⟩ := Option.bind_eq_some_iff.mp taken
    obtain ⟨length, read_length, taken⟩ := Option.bind_eq_some_iff.mp taken
    rw [Option.ite_none_left_eq_some] at taken
    obtain ⟨inside, taken⟩ := taken
    have kind' := number_range part read_kind
    have length' := number_range part read_length
    rw [← Nat.add_assoc] at length'
    rw [scanNames, if_pos (by omega), kind', Option.bind_some, length', Option.bind_some]
    split at taken
    next same => exact ⟨_, _, range_range part taken, if_pos same⟩
    next other =>
      obtain ⟨body, stop', stands, same⟩ := ih taken (Nat.le_of_succ_le_succ enough)
      rw [if_neg other]
      exact ⟨body, stop', stands, by rw [← same, ← Nat.add_assoc, ← Nat.add_assoc]⟩

theorem nameAt_of_firstServerName {ucd : Text.Ucd} {h : Text}
    (stands : range buf body stop = some data) (read : firstServerName ucd data = some h)
    (host : data[2]? = some sniHostName) :
    ∃ name length, range buf (body + 5) (body + 5 + length) = some name ∧
      plausibleHost ucd name = some h ∧ nameAt buf body = some (body + 5, body + 5 + length) := by
  simp only [firstServerName, findHostName_eq] at read
  obtain ⟨listLen, -, read⟩ := Option.bind_eq_some_iff.mp read
  obtain ⟨name, found, taken⟩ := Option.bind_eq_some_iff.mp read
  have kind : number 1 data 2 = some sniHostName.toNat := by
    rw [← byte_eq, host]
    rfl
  rw [find, Option.ite_none_right_eq_some, kind, Option.bind_some] at found
  obtain ⟨length, at_length, found⟩ := Option.bind_eq_some_iff.mp found.2
  rw [Option.ite_none_left_eq_some, if_pos rfl] at found
  have here := range_range stands found.2
  rw [← Nat.add_assoc body _ length] at here
  refine ⟨name, length, here, taken, ?_⟩
  have size := length_range here
  have pos : 0 < name.length := by
    refine List.length_pos_of_ne_nil ?_
    rintro rfl
    cases taken
  have inside := (range_eq_some.mp here).2.1
  rw [nameAt, number_range stands kind, Option.bind_some, if_neg (by decide),
    number_range stands at_length, Option.bind_some, if_neg (by omega)]

theorem hostRange_of_serverNames (found : serverNames buf = some data) :
    ∃ body stop, range buf body stop = some data ∧ hostRange buf = nameAt buf body := by
  simp only [serverNames, findExtension_eq] at found
  obtain ⟨hello, at_hello, found⟩ := Option.bind_eq_some_iff.mp found
  obtain ⟨⟨offset, extensionsEnd⟩, bounds, found⟩ := Option.bind_eq_some_iff.mp found
  obtain ⟨first, kind, last, part⟩ := range_clientHello at_hello
  have shift : ∀ {size o o' v}, number size hello o = some v → o' = 9 + o →
      number size buf o' = some v := fun found sum => sum ▸ number_range part found
  rw [extensionBounds_eq] at bounds
  obtain ⟨session, at_session, bounds⟩ := Option.bind_eq_some_iff.mp bounds
  obtain ⟨cipher, at_cipher, bounds⟩ := Option.bind_eq_some_iff.mp bounds
  obtain ⟨compression, at_compression, bounds⟩ := Option.bind_eq_some_iff.mp bounds
  obtain ⟨length, at_length, bounds⟩ := Option.bind_eq_some_iff.mp bounds
  cases bounds
  have short : hello.length ≤ buf.length := by
    have size := length_range part
    have inside := (range_eq_some.mp part).2.1
    omega
  obtain ⟨body, stop, stands, same⟩ := scanNames_of_find part found
    (Nat.add_le_add_left (Nat.min_le_left _ _) 9) (Nat.succ_le_succ short)
  refine ⟨body, stop, stands, ?_⟩
  rw [← same, hostRange, first, Option.bind_some, if_neg (by decide), kind, Option.bind_some,
    if_neg (by decide), shift at_session rfl, Option.bind_some, shift at_cipher (by omega),
    Option.bind_some, shift at_compression (by omega), Option.bind_some, shift at_length (by omega),
    Option.bind_some]
  congr 1 <;> omega

/-- Both readers find the same name, if the first entry is a host name. -/
theorem readers_agree (word : WordSize) (ucd : Text.Ucd) (buf : Bytes) :
    (∀ h data, tlsSni ucd buf = some h → serverNames buf = some data →
        data[2]? = some sniHostName →
        ∃ s e, sniHostRange word buf = .ok (s, e) ∧ 0 < s ∧ s < e ∧ e ≤ buf.length ∧
          plausibleHost ucd ((buf.take e).drop s) = some h) ∧
      (∀ s e, sniHostRange word buf = .ok (s, e) → s < e ∧ e ≤ buf.length) ∧
      ∀ stop, sniHostRange word buf = .error stop → stop = .absent := by
  rw [sniHostRange_eq]
  refine ⟨?agree, ?inside, ?ends⟩
  case agree =>
    intro h data read found host
    obtain ⟨data', found', named⟩ := Option.bind_eq_some_iff.mp read
    obtain rfl : data' = data := Option.some.inj (found'.symm.trans found)
    obtain ⟨body, stop, stands, same⟩ := hostRange_of_serverNames found
    obtain ⟨name, length, here, taken, at_body⟩ := nameAt_of_firstServerName stands named host
    obtain ⟨ordered, inside, -⟩ := nameAt_inside at_body
    obtain ⟨-, -, rfl⟩ := range_eq_some.mp here
    have range : hostRange buf = some (body + 5, body + 5 + length) := same.trans at_body
    refine ⟨_, _, Machine.ofOption_eq_ok.mpr range, by omega, ordered, inside, ?_⟩
    rw [List.drop_take]
    exact taken
  case inside =>
    intro s e found
    obtain ⟨ordered, inside, -⟩ := hostRange_inside (Machine.ofOption_eq_ok.mp found)
    exact ⟨ordered, inside⟩
  case ends =>
    intro stop failed
    exact (Machine.ofOption_eq_error.mp failed).2

def oneName : List ServerName := [⟨sniHostName, Text.ascii "ab.example"⟩]

def oneNameHello : HelloRecord where
  version := sampleRecord.version
  hello := { sampleRecord.hello with
    extensions := some [⟨0, encodeNameList oneName, by decide⟩]
    extensions_fit := by simp only [Option.mem_def, Option.some.injEq, forall_eq']; decide }
  version_length := sampleRecord.version_length
  fits := by decide

theorem readers_agree_one :
    ∃ s e, sniHostRange .bits64 oneNameHello.encode = .ok (s, e) ∧ 0 < s ∧ s < e ∧
      e ≤ oneNameHello.encode.length ∧
      plausibleHost .ascii ((oneNameHello.encode.take e).drop s) = some "ab.example".toList :=
  (readers_agree .bits64 .ascii oneNameHello.encode).1 "ab.example".toList (encodeNameList oneName)
    (by decide) (by decide) rfl

end

end Gozarbin.Fragment
