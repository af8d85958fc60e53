import Gozarbin.Net.AddrShape

/-! # The characters of an address

Every reader of an address takes hexadecimal digits, colons and dots off the front of the
text, so the text of an address has no other character: none that ends an authority, and
no blank.
-/

namespace Gozarbin.AddrText

/-- What an address is written with. -/
def IsAddrChar (c : Char) : Prop := (Text.digit? 16 c).isSome ∨ c = ':' ∨ c = '.'

/-- What is left after some characters of a kind. -/
def Takes (P : Char → Prop) (text rest : Text) : Prop := ∃ taken, text = taken ++ rest ∧ ∀ c ∈ taken, P c

variable {P : Char → Prop} {text mid rest : Text} {value index : Nat}

theorem Takes.refl (text : Text) : Takes P text text := ⟨[], rfl, by simp⟩

theorem Takes.trans (first : Takes P text mid) (second : Takes P mid rest) : Takes P text rest := by
  obtain ⟨a, rfl, chars_a⟩ := first
  obtain ⟨b, rfl, chars_b⟩ := second
  refine ⟨a ++ b, (List.append_assoc ..).symm, fun c member => ?_⟩
  rcases List.mem_append.mp member with left | right
  · exact chars_a c left
  · exact chars_b c right

theorem Takes.mono {Q : Char → Prop} (takes : Takes P text rest) (weaker : ∀ c, P c → Q c) :
    Takes Q text rest := by
  obtain ⟨taken, same, chars⟩ := takes
  exact ⟨taken, same, fun c member => weaker c (chars c member)⟩

theorem readNumber_chars {radix maxDigits bound : Nat} {zeros : Bool} (decimal : radix = 10 ∨ radix = 16)
    (read : readNumber radix maxDigits bound zeros text = some (value, rest)) :
    Takes IsAddrChar text rest := by
  obtain ⟨c, taken, same, digits, -⟩ := readNumber_takes read
  refine ⟨c :: taken, same, fun d member => .inl ?_⟩
  have digit := digits d member
  rcases decimal with rfl | rfl
  · exact Text.hex_of_decimal digit
  · exact digit

theorem readGivenChar_chars {target : Char} (char : target = ':' ∨ target = '.')
    (read : readGivenChar target text = some rest) : Takes IsAddrChar text rest :=
  ⟨[target], readGivenChar_eq_some read, by simpa using .inr char⟩

theorem readSeparator_chars {α : Type} {sep : Char} {inner : Reader α} {a : α}
    (char : sep = ':' ∨ sep = '.')
    (takes : ∀ {text}, inner text = some (a, rest) → Takes IsAddrChar text rest)
    (read : readSeparator sep index inner text = some (a, rest)) : Takes IsAddrChar text rest := by
  unfold readSeparator at read
  split at read
  · obtain ⟨mid, first, second⟩ := Option.bind_eq_some_iff.mp read
    exact (readGivenChar_chars char first).trans (takes second)
  · exact takes read

theorem readOctet_chars (read : readOctet index text = some (value, rest)) : Takes IsAddrChar text rest :=
  readSeparator_chars (.inr rfl) (readNumber_chars (.inl rfl)) read

theorem readIpv4Addr_chars {address : Ipv4Addr} (read : readIpv4Addr text = some (address, rest)) :
    Takes IsAddrChar text rest := by
  simp only [readIpv4Addr, Option.bind_eq_bind, Option.bind_eq_some_iff] at read
  obtain ⟨⟨a, text₁⟩, first, ⟨b, text₂⟩, second, ⟨c, text₃⟩, third, ⟨d, text₄⟩, fourth, done⟩ := read
  cases done
  exact (readOctet_chars first).trans <| (readOctet_chars second).trans <|
    (readOctet_chars third).trans (readOctet_chars fourth)

theorem readGroups_chars (index left : Nat) (text : Text) :
    Takes IsAddrChar text (readGroups index left text).2.2 := by
  induction left generalizing index text with
  | zero => exact .refl text
  | succ left ih =>
    rw [readGroups]
    split
    next v4 rest read =>
      split at read
      · exact readSeparator_chars (.inl rfl) readIpv4Addr_chars read
      · cases read
    next =>
      split
      next group rest read =>
        exact (readSeparator_chars (.inl rfl) (readNumber_chars (.inr rfl)) read).trans (ih ..)
      next => exact .refl text

theorem readIpv6Addr_chars {address : Ipv6Addr} (read : readIpv6Addr text = some (address, rest)) :
    Takes IsAddrChar text rest := by
  have head := readGroups_chars 0 8 text
  rw [readIpv6Addr] at read
  dsimp only at read
  split at read
  · cases read
    exact head
  · split at read
    · cases read
    · simp only [Option.bind_eq_bind, Option.bind_eq_some_iff] at read
      obtain ⟨text₁, first, text₂, second, done⟩ := read
      cases done
      exact head.trans <| (readGivenChar_chars (.inl rfl) first).trans <|
        (readGivenChar_chars (.inl rfl) second).trans (readGroups_chars ..)

theorem readIpAddr_chars {ip : IpAddr} (read : readIpAddr text = some (ip, rest)) :
    Takes IsAddrChar text rest := by
  rw [readIpAddr] at read
  split at read
  next address rest' v4 =>
    cases read
    exact readIpv4Addr_chars v4
  next =>
    obtain ⟨⟨address, rest'⟩, v6, same⟩ := Option.map_eq_some_iff.mp read
    cases same
    exact readIpv6Addr_chars v6

theorem Takes.chars (takes : Takes P text []) : ∀ c ∈ text, P c := by
  obtain ⟨taken, rfl, chars⟩ := takes
  rwa [List.append_nil]

theorem chars_of_parse {ip : IpAddr} (parsed : parseIpAddr text = some ip) :
    ∀ c ∈ text, IsAddrChar c := by
  unfold parseIpAddr at parsed
  split at parsed
  next read => exact (readIpAddr_chars read).chars
  next => cases parsed

theorem IsAddrChar.ne {c d : Char} (char : IsAddrChar c) (digit : Text.digit? 16 d = none)
    (colon : d ≠ ':') (dot : d ≠ '.') : c ≠ d := by
  rintro rfl
  rcases char with hex | rfl | rfl
  · simp [digit] at hex
  · exact colon rfl
  · exact dot rfl

theorem IsAddrChar.not_blank {c : Char} (char : IsAddrChar c) : Text.isWhitespace c = false := by
  rcases char with hex | rfl | rfl
  · exact Text.hex_not_blank hex
  · decide
  · decide

end Gozarbin.AddrText
