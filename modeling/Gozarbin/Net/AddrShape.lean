import Gozarbin.Lib.Split
import Gozarbin.Net.AddrText

/-! # What an address looks like

The text of an address up to its first colon is made of hexadecimal digits, and if it
starts with a colon, it starts with two of them and not with three. That is all a
reader of rules has to know to tell an address from a kind and a value.
-/

namespace Gozarbin.AddrText

/-- The text starts as an address does. -/
structure Addressed (text : Text) : Prop where
  first : ∃ c rest, text = c :: rest ∧ ((Text.digit? 16 c).isSome ∨ c = ':')
  colon : ∀ {before after : Text}, text = before ++ ':' :: after → ':' ∉ before →
    (∀ c ∈ before, (Text.digit? 16 c).isSome) ∧
      (before = [] → ∃ rest, after = ':' :: rest ∧ rest.head? ≠ some ':')

variable {radix maxDigits bound count count' value value' : Nat} {zeros : Bool} {text rest : Text}

theorem readDigits_takes
    (read : readDigits radix maxDigits count value text = some (count', value', rest)) :
    ∃ taken, text = taken ++ rest ∧ count' = count + taken.length ∧
      (∀ c ∈ taken, (Text.digit? radix c).isSome) ∧
      ∀ c ∈ rest.head?, Text.digit? radix c = none := by
  induction text generalizing count value with
  | nil =>
    cases read
    exact ⟨[], by simp⟩
  | cons c text ih =>
    rw [readDigits] at read
    cases digit : Text.digit? radix c with
    | none =>
      rw [digit] at read
      cases read
      exact ⟨[], by simp [digit]⟩
    | some d =>
      rw [digit] at read
      simp only [Option.ite_none_left_eq_some] at read
      obtain ⟨taken, rfl, rfl, digits, stops⟩ := ih read.2
      refine ⟨c :: taken, rfl, by simp; omega, ?_, stops⟩
      simpa [digit] using digits

theorem readNumber_takes (read : readNumber radix maxDigits bound zeros text = some (value, rest)) :
    ∃ c taken, text = c :: taken ++ rest ∧ (∀ d ∈ c :: taken, (Text.digit? radix d).isSome) ∧
      ∀ d ∈ rest.head?, Text.digit? radix d = none := by
  simp only [readNumber, Option.bind_eq_bind, Option.bind_eq_some_iff] at read
  obtain ⟨⟨count, value, rest'⟩, digits, accepted⟩ := read
  obtain ⟨taken, rfl, rfl, all, stops⟩ := readDigits_takes digits
  split_ifs at accepted with empty
  cases accepted
  cases taken with
  | nil => simp at empty
  | cons c taken => exact ⟨c, taken, rfl, all, stops⟩

theorem readGivenChar_eq_some {target : Char} (read : readGivenChar target text = some rest) :
    text = target :: rest := by
  cases text with
  | nil => cases read
  | cons c text =>
    simp only [readGivenChar, Option.ite_none_right_eq_some, Option.some.injEq] at read
    rw [read.1, read.2]

theorem ne_colon {c : Char} (digit : (Text.digit? radix c).isSome) : c ≠ ':' := by
  rintro rfl
  simp [Text.digit?] at digit

theorem readOctet_takes {index : Nat} (read : readOctet index text = some (value, rest)) :
    ∃ taken, text = taken ++ rest ∧ ':' ∉ taken := by
  have number : ∀ {text}, readNumber 10 3 256 false text = some (value, rest) →
      ∃ taken, text = taken ++ rest ∧ ':' ∉ taken := by
    intro text read
    obtain ⟨c, taken, same, digits, -⟩ := readNumber_takes read
    exact ⟨c :: taken, same, fun colon => ne_colon (digits _ colon) rfl⟩
  unfold readOctet readSeparator at read
  split at read
  · obtain ⟨text', dot, read⟩ := Option.bind_eq_some_iff.mp read
    obtain ⟨taken, rfl, clean⟩ := number read
    exact ⟨'.' :: taken, readGivenChar_eq_some dot, by simp [clean]⟩
  · exact number read

theorem readIpv4Addr_takes {address : Ipv4Addr} (read : readIpv4Addr text = some (address, rest)) :
    ∃ taken, text = taken ++ rest ∧ ':' ∉ taken := by
  simp only [readIpv4Addr, Option.bind_eq_bind, Option.bind_eq_some_iff] at read
  obtain ⟨⟨a, text₁⟩, first, ⟨b, text₂⟩, second, ⟨c, text₃⟩, third, ⟨d, text₄⟩, fourth, done⟩ := read
  cases done
  obtain ⟨w, rfl, clean_w⟩ := readOctet_takes first
  obtain ⟨x, rfl, clean_x⟩ := readOctet_takes second
  obtain ⟨y, rfl, clean_y⟩ := readOctet_takes third
  obtain ⟨z, rfl, clean_z⟩ := readOctet_takes fourth
  exact ⟨w ++ x ++ y ++ z, by simp, by simp [clean_w, clean_x, clean_y, clean_z]⟩

theorem readGroups_of_head {index left : Nat} (behind : index > 0)
    (other : ∀ after, text ≠ ':' :: after) : readGroups index left text = ([], false, text) := by
  have stops : ∀ {α : Type} (inner : Reader α), readSeparator ':' index inner text = none := by
    intro α inner
    rw [readSeparator, if_pos behind]
    cases found : readGivenChar ':' text with
    | none => rfl
    | some after => exact absurd (readGivenChar_eq_some found) (other after)
  cases left with
  | zero => rfl
  | succ left =>
    rw [readGroups, stops, stops]
    split <;> simp_all

theorem readGroups_first (left : Nat) (v4 : readIpv4Addr text = none) :
    readGroups 0 (left + 1) text = ([], false, text) ∨
      ∃ c taken group rest, text = c :: taken ++ rest ∧
        (∀ d ∈ c :: taken, (Text.digit? 16 d).isSome) ∧
        readGroups 0 (left + 1) text =
          (group :: (readGroups 1 left rest).1, (readGroups 1 left rest).2) := by
  have embedded : (if left > 0 then readSeparator ':' 0 readIpv4Addr text else none) = none := by
    simp [readSeparator, v4]
  rw [readGroups, embedded]
  simp only [readSeparator]
  cases read : readNumber 16 4 65536 true text with
  | none => exact .inl rfl
  | some number =>
    obtain ⟨group, rest⟩ := number
    obtain ⟨c, taken, same, digits, -⟩ := readNumber_takes read
    exact .inr ⟨c, taken, group, rest, same, digits, rfl⟩

theorem readIpv6Addr_starts {address : Ipv6Addr} (v4 : readIpv4Addr text = none)
    (read : readIpv6Addr text = some (address, [])) :
    (∃ c taken after, text = c :: taken ++ ':' :: after ∧
        ∀ d ∈ c :: taken, (Text.digit? 16 d).isSome) ∨
      ∃ after, text = ':' :: ':' :: after ∧ after.head? ≠ some ':' := by
  rw [readIpv6Addr] at read
  rcases readGroups_first 7 v4 with none_read | ⟨c, taken, group, rest, rfl, digits, groups⟩
  · simp only [none_read, List.length_nil] at read
    obtain ⟨text₁, first, read⟩ := Option.bind_eq_some_iff.mp read
    obtain ⟨text₂, second, read⟩ := Option.bind_eq_some_iff.mp read
    refine .inr ⟨text₂, ?_, fun third => ?_⟩
    · rw [readGivenChar_eq_some first, readGivenChar_eq_some second]
    · obtain ⟨after, rfl⟩ := List.head?_eq_some_iff.mp third
      cases read
  · by_cases colon : ∃ after, rest = ':' :: after
    · obtain ⟨after, rfl⟩ := colon
      exact .inl ⟨c, taken, after, rfl, digits⟩
    · rw [readGroups_of_head Nat.one_pos fun after same => colon ⟨after, same⟩] at groups
      simp only [groups] at read
      obtain ⟨text₁, first, -⟩ := Option.bind_eq_some_iff.mp read
      exact absurd ⟨text₁, readGivenChar_eq_some first⟩ colon

theorem readIpv6Addr_of_parse {ip : IpAddr} (parsed : parseIpAddr text = some ip)
    (not_v4 : readIpv4Addr text = none) : ∃ address, readIpv6Addr text = some (address, []) := by
  simp only [parseIpAddr, readIpAddr, not_v4] at parsed
  cases read : readIpv6Addr text with
  | none => simp [read] at parsed
  | some found =>
    obtain ⟨address, rest⟩ := found
    cases rest with
    | nil => exact ⟨address, rfl⟩
    | cons => simp [read] at parsed

theorem not_mem_of_readIpv4Addr {ip : IpAddr} {read : Ipv4Addr × Text}
    (parsed : parseIpAddr text = some ip) (v4 : readIpv4Addr text = some read) : ':' ∉ text := by
  obtain ⟨address, rest⟩ := read
  obtain ⟨taken, whole, clean⟩ := readIpv4Addr_takes v4
  cases rest with
  | cons => simp [parseIpAddr, readIpAddr, v4] at parsed
  | nil => rwa [whole, List.append_nil]

theorem addressed_of_parse {ip : IpAddr} (parsed : parseIpAddr text = some ip) :
    Addressed text := by
  constructor
  · cases text with
    | nil => cases parsed
    | cons c rest =>
      refine ⟨c, rest, rfl, ?_⟩
      by_contra neither
      simp only [not_or, Option.not_isSome_iff_eq_none] at neither
      rw [parseIpAddr_of_head neither.1 neither.2] at parsed
      cases parsed
  · intro before after same first
    cases v4 : readIpv4Addr text with
    | some read => exact absurd (by simp [same]) (not_mem_of_readIpv4Addr parsed v4)
    | none =>
      have split : Text.splitOnce [':'] text = some (before, after) := by
        rw [same]
        exact Text.splitOnce_append first
      obtain ⟨address, read⟩ := readIpv6Addr_of_parse parsed v4
      rcases readIpv6Addr_starts v4 read with ⟨c, taken, rest, whole, digits⟩ | ⟨rest, whole, stops⟩
      · have clean : ':' ∉ c :: taken := fun colon => ne_colon (digits _ colon) rfl
        rw [whole, Text.splitOnce_append clean] at split
        cases split
        exact ⟨digits, nofun⟩
      · have empty : (':' :: ':' :: rest : Text) = [] ++ ':' :: ':' :: rest := rfl
        rw [whole, empty, Text.splitOnce_append (by simp)] at split
        cases split
        exact ⟨by simp, fun _ => ⟨rest, rfl, stops⟩⟩

end Gozarbin.AddrText
