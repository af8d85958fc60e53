import Gozarbin.Net.AddrShape
import Gozarbin.Routing

/-! # The entries of a rule list

An entry is a kind and a value with a colon between them, or a value alone. The kind is
looked for before the value is looked at, at the first colon.
-/

namespace Gozarbin.Routing

open AddrText

/-- The parser of networks (crate `ipnet`); what it accepts starts as an address does. -/
structure NetParser where
  parse : Text → Option IpNet
  addressed : ∀ {text : Text} {net : IpNet}, parse text = some net → Addressed text

/-- The text engine with its parsers. -/
structure Engine (Regex : Type) extends Patterns Regex where
  compile : Text → Option Regex
  nets : NetParser

def IpNet.ofAddr : IpAddr → IpNet
  | .v4 a => .v4 ⟨a, 32, Nat.le_refl 32⟩
  | .v6 a => .v6 ⟨a, 128, Nat.le_refl 128⟩

def parseNet (nets : NetParser) (value : Text) : Option IpNet :=
  let value := value.trim
  match nets.parse value with
  | some net => some net
  | none => (parseIpAddr value).map .ofAddr

def normalizeDomain (ucd : Text.Ucd) (value : Text) : Option Text :=
  let cleaned := Text.toLowercase ucd (Text.trimEndMatches '.'
    ((value.trim.dropWhile (· = '*')).dropWhile (· = '.')))
  if cleaned.isEmpty then none else some cleaned

def parsePort (text : Text) : Option UInt16 := (Text.parseUnsigned 65536 text).map .ofNat

def parsePorts (value : Text) : Option (UInt16 × UInt16) :=
  let value := value.trim
  match Text.splitOnce ['-'] value with
  | some (lo, hi) => do
      let lo ← parsePort lo.trim
      let hi ← parsePort hi.trim
      return if hi < lo then (hi, lo) else (lo, hi)
  | none => (parsePort value).map fun single => (single, single)

variable {Regex : Type}

def Matcher.ofValue (engine : Engine Regex) (value : Text) : Option (Matcher Regex) :=
  if value.eqIgnoreAsciiCase "private".toList then some .private_
  else
    match parseNet engine.nets value with
    | some network => some (.net network)
    | none => (normalizeDomain engine.ucd value).map .domainSuffix

def Matcher.ofKind (engine : Engine Regex) (kind value : Text) : Option (Matcher Regex) :=
  if kind = "domain".toList ∨ kind = "suffix".toList then
    (normalizeDomain engine.ucd value).map .domainSuffix
  else if kind = "full".toList ∨ kind = "exact".toList then
    (normalizeDomain engine.ucd value).map .domainFull
  else if kind = "keyword".toList then
    let needle := value.trim.toLowercase engine.ucd
    if needle.isEmpty then none else some (.domainKeyword needle)
  else if kind = "regexp".toList ∨ kind = "regex".toList then
    (engine.compile value).map .domainRegex
  else if kind = "ip".toList ∨ kind = "cidr".toList then (parseNet engine.nets value).map .net
  else if kind = "port".toList then (parsePorts value).map fun (lo, hi) => .ports lo hi
  else if kind = "geoip".toList ∨ kind = "geosite".toList then
    if value.eqIgnoreAsciiCase "private".toList then some .private_ else none
  else if kind = [] then ofValue engine value
  else none

theorem Matcher.ofKind_ip (engine : Engine Regex) (value : Text) :
    ofKind engine "ip".toList value = (parseNet engine.nets value).map .net := rfl

theorem Matcher.ofKind_nil (engine : Engine Regex) (value : Text) :
    ofKind engine [] value = ofValue engine value := rfl

theorem Matcher.ofKind_hex (engine : Engine Regex) {kind : Text} (value : Text)
    (digits : ∀ c ∈ kind, (Text.digit? 16 c).isSome) (nonempty : kind ≠ []) :
    ofKind engine kind value = none := by
  have other : ∀ word : Text, word.all (fun c => (Text.digit? 16 c).isSome) = false → kind ≠ word := by
    rintro word letters rfl
    rw [List.all_eq_true.mpr digits] at letters
    cases letters
  simp only [ofKind, other "domain".toList (by decide), other "suffix".toList (by decide),
    other "full".toList (by decide), other "exact".toList (by decide),
    other "keyword".toList (by decide), other "regexp".toList (by decide),
    other "regex".toList (by decide), other "ip".toList (by decide), other "cidr".toList (by decide),
    other "port".toList (by decide), other "geoip".toList (by decide),
    other "geosite".toList (by decide), nonempty, or_self, if_false]

def splitKind (ucd : Text.Ucd) (entry : Text) : Text × Text :=
  match Text.splitOnce [':'] entry with
  | some (kind, value) =>
    if '.' ∉ kind ∧ '/' ∉ kind then (kind.trim.toLowercase ucd, value.trim) else ([], entry)
  | none => ([], entry)

def Matcher.parse (engine : Engine Regex) (entry : Text) : Option (Matcher Regex) :=
  let entry := entry.trim
  if entry.isEmpty ∨ entry.head? = some '#' then none
  else ofKind engine (splitKind engine.ucd entry).1 (splitKind engine.ucd entry).2

variable (engine : Engine Regex)

/-- The text alone is a rule, and one for what the text behind `ip:` is one for. -/
def BareRule (text : Text) : Prop :=
  ∃ bare marked, Matcher.parse engine text = some bare ∧
    Matcher.parse engine ("ip:".toList ++ text) = some marked ∧
    ∀ host port, bare.matches engine.toPatterns host port =
      marked.matches engine.toPatterns host port

theorem IpNet.exists_contains (net : IpNet) : ∃ ip, net.contains ip = true := by
  have within : ∀ {w : Nat} (addr : BitVec w) (len : Nat),
      networkOf addr len ≤ addr ∧ addr ≤ broadcastOf addr len := by
    intro w addr len
    constructor
    · rw [BitVec.le_def, networkOf, BitVec.toNat_and]
      exact Nat.and_le_left
    · rw [BitVec.le_def, broadcastOf, BitVec.toNat_or]
      exact Nat.left_le_or
  cases net with
  | v4 net => exact ⟨.v4 net.addr, by simp [contains, within]⟩
  | v6 net => exact ⟨.v6 net.addr, by simp [contains, within]⟩

variable {engine} {text : Text} {network : IpNet}

theorem parseNet_trim (nets : NetParser) (text : Text) :
    parseNet nets text.trim = parseNet nets text := by
  simp [parseNet]

theorem addressed_of_parseNet {nets : NetParser} (accepted : parseNet nets text = some network) :
    Addressed text.trim := by
  unfold parseNet at accepted
  simp only at accepted
  split at accepted
  next net parsed => exact nets.addressed parsed
  next =>
    obtain ⟨ip, parsed, -⟩ := Option.map_eq_some_iff.mp accepted
    exact addressed_of_parse parsed

theorem not_private_of_addressed (addressed : Addressed text) :
    text.eqIgnoreAsciiCase "private".toList = false := by
  rw [← Bool.not_eq_true]
  intro same
  obtain ⟨c, rest, rfl, start⟩ := addressed.first
  have folded : c.toLower = 'p' := (List.cons.inj (beq_iff_eq.mp same)).1
  rcases start with digit | rfl
  · exact Text.ne_of_hex (Text.hex_toLower digit) (by decide) folded
  · exact absurd folded (by decide)

theorem ne_comment {c : Char} (start : (Text.digit? 16 c).isSome ∨ c = ':') : c ≠ '#' := by
  rcases start with digit | rfl
  · exact Text.ne_of_hex digit (by decide)
  · decide

theorem parse_marked (accepted : parseNet engine.nets text = some network) :
    Matcher.parse engine ("ip:".toList ++ text) = some (.net network) := by
  obtain ⟨c, rest, starts, -⟩ := (addressed_of_parseNet accepted).first
  have nonempty : text.trim ≠ [] := by simp [starts]
  have visible : Text.isWhitespace 'i' = false := by decide
  obtain ⟨front, -, entry, value⟩ := Text.trim_cons_append visible ['p', ':'] nonempty
  have kind : splitKind engine.ucd ('i' :: ['p', ':'] ++ (front ++ text.trim)) =
      ("ip".toList, text.trim) := by
    have split : Text.splitOnce [':'] ('i' :: ['p', ':'] ++ (front ++ text.trim)) =
        some ("ip".toList, front ++ text.trim) := by
      have clean : ':' ∉ "ip".toList := by decide
      exact Text.splitOnce_append clean
    have lower : Text.toLowercase engine.ucd "ip".toList = "ip".toList :=
      Text.toLowercase_ascii engine.ucd (by simp)
    have plain : '.' ∉ "ip".toList ∧ '/' ∉ "ip".toList := by decide
    have trimmed : Text.trim "ip".toList = "ip".toList := by decide
    simp only [splitKind, split, if_pos plain, trimmed, lower, value]
  have chars : "ip:".toList ++ text = 'i' :: ['p', ':'] ++ text := rfl
  rw [Matcher.parse]
  simp only [chars, entry, kind]
  rw [if_neg (by simp), Matcher.ofKind_ip, parseNet_trim, accepted]
  rfl

theorem parse_bare (accepted : parseNet engine.nets text = some network) (plain : ':' ∉ text.trim) :
    Matcher.parse engine text = some (.net network) := by
  have addressed := addressed_of_parseNet accepted
  obtain ⟨c, rest, starts, start⟩ := addressed.first
  have no_comment : c ≠ '#' := ne_comment start
  have kind : splitKind engine.ucd text.trim = ([], text.trim) := by
    simp [splitKind, Text.splitOnce_of_not_mem plain]
  simp only [Matcher.parse, kind]
  rw [if_neg (by simp [starts, no_comment])]
  rw [Matcher.ofKind_nil, Matcher.ofValue, not_private_of_addressed addressed, parseNet_trim, accepted]
  rfl

theorem parse_eq_ofKind (engine : Engine Regex) (addressed : Addressed text.trim) {before after : Text}
    (cut : text.trim = before ++ ':' :: after) (first : ':' ∉ before) :
    Matcher.parse engine text =
      Matcher.ofKind engine (Text.toLowercase engine.ucd (Text.trim before)) (Text.trim after) := by
  obtain ⟨digits, -⟩ := addressed.colon cut first
  obtain ⟨c, rest, starts, start⟩ := addressed.first
  have no_comment : c ≠ '#' := ne_comment start
  have split : Text.splitOnce [':'] text.trim = some (before, after) := by
    rw [cut]
    exact Text.splitOnce_append first
  have plain : '.' ∉ before ∧ '/' ∉ before :=
    ⟨fun dot => Text.ne_of_hex (digits _ dot) (by decide) rfl,
      fun slash => Text.ne_of_hex (digits _ slash) (by decide) rfl⟩
  have kind : splitKind engine.ucd text.trim =
      (Text.toLowercase engine.ucd (Text.trim before), Text.trim after) := by
    simp only [splitKind, split, if_pos plain]
  simp only [Matcher.parse, kind]
  rw [if_neg (by simp [starts, no_comment])]

theorem parseNet_colon (nets : NetParser) {rest : Text} (same : Text.trim (':' :: rest) = ':' :: rest)
    (single : rest.head? ≠ some ':') : parseNet nets (':' :: rest) = none := by
  rw [Option.eq_none_iff_forall_ne_some]
  intro network accepted
  have again := addressed_of_parseNet accepted
  rw [same] at again
  have first : (':' :: rest : Text) = [] ++ ':' :: rest := rfl
  obtain ⟨more, rfl, -⟩ := (again.colon first (by simp)).2 rfl
  exact single rfl

theorem ofValue_colon (engine : Engine Regex) {rest : Text}
    (refused : parseNet engine.nets (':' :: rest) = none) :
    Matcher.ofValue engine (':' :: rest) =
      (normalizeDomain engine.ucd (':' :: rest)).map .domainSuffix := by
  have named : Text.eqIgnoreAsciiCase (':' :: rest) "private".toList = false := by
    rw [← Bool.not_eq_true]
    intro folded
    exact absurd (List.cons.inj (beq_iff_eq.mp folded)).1 (by decide)
  rw [Matcher.ofValue, named, refused]
  rfl

theorem parse_colon (engine : Engine Regex) (addressed : Addressed text.trim)
    (colon : ':' ∈ text.trim) :
    Matcher.parse engine text = none ∨
      ∃ suffix, Matcher.parse engine text = some (.domainSuffix suffix) := by
  obtain ⟨before, after, cut, first⟩ := List.eq_append_cons_of_mem colon
  obtain ⟨digits, double⟩ := addressed.colon cut first
  rw [parse_eq_ofKind engine addressed cut first]
  cases before with
  | nil =>
    obtain ⟨rest, rfl, single⟩ := double rfl
    have trimmed : Text.Trimmed ([':'] ++ ':' :: rest) := cut ▸ Text.trimmed_trim text
    have same : Text.trim (':' :: rest) = ':' :: rest := (trimmed.of_append (by decide)).trim_eq
    have refused := parseNet_colon engine.nets same single
    have empty : Text.toLowercase engine.ucd (Text.trim []) = [] := rfl
    rw [empty, same, Matcher.ofKind_nil, ofValue_colon engine refused]
    cases normalizeDomain engine.ucd (':' :: rest) with
    | none => exact .inl rfl
    | some suffix => exact .inr ⟨suffix, rfl⟩
  | cons c before =>
    have trimmed : Text.Trimmed (c :: before) :=
      ⟨fun d first => Text.hex_not_blank (digits d (List.mem_of_mem_head? first)),
        fun d last => Text.hex_not_blank (digits d (List.mem_of_mem_getLast? last))⟩
    have lower := Text.toLowercase_ascii engine.ucd fun d member => Text.hex_ascii (digits d member)
    rw [trimmed.trim_eq, lower, Matcher.ofKind_hex]
    · exact .inl rfl
    · simpa using fun d member => Text.hex_toLower (digits d member)
    · simp

/-- A bare address is the rule it is meant to be precisely if it has no colon. -/
theorem bareRule_iff (accepted : parseNet engine.nets text = some network) :
    BareRule engine text ↔ ':' ∉ text := by
  have visible : Text.isWhitespace ':' = false := by decide
  have inside : ':' ∈ text ↔ ':' ∈ text.trim := by
    obtain ⟨front, back, same, blank_front, blank_back, -⟩ := Text.trim_spec text
    have no_front : ':' ∉ front := fun colon => by simp [blank_front _ colon] at visible
    have no_back : ':' ∉ back := fun colon => by simp [blank_back _ colon] at visible
    conv_lhs => rw [same]
    simp [no_front, no_back]
  constructor
  · rintro ⟨bare, marked, parsed, parsed_marked, alike⟩ colon
    rw [parse_marked accepted] at parsed_marked
    cases parsed_marked
    obtain ⟨ip, member⟩ := network.exists_contains
    rcases parse_colon engine (addressed_of_parseNet accepted) (inside.mp colon) with
      dropped | ⟨suffix, named⟩
    · rw [dropped] at parsed
      cases parsed
    · rw [named] at parsed
      cases parsed
      have := alike (.ip ip) 0
      simp [Matcher.matches, member] at this
  · intro plain
    have bare := parse_bare accepted (mt inside.mpr plain)
    exact ⟨_, _, bare, parse_marked accepted, fun _ _ => rfl⟩

def parseLength (text : Text) : Option Nat :=
  if text.isEmpty then none else Text.parseDigits 129 0 text

def parseSlashed (text : Text) : Option IpNet := do
  let (address, length) ← Text.splitOnce ['/'] text
  let ip ← parseIpAddr address
  let length ← parseLength length
  match ip with
  | .v4 a => if fits : length ≤ 32 then some (.v4 ⟨a, length, fits⟩) else none
  | .v6 a => if fits : length ≤ 128 then some (.v6 ⟨a, length, fits⟩) else none

theorem parseDigits_digits {bound acc n : Nat} (parsed : Text.parseDigits bound acc text = some n) :
    ':' ∉ text := by
  induction text generalizing acc with
  | nil => simp
  | cons c rest ih =>
    rw [Text.parseDigits] at parsed
    cases digit : Text.digit? 10 c with
    | none => simp [digit] at parsed
    | some d =>
      simp only [digit, Option.ite_none_right_eq_some] at parsed
      have other : c ≠ ':' := ne_colon (by simp [digit] : (Text.digit? 10 c).isSome)
      simp [other.symm, ih parsed.2]

theorem addressed_append {address length : Text} (addressed : Addressed address)
    (plain : ':' ∉ length) : Addressed (address ++ '/' :: length) := by
  constructor
  · obtain ⟨c, rest, rfl, start⟩ := addressed.first
    exact ⟨c, rest ++ '/' :: length, rfl, start⟩
  · intro before after same first
    have colon : ':' ∈ address := by
      have found : ':' ∈ address ++ '/' :: length := by simp [same]
      simpa [plain] using found
    obtain ⟨before', after', rfl, first'⟩ := List.eq_append_cons_of_mem colon
    have split : Text.splitOnce [':'] (before ++ ':' :: after) =
        some (before', after' ++ '/' :: length) := by
      rw [← same, List.append_assoc, List.cons_append]
      exact Text.splitOnce_append first'
    rw [Text.splitOnce_append first] at split
    cases split
    obtain ⟨digits, double⟩ := addressed.colon rfl first
    refine ⟨digits, fun empty => ?_⟩
    obtain ⟨rest, rfl, single⟩ := double empty
    cases rest with
    | nil => simp
    | cons c rest => simpa using single

theorem parseSlashed_addressed (parsed : parseSlashed text = some network) : Addressed text := by
  obtain ⟨⟨address, length⟩, split, parsed⟩ := Option.bind_eq_some_iff.mp parsed
  obtain ⟨ip, read, parsed⟩ := Option.bind_eq_some_iff.mp parsed
  obtain ⟨n, digits, -⟩ := Option.bind_eq_some_iff.mp parsed
  rw [parseLength, Option.ite_none_left_eq_some] at digits
  rw [(Text.splitOnce_eq_some split).1]
  exact addressed_append (addressed_of_parse read) (parseDigits_digits digits.2)

def NetParser.slashed : NetParser where
  parse := parseSlashed
  addressed := parseSlashed_addressed

def Engine.plain : Engine Empty where
  ucd := .ascii
  isMatch pattern _ := nomatch pattern
  compile _ := none
  nets := .slashed

theorem bareRule_ten : BareRule Engine.plain "10.0.0.0/8".toList :=
  have accepted : parseNet Engine.plain.nets "10.0.0.0/8".toList =
    some (.v4 ⟨⟨0x0a000000#32⟩, 8, by decide⟩) := by decide
  (bareRule_iff accepted).mpr (by decide)

theorem bareRule_ipv6 :
    (parseNet Engine.plain.nets "2606:4700::/32".toList).isSome ∧
      Matcher.parse Engine.plain "2606:4700::/32".toList = none ∧
      ¬ BareRule Engine.plain "2606:4700::/32".toList ∧
      parseNet Engine.plain.nets "::1".toList = some (.v6 ⟨.localhost, 128, by decide⟩) ∧
      Matcher.parse Engine.plain "::1".toList = some (.domainSuffix ":1".toList) ∧
      ¬ BareRule Engine.plain "::1".toList := by
  have dropped : Matcher.parse Engine.plain "2606:4700::/32".toList = none := by decide
  have named : Matcher.parse Engine.plain "::1".toList = some (.domainSuffix ":1".toList) := by
    decide
  have marked : Matcher.parse Engine.plain "ip:::1".toList =
      some (.net (.v6 ⟨.localhost, 128, by decide⟩)) := by decide
  refine ⟨by decide, dropped, ?_, by decide, named, ?_⟩
  · rintro ⟨bare, -, parsed, -⟩
    rw [dropped] at parsed
    cases parsed
  · rintro ⟨bare, rule, parsed, parsed_marked, alike⟩
    obtain rfl := Option.some.inj (named.symm.trans parsed)
    obtain rfl := Option.some.inj (marked.symm.trans parsed_marked)
    exact absurd (alike (.ip (.v6 .localhost)) 443) (by decide)

end Gozarbin.Routing
