import Gozarbin.Lib.Split
import Gozarbin.PercentDecode
import Gozarbin.Socks.HttpHead

/-! # The upstream setting

The proxy everything goes out through is one text: `Upstream::parse` reads it, and
`psiphon_url` writes it again for the helper that takes such a text too. Credentials are
percent coded in it, so that none of the characters the reader splits at is left in them.
-/

namespace Gozarbin

open List

inductive Upstream.Kind where
  | socks5
  | http
  deriving DecidableEq, Repr

/-- A proxy to go out through. -/
structure Upstream where
  kind : Upstream.Kind
  host : Text
  port : UInt16
  user : Option Text
  password : Option Text
  deriving DecidableEq

namespace Upstream

open Text PercentCoding Socks

def malformed (endpoint : Text) : Text :=
  endpoint ++ " is not a host and port an upstream proxy can live at".toList

def checkEndpoint (endpoint host port : Text) : Except Text (Text × UInt16) :=
  match parsePort port with
  | none => .error (malformed endpoint)
  | some port => if host.isEmpty || port == 0 then .error (malformed endpoint) else .ok (host, port)

def splitEndpoint (endpoint : Text) : Except Text (Text × UInt16) :=
  match strip ['['] endpoint with
  | some rest =>
    match splitOnce [']'] rest with
    | none => .error (malformed endpoint)
    | some (host, tail) =>
      match strip [':'] tail with
      | none => .error (malformed endpoint)
      | some port => checkEndpoint endpoint host port
  | none =>
    match rsplitOnce ':' endpoint with
    | none => .error (malformed endpoint)
    | some (host, port) => checkEndpoint endpoint host port

def splitScheme (ucd : Ucd) (raw : Text) : Text × Text :=
  match splitOnce "://".toList raw with
  | some (scheme, rest) => (scheme.toLowercase ucd, rest)
  | none => ("socks5".toList, raw)

def kindOf (scheme : Text) : Except Text Kind :=
  if scheme = "socks5".toList ∨ scheme = "socks5h".toList ∨ scheme = "socks".toList then .ok .socks5
  else if scheme = "http".toList ∨ scheme = "https".toList then .ok .http
  else .error (scheme ++ " is not an upstream proxy kind aether understands".toList)

def splitCredentials (rest : Text) : Option Text × Text :=
  match rsplitOnce '@' rest with
  | some (credentials, endpoint) => (some credentials, endpoint)
  | none => (none, rest)

def decodeCredentials : Option Text → Option Text × Option Text
  | some pair =>
    match splitOnce [':'] pair with
    | some (user, password) => (some (percentDecode user), some (percentDecode password))
    | none => (some (percentDecode pair), none)
  | none => (none, none)

def httpsRefused : Text :=
  ("an https:// upstream with a password is refused: aether talks to its upstream " ++
    "over plain http, which would send the password in the clear; use http:// " ++
    "only if that is acceptable, or socks5://").toList

def parse (ucd : Ucd) (raw : Text) : Except Text Upstream := do
  let (scheme, rest) := splitScheme ucd (trim raw)
  let kind ← kindOf scheme
  let (credentials, endpoint) := splitCredentials rest
  if scheme = "https".toList ∧ credentials.isSome then
    throw httpsRefused
  let (host, port) ← splitEndpoint (trimEndMatches '/' endpoint)
  let (user, password) := decodeCredentials credentials
  return { kind, host, port, user, password }

def isUnreserved (b : UInt8) : Bool :=
  (0x41 ≤ b && b ≤ 0x5a) || (0x61 ≤ b && b ≤ 0x7a) || (0x30 ≤ b && b ≤ 0x39) ||
    b == 0x2d || b == 0x2e || b == 0x5f || b == 0x7e

def hexUpper (n : Nat) : Char := (Nat.digitChar n).toUpper

def encodeByte (b : UInt8) : Text :=
  if isUnreserved b then [.ofNat b.toNat] else ['%', hexUpper (b.toNat / 16), hexUpper (b.toNat % 16)]

def percentEncode (value : Text) : Text := (toUtf8 value).flatMap encodeByte

def hostText (host : Text) : Text := if host.contains [':'] then '[' :: host ++ [']'] else host

def credentialsText : Option Text → Option Text → Text
  | some user, some password => percentEncode user ++ ':' :: percentEncode password ++ ['@']
  | some user, none => percentEncode user ++ ['@']
  | none, _ => []

def Kind.scheme : Kind → Text
  | .socks5 => "socks5".toList
  | .http => "http".toList

def psiphonUrl (u : Upstream) : Text :=
  u.kind.scheme ++ "://".toList ++ credentialsText u.user u.password ++ hostText u.host ++
    ':' :: decimal u.port.toNat

section
variable {b : UInt8} {text rest : Text} {ucd : Ucd} {u : Upstream}

theorem hexValue_hexUpper : ∀ n < 16, hexValue (hexUpper n).toNat.toUInt8 = some n := by decide

theorem hexUpper_char : ∀ n < 16, (hexUpper n).toNat < 128 ∧ hexUpper n ≠ ':' ∧ hexUpper n ≠ '@' := by
  decide

theorem isUnreserved_byte (plain : isUnreserved b = true) :
    b.toNat < 128 ∧ b.toNat ≠ 0x25 ∧ b.toNat ≠ 0x3a ∧ b.toNat ≠ 0x40 := by
  simp only [isUnreserved, Bool.or_eq_true, Bool.and_eq_true, decide_eq_true_eq, beq_iff_eq,
    UInt8.le_iff_toNat_le, ← UInt8.toNat_inj, UInt8.reduceToNat] at plain
  omega

theorem nibbles (b : UInt8) : b.toNat / 16 < 16 ∧ b.toNat % 16 < 16 := by
  have := b.toNat_lt
  omega

theorem encodeByte_char (b : UInt8) :
    ∀ c ∈ encodeByte b, c.toNat < 128 ∧ c ≠ ':' ∧ c ≠ '@' := by
  obtain ⟨high, low⟩ := nibbles b
  rw [encodeByte]
  split
  next plain =>
    obtain ⟨ascii, -, colon, sign⟩ := isUnreserved_byte plain
    have char := toNat_ofNat_byte b
    rw [forall_mem_singleton]
    refine ⟨by rwa [char], fun same => ?_, fun same => ?_⟩
    · rw [same] at char
      exact colon char.symm
    · rw [same] at char
      exact sign char.symm
  next => simp [hexUpper_char _ high, hexUpper_char _ low]

theorem percentEncode_char (text : Text) :
    ∀ c ∈ percentEncode text, c.toNat < 128 ∧ c ≠ ':' ∧ c ≠ '@' := by
  intro c member
  obtain ⟨b, -, here⟩ := mem_flatMap.mp member
  exact encodeByte_char b c here

theorem percentLoop_encodeByte (b : UInt8) (rest : Bytes) :
    percentLoop id ((encodeByte b).map (fun c => c.toNat.toUInt8) ++ rest) = b :: percentLoop id rest := by
  rw [encodeByte]
  split
  next plain =>
    obtain ⟨-, other, -⟩ := isUnreserved_byte plain
    have alone : Alone hexByte b rest := alone_of_ne (fun percent => other (by rw [percent]; rfl)) rest
    have byte : (Char.ofNat b.toNat).toNat.toUInt8 = b := by
      rw [toNat_ofNat_byte]
      exact UInt8.ofNat_toNat
    rw [map_singleton, byte]
    exact decode_single rfl alone
  next =>
    obtain ⟨high, low⟩ := nibbles b
    have pair : hexPair (hexUpper (b.toNat / 16)).toNat.toUInt8 (hexUpper (b.toNat % 16)).toNat.toUInt8 =
        some b := by
      refine hexPair_eq_some.mpr ⟨_, _, hexValue_hexUpper _ high, hexValue_hexUpper _ low, ?_⟩
      rw [Nat.div_add_mod]
      exact UInt8.ofNat_toNat
    exact decode_pair (hexByte_of_hexPair pair) rest

theorem percentDecode_encode (text : Text) : percentDecode (percentEncode text) = text := by
  have bytes : percentLoop id ((percentEncode text).map fun c => c.toNat.toUInt8) = toUtf8 text := by
    rw [percentEncode]
    induction toUtf8 text with
    | nil => rfl
    | cons b rest ih =>
      rw [flatMap_cons, map_append, percentLoop_encodeByte, ih]
  rw [percentDecode, toUtf8_ascii fun c member => (percentEncode_char text c member).1, bytes,
    fromUtf8Lossy_toUtf8]

/-- What `parse` makes sure of. -/
structure WellFormed (u : Upstream) : Prop where
  host : u.host ≠ []
  sign : '@' ∉ u.host
  port : u.port ≠ 0
  user : u.user = none → u.password = none

variable {endpoint host : Text}

theorem checkEndpoint_eq_ok {port : Text} {n : UInt16} {read : Text}
    (checked : checkEndpoint endpoint host port = .ok (read, n)) : read = host ∧ host ≠ [] ∧ n ≠ 0 := by
  unfold checkEndpoint at checked
  split at checked
  next => cases checked
  next number _ =>
    split at checked
    next => cases checked
    next fine =>
      cases checked
      simpa using fine

theorem splitEndpoint_eq_ok {port : UInt16}
    (read : splitEndpoint endpoint = .ok (host, port)) : host ⊆ endpoint ∧ host ≠ [] ∧ port ≠ 0 := by
  unfold splitEndpoint at read
  split at read
  next rest bracket =>
    split at read
    next => cases read
    next inside tail split_ =>
      split at read
      next => cases read
      next =>
        obtain ⟨rfl, fine⟩ := checkEndpoint_eq_ok read
        refine ⟨fun c member => ?_, fine⟩
        rw [strip_eq_some bracket, (splitOnce_eq_some split_).1]
        simp [member]
  next =>
    split at read
    next => cases read
    next before number split_ =>
      obtain ⟨rfl, fine⟩ := checkEndpoint_eq_ok read
      refine ⟨fun c member => ?_, fine⟩
      rw [rsplitOnce_eq_some split_]
      simp [member]

variable {credentials : Option Text}

theorem splitCredentials_sign
    (cut : splitCredentials rest = (credentials, endpoint)) : '@' ∉ endpoint := by
  unfold splitCredentials at cut
  split at cut
  next split_ =>
    cases cut
    exact not_mem_of_rsplitOnce split_
  next unsplit =>
    cases cut
    exact not_mem_of_rsplitOnce_eq_none unsplit

theorem decodeCredentials_user {user password : Option Text}
    (decoded : decodeCredentials credentials = (user, password))
    (none_ : user = none) : password = none := by
  subst none_
  unfold decodeCredentials at decoded
  split at decoded
  next => split at decoded <;> cases decoded
  next =>
    cases decoded
    rfl

theorem parse_eq_ok {raw scheme rest : Text}
    (cut : splitScheme ucd (trim raw) = (scheme, rest))
    (cut' : splitCredentials rest = (credentials, endpoint)) :
    parse ucd raw = .ok u ↔
      kindOf scheme = .ok u.kind ∧ ¬ (scheme = "https".toList ∧ credentials.isSome) ∧
        splitEndpoint (trimEndMatches '/' endpoint) = .ok (u.host, u.port) ∧
        decodeCredentials credentials = (u.user, u.password) := by
  simp only [parse, cut, cut']
  constructor
  · intro read
    cases kind : kindOf scheme with
    | error => rw [kind] at read; cases read
    | ok k =>
      rw [kind] at read
      split at read
      next => cases read
      next fine =>
        cases split_ : splitEndpoint (trimEndMatches '/' endpoint) with
        | error => rw [split_] at read; cases read
        | ok at_ =>
          rw [split_] at read
          cases read
          exact ⟨rfl, fine, rfl, rfl⟩
  · rintro ⟨kind, fine, split_, decoded⟩
    rw [kind, split_, decoded]
    dsimp only [bind, Except.bind]
    rw [if_neg fine]
    rfl

theorem wellFormed_of_parse (read : parse ucd text = .ok u) : WellFormed u := by
  obtain ⟨scheme, rest, cut⟩ : ∃ scheme rest, splitScheme ucd (trim text) = (scheme, rest) := ⟨_, _, rfl⟩
  obtain ⟨credentials, endpoint, cut'⟩ : ∃ credentials endpoint,
    splitCredentials rest = (credentials, endpoint) := ⟨_, _, rfl⟩
  obtain ⟨-, -, split_, decoded⟩ := (parse_eq_ok cut cut').mp read
  obtain ⟨inside, host, port⟩ := splitEndpoint_eq_ok split_
  exact {
    host := host
    sign := fun member => splitCredentials_sign cut' (subset_trimEndMatches _ _ (inside member))
    port := port
    user := decodeCredentials_user decoded }

theorem parsePort_decimal (port : UInt16) : parsePort (decimal port.toNat) = some port := by
  rw [parsePort, parseUnsigned_decimal port.toNat_lt]
  exact congrArg some UInt16.ofNat_toNat

theorem splitEndpoint_written (host : u.host ≠ []) (port : u.port ≠ 0) (opening : '[' ∉ u.host)
    (closing : ']' ∉ u.host) :
    splitEndpoint (hostText u.host ++ ':' :: decimal u.port.toNat) = .ok (u.host, u.port) := by
  have checked (endpoint : Text) :
      checkEndpoint endpoint u.host (decimal u.port.toNat) = .ok (u.host, u.port) := by
    rw [checkEndpoint, parsePort_decimal]
    simp [host, port]
  rw [hostText, contains_singleton]
  split
  next colon =>
    have bracket : strip ['['] ('[' :: u.host ++ [']'] ++ ':' :: decimal u.port.toNat) =
        some (u.host ++ ']' :: ':' :: decimal u.port.toNat) := by
      simpa using strip_append ['['] (u.host ++ ']' :: ':' :: decimal u.port.toNat)
    rw [splitEndpoint, bracket]
    dsimp only
    rw [splitOnce_append closing]
    exact checked _
  next colon =>
    have plain : strip ['['] (u.host ++ ':' :: decimal u.port.toNat) = none := by
      apply strip_of_head?
      intro first
      rw [List.head?_append_of_ne_nil _ host] at first
      exact opening (mem_of_head? first)
    have last : ':' ∉ decimal u.port.toNat := (numeral_decimal _).not_mem (by decide)
    rw [splitEndpoint, plain]
    rw [rsplitOnce_append last]
    exact checked _

theorem splitScheme_written (ucd : Ucd) (kind : Kind) (rest : Text) :
    splitScheme ucd (kind.scheme ++ "://".toList ++ rest) = (kind.scheme, rest) := by
  have colon : ':' ∉ kind.scheme := by cases kind <;> decide
  have ascii : ∀ c ∈ kind.scheme, c.toNat < 128 := by
    cases kind <;> exact forall_iff_forall_mem.mp (by decide)
  have small : kind.scheme.map Char.toLower = kind.scheme := by cases kind <;> decide
  have cut : splitOnce "://".toList (kind.scheme ++ "://".toList ++ rest) = some (kind.scheme, rest) :=
    splitOnce_needle colon rest
  rw [splitScheme, cut]
  dsimp only
  rw [toLowercase_ascii ucd ascii, small]

theorem kindOf_scheme (kind : Kind) : kindOf kind.scheme = .ok kind ∧ kind.scheme ≠ "https".toList := by
  cases kind <;> decide

theorem mem_hostText {c : Char} (member : c ∈ hostText host) :
    c ∈ host ∨ c = '[' ∨ c = ']' := by
  rw [hostText] at member
  split at member
  next =>
    simp only [mem_cons, mem_append] at member
    tauto
  next => exact .inl member

theorem percentEncode_not_mem {c : Char} (separator : c = ':' ∨ c = '@') (text : Text) :
    c ∉ percentEncode text := by
  intro member
  obtain ⟨-, colon, sign⟩ := percentEncode_char text c member
  exact separator.elim colon sign

theorem splitCredentials_written (wellFormed : WellFormed u) (clean : '@' ∉ endpoint) :
    ∃ credentials,
      splitCredentials (credentialsText u.user u.password ++ endpoint) = (credentials, endpoint) ∧
      decodeCredentials credentials = (u.user, u.password) := by
  have cut (pair : Text) : splitCredentials (pair ++ ['@'] ++ endpoint) = (some pair, endpoint) := by
    rw [splitCredentials, append_assoc, singleton_append, rsplitOnce_append clean]
  cases user : u.user with
  | none =>
    refine ⟨none, ?_, ?_⟩
    · rw [credentialsText, nil_append, splitCredentials, rsplitOnce_of_not_mem clean]
    · rw [wellFormed.user user, decodeCredentials]
  | some name =>
    have colon := percentEncode_not_mem (.inl rfl) name
    cases u.password with
    | none =>
      refine ⟨_, cut _, ?_⟩
      rw [decodeCredentials, splitOnce_of_not_mem colon, percentDecode_encode]
    | some password =>
      refine ⟨_, cut _, ?_⟩
      rw [decodeCredentials, splitOnce_append colon]
      dsimp only
      rw [percentDecode_encode, percentDecode_encode]

theorem getLast?_decimal (front : Text) (n : Nat) :
    ∃ d, (front ++ ':' :: decimal n).getLast? = some d ∧ (digit? 10 d).isSome := by
  have numeral := numeral_decimal n
  refine ⟨(decimal n).getLast numeral.some_, ?_, numeral.digits _ (getLast_mem _)⟩
  rw [List.getLast?_append, List.getLast?_cons, List.getLast?_eq_some_getLast numeral.some_]
  rfl

theorem trimmed_psiphonUrl (u : Upstream) : Trimmed u.psiphonUrl where
  first := by
    have visible : ∀ c ∈ u.kind.scheme, isWhitespace c = false := by
      cases u.kind <;> exact forall_iff_forall_mem.mp (by decide)
    have some_ : u.kind.scheme ≠ [] := by cases u.kind <;> decide
    simp only [psiphonUrl, append_assoc]
    rw [List.head?_append_of_ne_nil _ some_]
    exact fun c found => visible c (mem_of_head? found)
  last := by
    obtain ⟨d, last, digit⟩ := getLast?_decimal
      (u.kind.scheme ++ "://".toList ++ credentialsText u.user u.password ++ hostText u.host) u.port.toNat
    intro c found
    rw [psiphonUrl, last] at found
    cases found
    exact hex_not_blank (hex_of_decimal digit)

/-- What is handed on is read as what was set, credentials included. -/
theorem parse_psiphonUrl (ucd : Ucd) (text : Text) (u : Upstream) (read : parse ucd text = .ok u)
    (opening : '[' ∉ u.host) (closing : ']' ∉ u.host) :
    parse ucd u.psiphonUrl = .ok u ∧ ∀ value, percentDecode (percentEncode value) = value := by
  have wellFormed := wellFormed_of_parse read
  have clean : '@' ∉ hostText u.host ++ ':' :: decimal u.port.toNat := by
    intro member
    rcases mem_append.mp member with host | port
    · rcases mem_hostText host with inside | other | other
      · exact wellFormed.sign inside
      · exact absurd other (by decide)
      · exact absurd other (by decide)
    · rcases mem_cons.mp port with other | digit
      · exact absurd other (by decide)
      · exact (numeral_decimal _).not_mem (by decide) digit
  have unslashed : trimEndMatches '/' (hostText u.host ++ ':' :: decimal u.port.toNat) =
      hostText u.host ++ ':' :: decimal u.port.toNat := by
    obtain ⟨d, last, digit⟩ := getLast?_decimal (hostText u.host) u.port.toNat
    refine trimEndMatches_of_last last ?_
    rintro rfl
    exact absurd digit (by decide)
  have cut : splitScheme ucd (trim u.psiphonUrl) =
      (u.kind.scheme, credentialsText u.user u.password ++
        (hostText u.host ++ ':' :: decimal u.port.toNat)) := by
    rw [(trimmed_psiphonUrl u).trim_eq, ← splitScheme_written ucd u.kind]
    simp only [psiphonUrl, append_assoc]
  obtain ⟨credentials, cut', decoded⟩ := splitCredentials_written wellFormed clean
  obtain ⟨kind, other⟩ := kindOf_scheme u.kind
  refine ⟨(parse_eq_ok cut cut').mpr ⟨kind, fun https => other https.1, ?_, decoded⟩, percentDecode_encode⟩
  rw [unslashed]
  exact splitEndpoint_written wellFormed.host wellFormed.port opening closing

end

def bracketed : Upstream := ⟨.http, "::1".toList, 8080, some "a@b".toList, some "p/::q".toList⟩

theorem parse_psiphonUrl_bracketed :
    parse .ascii " http://a%40b:p/%3a:q@[::1]:8080/".toList = .ok bracketed ∧
      parse .ascii bracketed.psiphonUrl = .ok bracketed := by
  have read : parse .ascii " http://a%40b:p/%3a:q@[::1]:8080/".toList = .ok bracketed := by rfl
  exact ⟨read, (parse_psiphonUrl .ascii _ bracketed read (by decide) (by decide)).1⟩

end Upstream

end Gozarbin
