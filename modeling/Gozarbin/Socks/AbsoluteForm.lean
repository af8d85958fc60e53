import Gozarbin.Net.AddrChars
import Gozarbin.Socks.HttpHead

/-! # Targets in absolute form

A client of the HTTP proxy names the server in the URI of its request line. The authority
of a URI ends at its first slash, question mark or number sign; `parse_request_line` looks
for the slash only. What a URI is made of is stated here on its own, and the request line
is compared with it.
-/

namespace Gozarbin.Socks

open List Text AddrText

/-- A part of a request line: it has a character, and no blanks. -/
structure Word (text : Text) : Prop where
  some_ : text ≠ []
  visible : ∀ c ∈ text, isWhitespace c = false

def isDelimiter (c : Char) : Bool := "/?#:@[]".toList.contains c || isWhitespace c

/-- The host of a URI. -/
inductive UriHost where
  | name (text : Text) (some_ : text ≠ []) (clean : ∀ c ∈ text, isDelimiter c = false)
  | ipv6 (text : Text) (address : Ipv6Addr) (reads : readIpv6Addr text = some (address, []))

def UriHost.bare : UriHost → Text
  | .name text .. => text
  | .ipv6 text .. => text

def UriHost.written : UriHost → Text
  | .name text .. => text
  | .ipv6 text .. => '[' :: text ++ [']']

/-- A port in decimal, with or without zeros in front. -/
structure UriPort where
  digits : Text
  numeral : Numeral 10 digits
  small : numberFrom 10 0 digits < 65536

def UriPort.value (port : UriPort) : UInt16 := .ofNat (numberFrom 10 0 port.digits)

structure AbsoluteUri where
  host : UriHost
  port : Option UriPort
  path : Text
  query : Option Text
  rooted : path = [] ∨ path.head? = some '/'
  path_visible : ∀ c ∈ path, isWhitespace c = false
  query_visible : ∀ q ∈ query, ∀ c ∈ q, isWhitespace c = false

namespace AbsoluteUri

def authority (uri : AbsoluteUri) : Text :=
  uri.host.written ++ (uri.port.map fun port => ':' :: port.digits).getD []

def queryPart (uri : AbsoluteUri) : Text := (uri.query.map ('?' :: ·)).getD []

def target (uri : AbsoluteUri) : Text :=
  "http://".toList ++ (uri.authority ++ (uri.path ++ uri.queryPart))

def origin (uri : AbsoluteUri) : Text :=
  (if uri.path = [] then ['/'] else uri.path) ++ uri.queryPart

def portOrDefault (uri : AbsoluteUri) : UInt16 := (uri.port.map UriPort.value).getD 80

end AbsoluteUri

section
variable {method version rest : Text} {uri : AbsoluteUri}

theorem isWhitespace_of_isDelimiter {c : Char} (clean : isDelimiter c = false) :
    isWhitespace c = false := (Bool.or_eq_false_iff.mp clean).2

theorem ne_of_isDelimiter {c d : Char} (clean : isDelimiter c = false)
    (delimits : isDelimiter d = true) : c ≠ d := by
  rintro rfl
  rw [clean] at delimits
  cases delimits

theorem UriHost.ipv6_chars {text : Text} {address : Ipv6Addr}
    (reads : readIpv6Addr text = some (address, [])) : ∀ c ∈ text, IsAddrChar c :=
  (readIpv6Addr_chars reads).chars

theorem UriHost.written_visible (host : UriHost) : ∀ c ∈ host.written, isWhitespace c = false := by
  cases host with
  | name text some_ clean => exact fun c member => isWhitespace_of_isDelimiter (clean c member)
  | ipv6 text address reads =>
    have chars := UriHost.ipv6_chars reads
    intro c member
    simp only [written, cons_append, mem_cons, mem_append, not_mem_nil,
      or_false] at member
    rcases member with rfl | inside | rfl
    · decide
    · exact (chars c inside).not_blank
    · decide

theorem UriHost.slash_not_mem (host : UriHost) : '/' ∉ host.written := by
  cases host with
  | name text some_ clean => exact fun slash => ne_of_isDelimiter (clean _ slash) (by decide) rfl
  | ipv6 text address reads =>
    have inside : '/' ∉ text := fun slash =>
      (UriHost.ipv6_chars reads _ slash).ne (by decide) (by decide) (by decide) rfl
    simp [written, inside]

theorem UriPort.parsePort_eq (port : UriPort) : parsePort port.digits = some port.value := by
  rw [parsePort, parseUnsigned_eq, port.numeral.fromStrRadix_eq (by decide) port.small]
  rfl

theorem AbsoluteUri.authority_visible (uri : AbsoluteUri) :
    ∀ c ∈ uri.authority, isWhitespace c = false := by
  intro c member
  rcases mem_append.mp member with host | port
  · exact uri.host.written_visible c host
  · cases given : uri.port with
    | none => simp [given] at port
    | some p =>
      rw [given] at port
      rcases mem_cons.mp port with rfl | digit
      · decide
      · exact p.numeral.visible c digit

theorem AbsoluteUri.slash_not_mem (uri : AbsoluteUri) : '/' ∉ uri.authority := by
  intro member
  rcases mem_append.mp member with host | port
  · exact uri.host.slash_not_mem host
  · cases given : uri.port with
    | none => simp [given] at port
    | some p =>
      rw [given] at port
      rcases mem_cons.mp port with slash | digit
      · cases slash
      · exact p.numeral.not_mem (by decide) digit

theorem parseAuthority_name {text : Text} (some_ : text ≠ [])
    (clean : ∀ c ∈ text, isDelimiter c = false) (port : Option UriPort) (default : UInt16)
    (trimmed : trim (text ++ (port.map fun port => ':' :: port.digits).getD []) =
      text ++ (port.map fun port => ':' :: port.digits).getD []) :
    parseAuthority (text ++ (port.map fun port => ':' :: port.digits).getD []) default =
      some (text, (port.map UriPort.value).getD default) := by
  have no_bracket : text.head? ≠ some '[' := fun bracket =>
    ne_of_isDelimiter (clean _ (mem_of_head? bracket)) (by decide) rfl
  have no_colon : ':' ∉ text := fun colon => ne_of_isDelimiter (clean _ colon) (by decide) rfl
  have filled : (text ++ (port.map fun port => ':' :: port.digits).getD []).isEmpty = false := by
    simp [some_]
  have unbracketed : strip ['['] (text ++ (port.map fun port => ':' :: port.digits).getD []) = none :=
    strip_of_head? (by rwa [List.head?_append_of_ne_nil _ some_])
  simp only [parseAuthority, trimmed, filled, unbracketed]
  cases port with
  | none => simp [rsplitOnce_of_not_mem no_colon]
  | some port =>
    have last : rsplitOnce ':' (text ++ ':' :: port.digits) = some (text, port.digits) :=
      rsplitOnce_append (port.numeral.not_mem (by decide))
    have plain : text.contains [':'] = false := by simpa [contains_singleton] using no_colon
    have filled : text.isEmpty = false := by simpa using some_
    simp [last, plain, filled, port.parsePort_eq]

theorem parseAuthority_ipv6 {text : Text} {address : Ipv6Addr}
    (reads : readIpv6Addr text = some (address, [])) (port : Option UriPort) (default : UInt16)
    (trimmed : trim ('[' :: text ++ [']'] ++ (port.map fun port => ':' :: port.digits).getD []) =
      '[' :: text ++ [']'] ++ (port.map fun port => ':' :: port.digits).getD []) :
    parseAuthority ('[' :: text ++ [']'] ++ (port.map fun port => ':' :: port.digits).getD []) default =
      some (text, (port.map UriPort.value).getD default) := by
  have no_bracket : ']' ∉ text := fun bracket =>
    (UriHost.ipv6_chars reads _ bracket).ne (by decide) (by decide) (by decide) rfl
  have filled : text.isEmpty = false := by
    cases text with
    | nil => cases reads
    | cons => rfl
  have inside : splitOnce [']'] (text ++ ']' :: (port.map fun port => ':' :: port.digits).getD []) =
      some (text, (port.map fun port => ':' :: port.digits).getD []) := splitOnce_append no_bracket
  have bracket : strip ['['] ('[' :: text ++ [']'] ++ (port.map fun port => ':' :: port.digits).getD []) =
      some (text ++ ']' :: (port.map fun port => ':' :: port.digits).getD []) := by
    simpa using strip_append ['['] (text ++ ']' :: (port.map fun port => ':' :: port.digits).getD [])
  simp only [parseAuthority, trimmed, bracket, inside, filled]
  cases port with
  | none => rfl
  | some port =>
    have colon : strip [':'] (':' :: port.digits) = some port.digits := strip_append [':'] port.digits
    simp [colon, port.parsePort_eq]

theorem AbsoluteUri.parseAuthority_eq (uri : AbsoluteUri) :
    parseAuthority uri.authority 80 = some (uri.host.bare, uri.portOrDefault) := by
  have trimmed : trim uri.authority = uri.authority :=
    (Trimmed.of_visible uri.authority_visible).trim_eq
  unfold AbsoluteUri.authority at trimmed ⊢
  cases host : uri.host with
  | name text some_ clean =>
    rw [host] at trimmed
    exact parseAuthority_name some_ clean uri.port 80 trimmed
  | ipv6 text address reads =>
    rw [host] at trimmed
    exact parseAuthority_ipv6 reads uri.port 80 trimmed

theorem AbsoluteUri.queryPart_visible (uri : AbsoluteUri) :
    ∀ c ∈ uri.queryPart, isWhitespace c = false := by
  intro c member
  cases given : uri.query with
  | none => simp [AbsoluteUri.queryPart, given] at member
  | some q =>
    simp only [AbsoluteUri.queryPart, given, Option.map_some, Option.getD_some, mem_cons] at member
    rcases member with rfl | inside
    · decide
    · exact uri.query_visible q given c inside

theorem AbsoluteUri.target_word (uri : AbsoluteUri) : Word uri.target where
  some_ := append_ne_nil_of_left_ne_nil (by decide) _
  visible := by
    have scheme_visible : ∀ c ∈ "http://".toList, isWhitespace c = false :=
      forall_iff_forall_mem.mp (by decide)
    intro c member
    unfold AbsoluteUri.target at member
    rw [mem_append, mem_append, mem_append] at member
    rcases member with scheme | authority | path | query
    · exact scheme_visible c scheme
    · exact uri.authority_visible c authority
    · exact uri.path_visible c path
    · exact uri.queryPart_visible c query

theorem splitWhitespace_line {a b c : Text} (first : Word a) (second : Word b) (third : Word c) :
    splitWhitespace (a ++ ' ' :: b ++ ' ' :: c) = [a, b, c] := by
  rw [append_assoc, cons_append, splitWhitespace_cons first.visible first.some_ (by decide),
    splitWhitespace_cons second.visible second.some_ (by decide),
    splitWhitespace_word third.visible third.some_]

theorem parseRequestLine_uri (uri : AbsoluteUri) (method_word : Word method) (version_word : Word version)
    (other : method.eqIgnoreAsciiCase "CONNECT".toList = false) :
    parseRequestLine (method ++ ' ' :: uri.target ++ ' ' :: version) =
      (parseAuthority (splitPath (uri.authority ++ (uri.path ++ uri.queryPart))).1 80).map
        fun (authority, port) =>
          ⟨method, authority, port,
            some (method ++ ' ' :: (splitPath (uri.authority ++ (uri.path ++ uri.queryPart))).2 ++
              ' ' :: version ++ "\r\n".toList)⟩ := by
  rw [parseRequestLine, splitWhitespace_line method_word uri.target_word version_word]
  dsimp only
  rw [if_neg (by rw [other]; exact Bool.false_ne_true)]
  rfl

theorem AbsoluteUri.splitPath_path (uri : AbsoluteUri) (path : uri.path ≠ []) :
    splitPath (uri.authority ++ (uri.path ++ uri.queryPart)) = (uri.authority, uri.origin) := by
  obtain ⟨c, rest, split⟩ := exists_cons_of_ne_nil path
  obtain rfl : c = '/' := by
    have first := uri.rooted.resolve_left path
    rw [split] at first
    exact Option.some.inj first
  rw [AbsoluteUri.origin, if_neg path, split, cons_append, splitPath,
    splitOnce_append uri.slash_not_mem]

theorem AbsoluteUri.splitPath_bare (uri : AbsoluteUri) (path : uri.path = []) (query : uri.query = none) :
    splitPath (uri.authority ++ (uri.path ++ uri.queryPart)) = (uri.authority, uri.origin) := by
  have nothing : uri.queryPart = [] := by simp [AbsoluteUri.queryPart, query]
  rw [AbsoluteUri.origin, if_pos path, path, nothing, append_nil, append_nil, splitPath,
    splitOnce_of_not_mem uri.slash_not_mem]
  rfl

theorem AbsoluteUri.splitPath_query (uri : AbsoluteUri) (path : uri.path = []) {q : Text}
    (query : uri.query = some q) :
    (splitPath (uri.authority ++ (uri.path ++ uri.queryPart))).2 ≠ uri.origin := by
  have behind : uri.queryPart = '?' :: q := by simp [AbsoluteUri.queryPart, query]
  rw [AbsoluteUri.origin, if_pos path, path, behind, nil_append]
  intro same
  have lengths := congrArg List.length same
  by_cases slash : '/' ∈ '?' :: q
  · obtain ⟨before, after, split, first⟩ := eq_append_cons_of_mem slash
    have clean : '/' ∉ uri.authority ++ before := by simp [uri.slash_not_mem, first]
    have shorter := congrArg List.length split
    rw [split, ← append_assoc, splitPath, splitOnce_append clean] at lengths
    simp only [length_cons, length_append] at lengths shorter
    omega
  · rw [splitPath, splitOnce_of_not_mem (by simp [uri.slash_not_mem] at slash ⊢; exact slash)] at lengths
    simp at lengths

/-- A target is split as its URI is, unless the method is CONNECT in other letters or a query
    follows the authority at once. -/
theorem absolute_split_iff (uri : AbsoluteUri) (method_word : Word method)
    (version_word : Word version) :
    parseRequestLine (method ++ ' ' :: uri.target ++ ' ' :: version) =
        some ⟨method, uri.host.bare, uri.portOrDefault,
          some (method ++ ' ' :: uri.origin ++ ' ' :: version ++ "\r\n".toList)⟩ ↔
      method.eqIgnoreAsciiCase "CONNECT".toList = false ∧ (uri.path ≠ [] ∨ uri.query = none) := by
  cases connect : method.eqIgnoreAsciiCase "CONNECT".toList with
  | true =>
    -- nothing is rewritten then
    rw [parseRequestLine, splitWhitespace_line method_word uri.target_word version_word]
    dsimp only
    rw [if_pos connect]
    refine iff_of_false (fun parsed => ?_) (by simp)
    obtain ⟨read, -, same⟩ := Option.map_eq_some_iff.mp parsed
    cases congrArg HttpRequestLine.rewritten same
  | false =>
    rw [parseRequestLine_uri uri method_word version_word connect]
    constructor
    · intro parsed
      refine ⟨rfl, ?_⟩
      by_contra neither
      simp only [ne_eq, not_or, not_not] at neither
      obtain ⟨q, query⟩ := Option.ne_none_iff_exists'.mp neither.2
      obtain ⟨read, -, same⟩ := Option.map_eq_some_iff.mp parsed
      simp only [HttpRequestLine.mk.injEq, Option.some.injEq, append_assoc, cons_append,
        append_cancel_left_eq, List.cons.injEq, true_and] at same
      exact uri.splitPath_query neither.1 query (append_cancel_right same.2.2)
    · rintro ⟨-, either⟩
      have split : splitPath (uri.authority ++ (uri.path ++ uri.queryPart)) =
          (uri.authority, uri.origin) := by
        by_cases path : uri.path = []
        · exact uri.splitPath_bare path (either.resolve_left fun given => given path)
        · exact uri.splitPath_path path
      rw [split, uri.parseAuthority_eq]
      rfl

def pathUri : AbsoluteUri where
  host := .ipv6 "::1".toList .localhost (by decide)
  port := some ⟨"8080".toList, ⟨forall_iff_forall_mem.mp (by decide), by decide⟩, by decide⟩
  path := "/a".toList
  query := some "b=/c".toList
  rooted := by decide
  path_visible := forall_iff_forall_mem.mp (by decide)
  query_visible := by
    intro q given
    cases given
    exact forall_iff_forall_mem.mp (by decide)

theorem absolute_split_path :
    parseRequestLine ("GET".toList ++ ' ' :: pathUri.target ++ ' ' :: "HTTP/1.1".toList) =
      some ⟨"GET".toList, pathUri.host.bare, pathUri.portOrDefault,
        some ("GET".toList ++ ' ' :: pathUri.origin ++ ' ' :: "HTTP/1.1".toList ++ "\r\n".toList)⟩ :=
  (absolute_split_iff pathUri ⟨by decide, forall_iff_forall_mem.mp (by decide)⟩
      ⟨by decide, forall_iff_forall_mem.mp (by decide)⟩).mpr
    ⟨by decide, .inl (by decide)⟩

def queryUri : AbsoluteUri where
  host := .name "example.com".toList (by decide) (forall_iff_forall_mem.mp (by decide))
  port := none
  path := []
  query := some "x=1".toList
  rooted := .inl rfl
  path_visible := by simp
  query_visible := by
    intro q given
    cases given
    exact forall_iff_forall_mem.mp (by decide)

theorem query_in_authority :
    parseRequestLine ("GET".toList ++ ' ' :: queryUri.target ++ ' ' :: "HTTP/1.1".toList) =
        some ⟨"GET".toList, "example.com?x=1".toList, 80, some "GET / HTTP/1.1\r\n".toList⟩ ∧
      queryUri.host.bare = "example.com".toList ∧ queryUri.origin = "/?x=1".toList := by
  decide

end

end Gozarbin.Socks
