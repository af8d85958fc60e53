import Gozarbin.Lib.Utf8
import Gozarbin.Sniff.Tls
import Gozarbin.Lib.Split
import Gozarbin.Socks.Connect

/-! # The host of an HTTP request

The first bytes of a connection may be the head of an HTTP request. `http_host` takes
the host out of them, however far they reach: a line that is not finished yet counts
as a line.
-/

namespace Gozarbin.Sniff

open List Text
open Socks (peekBudget)

def methods : List Text :=
  ["GET ", "POST ", "PUT ", "HEAD ", "DELETE ", "OPTIONS ", "PATCH ", "TRACE ", "CONNECT "].map
    String.toList

def looksLikeHttp (line : Text) : Bool :=
  methods.any (fun method => line.startsWith method) && line.contains "HTTP/".toList

def hostValue (line : Text) : Option Text :=
  match splitOnce [':'] line with
  | none => none
  | some (name, value) => if eqIgnoreAsciiCase name "host".toList then some value else none

def hostHeader : List Text → Option Text
  | [] => none
  | line :: lines =>
    if line.isEmpty then none
    else
      match hostValue line with
      | some value => some value
      | none => hostHeader lines

def withoutPort (value : Text) : Text :=
  match rsplitOnce ':' value with
  | some (host, port) => if port.all Char.isDigit then host else value
  | none => value

def httpHost (ucd : Ucd) (buf : Bytes) : Option Text :=
  let head := buf.take peekBudget
  match splitCrlf (fromUtf8Lossy head) with
  | [] => none
  | requestLine :: lines =>
    if !looksLikeHttp requestLine then none
    else
      match hostHeader lines with
      | some value => plausibleHost ucd (toUtf8 (withoutPort (trim value)))
      | none => none

def hostname (ucd : Ucd) (buf : Bytes) : Option Text := (tlsSni ucd buf).or (httpHost ucd buf)

/-- A header with the name `host`, in whatever case. -/
def IsHostLine (line : Text) : Prop :=
  ∃ name value, line = name ++ ':' :: value ∧ eqIgnoreAsciiCase name "host".toList = true

/-- The line of the host has ended, and so have those before it, none of which is empty. -/
def HostLineEnded (p : Bytes) : Prop :=
  ∃ requestLine before line after,
    splitCrlf (fromUtf8Lossy p) = requestLine :: (before ++ line :: after) ∧ after ≠ [] ∧
      (∀ l ∈ before, l ≠ []) ∧ IsHostLine line

section
variable {line value : Text} {before after : List Text}

theorem hostValue_append {name : Text} (same : eqIgnoreAsciiCase name "host".toList = true)
    (value : Text) : hostValue (name ++ ':' :: value) = some value := by
  have absent : ':' ∉ name := by
    intro member
    have lowered : ':' ∈ "host".toList.map Char.toLower := by
      rw [← beq_iff_eq.mp same]
      exact mem_map_of_mem member
    exact absurd lowered (by decide)
  rw [hostValue, splitOnce_append absent]
  exact if_pos same

theorem hostValue_eq_some (found : hostValue line = some value) :
    ∃ name, line = name ++ ':' :: value ∧ eqIgnoreAsciiCase name "host".toList = true := by
  unfold hostValue at found
  split at found
  · cases found
  next name value' split =>
    rw [Option.ite_none_right_eq_some, Option.some.injEq] at found
    obtain ⟨same, rfl⟩ := found
    exact ⟨name, (splitOnce_eq_some split).1, same⟩

theorem hostValue_concat (found : hostValue line = some value) (c : Char) :
    hostValue (line ++ [c]) = some (value ++ [c]) := by
  obtain ⟨name, rfl, same⟩ := hostValue_eq_some found
  rw [append_assoc, cons_append]
  exact hostValue_append same _

theorem hostHeader_cons_found (found : hostValue line = some value) (lines : List Text) :
    hostHeader (line :: lines) = some value := by
  have visible : line.isEmpty = false := by
    obtain ⟨name, rfl, -⟩ := hostValue_eq_some found
    simp
  rw [hostHeader, visible, found]
  rfl

theorem hostHeader_eq_some {lines : List Text} (found : hostHeader lines = some value) :
    ∃ before line after, lines = before ++ line :: after ∧ (∀ l ∈ before, l ≠ []) ∧
      hostValue line = some value ∧
      ∀ line' value', hostValue line' = some value' →
        hostHeader (before ++ [line']) = some value' := by
  induction lines with
  | nil => cases found
  | cons first lines ih =>
    rw [hostHeader, Option.ite_none_left_eq_some] at found
    obtain ⟨visible, found⟩ := found
    cases here : hostValue first with
    | some value' =>
      rw [here] at found
      cases found
      exact ⟨[], first, lines, rfl, by simp, here, fun line' value' found' =>
        hostHeader_cons_found found' []⟩
    | none =>
      rw [here] at found
      obtain ⟨before, line, after, rfl, whole, at_line, again⟩ := ih found
      refine ⟨first :: before, line, after, rfl, ?_, at_line, fun line' value' found' => ?_⟩
      · rintro l member
        rcases mem_cons.mp member with rfl | later
        · simpa using visible
        · exact whole l later
      · rw [cons_append, hostHeader, if_neg visible, here]
        exact again line' value' found'

theorem hostHeader_front (whole : ∀ l ∈ before, l ≠ []) (host : IsHostLine line)
    (after after' : List Text) :
    hostHeader (before ++ line :: after) = hostHeader (before ++ line :: after') := by
  induction before with
  | nil =>
    obtain ⟨name, value, rfl, same⟩ := host
    have found := hostValue_append same value
    rw [nil_append, nil_append, hostHeader_cons_found found, hostHeader_cons_found found]
  | cons first before ih =>
    rw [cons_append, cons_append, hostHeader, hostHeader,
      ih fun l member => whole l (mem_cons_of_mem _ member)]

end

section
variable {ucd : Ucd} {h : Text}

theorem isHostChar_ascii {c : Char} (host : isHostChar c = true) : c.toNat < 128 := by
  simp only [isHostChar, Bool.or_eq_true, beq_iff_eq] at host
  obtain ((letter | rfl) | rfl) | rfl := host
  · have value : c.toNat = c.val.toNat := rfl
    delta Char.isAlphanum Char.isAlpha Char.isUpper Char.isLower Char.isDigit at letter
    simp [UInt32.le_iff_toNat_le] at letter
    omega
  all_goals decide

theorem length_plausibleHost {name : Text} (taken : plausibleHost ucd (toUtf8 name) = some h) :
    h.length = (trimEndMatches '.' (trim name)).length := by
  rw [plausibleHost, Option.ite_none_left_eq_some] at taken
  obtain ⟨read, valid, judged⟩ := Option.bind_eq_some_iff.mp taken.2
  obtain rfl : read = name := by
    rw [fromUtf8, Option.ite_none_right_eq_some, Option.some.injEq] at valid
    exact toUtf8_inj (valid.2 ▸ valid.1)
  generalize trimEndMatches '.' (trim read) = name at judged ⊢
  rw [Option.ite_none_left_eq_some, Option.ite_none_left_eq_some, Option.ite_none_left_eq_some,
    Option.some.injEq] at judged
  obtain ⟨-, allowed, -, rfl⟩ := judged
  have chars : ∀ c ∈ name, c.toNat < 128 := by
    intro c member
    refine isHostChar_ascii ?_
    simp only [Bool.or_eq_true, not_or, Bool.not_eq_true', Bool.not_eq_false, all_eq_true]
      at allowed
    exact allowed.1 c member
  rw [toLowercase_ascii ucd chars, length_map]

theorem length_withoutPort (value : Text) : (withoutPort value).length ≤ value.length := by
  unfold withoutPort
  split
  next host port split =>
    rw [rsplitOnce_eq_some split]
    split <;> simp
  next => exact Nat.le_refl _

theorem withoutPort_concat (value : Text) : withoutPort (value ++ ['a']) = value ++ ['a'] := by
  unfold withoutPort
  split
  next host port split =>
    have whole := rsplitOnce_eq_some split
    refine if_neg fun digits => ?_
    rcases eq_nil_or_concat port with rfl | ⟨front, last, rfl⟩
    · simpa using congrArg List.getLast? whole
    · have whole' : value ++ ['a'] = (host ++ ':' :: front) ++ [last] := by simpa using whole
      obtain ⟨-, letter⟩ := append_inj' whole' rfl
      simp [← singleton_inj.mp letter] at digits
  next => rfl

theorem plausibleHost_concat {value : Text}
    (taken : plausibleHost ucd (toUtf8 (withoutPort (trim value))) = some h) :
    plausibleHost ucd (toUtf8 (withoutPort (trim (value ++ ['a'])))) ≠ some h := by
  intro again
  have short := length_plausibleHost taken
  have long := length_plausibleHost again
  have whole : trim (value ++ ['a']) = value.dropWhile isWhitespace ++ ['a'] :=
    trim_concat_visible (by decide) value
  rw [whole, withoutPort_concat, ← whole, trim_trim, whole, trimEndMatches_concat (by decide),
    length_append] at long
  have shorter : (trimEndMatches '.' (trim (withoutPort (trim value)))).length ≤
      (value.dropWhile isWhitespace).length :=
    calc (trimEndMatches '.' (trim (withoutPort (trim value)))).length
        _ ≤ (trim (withoutPort (trim value))).length := length_trimEndMatches ..
        _ ≤ ((withoutPort (trim value)).dropWhile isWhitespace).length := length_trim _
        _ ≤ (withoutPort (trim value)).length := (dropWhile_sublist _).length_le
        _ ≤ (trim value).length := length_withoutPort _
        _ ≤ (value.dropWhile isWhitespace).length := length_trim value
  rw [length_singleton] at long
  omega

end

section
variable {ucd : Ucd} {p q : Bytes} {h : Text}

theorem httpHost_eq (short : p.length ≤ peekBudget) {requestLine : Text} {lines : List Text}
    (split : splitCrlf (fromUtf8Lossy p) = requestLine :: lines) :
    httpHost ucd p =
      if looksLikeHttp requestLine then
        (hostHeader lines).bind fun value => plausibleHost ucd (toUtf8 (withoutPort (trim value)))
      else none := by
  simp only [httpHost, take_of_length_le short, split]
  cases looksLikeHttp requestLine with
  | false => rfl
  | true => cases hostHeader lines <;> rfl

theorem httpHost_append (ended : HostLineEnded p) (short : (p ++ q).length ≤ peekBudget) :
    httpHost ucd (p ++ q) = httpHost ucd p := by
  obtain ⟨requestLine, before, line, after, split, open_, whole, host⟩ := ended
  have short' : p.length ≤ peekBudget := by
    rw [length_append] at short
    omega
  have parts : requestLine :: (before ++ line :: after) = (requestLine :: before ++ [line]) ++ after := by
    simp
  obtain ⟨later, text, again⟩ := splitCrlf_eq_append (split.trans parts) open_
  -- the lines up to the one of the host end with a line feed, so they stay as they are
  have feed : (requestLine :: before ++ [line]).flatMap (· ++ ['\r', '\n']) =
      ((requestLine :: before).flatMap (· ++ ['\r', '\n']) ++ line ++ ['\r']) ++ ['\n'] := by
    simp
  obtain ⟨later', text'⟩ : (requestLine :: before ++ [line]).flatMap (· ++ ['\r', '\n']) <+:
      fromUtf8Lossy (p ++ q) := by
    rw [feed]
    refine fromUtf8Lossy_append q ?_ (by decide)
    rw [← feed, text]
    exact prefix_append _ _
  have split' : splitCrlf (fromUtf8Lossy (p ++ q)) =
      requestLine :: (before ++ line :: splitCrlf later') := by
    rw [← text', again]
    simp
  rw [httpHost_eq short split', httpHost_eq short' split,
    hostHeader_front whole host (splitCrlf later') after]

theorem httpHost_concat (read : httpHost ucd p = some h) (room : p.length < peekBudget)
    (unended : ¬ HostLineEnded p) : httpHost ucd (p ++ [97]) ≠ some h := by
  obtain ⟨requestLine, lines, split⟩ := exists_cons_of_ne_nil (splitCrlf_ne_nil (fromUtf8Lossy p))
  rw [httpHost_eq (Nat.le_of_lt room) split, Option.ite_none_right_eq_some] at read
  obtain ⟨http, read⟩ := read
  obtain ⟨value, found, taken⟩ := Option.bind_eq_some_iff.mp read
  obtain ⟨before, line, after, rfl, whole, at_line, again⟩ := hostHeader_eq_some found
  obtain rfl : after = [] := by
    by_contra more
    obtain ⟨name, same, host⟩ := hostValue_eq_some at_line
    exact unended ⟨requestLine, before, line, after, split, more, whole, name, value, same, host⟩
  have text : fromUtf8Lossy (p ++ [97]) = fromUtf8Lossy p ++ ['a'] :=
    fromUtf8Lossy_ascii (by decide) p []
  have split' : splitCrlf (fromUtf8Lossy (p ++ [97])) =
      requestLine :: (before ++ [line ++ ['a']]) := by
    rw [text]
    rw [← cons_append] at split
    exact splitCrlf_concat split (by decide)
  have room' : (p ++ [97]).length ≤ peekBudget := by
    rw [length_append, length_singleton]
    omega
  rw [httpHost_eq room' split', if_pos http, again _ _ (hostValue_concat at_line 'a'), Option.bind_some]
  exact plausibleHost_concat taken

theorem tlsSni_of_head {b : UInt8} (other : b ≠ tlsHandshake) (rest : Bytes) :
    tlsSni ucd (b :: rest) = none := by
  simp [tlsSni, serverNames, clientHello, other]

theorem httpHost_handshake (rest : Bytes) : httpHost ucd (tlsHandshake :: rest) = none := by
  have text : fromUtf8Lossy ((tlsHandshake :: rest).take peekBudget) =
      '\x16' :: fromUtf8Lossy (rest.take 4095) := fromUtf8Lossy_ascii (by decide) [] _
  obtain ⟨line, lines, split⟩ :=
    exists_cons_of_ne_nil (splitCrlf_ne_nil (fromUtf8Lossy (rest.take 4095)))
  have first : splitCrlf ('\x16' :: fromUtf8Lossy (rest.take 4095)) = ('\x16' :: line) :: lines := by
    rw [splitCrlf_cons (fun ends => absurd ends.1 (by decide)), split]
    rfl
  have other : looksLikeHttp ('\x16' :: line) = false := by
    simp [looksLikeHttp, methods, startsWith]
  simp [httpHost, text, first, other]

theorem hostname_eq (read : httpHost ucd p = some h) (q : Bytes) :
    hostname ucd (p ++ q) = httpHost ucd (p ++ q) := by
  cases p with
  | nil => cases read
  | cons b rest =>
    have other : b ≠ tlsHandshake := by
      rintro rfl
      rw [httpHost_handshake] at read
      cases read
    rw [hostname, cons_append, tlsSni_of_head other, Option.none_or]

/-- A name is read off every longer request too precisely if the line of the host has ended or
    there is no room for more. -/
theorem httpHost_final_iff (read : httpHost ucd p = some h) :
    (∀ q, (p ++ q).length ≤ peekBudget →
        httpHost ucd (p ++ q) = some h ∧ hostname ucd (p ++ q) = some h) ↔
      HostLineEnded p ∨ peekBudget ≤ p.length := by
  simp only [hostname_eq read, and_self]
  constructor
  · intro final
    by_contra unfinished
    obtain ⟨unended, room⟩ := not_or.mp unfinished
    rw [Nat.not_le] at room
    exact httpHost_concat read room unended (final [97] (by rw [length_append]; exact room))
  · rintro (ended | full) q short
    · exact (httpHost_append ended short).trans read
    · rw [length_append] at short
      obtain rfl : q = [] := eq_nil_of_length_eq_zero (by omega)
      rwa [append_nil]

def startedRequest : Bytes := ascii "GET / HTTP/1.1\r\nHost: example.com\r\nAcc"

theorem httpHost_final_started :
    httpHost .ascii (startedRequest ++ ascii "ept: */*") = some "example.com".toList ∧
      hostname .ascii (startedRequest ++ ascii "ept: */*") = some "example.com".toList :=
  have read : httpHost .ascii startedRequest = some "example.com".toList := by decide
  have ended : HostLineEnded startedRequest :=
    ⟨"GET / HTTP/1.1".toList, [], "Host: example.com".toList, ["Acc".toList], by decide, by decide,
      by simp, "Host".toList, " example.com".toList, by decide, by decide⟩
  (httpHost_final_iff read).mpr (.inl ended) (ascii "ept: */*") (by decide)

def cutRequest : Bytes := ascii "GET / HTTP/1.1\r\nHost: example.co"

def sending (bytes : Bytes) : Socks.Outside Unit where
  sniffEnabled := true
  sniffRead := some (.ok bytes)
  hostname := hostname .ascii
  replyWritten := .ok ()
  gatewayProxy := none
  openThroughGateway _ _ _ := .error ()
  dnsResolve _ := .error ()
  openTcp _ := .ok ()
  peerAddr := .ok (.v4 ⟨0x7f000001#32⟩)
  connectDirect _ _ _ := none
  headSent := true
  leftoverWritten := true
  relayed := [[1]]

def blockedName : Routing.RuleSet Empty where
  block := [.domainSuffix "example.com".toList]
  direct := []

theorem cut_host_relayed :
    httpHost .ascii cutRequest = some "example.co".toList ∧
      httpHost .ascii (cutRequest ++ ascii "m\r\n\r\n") = some "example.com".toList ∧
      (Socks.handleConnect Socks.plain blockedName (sending cutRequest)
        (.ip (.v4 ⟨0x5db8d822#32⟩)) 80).1 =
          [.reply (Socks.replyBound Socks.unspecified), .far [1]] ∧
      (Socks.handleConnect Socks.plain blockedName (sending (cutRequest ++ ascii "m\r\n\r\n"))
        (.ip (.v4 ⟨0x5db8d822#32⟩)) 80).1 = [.reply (Socks.replyBound Socks.unspecified)] := by
  decide

end

end Gozarbin.Sniff
