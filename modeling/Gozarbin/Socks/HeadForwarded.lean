import Gozarbin.Lib.Utf8Valid
import Gozarbin.Socks.HttpProxy

/-! # What the server gets of a request head

A head is sent on with a new request line. Both proxies, and the way past the tunnel, take
the rest of the head from the text they have made of its bytes, and a byte that is no UTF-8
does not come back from it.
-/

namespace Gozarbin.Socks

open List Routing Text

/-- The two proxies. -/
inductive HttpProxyKind where
  | tunnel
  | connector
  deriving DecidableEq

section
variable {Regex ε : Type}

def HttpProxyKind.connect (kind : HttpProxyKind) (io : HttpOutside ε) (target : Target)
    (port : UInt16) : Except ε Bytes :=
  match kind with
  | .tunnel => openTunneled io.toOutside target port
  | .connector => (io.connect target port).map fun _ => []

def HttpProxyKind.handle (kind : HttpProxyKind) (env : Patterns Regex) (routes : RuleSet Regex)
    (io : HttpOutside ε) (reads : List Bytes) : List HttpEvent × Except (HttpError ε) Unit :=
  match kind with
  | .tunnel => handleHttpClient env routes io reads
  | .connector => handleHttpThrough env routes io reads

/-- The server of a request is reached, by the proxy or directly. -/
inductive Reaches (kind : HttpProxyKind) (env : Patterns Regex) (routes : RuleSet Regex)
    (io : HttpOutside ε) (request : HttpRequestLine) : Prop
  | proxied (leftover : Bytes) :
      routes.decide env (hostOf (targetOf request.authority)) request.port = .proxy →
      kind.connect io (targetOf request.authority) request.port = .ok leftover →
      Reaches kind env routes io request
  | direct (client : IpAddr) :
      routes.decide env (hostOf (targetOf request.authority)) request.port = .direct →
      io.peerAddr = .ok client →
      io.connectDirect (targetOf request.authority) request.port client = some (.ok ()) →
      Reaches kind env routes io request

/-- Nothing that is written fails. -/
structure WritesAll (io : HttpOutside ε) : Prop where
  request : io.requestWritten = .ok ()
  early : io.earlyWritten = .ok ()
  leftover : io.leftoverWritten = true

def HttpEvent.serverBytes : HttpEvent → Bytes
  | .request bytes => bytes
  | .raw bytes => bytes
  | _ => []

def serverBytes (events : List HttpEvent) : Bytes := events.flatMap HttpEvent.serverBytes

end

section
variable {Regex ε : Type} {env : Patterns Regex} {routes : RuleSet Regex} {io : HttpOutside ε}
  {request : HttpRequestLine} {line text : Text} {head first tail early : Bytes}
  {reads rest : List Bytes}

theorem fromUtf8Lossy_line (first tail : Bytes) :
    fromUtf8Lossy (first ++ ascii "\r\n" ++ tail) =
      fromUtf8Lossy first ++ '\r' :: '\n' :: fromUtf8Lossy tail := by
  have ends : ascii "\r\n" = [13, 10] := by decide
  have feed : fromUtf8Lossy (10 :: tail) = '\n' :: fromUtf8Lossy tail :=
    fromUtf8Lossy_ascii (by decide : (10 : UInt8) < 0x80) [] tail
  rw [ends, append_assoc, cons_append, cons_append, nil_append,
    fromUtf8Lossy_ascii (by decide), feed]
  rfl

theorem before?_crlf {start rest : Text} (one : '\n' ∉ start) :
    before? "\r\n".toList (start ++ '\r' :: '\n' :: rest) = some start := by
  have crlf : "\r\n".toList = ['\r', '\n'] := by decide
  rw [crlf]
  induction start with
  | nil => simp [before?]
  | cons c start ih =>
    simp only [mem_cons, not_or] at one
    have elsewhere : (['\r', '\n'].isPrefixOf (c :: (start ++ '\r' :: '\n' :: rest))) = false := by
      cases start with
      | nil => simp [List.isPrefixOf]
      | cons d start =>
        have other : '\n' ≠ d := fun same => one.2 (same ▸ mem_cons_self ..)
        simp [List.isPrefixOf, other]
    rw [cons_append, before?, elsewhere, ih one.2]
    rfl

theorem rewrittenHead_eq (one_line : 10 ∉ first) (line : Text) (tail : Bytes) :
    rewrittenHead line (fromUtf8Lossy (first ++ ascii "\r\n" ++ tail)) =
      toUtf8 line ++ toUtf8 (fromUtf8Lossy tail) := by
  have no_feed : '\n' ∉ fromUtf8Lossy first := fun feed =>
    one_line (mem_of_mem_fromUtf8Lossy (by decide) (by decide) feed)
  have split : splitOnce "\r\n".toList (fromUtf8Lossy (first ++ ascii "\r\n" ++ tail)) =
      some (fromUtf8Lossy first, fromUtf8Lossy tail) := by
    have two : "\r\n".toList.length = 2 := by decide
    rw [splitOnce, fromUtf8Lossy_line, before?_crlf no_feed, Option.map_some, two, drop_append,
      drop_of_length_le (by omega), Nat.add_sub_cancel_left]
    rfl
  rw [rewrittenHead, split]
  exact toUtf8_append ..

theorem serverBytes_forward {failed : ε → Except (HttpError ε) Unit} {target : Target}
    {leftover : Bytes} (absolute : request.rewritten = some line) (written : WritesAll io) :
    serverBytes (forward io failed target request text leftover early rest).1 =
      rewrittenHead line text ++ early ++ rest.flatten.take io.relayedUp := by
  rw [forward, absolute]
  rw [written.request, written.early, written.leftover]
  cases leftover <;> cases early <;>
    simp [serverBytes, writes, stops, HttpEvent.serverBytes]

theorem HttpProxyKind.handle_eq (kind : HttpProxyKind) (env : Patterns Regex) (routes : RuleSet Regex)
    (io : HttpOutside ε) (reads : List Bytes) :
    ∃ failed, kind.handle env routes io reads =
      handleHttp env routes io (kind.connect io) failed reads := by
  cases kind with
  | tunnel => exact ⟨_, rfl⟩
  | connector => exact ⟨_, rfl⟩

theorem serverBytes_handle {kind : HttpProxyKind}
    (read : readHead io.headEnding [] reads = .ok (head, early, rest))
    (accepted : parseRequestLine (firstLine (fromUtf8Lossy head)) = some request)
    (absolute : request.rewritten = some line) (reached : Reaches kind env routes io request)
    (written : WritesAll io) :
    serverBytes (kind.handle env routes io reads).1 =
      rewrittenHead line (fromUtf8Lossy head) ++ early ++ rest.flatten.take io.relayedUp := by
  have decided : ∀ host port action events,
      serverBytes (.decided host port action :: events) = serverBytes events := fun _ _ _ _ => rfl
  obtain ⟨failed, same⟩ := kind.handle_eq env routes io reads
  rw [same]
  simp only [handleHttp, read, accepted, decided]
  cases reached with
  | proxied leftover proxied connected =>
    simp only [proxied, connected]
    exact serverBytes_forward absolute written
  | direct client direct peer connected =>
    simp only [direct, relayHttpDirect, peer, connected]
    exact serverBytes_forward absolute written

/-- The server gets the new request line and the rest as it was precisely if the rest of the
    head is UTF-8. -/
theorem head_forwarded_iff (kind : HttpProxyKind)
    (read : readHead io.headEnding [] reads = .ok (head, early, rest))
    (split : head = first ++ ascii "\r\n" ++ tail) (one_line : 10 ∉ first)
    (accepted : parseRequestLine (firstLine (fromUtf8Lossy head)) = some request)
    (absolute : request.rewritten = some line) (reached : Reaches kind env routes io request)
    (written : WritesAll io) :
    serverBytes (kind.handle env routes io reads).1 =
        toUtf8 line ++ tail ++ early ++ rest.flatten.take io.relayedUp ↔
      IsUtf8 tail := by
  rw [serverBytes_handle read accepted absolute reached written, split, rewrittenHead_eq one_line,
    append_left_inj, append_left_inj, append_right_inj, IsUtf8]

def directName : RuleSet Empty where
  block := []
  direct := [.domainSuffix "ok.example".toList]

def headWith (value : Bytes) : Bytes :=
  ascii "GET http://ok.example/ HTTP/1.1" ++ ascii "\r\n" ++ (ascii "X: " ++ value ++ ascii "\r\n\r\n")

def okRequest : HttpRequestLine :=
  ⟨"GET".toList, "ok.example".toList, 80, some "GET / HTTP/1.1\r\n".toList⟩

theorem head_forwarded_accent :
    serverBytes (HttpProxyKind.connector.handle plain directName (obliging 0)
        [headWith [0xc3, 0xa9] ++ ascii "body"]).1 =
      ascii "GET / HTTP/1.1\r\n" ++ (ascii "X: " ++ [0xc3, 0xa9] ++ ascii "\r\n\r\n") ++ ascii "body" :=
  have read : readHead .late [] [headWith [0xc3, 0xa9] ++ ascii "body"] =
      .ok (headWith [0xc3, 0xa9], ascii "body", []) := by decide
  have accepted :
      parseRequestLine (firstLine (fromUtf8Lossy (headWith [0xc3, 0xa9]))) = some okRequest := by decide
  have reached : Reaches .connector plain directName (obliging 0) okRequest :=
    .direct _ (by decide) rfl rfl
  (head_forwarded_iff .connector read rfl (by decide) accepted rfl reached ⟨rfl, rfl, rfl⟩).mpr
    (by decide)

def latinSent : Bytes :=
  ascii "GET / HTTP/1.1\r\n" ++ (ascii "X: " ++ [0xef, 0xbf, 0xbd] ++ ascii "\r\n\r\n")

theorem latin_byte_replaced :
    serverBytes (HttpProxyKind.tunnel.handle plain blockedName (obliging 0) [headWith [0xe9]]).1 =
        latinSent ∧
      serverBytes (HttpProxyKind.connector.handle plain blockedName (obliging 0) [headWith [0xe9]]).1 =
        latinSent ∧
      serverBytes (HttpProxyKind.tunnel.handle plain directName (obliging 0) [headWith [0xe9]]).1 =
        latinSent := by
  have read : readHead .late [] [headWith [0xe9]] = .ok (headWith [0xe9], [], []) := by decide
  have accepted : parseRequestLine (firstLine (fromUtf8Lossy (headWith [0xe9]))) = some okRequest := by
    decide
  have rewritten :
      rewrittenHead "GET / HTTP/1.1\r\n".toList (fromUtf8Lossy (headWith [0xe9])) = latinSent := by
    decide
  have sent : ∀ {kind routes}, Reaches kind plain routes (obliging 0) okRequest →
      serverBytes (kind.handle plain routes (obliging 0) [headWith [0xe9]]).1 = latinSent := by
    intro kind routes reached
    rw [serverBytes_handle read accepted rfl reached ⟨rfl, rfl, rfl⟩, rewritten]
    rfl
  exact ⟨sent (.proxied [] (by decide) rfl), sent (.proxied [] (by decide) rfl),
    sent (.direct _ (by decide) rfl rfl)⟩

end

end Gozarbin.Socks
