import Gozarbin.Socks.Connect
import Gozarbin.Socks.HttpHead

/-! # Connections to the HTTP proxy

A handler reads the head of the first request, asks the rules about its target, connects there
and sends the head on; from then on it reads no more heads. A client may send any number of
requests, so whether each is routed by its own target is a question about the whole stream.
-/

namespace Gozarbin.Socks

open List Routing Text AddrText

/-- What a handler does. -/
inductive HttpEvent where
  | decided (host : Host) (port : UInt16) (action : Action)
  | connected (target : Target) (port : UInt16)
  | request (bytes : Bytes)
  | raw (bytes : Bytes)
  | toClient (bytes : Bytes)
  deriving DecidableEq

/-- What the surroundings answer to the calls of one connection. -/
structure HttpOutside (ε : Type) extends Outside ε where
  headEnding : HeadError
  establishedWritten : Except ε Unit
  requestWritten : Except ε Unit
  earlyWritten : Except ε Unit
  connect : Target → UInt16 → Except ε Unit
  relayedUp : Nat

inductive HttpError (ε : Type) where
  | head (why : HeadError)
  | unsupported (firstLine : Text)
  | direct (why : DirectError)
  | directLate
  | outside (e : ε)

def badRequest : Bytes := ascii "HTTP/1.1 400 Bad Request\r\nConnection: close\r\n\r\n"
def forbidden : Bytes := ascii "HTTP/1.1 403 Forbidden\r\nConnection: close\r\n\r\n"
def badGateway : Bytes := ascii "HTTP/1.1 502 Bad Gateway\r\nConnection: close\r\n\r\n"
def connectionEstablished : Bytes := ascii "HTTP/1.1 200 Connection established\r\n\r\n"

def targetOf (authority : Text) : Target :=
  match parseIpAddr authority with
  | some ip => .ip ip
  | none => .domain authority

def rewrittenHead (line text : Text) : Bytes :=
  toUtf8 (line ++ ((splitOnce "\r\n".toList text).map Prod.snd).getD [])

def writes {ρ : Type} : List (HttpEvent × Option ρ) → List HttpEvent × ρ → List HttpEvent × ρ
  | [], last => last
  | (event, some stop) :: _, _ => ([event], stop)
  | (event, none) :: more, last => (event :: (writes more last).1, (writes more last).2)

def stops {ε ρ : Type} (written : Except ε Unit) (failed : ε → ρ) : Option ρ :=
  match written with
  | .error e => some (failed e)
  | .ok () => none

section
variable {Regex ε : Type} (env : Patterns Regex) (routes : RuleSet Regex) (io : HttpOutside ε)

def forward (failed : ε → Except (HttpError ε) Unit) (target : Target) (request : HttpRequestLine)
    (text : Text) (leftover early : Bytes) (rest : List Bytes) :
    List HttpEvent × Except (HttpError ε) Unit :=
  let established := match request.rewritten with
    | none => [(.toClient connectionEstablished,
        stops io.establishedWritten fun e => .error (.outside e))]
    | some _ => []
  let behind := if leftover.isEmpty then []
    else [(.toClient leftover, if io.leftoverWritten then none else some (.ok ()))]
  let preamble := match request.rewritten with
    | some line => [(.request (rewrittenHead line text), stops io.requestWritten failed)]
    | none => []
  let ahead := if early.isEmpty then [] else [(.raw early, stops io.earlyWritten failed)]
  writes ((.connected target request.port, none) :: (established ++ behind ++ preamble ++ ahead))
    ([.raw (rest.flatten.take io.relayedUp)], .ok ())

def relayHttpDirect (target : Target) (request : HttpRequestLine) (text : Text) (early : Bytes)
    (rest : List Bytes) : List HttpEvent × Except (HttpError ε) Unit :=
  match io.peerAddr with
  | .error e => ([], .error (.outside e))
  | .ok client =>
    match io.connectDirect target request.port client with
    | some (.ok ()) =>
      forward io (fun e => .error (.outside e)) target request text [] early rest
    | some (.error kind) =>
      ([.toClient (if kind = .permissionDenied then forbidden else badGateway)],
        .error (.direct kind))
    | none => ([.toClient badGateway], .error .directLate)

def handleHttp (connect : Target → UInt16 → Except ε Bytes)
    (failed : ε → Except (HttpError ε) Unit) (reads : List Bytes) :
    List HttpEvent × Except (HttpError ε) Unit :=
  match readHead io.headEnding [] reads with
  | .error why => ([], .error (.head why))
  | .ok (head, early, rest) =>
    let text := fromUtf8Lossy head
    match parseRequestLine (firstLine text) with
    | none => ([.toClient badRequest], .error (.unsupported (firstLine text)))
    | some request =>
      let target := targetOf request.authority
      let action := routes.decide env (hostOf target) request.port
      let (events, result) :=
        match action with
        | .block => ([.toClient forbidden], .ok ())
        | .direct => relayHttpDirect io target request text early rest
        | .proxy =>
          match connect target request.port with
          | .error e => ([.toClient badGateway], .error (.outside e))
          | .ok leftover => forward io failed target request text leftover early rest
      (.decided (hostOf target) request.port action :: events, result)

def handleHttpClient (reads : List Bytes) : List HttpEvent × Except (HttpError ε) Unit :=
  handleHttp env routes io (openTunneled io.toOutside) (fun _ => .ok ()) reads

def handleHttpThrough (reads : List Bytes) : List HttpEvent × Except (HttpError ε) Unit :=
  handleHttp env routes io (fun target port => (io.connect target port).map fun _ => [])
    (fun e => .error (.outside e)) reads

end

/-- A head that ends at its first blank line, and whose first line names a target. -/
structure HttpRequest where
  head : Bytes
  body : Bytes
  line : HttpRequestLine
  ends : findHeadEnd head = some head.length
  reads : parseRequestLine (firstLine (fromUtf8Lossy head)) = some line
  absolute : line.rewritten.isSome = true

namespace HttpRequest

def bytes (r : HttpRequest) : Bytes := r.head ++ r.body

def goal (r : HttpRequest) : Target × UInt16 := (targetOf r.line.authority, r.line.port)

end HttpRequest

def stream (requests : List HttpRequest) : Bytes := requests.flatMap HttpRequest.bytes

/-- The reads deliver the stream, or its beginning so far. -/
structure Delivers (reads : List Bytes) (bytes : Bytes) : Prop where
  begins : reads.flatten <+: bytes
  chunks : ∀ chunk ∈ reads, chunk ≠ [] ∧ chunk.length ≤ headChunk

def HttpEvent.rawBytes : HttpEvent → Bytes
  | .raw bytes => bytes
  | _ => []

def rawBytes (events : List HttpEvent) : Bytes := events.flatMap HttpEvent.rawBytes

/-- Something of the request was sent to a server: the head of the first one, or a
    byte of one behind it. -/
def Forwarded (first : HttpRequest) (more : List HttpRequest) (events : List HttpEvent)
    (r : HttpRequest) : Prop :=
  r = first ∧ (∃ bytes, .request bytes ∈ events) ∨
    ∃ before after, more = before ++ r :: after ∧
      (first.body ++ stream before).length < (rawBytes events).length

/-- The rules were asked before any connection, do not block this target, and all connections
    are to it. -/
def Routed (goal : Target × UInt16) (events : List HttpEvent) : Prop :=
  (∃ before action after, events = before ++ .decided (hostOf goal.1) goal.2 action :: after ∧
      action ≠ .block ∧ ∀ target port, .connected target port ∉ before) ∧
    ∀ target port, .connected target port ∈ events → (target, port) = goal

/-- Every request that is sent on is routed by its own target. -/
def RoutedOwn (first : HttpRequest) (more : List HttpRequest) (events : List HttpEvent) : Prop :=
  ∀ r, Forwarded first more events r → Routed r.goal events

section first
variable {Regex ε : Type} {env : Patterns Regex} {routes : RuleSet Regex} {io : HttpOutside ε}
  {connect : Target → UInt16 → Except ε Bytes} {failed : ε → Except (HttpError ε) Unit}
  {reads rest : List Bytes} {early : Bytes} {first : HttpRequest} {more : List HttpRequest}

theorem mem_writes {ρ : Type} {steps : List (HttpEvent × Option ρ)} {last : List HttpEvent × ρ}
    {event : HttpEvent} (member : event ∈ (writes steps last).1) :
    event ∈ steps.map Prod.fst ∨ event ∈ last.1 := by
  induction steps with
  | nil => exact .inr member
  | cons step steps ih =>
    obtain ⟨e, stop⟩ := step
    cases stop with
    | some stop => exact .inl (.head _ |> (mem_singleton.mp member ▸ ·))
    | none =>
      rcases mem_cons.mp member with rfl | later
      · exact .inl mem_cons_self
      · rcases ih later with here | there
        · exact .inl (mem_cons_of_mem _ here)
        · exact .inr there

theorem forward_connected {target t : Target} {request : HttpRequestLine} {text : Text}
    {leftover : Bytes} {p : UInt16}
    (member : .connected t p ∈ (forward io failed target request text leftover early rest).1) :
    (t, p) = (target, request.port) := by
  rcases mem_writes member with written | relayed
  · simp only [map_cons, mem_cons, map_append, mem_append] at written
    rcases written with here | ((there | there) | there) | there
    · cases here
      rfl
    all_goals
      split at there <;> simp at there
  · simp at relayed

theorem relayHttpDirect_connected {target t : Target} {request : HttpRequestLine} {text : Text}
    {p : UInt16} (member : .connected t p ∈ (relayHttpDirect io target request text early rest).1) :
    (t, p) = (target, request.port) := by
  unfold relayHttpDirect at member
  split at member
  · cases member
  · split at member
    · exact forward_connected member
    · simp at member
    · simp at member

theorem handleHttp_events (env : Patterns Regex) (routes : RuleSet Regex)
    (connect : Target → UInt16 → Except ε Bytes) (failed : ε → Except (HttpError ε) Unit)
    (read : readHead io.headEnding [] reads = .ok (first.head, early, rest)) :
    ∃ tail, (handleHttp env routes io connect failed reads).1 =
        .decided (hostOf first.goal.1) first.goal.2
          (routes.decide env (hostOf first.goal.1) first.goal.2) :: tail ∧
      (∀ target port, .connected target port ∈ tail → (target, port) = first.goal) ∧
      (routes.decide env (hostOf first.goal.1) first.goal.2 = .block →
        tail = [.toClient forbidden]) := by
  unfold handleHttp
  simp only [read, first.reads]
  refine ⟨_, rfl, ?connected, ?blocked⟩
  case connected =>
    intro target port member
    split at member
    · simp at member
    · exact relayHttpDirect_connected member
    · split at member
      · simp at member
      · exact forward_connected member
  case blocked =>
    intro blocked
    simp only [HttpRequest.goal] at blocked
    rw [blocked]

theorem findHeadEnd_stream : findHeadEnd (stream (first :: more)) = some first.head.length := by
  rw [stream, flatMap_cons, HttpRequest.bytes, append_assoc]
  exact findHeadEnd_append first.ends

theorem Delivers.head_eq {head : Bytes} {ending : HeadError}
    (delivers : Delivers reads (stream (first :: more)))
    (read : readHead ending [] reads = .ok (head, early, rest)) :
    head = first.head ∧ head.length ≤ httpHeadLimit + headChunk := by
  obtain ⟨all, ends, chunk, member, bound⟩ :=
    readHead_sound rfl (Nat.zero_le _) (fun chunk member => (delivers.chunks chunk member).1) read
  rw [nil_append] at all ends
  obtain ⟨later, whole⟩ := delivers.begins
  have same : head.length = first.head.length := by
    have found : findHeadEnd (reads.flatten ++ later) = some head.length :=
      findHeadEnd_append ends
    rw [whole, findHeadEnd_stream] at found
    exact (Option.some.inj found).symm
  refine ⟨?_, bound.trans (Nat.add_le_add_left (delivers.chunks chunk member).2 _)⟩
  have heads : head ++ (early ++ rest.flatten ++ later) =
      first.head ++ (first.body ++ stream more) := by
    rw [← append_assoc, ← append_assoc, ← all, whole]
    simp [stream, HttpRequest.bytes]
  exact (append_inj heads same).1

theorem handleHttpClient_events (env : Patterns Regex) (routes : RuleSet Regex)
    (io : HttpOutside ε) (delivers : Delivers reads (stream (first :: more))) :
    (handleHttpClient env routes io reads).1 = [] ∨
      first.head.length ≤ httpHeadLimit + headChunk ∧
        ∃ tail, (handleHttpClient env routes io reads).1 =
            .decided (hostOf first.goal.1) first.goal.2
              (routes.decide env (hostOf first.goal.1) first.goal.2) :: tail ∧
          (∀ target port, .connected target port ∈ tail → (target, port) = first.goal) ∧
          (routes.decide env (hostOf first.goal.1) first.goal.2 = .block →
            tail = [.toClient forbidden]) := by
  cases read : readHead io.headEnding [] reads with
  | error why =>
    refine .inl ?_
    unfold handleHttpClient handleHttp
    rw [read]
  | ok result =>
    obtain ⟨head, early, rest⟩ := result
    obtain ⟨rfl, bound⟩ := delivers.head_eq read
    exact .inr ⟨bound, handleHttp_events env routes _ _ read⟩

theorem not_forwarded {events : List HttpEvent} {r : HttpRequest}
    (none_asked : ∀ bytes, .request bytes ∉ events) (none_raw : rawBytes events = []) :
    ¬ Forwarded first more events r := by
  intro forwarded
  rcases forwarded with ⟨-, bytes, member⟩ | ⟨_, _, _, short⟩
  · exact none_asked bytes member
  · rw [none_raw] at short
    cases short

end first

theorem exists_full_reads (bytes : Bytes) :
    ∃ reads : List Bytes, reads.flatten = bytes ∧
      (∀ chunk ∈ reads, chunk ≠ [] ∧ chunk.length ≤ headChunk) ∧
      ∀ before after, reads = before ++ after → after ≠ [] →
        before.flatten.length % headChunk = 0 := by
  induction long : bytes.length using Nat.strongRecOn generalizing bytes with
  | ind n ih =>
    by_cases empty : bytes = []
    · refine ⟨[], by simp [empty], by simp, fun before after none left => ?_⟩
      obtain ⟨-, rfl⟩ := append_eq_nil_iff.mp none.symm
      exact absurd rfl left
    · have some_ : 0 < bytes.length := length_pos_iff.mpr empty
      obtain ⟨reads, whole, chunks, full⟩ :=
        ih (bytes.drop headChunk).length (by simp [headChunk]; omega) _ rfl
      refine ⟨bytes.take headChunk :: reads, by simp [whole], ?_, ?_⟩
      · intro chunk member
        rcases mem_cons.mp member with rfl | member
        · exact ⟨by simp [empty, headChunk], by simp⟩
        · exact chunks chunk member
      · intro before after split left
        cases before with
        | nil => rfl
        | cons chunk before =>
          obtain ⟨rfl, later⟩ := List.cons.inj split
          -- something is left behind the first chunk, so that one is full
          have behind : bytes.drop headChunk ≠ [] := by
            rintro none
            rw [none, flatten_eq_nil_iff] at whole
            obtain ⟨last, member⟩ := exists_mem_of_ne_nil after left
            have member : last ∈ reads := later ▸ mem_append_right _ member
            exact (chunks last member).1 (whole last member)
          have length : (bytes.take headChunk).length = headChunk := by
            have := length_pos_iff.mpr behind
            rw [length_drop] at this
            rw [length_take, Nat.min_eq_left (by omega)]
          rw [flatten_cons, length_append, length, Nat.add_mod_left]
          exact full before after later left

theorem readHead_full (ending : HeadError) {bytes : Bytes} {n : Nat} {reads : List Bytes}
    (ends : findHeadEnd bytes = some n) (fits : n ≤ httpHeadLimit + headChunk)
    (whole : reads.flatten = bytes) (chunks : ∀ chunk ∈ reads, chunk ≠ [] ∧ chunk.length ≤ headChunk)
    (full : ∀ before after, reads = before ++ after → after ≠ [] →
      before.flatten.length % headChunk = 0) :
    ∃ early rest, readHead ending [] reads = .ok (bytes.take n, early, rest) := by
  subst whole
  apply readHead_complete (by rfl) (fun chunk member => (chunks chunk member).1) ends
  intro before after split short
  have left : after ≠ [] := by
    rintro rfl
    rw [append_nil] at split
    rw [nil_append, ← split] at short
    have := (findHeadEnd_bounds ends).2
    omega
  have multiple := full before after split left
  simp only [nil_append, headChunk, httpHeadLimit] at multiple fits short ⊢
  omega

def obliging (passed : Nat) : HttpOutside Unit where
  sniffEnabled := false
  sniffRead := none
  hostname _ := none
  replyWritten := .ok ()
  gatewayProxy := none
  openThroughGateway _ _ _ := .error ()
  dnsResolve _ := .ok (.v4 ⟨0x5db8d822#32⟩)
  openTcp _ := .ok ()
  peerAddr := .ok (.v4 ⟨0x7f000001#32⟩)
  connectDirect _ _ _ := some (.ok ())
  headSent := true
  leftoverWritten := true
  relayed := []
  headEnding := .late
  establishedWritten := .ok ()
  requestWritten := .ok ()
  earlyWritten := .ok ()
  connect _ _ := .ok ()
  relayedUp := passed

section obliging
variable {Regex : Type} {env : Patterns Regex} {routes : RuleSet Regex}
  {reads rest : List Bytes} {early : Bytes} {first : HttpRequest} {passed : Nat}

theorem forward_obliging (failed : Unit → Except (HttpError Unit) Unit) (early : Bytes)
    (request : HttpRequestLine) (target : Target) (text : Text)
    (enough : rest.flatten.length ≤ passed) :
    .connected target request.port ∈
        (forward (obliging passed) failed target request text [] early rest).1 ∧
      rawBytes (forward (obliging passed) failed target request text [] early rest).1 =
        early ++ rest.flatten := by
  have relayed : rest.flatten.take (obliging passed).relayedUp = rest.flatten :=
    take_of_length_le enough
  unfold forward
  rw [relayed]
  constructor
  · exact mem_cons_self
  · cases request.rewritten <;> cases early <;>
      simp [writes, stops, obliging, rawBytes, HttpEvent.rawBytes]

theorem openTunneled_obliging (target : Target) (port : UInt16) :
    openTunneled (obliging passed).toOutside target port = .ok [] := by
  have resolved : ∃ ip, resolve (obliging passed).dnsResolve target = .ok ip := by
    cases target with
    | ip ip => exact ⟨ip, rfl⟩
    | domain name =>
      simp only [resolve]
      split
      · exact ⟨_, rfl⟩
      · exact ⟨_, rfl⟩
  obtain ⟨ip, resolved⟩ := resolved
  have opened : openResolved (obliging passed).toOutside target port = .ok () := by
    rw [openResolved, resolved]
    rfl
  have none : (obliging passed).gatewayProxy = none := rfl
  rw [openTunneled, none, Option.filter_none, opened]
  rfl

theorem handleHttpClient_obliging
    (read : readHead .late [] reads = .ok (first.head, early, rest))
    (unblocked : routes.decide env (hostOf first.goal.1) first.goal.2 ≠ .block)
    (enough : rest.flatten.length ≤ passed) :
    .connected first.goal.1 first.goal.2 ∈
        (handleHttpClient env routes (obliging passed) reads).1 ∧
      rawBytes (handleHttpClient env routes (obliging passed) reads).1 = early ++ rest.flatten := by
  have forwarded := fun failed =>
    forward_obliging failed early first.line (targetOf first.line.authority)
      (fromUtf8Lossy first.head) enough
  unfold handleHttpClient handleHttp
  have ending : (obliging passed).headEnding = .late := rfl
  simp only [ending, read, first.reads]
  cases decided : routes.decide env (hostOf (targetOf first.line.authority)) first.line.port with
  | block => exact absurd decided unblocked
  | direct =>
    exact ⟨mem_cons_of_mem _ (forwarded _).1, (forwarded _).2⟩
  | proxy =>
    simp only [openTunneled_obliging]
    exact ⟨mem_cons_of_mem _ (forwarded _).1, (forwarded _).2⟩

theorem exists_all_sent (more : List HttpRequest)
    (unblocked : routes.decide env (hostOf first.goal.1) first.goal.2 ≠ .block)
    (fits : first.head.length ≤ httpHeadLimit + headChunk) :
    ∃ passed reads, Delivers reads (stream (first :: more)) ∧
      .connected first.goal.1 first.goal.2 ∈
        (handleHttpClient env routes (obliging passed) reads).1 ∧
      rawBytes (handleHttpClient env routes (obliging passed) reads).1 =
        first.body ++ stream more := by
  obtain ⟨reads, whole, chunks, full⟩ := exists_full_reads (stream (first :: more))
  obtain ⟨early, rest, read⟩ := readHead_full .late findHeadEnd_stream fits whole chunks full
  have delivers : Delivers reads (stream (first :: more)) := ⟨by rw [whole], chunks⟩
  rw [(delivers.head_eq read).1] at read
  obtain ⟨connected, raw⟩ := handleHttpClient_obliging read unblocked (Nat.le_refl _)
  refine ⟨rest.flatten.length, reads, delivers, connected, raw.trans ?_⟩
  have all := (readHead_sound rfl (Nat.zero_le _) (fun c m => (chunks c m).1) read).1
  rw [nil_append, whole, append_assoc] at all
  simp only [stream, flatMap_cons, HttpRequest.bytes, append_assoc] at all ⊢
  exact (append_cancel_left all).symm

end obliging

theorem HttpRequest.length_pos (r : HttpRequest) : 0 < r.head.length := by
  have := (findHeadEnd_bounds r.ends).1
  omega

/-- The requests of a stream are routed by their own targets precisely if the first is blocked
    or its head too large, or all the others are for the same target. -/
theorem routedOwn_iff {Regex : Type} (env : Patterns Regex) (routes : RuleSet Regex)
    (first : HttpRequest) (more : List HttpRequest) :
    (∀ (ε : Type) (io : HttpOutside ε) (reads : List Bytes),
        Delivers reads (stream (first :: more)) →
        RoutedOwn first more (handleHttpClient env routes io reads).1) ↔
      routes.decide env (hostOf first.goal.1) first.goal.2 = .block ∨
        httpHeadLimit + headChunk < first.head.length ∨ ∀ r ∈ more, r.goal = first.goal := by
  constructor
  · intro always
    by_contra open_
    simp only [not_or, not_forall, Nat.not_lt] at open_
    obtain ⟨unblocked, fits, r, member, other⟩ := open_
    obtain ⟨passed, reads, delivers, connected, raw⟩ := exists_all_sent more unblocked fits
    obtain ⟨before, after, split⟩ := append_of_mem member
    have begun : (first.body ++ stream before).length <
        (rawBytes (handleHttpClient env routes (obliging passed) reads).1).length := by
      have := r.length_pos
      rw [raw, split]
      simp [stream, HttpRequest.bytes]
      omega
    have routed := always Unit (obliging passed) reads delivers r
      (.inr ⟨before, after, split, begun⟩)
    exact other (routed.2 _ _ connected).symm
  · intro safe ε io reads delivers r forwarded
    rcases handleHttpClient_events env routes io delivers with
      nothing | ⟨bound, tail, events, connected, blocked⟩
    · rw [nothing] at forwarded
      exact absurd forwarded (not_forwarded (fun _ mem => by cases mem) rfl)
    · have unblocked : routes.decide env (hostOf first.goal.1) first.goal.2 ≠ .block := by
        intro block
        rw [events, blocked block] at forwarded
        exact not_forwarded (by simp) rfl forwarded
      have own : r.goal = first.goal := by
        rcases forwarded with ⟨rfl, -⟩ | ⟨before, after, split, -⟩
        · rfl
        · rcases safe with block | large | same
          · exact absurd block unblocked
          · omega
          · exact same r (split ▸ mem_append_right _ mem_cons_self)
      rw [own, events]
      refine ⟨⟨[], _, tail, rfl, unblocked, by simp⟩, fun target port member => ?_⟩
      exact connected target port (by simpa using member)

def blockedName : RuleSet Empty where
  block := [.domainSuffix "blocked.example".toList]
  direct := []

def allowedRequest : HttpRequest where
  head := ascii "GET http://ok.example/ HTTP/1.1\r\n\r\n"
  body := []
  line := ⟨"GET".toList, "ok.example".toList, 80, some "GET / HTTP/1.1\r\n".toList⟩
  ends := by decide
  reads := by decide
  absolute := rfl

def blockedRequest : HttpRequest where
  head := ascii "GET http://blocked.example/ HTTP/1.1\r\n\r\n"
  body := []
  line := ⟨"GET".toList, "blocked.example".toList, 80, some "GET / HTTP/1.1\r\n".toList⟩
  ends := by decide
  reads := by decide
  absolute := rfl

theorem pipelined_request_escapes :
    blockedName.decide plain (hostOf blockedRequest.goal.1) blockedRequest.goal.2 = .block ∧
      Delivers [stream [allowedRequest, blockedRequest]] (stream [allowedRequest, blockedRequest]) ∧
      ¬ RoutedOwn allowedRequest [blockedRequest]
        (handleHttpClient plain blockedName (obliging 0)
          [stream [allowedRequest, blockedRequest]]).1 := by
  have events : (handleHttpClient plain blockedName (obliging 0)
      [stream [allowedRequest, blockedRequest]]).1 =
      [.decided (.domain "ok.example".toList) 80 .proxy, .connected (.domain "ok.example".toList) 80,
        .request (ascii "GET / HTTP/1.1\r\n\r\n"), .raw blockedRequest.head, .raw []] := by
    decide
  refine ⟨by decide, ⟨by simp, by decide⟩, fun own => ?_⟩
  rw [events] at own
  have routed := own blockedRequest (.inr ⟨[], [], rfl, by decide⟩)
  exact absurd (routed.2 (.domain "ok.example".toList) 80 (by decide)) (by decide)

end Gozarbin.Socks
