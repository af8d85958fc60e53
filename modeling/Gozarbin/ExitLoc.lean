import Mathlib.Algebra.GroupWithZero.Nat
import Gozarbin.Lib.Text
import Gozarbin.Net.Addr

/-! # The exit-location policy

A policy is a list of countries the tunnel must exit in, or must not exit in. The
country is read from a trace page fetched through the tunnel. What the network
answers to that is collected in `Lookup`, and the functions here are functions of
it. Errors are the texts the caller gets to see.
-/

namespace Gozarbin.ExitLoc

open Text

def traceHost : Text := "www.cloudflare.com".toList
def tracePort : UInt16 := 80
def defaultIntervalSecs : Nat := 60

/-- `interval` is in seconds. -/
structure Policy where
  allow : List Text
  deny : List Text
  interval : Nat
  deriving DecidableEq

def intervalFromEnv (var : Option Text) : Nat :=
  (((var.bind (parseUnsigned (2 ^ 64))).filter (0 < ·)).map (min · 86400)).getD defaultIntervalSecs

def codesOf (body : Text) : List Text :=
  ((splitAt ',' body).map fun c => toAsciiUppercase (trim c)).filter fun c =>
    byteLength c = 2 && c.all Char.isAlpha

def Policy.parse (secs : Option Text) (raw : Text) : Option Policy :=
  let spec := trim raw
  if spec.isEmpty || spec.eqIgnoreAsciiCase "any".toList || spec.eqIgnoreAsciiCase "off".toList then
    none
  else
    let negated := spec.startsWith ['!']
    let body := ((spec.dropWhile (· = '!')).dropWhile (· = '=')).dropWhile (· = '!')
    let codes := codesOf body
    if codes.isEmpty then none
    else if negated then some ⟨[], codes, intervalFromEnv secs⟩
    else some ⟨codes, [], intervalFromEnv secs⟩

def Policy.accepts (policy : Policy) (loc : Text) : Bool :=
  let code := toAsciiUppercase (trim loc)
  if policy.deny.elem code then false else policy.allow.isEmpty || policy.allow.elem code

def field (body name : Text) : Option Text :=
  (((lines body).findSome? (strip (name ++ ['=']))).map trim).filter fun value => !value.isEmpty

def parseTrace (body : Text) : Option Text :=
  ((field body "loc".toList).map toAsciiUppercase).filter fun code => byteLength code = 2

/-- `rtt` is in milliseconds. -/
structure Exit where
  address : Option Text
  country : Option Text
  colo : Option Text
  warp : Bool
  rtt : Nat

def parseExit (body : Text) (rtt : Nat) : Exit where
  address := field body "ip".toList
  country := parseTrace body
  colo := field body "colo".toList
  warp := field body "warp".toList = some "on".toList
  rtt

/-- What the network answers to one lookup. -/
structure Lookup where
  dnsResolve : Text → Except String IpAddr
  openTcp : SocketAddr → Except String Unit
  sent : Except String Unit
  chunks : List Bytes
  late : Bool
  rtt : Nat

def readChunks : (buf : Bytes) → List Bytes → Bytes
  | buf, [] => buf
  | buf, chunk :: rest =>
    let buf := buf ++ chunk
    if buf.length > 8192 || (parseTrace (fromUtf8Lossy buf)).isSome then buf
    else readChunks buf rest

def readTrace (io : Lookup) : Except String Text :=
  if io.late then .error "looking up the exit location timed out"
  else do
    let ip ← io.dnsResolve traceHost
    io.openTcp ⟨ip, tracePort⟩
    io.sent
    return fromUtf8Lossy (readChunks [] io.chunks)

def report (io : Lookup) : Option Exit :=
  match readTrace io with
  | .ok body => some (parseExit body io.rtt)
  | .error _ => none

def settle (io : Lookup) : Option Policy → Except String Unit
  | none => .ok ()
  | some policy =>
    match report io with
    | none =>
      .error "the exit location could not be read, so the policy cannot be honoured"
    | some exit =>
      let loc := exit.country.getD []
      if policy.accepts loc then .ok ()
      else .error ("exit location " ++ String.ofList loc ++ " does not satisfy the requested policy")

/-- The policy is honoured: it is satisfied only by a location that was read. -/
def FailsClosed (policy : Policy) (io : Lookup) : Prop :=
  settle io (some policy) = .ok () →
    ∃ body loc, readTrace io = .ok body ∧ parseTrace body = some loc ∧ policy.accepts loc = true

theorem byteLength_of_mem_codesOf {body code : Text} (member : code ∈ codesOf body) :
    byteLength code = 2 := by
  have passed := (List.mem_filter.mp member).2
  simp only [Bool.and_eq_true, decide_eq_true_eq] at passed
  exact passed.1

theorem Policy.parse_lists {secs : Option Text} {raw : Text} {policy : Policy}
    (parsed : Policy.parse secs raw = some policy) :
    policy.allow ≠ [] ∧ [] ∉ policy.allow ∧ policy.deny = [] ∨
      policy.deny ≠ [] ∧ [] ∉ policy.deny ∧ policy.allow = [] := by
  have blank : ∀ body, [] ∉ codesOf body := by
    intro body member
    cases byteLength_of_mem_codesOf member
  simp only [Policy.parse] at parsed
  split at parsed
  · cases parsed
  · split at parsed
    case isTrue => cases parsed
    case isFalse codes =>
      have codes := mt List.isEmpty_iff.mpr codes
      split at parsed
      · cases parsed
        exact .inr ⟨codes, blank _, rfl⟩
      · cases parsed
        exact .inl ⟨codes, blank _, rfl⟩

theorem Policy.accepts_blank_iff {secs : Option Text} {raw : Text} {policy : Policy}
    (parsed : Policy.parse secs raw = some policy) :
    policy.accepts [] = true ↔ policy.deny ≠ [] := by
  have code : toAsciiUppercase (trim []) = [] := rfl
  cases policy.parse_lists parsed with
  | inl only =>
    obtain ⟨named, blank, deny⟩ := only
    simp [Policy.accepts, code, deny, named, blank]
  | inr only =>
    obtain ⟨named, blank, allow⟩ := only
    simp [Policy.accepts, code, allow, named, blank]

theorem settle_error {io : Lookup} (policy : Policy) {e : String}
    (unread : readTrace io = .error e) :
    settle io (some policy) =
      .error "the exit location could not be read, so the policy cannot be honoured" := by
  simp [settle, report, unread]

theorem settle_ok_iff {io : Lookup} (policy : Policy) {body : Text}
    (read : readTrace io = .ok body) :
    settle io (some policy) = .ok () ↔ policy.accepts ((parseTrace body).getD []) = true := by
  simp only [settle, report, read, parseExit]
  split <;> simp_all

/-- A policy fails closed when nothing could be read, when it lists what to allow, and when the
    answer has a location. -/
theorem failsClosed_iff {secs : Option Text} {raw : Text} {policy : Policy}
    (parsed : Policy.parse secs raw = some policy) (io : Lookup) :
    FailsClosed policy io ↔
      (∃ e, readTrace io = .error e) ∨ policy.deny = [] ∨
        ∃ body loc, readTrace io = .ok body ∧ parseTrace body = some loc := by
  cases read : readTrace io with
  | error e =>
    have unread := settle_error policy read
    simp [FailsClosed, unread]
  | ok body =>
    have passes := settle_ok_iff policy read
    cases found : parseTrace body with
    | some loc => simp_all [FailsClosed]
    | none =>
      have blank := policy.accepts_blank_iff parsed
      simp_all [FailsClosed]

def answering (body : String) : Lookup where
  dnsResolve _ := .ok (.v4 (.new 104 16 132 229))
  openTcp _ := .ok ()
  sent := .ok ()
  chunks := [ascii body]
  late := false
  rtt := 42

def denyIr : Policy := ⟨[], ["IR".toList], defaultIntervalSecs⟩

theorem failsClosed_iff_located :
    Policy.parse none "!IR".toList = some denyIr ∧
      FailsClosed denyIr (answering "colo=FRA\nloc=DE\n") := by
  have parsed : Policy.parse none "!IR".toList = some denyIr := by decide
  have located : parseTrace "colo=FRA\nloc=DE\n".toList = some "DE".toList := by decide
  exact ⟨parsed, (failsClosed_iff parsed _).mpr (.inr (.inr ⟨_, _, by decide, located⟩))⟩

theorem unlocated_passes :
    Policy.parse none "!IR".toList = some denyIr ∧
      parseTrace "colo=FRA\nwarp=off\n".toList = none ∧
      readTrace (answering "colo=FRA\nwarp=off\n") = .ok "colo=FRA\nwarp=off\n".toList ∧
      settle (answering "colo=FRA\nwarp=off\n") (some denyIr) = .ok () ∧
      ¬FailsClosed denyIr (answering "colo=FRA\nwarp=off\n") := by
  have read : readTrace (answering "colo=FRA\nwarp=off\n") =
      .ok "colo=FRA\nwarp=off\n".toList := by decide
  have unlocated : parseTrace "colo=FRA\nwarp=off\n".toList = none := by decide
  have settled : settle (answering "colo=FRA\nwarp=off\n") (some denyIr) = .ok () :=
    (settle_ok_iff denyIr read).mpr (by decide)
  refine ⟨by decide, unlocated, read, settled, ?_⟩
  intro closed
  obtain ⟨body, loc, read_, located, _⟩ := closed settled
  cases read.symm.trans read_
  cases unlocated.symm.trans located

end Gozarbin.ExitLoc
