import Gozarbin.Lib.Json
import Gozarbin.Lib.Rotation
import Gozarbin.Net.AddrText

/-! # A call to the WARP API

`api_call_by` has several ways to the API, which differ in the names and the address they use.
What each attempt is answered is given; the result has a line for each request that was sent.
What the libraries make of a text or a number is in `Libs`.
-/

namespace Gozarbin.Account

open Text AddrText

inductive AetherError where
  | api (message : Text)
  | identityRefused (message : Text)
  | ech (message : Text)

def apiAttempts : Nat := 5
def apiRetryAfterCapSecs : Nat := 30

/-- One way a call goes. -/
structure ApiRoute where
  host : Text
  sni : Text
  address : Text
  port : UInt16
  front : Bool

/-- An answer: its status, its Retry-After if that is text, and its body. -/
structure Response where
  status : UInt16
  retryAfter : Option Text
  body : Bytes

/-- `Data` is what a successful answer is decoded to. -/
structure Libs (Data : Type) where
  json : Text → Option Json
  display : UInt16 → Text
  decode : Text → Except Text Data

def isStatus (status : UInt16) : Bool := 100 ≤ status && status < 1000

def isSuccess (status : UInt16) : Bool := 200 ≤ status && status < 300

def retryAfter (raw : Option Text) : Option Nat :=
  (raw.bind fun raw => parseUnsigned 18446744073709551616 (trim raw)).map fun seconds =>
    if seconds ≤ apiRetryAfterCapSecs then seconds else apiRetryAfterCapSecs

def retryAfterWait (attempt : Nat) (asked : Option Nat) : Option Nat :=
  asked.filter fun _ => attempt + 1 < apiAttempts

def refusesIdentity (status : UInt16) : Bool := status = 401 || status = 404 || status = 410

def worthRetrying (status : UInt16) : Bool :=
  status = 429 || status = 408 || (500 ≤ status && status < 600)

def nextWay (way : Nat) (turnedAway : List Bool) : Nat :=
  (((List.range' 1 turnedAway.length).map fun step => (way + step) % turnedAway.length).find?
    fun next => !turnedAway.getD next false).getD way

section
variable {Data : Type} (libs : Libs Data)

def isApiEnvelope (body : Text) : Bool :=
  match libs.json body with
  | some value =>
    ((value.get "success".toList).any Json.isBoolean) &&
      ((value.get "errors".toList).bind Json.asArray).isSome
  | none => false

def describeApiError (entry : Json) : Text :=
  let message := ((entry.get "message".toList).bind Json.asStr).getD "unknown".toList
  match (entry.get "code".toList).bind Json.asI64 with
  | some code => message ++ " (code ".toList ++ (toString code).toList ++ ")".toList
  | none => message

def extractApiError (body : Text) : Option Text := do
  let value ← libs.json body
  let errors ← (← value.get "errors".toList).asArray
  if errors.isEmpty then none
  else some (List.intercalate "; ".toList (errors.map describeApiError))

def describeRejection (status : UInt16) (body : Text) (namesDiffer : Bool) : Text :=
  let detail := (extractApiError libs body).getD
    (let trimmed := trim body
     if trimmed.isEmpty then "no details returned".toList
     else if trimmed.length > 220 then trimmed.take 220 ++ "…".toList
     else trimmed)
  let hint : Text :=
    if status = 403 then
      if namesDiffer then
        (" (cloudflare refuses a call whose server name, --api-sni, and host, --api-host, " ++
          "differ; give them the same name)").toList
      else
        (" (cloudflare refused this network; the address looks flagged, " ++
          "try again later, switch network, or import an existing identity)").toList
    else if status = 429 then
      (" (too many registrations from this address; wait a few minutes " ++
        "before trying again)").toList
    else []
  "status ".toList ++ libs.display status ++ ": ".toList ++ detail ++ hint

/-- What the loop keeps: the way it goes, the ways that turned it away, and the last error. -/
structure Call where
  way : Nat
  turnedAway : List Bool
  lastError : AetherError

def Call.first (routes : List ApiRoute) (label : Text) : Call where
  way := 0
  turnedAway := List.replicate routes.length false
  lastError := .api (label ++ ": no attempt was made".toList)

/-- An attempt is followed by another one, or the call returns. -/
inductive Next (Data : Type) where
  | again (call : Call)
  | done (result : Except AetherError Data)

def Call.turnAway (call : Call) (lastError : AetherError) : Next Data :=
  let turnedAway := call.turnedAway.set call.way true
  if turnedAway.all (· = true) then .done (.error lastError)
  else .again { way := nextWay call.way turnedAway, turnedAway, lastError }

def rejection (routes : List ApiRoute) (label : Text) (route : ApiRoute) (status : UInt16)
    (body : Text) (fromApi : Bool) : AetherError :=
  let described := label ++ ": ".toList ++
    describeRejection libs status body (route.sni ≠ route.host)
  if refusesIdentity status && (fromApi || routes.length = 1 || status ≠ 404) then
    .identityRefused described
  else .api described

def Call.attempt (routes : List ApiRoute) (label : Text) (attempt : Nat) (call : Call)
    (route : ApiRoute) : Except Text Response → Next Data × Option Nat
  | .error error =>
    (.again { call with
      lastError := .api (label ++ ": ".toList ++ error)
      way := nextWay call.way call.turnedAway }, none)
  | .ok response =>
    let status := response.status
    if !isStatus status then
      let lastError := .api (label ++ ": status ".toList ++ (toString status).toList)
      if routes.length > 1 then (call.turnAway lastError, none)
      else (.done (.error lastError), none)
    else
      let cooldown := retryAfter response.retryAfter
      let body := fromUtf8Lossy response.body
      let fromApi := isSuccess status || isApiEnvelope libs body
      if isSuccess status then
        match libs.decode body with
        | .ok data => (.done (.ok data), none)
        | .error e =>
          (.done (.error (.api (label ++ " decode: ".toList ++ e ++ " (".toList ++
            (toString (byteLength body)).toList ++ " byte answer)".toList))), none)
      else
        let lastError := rejection libs routes label route status body fromApi
        if routes.length > 1 && !fromApi then
          if worthRetrying status then
            (.again { call with lastError, way := nextWay call.way call.turnedAway },
              retryAfterWait attempt cooldown)
          else (call.turnAway lastError, none)
        else if !worthRetrying status then (.done (.error lastError), none)
        else (.again { call with lastError }, retryAfterWait attempt cooldown)

/-- A request that was sent: the way it went, its answer, and the wait behind it. -/
structure Sent where
  way : Nat
  answer : Except Text Response
  wait : Option Nat

def Call.attempts (routes : List ApiRoute) (label : Text) (answers : Nat → Except Text Response) :
    (left : Nat) → Call → Option (List Sent × Except AetherError Data)
  | 0, call => some ([], .error call.lastError)
  | left + 1, call => do
      let attempt := apiAttempts - (left + 1)
      let route ← routes[call.way]?
      match call.attempt libs routes label attempt route (answers attempt) with
      | (.done result, wait) => some ([⟨call.way, answers attempt, wait⟩], result)
      | (.again call', wait) => do
          let (log, result) ← call'.attempts routes label answers left
          some (⟨call.way, answers attempt, wait⟩ :: log, result)

/-- Whether there is a socket mark, an upstream proxy, and what became of the key for ECH. -/
structure Circumstances where
  marked : Bool
  upstream : Bool
  ech : Except Text Unit

def apiCallBy (given : Circumstances) (routes : List ApiRoute) (label : Text)
    (answers : Nat → Except Text Response) : Option (List Sent × Except AetherError Data) :=
  let outside := if given.marked && !given.upstream then
      routes.find? fun route => (parseIpAddr route.address).isNone
    else none
  match outside with
  | some route => some ([], .error (.api (label ++ ": ".toList ++ route.address ++
      (" would be looked up outside the socket mark, so the call would loop back into the " ++
        "tunnel; give --api-address an IP address").toList)))
  | none =>
    if routes.isEmpty then some ([], .error (.api (label ++ ": no way to the API".toList)))
    else
      match given.ech with
      | .error e => some ([], .error (.ech e))
      | .ok () =>
        (Call.first routes label).attempts libs routes label answers apiAttempts

end

end Gozarbin.Account
