import Mathlib.Data.List.Rotate
import Gozarbin.Account.Ways
import Gozarbin.Lib.Runs

/-! # The ways to the WARP API

The API has two names, and by the first of them it can be reached on some addresses of the edge as
well. Which way the API itself answered last is remembered in two parts, the name and the address,
and the ways of the next call are put in order by the two.
-/

namespace Gozarbin.Account

open List Runs Text

def apiHost : Text := "api.devices.cloudflare.com".toList
def apiFallbackHost : Text := "api.cloudflareclient.com".toList
def apiFrontAddresses : List Text := ["104.24.4.6".toList, "104.18.0.6".toList]

/-- What `--api-host`, `--api-sni` and `--api-address` give. -/
structure ApiSettings where
  host : Option Text := none
  sni : Option Text := none
  address : Option (Text × UInt16) := none

/-- What is remembered of the last answer. -/
structure Answered where
  host : Option Text := none
  edge : Option Text := none

namespace ApiSettings

def route (settings : ApiSettings) (host sni : Text) : ApiRoute :=
  let (address, port) := settings.address.getD (sni, 443)
  { host, sni, address, port, front := false }

end ApiSettings

def frontRoute (name edge : Text) : ApiRoute where
  host := name
  sni := name
  address := edge
  port := 443
  front := true

def apiNames (answered : Option Text) : Text × Text :=
  if answered = some apiFallbackHost then (apiFallbackHost, apiHost) else (apiHost, apiFallbackHost)

def apiRoutesOf (settings : ApiSettings) (answered : Option Text) : List ApiRoute :=
  if settings.host.isSome || settings.sni.isSome then
    let host := settings.host.getD apiHost
    let sni := settings.sni.getD host
    [settings.route host sni]
  else
    let (first, other) := apiNames answered
    let routes := [settings.route first first, settings.route other other]
    if settings.address.isNone then routes ++ apiFrontAddresses.map (frontRoute first) else routes

def apiRoutes (settings : ApiSettings) (answered : Answered) : List ApiRoute :=
  let routes := apiRoutesOf settings answered.host
  match answered.edge with
  | some edge =>
    match routes.findIdx? fun route => route.front && route.address = edge with
    | some place => routes.rotate place
    | none => routes
  | none => routes

/-- A call, and what its attempts are answered. -/
structure ApiCall where
  given : Circumstances
  label : Text
  answers : Nat → Except Text Response

/-- What a run of the core keeps between calls, and the log of its attempts and answers. -/
structure Calls where
  answered : Answered := {}
  log : List (ApiRoute × Except Text Response) := []

section
variable {Data : Type} (libs : Libs Data)

def fromApi : Except Text Response → Bool
  | .error _ => false
  | .ok response =>
    isStatus response.status &&
      (isSuccess response.status || isApiEnvelope libs (fromUtf8Lossy response.body))

def ApiRoute.remembered (route : ApiRoute) : Answered where
  host := some route.host
  edge := if route.front then some route.address else none

def Calls.sent (routes : List ApiRoute) (calls : Calls) (sent : Sent) : Calls :=
  match routes[sent.way]? with
  | some route =>
    { answered :=
        if fromApi libs sent.answer && routes.length > 1 then route.remembered else calls.answered
      log := calls.log ++ [(route, sent.answer)] }
  | none => calls

def Calls.last (calls : Calls) : Option ApiRoute :=
  (calls.log.filter fun attempt => fromApi libs attempt.2).getLast?.map Prod.fst

def Calls.call (settings : ApiSettings) (calls : Calls) (call : ApiCall) : Option Calls := do
  let routes := apiRoutes settings calls.answered
  let (log, _) ← apiCallBy libs call.given routes call.label call.answers
  return log.foldl (Calls.sent libs routes) calls

end

/-- One of the two names of the API. -/
def IsName (name : Text) : Prop := name = apiHost ∨ name = apiFallbackHost

section
variable {address : Option (Text × UInt16)} {answered : Answered} {route : ApiRoute} {name edge : Text}

theorem apiNames_isName (answered : Option Text) :
    IsName (apiNames answered).1 ∧ IsName (apiNames answered).2 ∧
      (apiNames answered).1 ≠ (apiNames answered).2 := by
  rw [apiNames]
  split
  · exact ⟨.inr rfl, .inl rfl, by decide⟩
  · exact ⟨.inl rfl, .inr rfl, by decide⟩

theorem apiNames_covers (answered : Option Text) (isName : IsName name) :
    name = (apiNames answered).1 ∨ name = (apiNames answered).2 := by
  rw [apiNames]
  split
  · exact isName.symm
  · exact isName

theorem apiNames_some (isName : IsName name) : (apiNames (some name)).1 = name := by
  rcases isName with rfl | rfl
  · rfl
  · rfl

theorem exists_rotate (settings : ApiSettings) (answered : Answered) :
    ∃ place, apiRoutes settings answered = (apiRoutesOf settings answered.host).rotate place := by
  rw [apiRoutes]
  split
  · split
    · exact ⟨_, rfl⟩
    · exact ⟨0, (rotate_zero _).symm⟩
  · exact ⟨0, (rotate_zero _).symm⟩

theorem apiRoutesOf_unnamed (address : Option (Text × UInt16)) (answered : Option Text) :
    apiRoutesOf { address } answered =
      ApiSettings.route { address } (apiNames answered).1 (apiNames answered).1 ::
      ApiSettings.route { address } (apiNames answered).2 (apiNames answered).2 ::
      if address = none then apiFrontAddresses.map (frontRoute (apiNames answered).1) else [] := by
  cases address <;> rfl

inductive Usual (address : Option (Text × UInt16)) : ApiRoute → Prop where
  | direct {name : Text} (isName : IsName name) : Usual address (ApiSettings.route { address } name name)
  | front {name edge : Text} (free : address = none) (isName : IsName name)
      (known : edge ∈ apiFrontAddresses) : Usual address (frontRoute name edge)

theorem usual_of_mem (mem : route ∈ apiRoutes { address } answered) : Usual address route := by
  obtain ⟨place, same⟩ := exists_rotate { address } answered
  obtain ⟨first, other, -⟩ := apiNames_isName answered.host
  rw [same, mem_rotate, apiRoutesOf_unnamed] at mem
  rcases mem_cons.mp mem with rfl | mem
  · exact .direct first
  rcases mem_cons.mp mem with rfl | mem
  · exact .direct other
  split at mem
  next free =>
    obtain ⟨edge, known, rfl⟩ := mem_map.mp mem
    exact .front free first known
  next => cases mem

theorem Usual.goes_first (usual : Usual address route) :
    (apiRoutes { address } route.remembered).head? = some route := by
  cases usual with
  | @direct name isName =>
    have remembered : (ApiSettings.route { address } name name).remembered = ⟨some name, none⟩ := rfl
    rw [remembered, apiRoutes, apiRoutesOf_unnamed, apiNames_some isName]
    rfl
  | front free isName known =>
    subst free
    rcases isName with rfl | rfl
    all_goals
      simp only [apiFrontAddresses, mem_cons, not_mem_nil, or_false] at known
      rcases known with rfl | rfl
      · rfl
      · rfl

/-- What every list of routes is. -/
structure Complete (address : Option (Text × UInt16)) (routes : List ApiRoute) : Prop where
  length : routes.length = if address.isSome then 2 else 4
  names : ∀ name, IsName name → ∃ route ∈ routes, route.host = name
  nodup : routes.Nodup

theorem complete_apiRoutesOf (address : Option (Text × UInt16)) (answered : Option Text) :
    Complete address (apiRoutesOf { address } answered) := by
  rw [apiRoutesOf_unnamed]
  refine ⟨?_, fun name isName => ?_, ?_⟩
  · cases address <;> rfl
  · rcases apiNames_covers answered isName with rfl | rfl
    · exact ⟨_, mem_cons_self, rfl⟩
    · exact ⟨_, mem_cons_of_mem _ mem_cons_self, rfl⟩
  · obtain ⟨-, -, other⟩ := apiNames_isName answered
    have names : ∀ {name name' : Text}, name ≠ name' →
        ApiSettings.route { address } name name ≠ ApiSettings.route { address } name' name' :=
      fun other same => other (congrArg ApiRoute.host same)
    have kinds : ∀ {name name' edge : Text},
        frontRoute name' edge ≠ ApiSettings.route { address } name name :=
      fun same => by cases congrArg ApiRoute.front same
    have edges : (apiFrontAddresses.map (frontRoute (apiNames answered).1)).Nodup :=
      List.Nodup.map (fun edge edge' same => congrArg ApiRoute.address same) (by decide)
    split
    · refine nodup_cons.mpr ⟨?_, nodup_cons.mpr ⟨?_, edges⟩⟩
      · simp [names other, kinds]
      · simp [kinds]
    · simp [names other]

theorem complete_apiRoutes (address : Option (Text × UInt16)) (answered : Answered) :
    Complete address (apiRoutes { address } answered) := by
  obtain ⟨place, same⟩ := exists_rotate { address } answered
  have complete := complete_apiRoutesOf address answered.host
  rw [same]
  refine ⟨by rw [length_rotate, complete.length], fun name isName => ?_,
    nodup_rotate.mpr complete.nodup⟩
  obtain ⟨route, mem, same⟩ := complete.names name isName
  exact ⟨route, mem_rotate.mpr mem, same⟩

end

section
variable {Data : Type} (libs : Libs Data) {address : Option (Text × UInt16)} {calls : Calls}

def Calls.Sound (address : Option (Text × UInt16)) (calls : Calls) : Prop :=
  ∀ route, calls.last libs = some route → Usual address route ∧ calls.answered = route.remembered

variable {libs}

theorem Calls.Sound.sent (sound : calls.Sound libs address) (answered : Answered) (s : Sent) :
    (calls.sent libs (apiRoutes { address } answered) s).Sound libs address := by
  have several : 1 < (apiRoutes { address } answered).length := by
    rw [(complete_apiRoutes address answered).length]
    split <;> decide
  rw [Calls.sent]
  split
  next route found =>
    intro last same
    simp only [Calls.last, filter_append] at same
    cases fromThere : fromApi libs s.answer with
    | true =>
      rw [filter_singleton, fromThere] at same
      obtain rfl : route = last := by simpa using same
      exact ⟨usual_of_mem (mem_of_getElem? found), by simp [several]⟩
    | false =>
      rw [filter_singleton, fromThere] at same
      exact sound last (by simpa [Calls.last] using same)
  next => exact sound

theorem Calls.Sound.log (sound : calls.Sound libs address) (answered : Answered) (log : List Sent) :
    (log.foldl (Calls.sent libs (apiRoutes { address } answered)) calls).Sound libs address := by
  induction log generalizing calls with
  | nil => exact sound
  | cons s log ih => exact ih (sound.sent answered s)

theorem Calls.Sound.call (sound : calls.Sound libs address) (call : ApiCall) :
    ∃ calls', calls.call libs { address } call = some calls' ∧ calls'.Sound libs address := by
  obtain ⟨log, result, returned⟩ := apiCallBy_returns libs call.given (apiRoutes { address } calls.answered)
    call.label call.answers
  refine ⟨_, ?_, sound.log calls.answered log⟩
  rw [Calls.call, returned]
  rfl

end

example :
    let libs : Libs Unit := ⟨fun _ => none, fun _ => [], fun _ => .ok ()⟩
    let call : ApiCall := ⟨⟨false, false, .ok ()⟩, [], fun attempt =>
      if attempt = 0 then .error "timed out".toList else .ok ⟨200, none, []⟩⟩
    ((Runs.run (Calls.call libs {}) {} [call]).map fun run => (apiRoutes {} run.answered).map fun route =>
      (route.host, route.front)) =
      some [(apiFallbackHost, false), (apiHost, false), (apiFallbackHost, true), (apiFallbackHost, true)] :=
  rfl

end Gozarbin.Account
