import Gozarbin.Lib.Base64
import Gozarbin.Lib.Runs
import Gozarbin.Net.Addr

/-! # Signing in to a team

A device is enrolled with a token. That of the last sign-in is kept in a slot of the process,
`TOKEN_CACHE`, whose lock is held for the whole of a call. Times are in seconds, errors are the
texts the caller gets to see, and the claim `exp` of a token is read by a parameter, `expClaim`,
for the JSON library.
-/

namespace Gozarbin.ZeroTrust

open Text

def teamSuffix : Text := "cloudflareaccess.com".toList
def enrollPath : Text := "/warp".toList

structure TeamSettings where
  team : Text
  clientId : Option Text := none
  clientSecret : Option Text := none
  token : Option Text := none
  email : Option Text := none

def isTeamChar (c : Char) : Bool := c.isAlphanum || c = '-' || c = '_'

def normalizeTeam (ucd : Ucd) (raw : Text) : Option Text :=
  let value := (trim raw).toLowercase ucd
  if value.isEmpty then none
  else
    let value := ["https://".toList, "http://".toList].foldl
      (fun value start => (strip start value).getD value) value
    let value := trimEndMatches '/' value
    let value := (splitAt '/' value).headD value
    let value := ((stripEnd teamSuffix value).map (trimEndMatches '.')).getD value
    if value.isEmpty then none
    else if value.all isTeamChar then some value
    else none

theorem normalizeTeam_spec {ucd : Ucd} {raw team : Text} (named : normalizeTeam ucd raw = some team) :
    team ≠ [] ∧ ∀ c ∈ team, isTeamChar c = true := by
  simp only [normalizeTeam] at named
  split_ifs at named with blank empty usable
  cases named
  exact ⟨by simpa using empty, List.all_eq_true.mp usable⟩

def teamDomain (team : Text) : Text := "https://".toList ++ team ++ '.' :: teamSuffix

namespace TeamSettings

def hasServiceToken (settings : TeamSettings) : Bool :=
  settings.clientId.isSome && settings.clientSecret.isSome

def loginUrl (settings : TeamSettings) : Text := teamDomain settings.team ++ enrollPath

end TeamSettings

def decodeSegment (segment : Text) : Option Bytes := (Base64.urlSafeNoPad.decode segment).toOption

def looksLikeJwt (token : Text) : Bool :=
  let token := trim token
  if byteLength token < 32 then false
  else
    match splitAt '.' token with
    | [header, payload, signature] =>
      if header.isEmpty || payload.isEmpty || signature.isEmpty then false
      else if !token.all fun c => c.isAlphanum || c = '.' || c = '-' || c = '_' then false
      else (decodeSegment header).isSome
    | _ => false

section
variable (expClaim : Bytes → Option Nat)

def jwtExpiry (token : Text) : Option Nat :=
  match splitAt '.' token with
  | [_, payload, _] => (decodeSegment payload).bind expClaim
  | _ => none

def jwtExpired (token : Text) (now : Nat) : Bool :=
  match jwtExpiry expClaim token with
  | some exp => exp ≤ now
  | none => false

/-- The clock at the look at the cache and at a supplied token, and what the exchanges give. -/
structure SignIn where
  now : Nat
  later : Nat
  fetchTokenWithServiceToken : TeamSettings → Except String Text
  fetchTokenWithEmailCode : TeamSettings → Text → Except String Text

def signIn (settings : TeamSettings) (io : SignIn) : Except String Text :=
  match settings.token with
  | some token =>
    if !looksLikeJwt token then
      .error ("the supplied access token is not a jwt; copy the value that follows token= " ++
        "on the enrolment page")
    else if jwtExpired expClaim token io.later then
      .error "the supplied access token has expired; sign in again to get a fresh one"
    else .ok token
  | none =>
    if settings.hasServiceToken then io.fetchTokenWithServiceToken settings
    else
      match settings.email with
      | some email => io.fetchTokenWithEmailCode settings email
      | none =>
        .error ("team " ++ String.ofList settings.team ++ " needs a way to sign in. pick one: " ++
          "a service token via AETHER_ACCESS_CLIENT_ID and AETHER_ACCESS_CLIENT_SECRET, " ++
          "an email one-time code via AETHER_ACCESS_EMAIL, or a token you already hold via " ++
          "AETHER_ACCESS_TOKEN (sign in at " ++ String.ofList settings.loginUrl ++ ")")

def cachedToken (cache : Option Text) (now : Nat) : Option Text :=
  cache.filter fun token => !jwtExpired expClaim token now

def resolveToken (cache : Option Text) (settings : TeamSettings) (io : SignIn) :
    Option Text × Except String Text :=
  let afresh :=
    match signIn expClaim settings io with
    | .ok token => (some token, .ok token)
    | .error e => (none, .error e)
  match cache with
  | some cached =>
    if !jwtExpired expClaim cached io.now then (some cached, .ok cached) else afresh
  | none => afresh

def signsIn (cache : Option Text) (io : SignIn) : Bool := (cachedToken expClaim cache io.now).isNone

end

/-- `team_sign_in` is `resolve`; `provision_team` registers a device with the token it resolves. -/
inductive Call where
  | resolve (settings : TeamSettings) (io : SignIn)
  | provision (settings : TeamSettings) (io : SignIn)
  | cached (now : Nat)
  | clear

/-- The slot, and the tokens signed in, returned and used to register so far, each with its team. -/
structure Tokens where
  cache : Option Text := none
  signedIn : List (Text × Text) := []
  returned : List (Text × Text) := []
  registered : List (Text × Text) := []

namespace Tokens

def entry (settings : TeamSettings) : Except String Text → List (Text × Text)
  | .ok token => [(settings.team, token)]
  | .error _ => []

def resolve (expClaim : Bytes → Option Nat) (w : Tokens) (settings : TeamSettings) (io : SignIn) :
    Tokens :=
  let (cache, result) := resolveToken expClaim w.cache settings io
  { w with
    cache
    signedIn :=
      if signsIn expClaim w.cache io then w.signedIn ++ entry settings (signIn expClaim settings io)
      else w.signedIn
    returned := w.returned ++ entry settings result }

def step (expClaim : Bytes → Option Nat) (w : Tokens) : Call → Option Tokens
  | .resolve settings io => some (w.resolve expClaim settings io)
  | .provision settings io =>
    some { w.resolve expClaim settings io with
      registered :=
        w.registered ++ entry settings (resolveToken expClaim w.cache settings io).2 }
  | .cached _ => some w
  | .clear => some { w with cache := none }

/-- No token was returned for, or a device registered with, a team that it was not signed in for. -/
def SameTeam (w : Tokens) : Prop := ∀ e ∈ w.returned ++ w.registered, e ∈ w.signedIn

/-- A call that is answered from the slot is for a team the token was signed in
    for. -/
def OwnToken (expClaim : Bytes → Option Nat) (w : Tokens) : Call → Prop
  | .resolve settings io | .provision settings io =>
    ∀ token, cachedToken expClaim w.cache io.now = some token → (settings.team, token) ∈ w.signedIn
  | .cached _ | .clear => True

end Tokens

section
variable {expClaim : Bytes → Option Nat} {cache : Option Text} {settings : TeamSettings} {io : SignIn}

theorem resolveToken_eq :
    resolveToken expClaim cache settings io =
      match cachedToken expClaim cache io.now with
      | some cached => (some cached, .ok cached)
      | none => ((signIn expClaim settings io).toOption, signIn expClaim settings io) := by
  have afresh : (match signIn expClaim settings io with
      | .ok token => (some token, .ok token)
      | .error e => (none, .error e) : Option Text × Except String Text) =
      ((signIn expClaim settings io).toOption, signIn expClaim settings io) := by
    cases signIn expClaim settings io <;> rfl
  simp only [resolveToken, afresh]
  cases cache with
  | none => rfl
  | some cached =>
    cases expired : jwtExpired expClaim cached io.now <;>
      simp [cachedToken, Option.filter, expired]

end

namespace Tokens

variable {expClaim : Bytes → Option Nat} {w w' : Tokens} {settings : TeamSettings} {io : SignIn}

theorem resolve_reused {cached : Text} (found : cachedToken expClaim w.cache io.now = some cached) :
    w.resolve expClaim settings io =
      { w with cache := some cached, returned := w.returned ++ [(settings.team, cached)] } := by
  simp [resolve, resolveToken_eq, signsIn, found, entry]

theorem resolve_afresh (missing : cachedToken expClaim w.cache io.now = none) :
    w.resolve expClaim settings io =
      { w with
        cache := (signIn expClaim settings io).toOption
        signedIn := w.signedIn ++ entry settings (signIn expClaim settings io)
        returned := w.returned ++ entry settings (signIn expClaim settings io) } := by
  simp [resolve, resolveToken_eq, signsIn, missing]

theorem resolving_sameTeam_iff (expClaim : Bytes → Option Nat) (settings : TeamSettings)
    (io : SignIn) {extra : List (Text × Text)}
    (extra_eq : extra = [] ∨ extra = entry settings (resolveToken expClaim w.cache settings io).2)
    (same : w.SameTeam) :
    SameTeam { w.resolve expClaim settings io with registered := w.registered ++ extra } ↔
      ∀ token, cachedToken expClaim w.cache io.now = some token →
        (settings.team, token) ∈ w.signedIn := by
  have before : ∀ e, e ∈ w.returned ∨ e ∈ w.registered → e ∈ w.signedIn := by
    intro e member
    exact same e (List.mem_append.mpr member)
  cases found : cachedToken expClaim w.cache io.now with
  | some cached =>
    rw [resolve_reused found]
    rw [resolveToken_eq, found] at extra_eq
    simp only [SameTeam, Option.some.injEq, forall_eq', List.mem_append, List.mem_singleton]
    constructor
    · intro after
      exact after _ (.inl (.inr rfl))
    · intro own e member
      rcases extra_eq with rfl | rfl <;> grind [entry]
  | none =>
    rw [resolve_afresh found]
    rw [resolveToken_eq, found] at extra_eq
    simp only [SameTeam]
    rcases extra_eq with rfl | rfl <;> grind

theorem step_sameTeam_iff {call : Call} (same : w.SameTeam)
    (next : w.step expClaim call = some w') : w'.SameTeam ↔ w.OwnToken expClaim call := by
  cases call with
  | resolve settings io =>
    cases next
    have exact_ := resolving_sameTeam_iff expClaim settings io (.inl rfl) same
    rwa [List.append_nil] at exact_
  | provision settings io =>
    cases next
    exact resolving_sameTeam_iff expClaim settings io (.inr rfl) same
  | cached now =>
    cases next
    exact iff_of_true same trivial
  | clear =>
    cases next
    exact iff_of_true same trivial

/-- No token crosses teams precisely if every call that the slot answers is for a team its token
    was signed in for. -/
theorem sameTeam_iff_ownToken (expClaim : Bytes → Option Nat) (calls : List Call) :
    Runs.Always (step expClaim) SameTeam {} calls ↔
      Runs.Each (step expClaim) (OwnToken expClaim) {} calls := by
  have start : SameTeam {} := by
    intro e member
    cases member
  apply Runs.always_iff_each (I := fun _ => True) ?kept ?proceeds ?exact_step trivial start
    (.of_forall fun _ _ => trivial)
  case kept => exact fun _ _ _ _ _ _ => trivial
  case proceeds =>
    intro w call _ _
    cases call <;> exact ⟨_, rfl⟩
  case exact_step => exact fun _ _ _ _ _ next same => step_sameTeam_iff same next

end Tokens

def acmeToken : Text := "eyJhbGciOiJIUzI1NiJ9.e30.YWNtZS1zaWduYXR1cmU".toList
def globexToken : Text := "eyJhbGciOiJIUzI1NiJ9.e30.Z2xvYmV4LXNpZ25hdHVyZQ".toList

def offline : SignIn where
  now := 1700000000
  later := 1700000000
  fetchTokenWithServiceToken _ := .error "access client: offline"
  fetchTokenWithEmailCode _ _ := .error "access client: offline"

def acme : TeamSettings where
  team := "acme".toList
  token := some acmeToken

def globex : TeamSettings where
  team := "globex".toList
  token := some globexToken

theorem second_team_gets_first_token :
    (Runs.run (Tokens.step fun _ => none) {} [.resolve acme offline, .provision globex offline]).map
        (fun w => (w.signedIn, w.registered)) =
      some ([(acme.team, acmeToken)], [(globex.team, acmeToken)]) ∧
    ¬Runs.Always (Tokens.step fun _ => none) Tokens.SameTeam {}
      [.resolve acme offline, .provision globex offline] := by
  have reached : (Runs.run (Tokens.step fun _ => none) {}
        [.resolve acme offline, .provision globex offline]).map
        (fun w => (w.signedIn, w.registered)) =
      some ([(acme.team, acmeToken)], [(globex.team, acmeToken)]) := by decide
  refine ⟨reached, ?_⟩
  intro always
  obtain ⟨w, last, lists⟩ := Option.map_eq_some_iff.mp reached
  have same := always.last last
  obtain ⟨signedIn, registered⟩ := Prod.mk.inj lists
  have member := same (globex.team, acmeToken) (by simp [registered])
  rw [signedIn] at member
  revert member
  decide

end Gozarbin.ZeroTrust
