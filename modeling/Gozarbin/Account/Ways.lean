import Gozarbin.Account.ApiCall

/-! # The ways a call to the API takes

What a call may send, read off the requests it sent: where it goes after an attempt that
got no answer, which ways it keeps away from, and when it stops.
-/

namespace Gozarbin.Account

open List Text

variable {Data : Type} (libs : Libs Data) (routes : List ApiRoute)

/-- Another server answered for the API, and is not worth asking again. -/
def TurnsAway : Except Text Response → Prop
  | .error _ => False
  | .ok response =>
    1 < routes.length ∧ (isStatus response.status = false ∨
      isSuccess response.status = false ∧
        isApiEnvelope libs (fromUtf8Lossy response.body) = false ∧
        worthRetrying response.status = false)

/-- A success, or a refusal of the API itself that is not worth retrying. -/
def Settles : Except Text Response → Prop
  | .error _ => False
  | .ok response =>
    isStatus response.status = true ∧ (isSuccess response.status = true ∨
      isApiEnvelope libs (fromUtf8Lossy response.body) = true ∧
        worthRetrying response.status = false)

/-- The identity counts as refused: with another way to go, a 404 has to be the API's own. -/
def RefusesIdentity : Except Text Response → Prop
  | .error _ => False
  | .ok response =>
    (response.status = 401 ∨ response.status = 404 ∨ response.status = 410) ∧
      (response.status = 404 → 1 < routes.length →
        isApiEnvelope libs (fromUtf8Lossy response.body) = true)

def NoAnswer : Except Text Response → Prop
  | .error _ => True
  | .ok _ => False

/-- What is promised of the requests of a call and of its result. -/
structure Ways (log : List Sent) (result : Except AetherError Data) : Prop where
  few : log.length ≤ apiAttempts
  away : ∀ {i j : Nat} {a b : Sent}, log[i]? = some a → log[j]? = some b → i < j →
    TurnsAway libs routes a.answer → b.way ≠ a.way
  settled : ∀ {i : Nat} {a : Sent}, log[i]? = some a → Settles libs a.answer → i + 1 = log.length
  round : ∀ {i j : Nat} {a b : Sent}, log[i]? = some a → log[j]? = some b → i < j → a.way = b.way →
    (∀ (k : Nat) (c : Sent), i ≤ k → k < j → log[k]? = some c → NoAnswer c.answer) →
    ∀ t < routes.length,
      (∀ (k : Nat) (c : Sent), k < i → log[k]? = some c → TurnsAway libs routes c.answer → c.way ≠ t) →
      ∃ (k : Nat) (c : Sent), i ≤ k ∧ k < j ∧ log[k]? = some c ∧ c.way = t
  refused : ∀ {message}, result = .error (.identityRefused message) →
    ∃ last, log.getLast? = some last ∧ RefusesIdentity libs routes last.answer

def Justified (answer : Except Text Response) (error : AetherError) : Prop :=
  ∀ message, error = .identityRefused message → RefusesIdentity libs routes answer

inductive Outcome (call : Call) : Except Text Response → Next Data → Prop where
  | silent {error message} : Outcome call (.error error)
      (.again ⟨nextWay call.way call.turnedAway, call.turnedAway, .api message⟩)
  | turned {answer error} (turns : TurnsAway libs routes answer)
      (justified : Justified libs routes answer error) : Outcome call answer (call.turnAway error)
  | stays {answer way error} (goes : way = call.way ∨ way = nextWay call.way call.turnedAway)
      (answered : ¬ NoAnswer answer) (turns : ¬ TurnsAway libs routes answer)
      (settles : ¬ Settles libs answer)
      (justified : Justified libs routes answer error) :
      Outcome call answer (.again ⟨way, call.turnedAway, error⟩)
  | ends {answer result} (turns : ¬ TurnsAway libs routes answer)
      (justified : ∀ error, result = .error error → Justified libs routes answer error) :
      Outcome call answer (.done result)

theorem Justified.of_api {answer : Except Text Response} {message : Text} :
    Justified libs routes answer (.api message) := by
  intro refusal eq
  cases eq

theorem rejection_justified {response : Response} (failed : isSuccess response.status = false)
    (label : Text) (route : ApiRoute) :
    Justified libs routes (.ok response) (rejection libs routes label route response.status
      (fromUtf8Lossy response.body)
      (isSuccess response.status || isApiEnvelope libs (fromUtf8Lossy response.body))) := by
  intro message eq
  simp only [rejection, failed, Bool.false_or] at eq
  split at eq
  next refuses =>
    simp only [Bool.and_eq_true, Bool.or_eq_true, decide_eq_true_eq, refusesIdentity] at refuses
    refine ⟨by tauto, fun notFound several => ?_⟩
    rcases refuses.2 with (envelope | single) | other
    · exact envelope
    · omega
    · exact absurd notFound other
  · cases eq

theorem Call.attempt_outcome (call : Call) (route : ApiRoute) (label : Text) (attempt : Nat)
    (answer : Except Text Response) :
    Outcome libs routes call answer (call.attempt libs routes label attempt route answer).1 := by
  cases answer with
  | error error => exact .silent
  | ok response =>
    simp only [Call.attempt]
    cases status : isStatus response.status with
    | false =>
      simp only [Bool.not_false, ↓reduceIte]
      split_ifs with several
      · exact .turned ⟨several, .inl status⟩ (.of_api libs routes)
      · refine .ends (fun turns => several turns.1) fun error eq => ?_
        cases eq
        exact .of_api libs routes
    | true =>
      simp only [Bool.not_true, Bool.false_eq_true, ↓reduceIte]
      by_cases success : isSuccess response.status = true
      · rw [if_pos success]
        have stays : ¬ TurnsAway libs routes (.ok response) := by
          simp [TurnsAway, status, success]
        cases libs.decode (fromUtf8Lossy response.body) with
        | ok data => exact .ends stays fun error eq => by cases eq
        | error e =>
          refine .ends stays fun error eq => ?_
          cases eq
          exact .of_api libs routes
      · have failed : isSuccess response.status = false := by simpa using success
        have justified := rejection_justified libs routes failed label route
        split_ifs with foreign worth idle
        · simp only [failed, Bool.false_or, Bool.and_eq_true, Bool.not_eq_true'] at foreign
          refine .stays (.inr rfl) id ?_ ?_ justified
          · simp [TurnsAway, status, worth]
          · simp [Settles, success, foreign.2]
        · simp only [failed, Bool.and_eq_true, Bool.not_eq_true',
            decide_eq_true_eq] at foreign
          have turns : TurnsAway libs routes (.ok response) :=
            ⟨foreign.1, .inr ⟨failed, foreign.2, by simpa using worth⟩⟩
          exact .turned turns justified
        · refine .ends (fun turns => foreign ?_) fun error eq => ?_
          · obtain ⟨several, notHttp | ⟨-, page, -⟩⟩ := turns
            · simp [status] at notHttp
            · simp [failed, page, several]
          · cases eq
            exact justified
        · refine .stays (.inl rfl) id ?_ ?_ justified
          · simp [TurnsAway, status, show worthRetrying response.status = true by simpa using idle]
          · simp [Settles, success, show worthRetrying response.status = true by simpa using idle]

def Next.lastError : Next Data → Option AetherError
  | .again call => some call.lastError
  | .done (.error error) => some error
  | .done (.ok _) => none

theorem turnAway_lastError (call : Call) (error : AetherError) :
    (call.turnAway error : Next Data).lastError = some error := by
  rw [Call.turnAway]
  split <;> rfl

variable {libs routes} in
theorem Outcome.justified {call : Call} {answer : Except Text Response} {next : Next Data}
    {error : AetherError} (outcome : Outcome libs routes call answer next)
    (left : next.lastError = some error) : Justified libs routes answer error := by
  cases outcome with
  | silent =>
    cases left
    exact .of_api libs routes
  | turned turns justified =>
    rw [turnAway_lastError] at left
    cases left
    exact justified
  | stays _ _ _ _ justified =>
    cases left
    exact justified
  | @ends _ result _ justified =>
    cases result with
    | ok => cases left
    | error =>
      cases left
      exact justified _ rfl

structure Call.Tracks (before : List Sent) (call : Call) : Prop where
  slots : call.turnedAway.length = routes.length
  inside : call.way < routes.length
  usable : call.turnedAway.getD call.way false = false
  marks : ∀ t < routes.length, call.turnedAway.getD t false = true ↔
    ∃ c ∈ before, TurnsAway libs routes c.answer ∧ c.way = t

variable {libs routes}

theorem nextWay_spec {turnedAway : List Bool} {way : Nat} (inside : way < turnedAway.length)
    (some_open : ∃ t < turnedAway.length, turnedAway.getD t false = false) :
    nextWay way turnedAway < turnedAway.length ∧
      turnedAway.getD (nextWay way turnedAway) false = false := by
  have opened : ∃ t < turnedAway.length, (!turnedAway.getD t false) = true := by simpa using some_open
  exact ⟨Rotation.next_lt inside opened,
    (Bool.not_eq_true' _).mp (Rotation.next_open inside opened)⟩

namespace Call.Tracks

variable {before : List Sent} {call call' : Call} {answer : Except Text Response} {wait : Option Nat}

theorem goesOn (tracks : call.Tracks libs routes before) :
    nextWay call.way call.turnedAway < routes.length ∧
      call.turnedAway.getD (nextWay call.way call.turnedAway) false = false := by
  have inside : call.way < call.turnedAway.length := tracks.slots.symm ▸ tracks.inside
  obtain ⟨within, opened⟩ := nextWay_spec inside ⟨call.way, inside, tracks.usable⟩
  exact ⟨tracks.slots ▸ within, opened⟩

theorem marks_append (tracks : call.Tracks libs routes before)
    (turns : ¬ TurnsAway libs routes answer) :
    ∀ t < routes.length, call.turnedAway.getD t false = true ↔
      ∃ c ∈ before ++ [⟨call.way, answer, wait⟩], TurnsAway libs routes c.answer ∧ c.way = t := by
  intro t slot
  rw [tracks.marks t slot]
  simp [turns]

theorem turnAway {error : AetherError} (tracks : call.Tracks libs routes before)
    (turns : TurnsAway libs routes answer)
    (goes : call.turnAway error = (.again call' : Next Data)) :
    call'.Tracks libs routes (before ++ [⟨call.way, answer, wait⟩]) := by
  have inside : call.way < call.turnedAway.length := tracks.slots.symm ▸ tracks.inside
  simp only [Call.turnAway] at goes
  split at goes
  · cases goes
  next left =>
    cases goes
    have some_open : ∃ t < (call.turnedAway.set call.way true).length,
        (call.turnedAway.set call.way true).getD t false = false := by
      simp only [all_eq_true, not_forall] at left
      obtain ⟨mark, mem, unmarked⟩ := left
      obtain ⟨t, within, at_t⟩ := mem_iff_getElem.mp mem
      refine ⟨t, within, ?_⟩
      simpa [List.getElem?_eq_getElem within, at_t] using unmarked
    obtain ⟨within, opened⟩ := nextWay_spec (by simpa using inside) some_open
    refine ⟨by simpa using tracks.slots, ?_, opened, fun t slot => ?_⟩
    · rw [length_set, tracks.slots] at within
      exact within
    · have mark : (call.turnedAway.set call.way true).getD t false = true ↔
          call.turnedAway.getD t false = true ∨ call.way = t := by
        by_cases here : call.way = t
        · subst here
          simp [inside]
        · simp [here]
      rw [mark, tracks.marks t slot]
      simp [turns]

theorem again (tracks : call.Tracks libs routes before) (wait : Option Nat)
    (outcome : Outcome libs routes call answer (.again call')) :
    call'.Tracks libs routes (before ++ [⟨call.way, answer, wait⟩]) := by
  generalize eq : (Next.again call' : Next Data) = next at outcome
  cases outcome with
  | silent =>
    cases eq
    exact ⟨tracks.slots, tracks.goesOn.1, tracks.goesOn.2, tracks.marks_append id⟩
  | turned turns => exact tracks.turnAway turns eq.symm
  | stays goes answered turns =>
    cases eq
    rcases goes with rfl | rfl
    · exact ⟨tracks.slots, tracks.inside, tracks.usable, tracks.marks_append turns⟩
    · exact ⟨tracks.slots, tracks.goesOn.1, tracks.goesOn.2, tracks.marks_append turns⟩
  | ends => cases eq

end Call.Tracks

inductive Call.Runs (libs : Libs Data) (routes : List ApiRoute) :
    Call → List Sent → Except AetherError Data → Prop where
  | spent {call} : Runs libs routes call [] (.error call.lastError)
  | stop {call answer wait result} (outcome : Outcome libs routes call answer (.done result)) :
      Runs libs routes call [⟨call.way, answer, wait⟩] result
  | go {call call' answer wait log result} (outcome : Outcome libs routes call answer (.again call'))
      (rest : Runs libs routes call' log result) :
      Runs libs routes call (⟨call.way, answer, wait⟩ :: log) result

theorem Call.Tracks.attempts_runs {before : List Sent} {call : Call}
    (tracks : call.Tracks libs routes before) (label : Text)
    (answers : Nat → Except Text Response) (left : Nat) :
    ∃ log result, call.attempts libs routes label answers left = some (log, result) ∧
      call.Runs libs routes log result ∧ log.length ≤ left := by
  induction left generalizing before call with
  | zero => exact ⟨[], _, rfl, .spent, Nat.le_refl 0⟩
  | succ left ih =>
    have inside := tracks.inside
    have outcome := call.attempt_outcome libs routes routes[call.way] label
      (apiAttempts - (left + 1)) (answers (apiAttempts - (left + 1)))
    simp only [Call.attempts, List.getElem?_eq_getElem inside, Option.bind_eq_bind, Option.bind_some]
    generalize call.attempt libs routes label (apiAttempts - (left + 1)) routes[call.way]
      (answers (apiAttempts - (left + 1))) = attempted at outcome ⊢
    obtain ⟨next, wait⟩ := attempted
    cases next with
    | done result => exact ⟨_, result, rfl, .stop outcome, by simp⟩
    | again call' =>
      obtain ⟨log, result, sent, runs, few⟩ := ih (tracks.again wait outcome)
      simp only [sent]
      exact ⟨_, result, rfl, .go outcome runs, Nat.succ_le_succ few⟩

namespace Call.Runs

variable {before log : List Sent} {call : Call} {result : Except AetherError Data}

theorem reaches (runs : call.Runs libs routes log result) (tracks : call.Tracks libs routes before)
    {i : Nat} {a : Sent} (found : log[i]? = some a) :
    ∃ call' : Call, call'.Tracks libs routes (before ++ log.take i) ∧
      call'.Runs libs routes (log.drop i) result ∧ a.way = call'.way := by
  induction runs generalizing before i with
  | spent => simp at found
  | @stop call answer wait result outcome =>
    cases i with
    | zero =>
      cases found
      exact ⟨call, by simpa using tracks, .stop outcome, rfl⟩
    | succ i => simp at found
  | @go call call' answer wait log result outcome rest ih =>
    cases i with
    | zero =>
      cases found
      exact ⟨call, by simpa using tracks, .go outcome rest, rfl⟩
    | succ i =>
      obtain ⟨later, kept, runs, way⟩ := ih (tracks.again wait outcome) found
      exact ⟨later, by simpa using kept, runs, way⟩

theorem settled {a : Sent} (runs : call.Runs libs routes (a :: log) result)
    (settles : Settles libs a.answer) : log = [] := by
  cases runs with
  | stop => rfl
  | @go _ call' answer _ _ _ outcome rest =>
    generalize eq : (Next.again call' : Next Data) = next at outcome
    cases outcome with
    | silent => exact settles.elim
    | turned turns =>
      cases answer with
      | error => exact settles.elim
      | ok response =>
        obtain ⟨-, notHttp | ⟨failed, page, -⟩⟩ := turns
        · simp [Settles, notHttp] at settles
        · simp [Settles, failed, page] at settles
    | stays _ _ _ unsettled => exact absurd settles unsettled
    | ends => cases eq

theorem goes_round (runs : call.Runs libs routes log result) {j : Nat} {b : Sent}
    (found : log[j]? = some b)
    (silent : ∀ (k : Nat) (c : Sent), k < j → log[k]? = some c → NoAnswer c.answer) :
    b.way = (Rotation.next call.turnedAway.length
      fun t => !call.turnedAway.getD t false)^[j] call.way := by
  induction runs generalizing j with
  | spent => simp at found
  | stop =>
    cases j with
    | zero =>
      cases found
      rfl
    | succ j => simp at found
  | @go call call' answer wait log result outcome rest ih =>
    cases j with
    | zero =>
      cases found
      rfl
    | succ j =>
      have here : NoAnswer answer := silent 0 _ (Nat.succ_pos j) rfl
      have later := ih found fun k c below at_k => silent (k + 1) c (Nat.succ_lt_succ below) at_k
      generalize eq : (Next.again call' : Next Data) = next at outcome
      cases outcome with
      | silent =>
        cases eq
        exact later
      | @turned answer _ turns =>
        cases answer with
        | error => exact turns.elim
        | ok => exact here.elim
      | stays _ answered => exact absurd here answered
      | ends => cases eq

theorem refused (runs : call.Runs libs routes log result) {message : Text}
    (refusal : result = .error (.identityRefused message)) :
    log = [] ∧ call.lastError = .identityRefused message ∨
      ∃ last, log.getLast? = some last ∧ RefusesIdentity libs routes last.answer := by
  induction runs with
  | spent => exact .inl ⟨rfl, Except.error.inj refusal⟩
  | stop outcome =>
    subst refusal
    exact .inr ⟨_, rfl, outcome.justified rfl message rfl⟩
  | go outcome rest ih =>
    rcases ih refusal with ⟨rfl, left⟩ | ⟨last, found, refuses⟩
    · exact .inr ⟨_, rfl, outcome.justified rfl message left⟩
    · exact .inr ⟨last, by simp [List.getLast?_cons, found], refuses⟩

end Call.Runs

theorem Ways.of_runs {call : Call} {log : List Sent} {result : Except AetherError Data}
    (runs : call.Runs libs routes log result) (tracks : call.Tracks libs routes [])
    (few : log.length ≤ apiAttempts)
    (fresh : ∀ message, call.lastError ≠ .identityRefused message) :
    Ways libs routes log result where
  few := few
  away {i j a b} at_i at_j earlier turns same := by
    obtain ⟨later, kept, -, way⟩ := runs.reaches tracks at_j
    have mem : a ∈ [] ++ log.take j :=
      mem_of_getElem? ((List.getElem?_take_of_lt earlier).trans at_i)
    have marked := (kept.marks a.way (same ▸ way ▸ kept.inside)).mpr ⟨a, mem, turns, rfl⟩
    rw [← same, way, kept.usable] at marked
    cases marked
  settled {i a} at_i settles := by
    obtain ⟨later, -, rest, -⟩ := runs.reaches tracks at_i
    obtain ⟨within, rfl⟩ := List.getElem?_eq_some_iff.mp at_i
    rw [drop_eq_getElem_cons within] at rest
    have last := drop_eq_nil_iff.mp (rest.settled settles)
    omega
  round {i j a b} at_i at_j earlier same silent t slot unturned := by
    obtain ⟨later, kept, rest, way⟩ := runs.reaches tracks at_i
    have goes : ∀ {m c}, i + m ≤ j → log[i + m]? = some c →
        c.way = (Rotation.next later.turnedAway.length
          fun t => !later.turnedAway.getD t false)^[m] later.way := by
      intro m c within at_m
      refine rest.goes_round (by rw [List.getElem?_drop, at_m]) fun k d below at_k => ?_
      rw [List.getElem?_drop] at at_k
      exact silent (i + k) d (Nat.le_add_right i k) (by omega) at_k
    have opened : later.turnedAway.getD t false = false := by
      rw [Bool.eq_false_iff, Ne, kept.marks t slot]
      rintro ⟨c, mem, turns, rfl⟩
      obtain ⟨k, below, at_k⟩ := mem_take_iff_getElem.mp mem
      exact unturned k c (by omega) (List.getElem?_eq_some_iff.mpr ⟨by omega, at_k⟩) turns rfl
    have back := goes (m := j - i) (by omega) (by rw [Nat.add_sub_cancel' (Nat.le_of_lt earlier), at_j])
    rw [← same, way] at back
    obtain ⟨m, short, visit⟩ := Rotation.visits_all (kept.slots.symm ▸ kept.inside)
      (by simpa using kept.usable) (by omega) back.symm (kept.slots.symm ▸ slot) (by simpa using opened)
    have within : i + m < log.length := by
      have := (List.getElem?_eq_some_iff.mp at_j).1
      omega
    have at_m := List.getElem?_eq_getElem within
    exact ⟨i + m, _, Nat.le_add_right i m, by omega, at_m, (goes (by omega) at_m).trans visit⟩
  refused {message} refusal := by
    rcases runs.refused refusal with ⟨-, left⟩ | last
    · exact absurd left (fresh message)
    · exact last

theorem Call.first_tracks (libs : Libs Data) {routes : List ApiRoute} (some_way : routes ≠ [])
    (label : Text) :
    (Call.first routes label).Tracks libs routes [] := by
  have several : 0 < routes.length := length_pos_iff.mpr some_way
  exact ⟨by simp [Call.first], several, by simp [Call.first, several],
    fun t slot => by simp [Call.first, slot]⟩

theorem apiCallBy_returns (libs : Libs Data) (given : Circumstances) (routes : List ApiRoute) (label : Text)
    (answers : Nat → Except Text Response) :
    ∃ log result, apiCallBy libs given routes label answers = some (log, result) := by
  simp only [apiCallBy]
  split
  · exact ⟨_, _, rfl⟩
  split_ifs with empty
  · exact ⟨_, _, rfl⟩
  split
  · exact ⟨_, _, rfl⟩
  have tracks := Call.first_tracks libs (by simpa using empty) label
  obtain ⟨log, result, sent, -⟩ := tracks.attempts_runs label answers apiAttempts
  exact ⟨log, result, sent⟩

/-- A call to the API keeps to its ways, whatever it is answered. -/
theorem api_call_ways (libs : Libs Data) (given : Circumstances) (routes : List ApiRoute)
    (label : Text) (answers : Nat → Except Text Response) :
    ∃ log result, apiCallBy libs given routes label answers = some (log, result) ∧
      Ways libs routes log result := by
  -- a call that sends nothing ends with an error of its own
  have nothing : ∀ error : AetherError, (∀ message, error ≠ .identityRefused message) →
      Ways libs routes [] (.error error) := fun error other => {
    few := Nat.zero_le _
    away := by simp
    settled := by simp
    round := by simp
    refused := fun refusal => absurd (Except.error.inj refusal) (other _) }
  simp only [apiCallBy]
  split
  · exact ⟨_, _, rfl, nothing _ (by simp)⟩
  split_ifs with empty
  · exact ⟨_, _, rfl, nothing _ (by simp)⟩
  split
  · exact ⟨_, _, rfl, nothing _ (by simp)⟩
  have tracks := Call.first_tracks libs (by simpa using empty) label
  obtain ⟨log, result, sent, runs, few⟩ := tracks.attempts_runs label answers apiAttempts
  exact ⟨log, result, sent, .of_runs runs tracks few (by simp [Call.first])⟩

end Gozarbin.Account
