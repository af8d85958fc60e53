import Gozarbin.Lib.Runs
import Gozarbin.Net.Addr

/-! # The ECH key of the sessions of a process

`SESSIONS` counts the sessions of a process, and `SESSION_ECH` is the key that their handshakes
offer, each behind a lock. The start and the drop of a session take the first lock and, if the
key has to change, the second. `adopt_ech_retry` puts another key in place under the second lock
alone. Each lock that is taken is an event.
-/

namespace Gozarbin.Tls

section
variable (check : Bytes → Except String Unit)

/-- A list that passes `check_ech_config_list`, which is the parameter `check`. -/
structure Offerable where
  list : Bytes
  passes : check list = .ok ()

def usableRetry (retry : Bytes) : Option (Offerable check) :=
  match passes : check retry with
  | .ok () => some ⟨retry, passes⟩
  | .error _ => none

def adoptEchRetry {check : Bytes → Except String Unit} (ech : Option Bytes)
    (retry : Offerable check) : Option Bytes :=
  ech.map fun _ => retry.list

/-- The mutex around the count: whoever has taken it has the count. -/
inductive Sessions where
  | free (count : Nat)
  | starting (count : Nat) (key : Option (Offerable check))
  | dropping (place : Nat)

/-- A session lives from the return of `start` to the return of `drop`. -/
structure EchState where
  sessions : Sessions check
  sessionEch : Option Bytes
  live : List (Option (Offerable check))
  since : List (Option (Offerable check))

inductive EchEvent where
  | start (key : Option (Offerable check))
  | drop (place : Nat)
  | useEch
  | rejected (retry : Bytes)

end

variable {check : Bytes → Except String Unit}

namespace EchState

def initial : EchState check := ⟨.free 0, none, [], []⟩

def started (w : EchState check) (count : Nat) (key : Option (Offerable check)) : EchState check :=
  { w with sessions := .free count, live := w.live ++ [key], since := w.since ++ [key] }

def dropped (w : EchState check) (count place : Nat) : EchState check :=
  { w with
    sessions := .free count
    live := w.live.eraseIdx place
    since := if count = 0 then [] else w.since }

def step (w : EchState check) : EchEvent check → EchState check
  | .start key =>
    match w.sessions with
    | .free count =>
      if key.isSome || count + 1 = 1 then { w with sessions := .starting (count + 1) key }
      else w.started (count + 1) key
    | _ => w
  | .drop place =>
    match w.sessions, w.live[place]? with
    | .free count, some _ =>
      if count - 1 = 0 then { w with sessions := .dropping place }
      else w.dropped (count - 1) place
    | _, _ => w
  | .useEch =>
    match w.sessions with
    | .free _ => w
    | .starting count key => { w with sessionEch := key.map Offerable.list }.started count key
    | .dropping place => { w with sessionEch := none }.dropped 0 place
  | .rejected retry =>
    match usableRetry check retry with
    | some retry => { w with sessionEch := adoptEchRetry w.sessionEch retry }
    | none => w

/-- A key that a session wants is offered, one that none is left for is gone, and one that none
    asked for is not offered. -/
structure EchKept (w : EchState check) : Prop where
  offered : ∀ key ∈ w.live, key.isSome = true →
    ∃ list, w.sessionEch = some list ∧ check list = .ok ()
  cleared : w.live = [] → w.sessionEch = none
  unasked : (∀ key ∈ w.since, key = none) → w.sessionEch = none

def Counted (w : EchState check) : Prop :=
  match w.sessions with
  | .free count => count = w.live.length
  | .starting count key => count = w.live.length + 1 ∧ (key.isSome = true ∨ w.live = [])
  | .dropping place => w.live.length = 1 ∧ place = 0

structure Inv (w : EchState check) : Prop where
  counted : w.Counted
  subset : ∀ key ∈ w.live, key ∈ w.since
  idle : w.live = [] → w.since = []
  offerable : ∀ list, w.sessionEch = some list → check list = .ok ()
  asked : w.sessionEch.isSome = true ↔ ∃ key ∈ w.since, key.isSome = true

variable {w : EchState check}

theorem initial_inv : (initial : EchState check).Inv where
  counted := rfl
  subset := nofun
  idle _ := rfl
  offerable := nofun
  asked := by simp [initial]

theorem Inv.echKept (inv : w.Inv) : w.EchKept where
  offered := by
    intro key member keyed
    have on := inv.asked.mpr ⟨key, inv.subset key member, keyed⟩
    obtain ⟨list, held⟩ := Option.isSome_iff_exists.mp on
    exact ⟨list, held, inv.offerable list held⟩
  cleared := by
    intro none_left
    have off := mt inv.asked.mp (by simp [inv.idle none_left])
    simpa using off
  unasked := by
    intro plain
    have off : ¬∃ key ∈ w.since, key.isSome = true := by
      intro keyed
      obtain ⟨key, member, some_⟩ := keyed
      rw [plain key member] at some_
      cases some_
    simpa using mt inv.asked.mp off

theorem Inv.joined (inv : w.Inv) : (w.started (w.live.length + 1) none).Inv where
  counted := by simp [Counted, started]
  subset := by
    intro key member
    simp only [started, List.mem_append] at member ⊢
    exact member.imp_left (inv.subset key)
  idle := by simp [started]
  offerable := inv.offerable
  asked := by simpa [started] using inv.asked

theorem Inv.began (inv : w.Inv) {key : Option (Offerable check)}
    (sets : key.isSome = true ∨ w.live = []) :
    ({ w with sessionEch := key.map Offerable.list }.started (w.live.length + 1) key).Inv where
  counted := by simp [Counted, started]
  subset := by
    intro other member
    simp only [started, List.mem_append] at member ⊢
    exact member.imp_left (inv.subset other)
  idle := by simp [started]
  offerable := by
    intro list held
    obtain ⟨offerable, -, rfl⟩ := Option.map_eq_some_iff.mp held
    exact offerable.passes
  asked := by
    cases key with
    | some key => simp [started]
    | none =>
      have empty : w.live = [] := by simpa using sets
      simp [started, inv.idle empty]

theorem Inv.left (inv : w.Inv) {place : Nat} (inside : place < w.live.length)
    (others : w.live.length - 1 ≠ 0) : (w.dropped (w.live.length - 1) place).Inv where
  counted := by simp [Counted, dropped, List.length_eraseIdx_of_lt inside]
  subset := by
    intro key member
    simp only [dropped, others]
    exact inv.subset key (List.mem_of_mem_eraseIdx member)
  idle := by
    intro none_left
    have length := List.length_eraseIdx_of_lt inside
    rw [show w.live.eraseIdx place = [] from none_left] at length
    exact absurd length.symm others
  offerable := inv.offerable
  asked := by simpa [dropped, others] using inv.asked

theorem Inv.ended {place : Nat} (last : w.live.length = 1) (only : place = 0) :
    ({ w with sessionEch := none }.dropped 0 place).Inv := by
  obtain ⟨key, live⟩ := List.length_eq_one_iff.mp last
  subst only
  exact {
    counted := by simp [Counted, dropped, live]
    subset := by simp [dropped, live]
    idle := by simp [dropped]
    offerable := nofun
    asked := by simp [dropped] }

theorem Inv.start (inv : w.Inv) (key : Option (Offerable check)) : (w.step (.start key)).Inv := by
  have counted := inv.counted
  cases turn : w.sessions with
  | starting count key' => simpa [EchState.step, turn] using inv
  | dropping place => simpa [EchState.step, turn] using inv
  | free count =>
    simp only [Counted, turn] at counted
    subst counted
    simp only [EchState.step, turn]
    split
    next sets =>
      have sets : key.isSome = true ∨ w.live = [] := by simpa using sets
      exact { inv with counted := ⟨rfl, sets⟩ }
    next joins =>
      simp only [Bool.or_eq_true, not_or] at joins
      obtain rfl : key = none := by simpa using joins.1
      exact inv.joined

theorem Inv.drop (inv : w.Inv) (place : Nat) : (w.step (.drop place)).Inv := by
  have counted := inv.counted
  cases turn : w.sessions with
  | starting count key' => simpa [EchState.step, turn] using inv
  | dropping place => simpa [EchState.step, turn] using inv
  | free count =>
    simp only [Counted, turn] at counted
    subst counted
    cases found : w.live[place]? with
    | none => simpa [EchState.step, found] using inv
    | some key =>
      obtain ⟨inside, -⟩ := List.getElem?_eq_some_iff.mp found
      simp only [EchState.step, turn, found]
      split
      next last =>
        have only : w.live.length = 1 ∧ place = 0 := by omega
        exact { inv with counted := only }
      next others => exact inv.left inside others

theorem Inv.useEch (inv : w.Inv) : (w.step .useEch).Inv := by
  have counted := inv.counted
  cases turn : w.sessions with
  | free count => simpa [EchState.step, turn] using inv
  | starting count key =>
    simp only [Counted, turn] at counted
    obtain ⟨rfl, sets⟩ := counted
    simpa only [EchState.step, turn] using inv.began sets
  | dropping place =>
    simp only [Counted, turn] at counted
    simpa only [EchState.step, turn] using Inv.ended counted.1 counted.2

theorem Inv.rejected (inv : w.Inv) (raw : Bytes) : (w.step (.rejected raw)).Inv := by
  simp only [EchState.step]
  cases usableRetry check raw with
  | none => exact inv
  | some retry =>
    refine { inv with counted := inv.counted, offerable := ?_, asked := ?_ }
    · intro list held
      obtain ⟨-, -, rfl⟩ := Option.map_eq_some_iff.mp held
      exact retry.passes
    · simpa [adoptEchRetry] using inv.asked

theorem Inv.step (inv : w.Inv) (e : EchEvent check) : (w.step e).Inv := by
  cases e with
  | start key => exact inv.start key
  | drop place => exact inv.drop place
  | useEch => exact inv.useEch
  | rejected raw => exact inv.rejected raw

/-- However starts, drops and retries interleave, the key is kept for those who want
    it and for no one else. -/
theorem ech_kept (check : Bytes → Except String Unit) (events : List (EchEvent check)) :
    Runs.Always (fun w e => some (step w e)) EchKept initial events := by
  have always : Runs.Always (fun w e => some (step w e)) Inv (initial : EchState check) events := by
    apply Runs.always_of_kept (C := fun _ _ => True) ?kept initial_inv (.of_forall fun _ _ => trivial)
    intro w e w' inv _ next
    cases next
    exact inv.step e
  exact always.mono fun _ inv => inv.echKept

end EchState

end Gozarbin.Tls
