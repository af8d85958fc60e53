import Gozarbin.Account.ApiCall
import Gozarbin.Identity.Load

/-! # The device that gool registers

`provision_gool` registers a device for the inner tunnel of gool, enables WARP on it and saves
it, at each reconnect. A device that could not be enabled is kept in a slot of the process,
unless the API refused it, for the next call. One that could not be saved is not kept.
-/

namespace Gozarbin.Gool

open List Account Config

/-- What a call meets outside; it registers if `provision_wg` returns a device. -/
structure Call where
  provisionWg : Except AetherError Identity
  enableWarpOn : Identity → Except AetherError Unit
  save : Identity → Except ConfigError Unit

/-- What a call does. -/
inductive Act where
  | registered (device : Identity)
  | notEnabled (device : Identity) (error : AetherError)
  | notSaved (device : Identity) (error : ConfigError)

inductive GoolError where
  | account (error : AetherError)
  | config (error : ConfigError)

def worthEnablingAgain : AetherError → Bool
  | .identityRefused _ => false
  | _ => true

def finish (call : Call) (registered : Identity) : Option Identity × List Act × Except GoolError Identity :=
  match call.enableWarpOn registered with
  | .error error =>
    (if worthEnablingAgain error then some registered else none, [.notEnabled registered error],
      .error (.account error))
  | .ok () =>
    match call.save registered with
    | .error error => (none, [.notSaved registered error], .error (.config error))
    | .ok () => (none, [], .ok registered)

def provisionGool (kept : Option Identity) (call : Call) :
    Option Identity × List Act × Except GoolError Identity :=
  match kept with
  | some identity => finish call identity
  | none =>
    match call.provisionWg with
    | .error error => (none, [], .error (.account error))
    | .ok identity =>
      let (kept, acts, result) := finish call identity
      (kept, .registered identity :: acts, result)

structure Run where
  kept : Option Identity := none
  acts : List Act := []
  results : List (Except GoolError Identity) := []

def Run.calls (list : List Call) : Run :=
  list.foldl (fun run call =>
    let (kept, acts, result) := provisionGool run.kept call
    ⟨kept, run.acts ++ acts, run.results ++ [result]⟩) {}

def Act.isRegistration : Act → Bool
  | .registered _ => true
  | _ => false

def Act.isRefusal : Act → Bool
  | .notEnabled _ error => !worthEnablingAgain error
  | _ => false

def Act.isLoss : Act → Bool
  | .notSaved _ _ => true
  | _ => false

def registrations (acts : List Act) : Nat := acts.countP Act.isRegistration

def refusals (acts : List Act) : Nat := acts.countP Act.isRefusal

def losses (acts : List Act) : Nat := acts.countP Act.isLoss

def returns (results : List (Except GoolError Identity)) : Nat := results.countP Except.isOk

def held (kept : Option Identity) : Nat := if kept.isSome then 1 else 0

theorem balance_finish (call : Call) (identity : Identity) :
    registrations (finish call identity).2.1 = 0 ∧
      refusals (finish call identity).2.1 + returns [(finish call identity).2.2] +
        losses (finish call identity).2.1 + held (finish call identity).1 = 1 := by
  rw [finish]
  cases call.enableWarpOn identity with
  | error error => cases error <;> exact ⟨rfl, rfl⟩
  | ok =>
    cases call.save identity with
    | error error => exact ⟨rfl, rfl⟩
    | ok => exact ⟨rfl, rfl⟩

theorem balance_provisionGool (kept : Option Identity) (call : Call) :
    registrations (provisionGool kept call).2.1 + held kept =
      refusals (provisionGool kept call).2.1 + returns [(provisionGool kept call).2.2] +
        losses (provisionGool kept call).2.1 + held (provisionGool kept call).1 := by
  cases kept with
  | some identity =>
    obtain ⟨anew, one⟩ := balance_finish call identity
    rw [provisionGool, one, anew]
    rfl
  | none =>
    cases registered : call.provisionWg with
    | error error =>
      simp only [provisionGool, registered]
      rfl
    | ok identity =>
      obtain ⟨anew, one⟩ := balance_finish call identity
      have empty : held none = 0 := rfl
      simp only [provisionGool, registered, empty]
      simp only [registrations, refusals, losses, countP_cons] at anew one ⊢
      simp only [anew, Act.isRegistration, Act.isRefusal, Act.isLoss]
      simpa using one.symm

theorem registrations_provisionGool (kept : Option Identity) (call : Call) :
    registrations (provisionGool kept call).2.1 =
      if kept = none ∧ call.provisionWg.isOk = true then 1 else 0 := by
  cases kept with
  | some identity => exact (balance_finish call identity).1
  | none =>
    cases registered : call.provisionWg with
    | error error =>
      simp only [provisionGool, registered]
      rfl
    | ok identity =>
      have anew := (balance_finish call identity).1
      simp only [provisionGool, registered]
      rw [if_pos ⟨trivial, rfl⟩, registrations, countP_cons_of_pos rfl, ← registrations, anew]

theorem Run.calls_concat (list : List Call) (call : Call) :
    Run.calls (list ++ [call]) = ⟨(provisionGool (Run.calls list).kept call).1,
      (Run.calls list).acts ++ (provisionGool (Run.calls list).kept call).2.1,
      (Run.calls list).results ++ [(provisionGool (Run.calls list).kept call).2.2]⟩ := by
  rw [Run.calls, foldl_append]
  rfl

theorem balance_calls (list : List Call) :
    registrations (Run.calls list).acts =
      refusals (Run.calls list).acts + returns (Run.calls list).results + losses (Run.calls list).acts +
        held (Run.calls list).kept := by
  induction list using List.reverseRecOn with
  | nil => rfl
  | append_singleton list call ih =>
    have balance := balance_provisionGool (Run.calls list).kept call
    rw [Run.calls_concat]
    simp only [registrations, refusals, returns, losses, countP_append] at ih balance ⊢
    omega

def Call.device (call : Call) (kept : Option Identity) : Option Identity :=
  kept.or call.provisionWg.toOption

/-- The device of the call is enabled, and then it cannot be saved. -/
def Call.Loses (call : Call) (kept : Option Identity) : Prop :=
  ∃ device ∈ call.device kept,
    call.enableWarpOn device = .ok () ∧ ∃ error, call.save device = .error error

/-- Once a device was enabled and could not be saved, no later call gets one from the API. -/
def LossIsLast (list : List Call) : Prop :=
  ∀ before call after, list = before ++ call :: after → call.Loses (Run.calls before).kept →
    ∀ later ∈ after, later.provisionWg.isOk = false

/-- Each call that registers a device finds all devices before it refused or returned. -/
def NotAbandoned (list : List Call) : Prop :=
  ∀ before call after, list = before ++ call :: after →
    registrations (provisionGool (Run.calls before).kept call).2.1 ≠ 0 →
      registrations (Run.calls before).acts =
        refusals (Run.calls before).acts + returns (Run.calls before).results

theorem losses_finish (call : Call) (device : Identity) :
    losses (finish call device).2.1 ≠ 0 ↔
      call.enableWarpOn device = .ok () ∧ ∃ error, call.save device = .error error := by
  rw [finish]
  cases enabled : call.enableWarpOn device with
  | error error => simp [losses, Act.isLoss]
  | ok =>
    cases saved : call.save device with
    | error error => simp [losses, Act.isLoss]
    | ok => simp [losses]

theorem losses_provisionGool (kept : Option Identity) (call : Call) :
    losses (provisionGool kept call).2.1 ≠ 0 ↔ call.Loses kept := by
  cases kept with
  | some identity => simpa [provisionGool, Call.Loses, Call.device] using losses_finish call identity
  | none =>
    cases registered : call.provisionWg with
    | error error => simp [provisionGool, registered, Call.Loses, Call.device, losses, Except.toOption]
    | ok identity =>
      simpa [provisionGool, registered, Call.Loses, Call.device, losses, Act.isLoss, Except.toOption]
        using losses_finish call identity

theorem kept_of_loses {kept : Option Identity} {call : Call} (loses : call.Loses kept) :
    (provisionGool kept call).1 = none := by
  obtain ⟨device, found, enabled, error, failed⟩ := loses
  cases kept with
  | some identity =>
    obtain rfl : identity = device := by simpa [Call.device] using found
    simp [provisionGool, finish, enabled, failed]
  | none =>
    cases registered : call.provisionWg with
    | error error => simp [Call.device, registered, Except.toOption] at found
    | ok identity =>
      obtain rfl : identity = device := by simpa [Call.device, registered, Except.toOption] using found
      simp [provisionGool, registered, finish, enabled, failed]

theorem losses_calls_append (list more : List Call) :
    losses (Run.calls list).acts ≤ losses (Run.calls (list ++ more)).acts := by
  induction more using List.reverseRecOn with
  | nil => rw [append_nil]
  | append_singleton more call ih =>
    rw [← append_assoc, Run.calls_concat]
    simp only [losses, countP_append] at ih ⊢
    omega

theorem exists_loses {list : List Call} (lost : losses (Run.calls list).acts ≠ 0) :
    ∃ before call after, list = before ++ call :: after ∧ call.Loses (Run.calls before).kept := by
  induction list using List.reverseRecOn with
  | nil => exact absurd rfl lost
  | append_singleton list call ih =>
    by_cases earlier : losses (Run.calls list).acts = 0
    · rw [Run.calls_concat, losses, countP_append, ← losses, ← losses, earlier, Nat.zero_add] at lost
      exact ⟨list, call, [], rfl, (losses_provisionGool _ _).mp lost⟩
    · obtain ⟨before, first, after, rfl, loses⟩ := ih earlier
      exact ⟨before, first, after ++ [call], by simp, loses⟩

theorem LossIsLast.notAbandoned {list : List Call} (last : LossIsLast list) : NotAbandoned list := by
  rintro before call after rfl registers
  rw [registrations_provisionGool] at registers
  obtain ⟨empty, handed⟩ := of_not_not fun refused => registers (if_neg refused)
  have none_lost : losses (Run.calls before).acts = 0 := by
    by_contra lost
    obtain ⟨earlier, first, between, rfl, loses⟩ := exists_loses lost
    have refused := last earlier first (between ++ call :: after) (by simp) loses call (by simp)
    rw [refused] at handed
    cases handed
  have balance := balance_calls before
  rw [none_lost, empty] at balance
  exact balance

theorem NotAbandoned.closed {before after : List Call} {call : Call}
    (sound : NotAbandoned (before ++ call :: after)) (loses : call.Loses (Run.calls before).kept) :
    ∀ front back, after = front ++ back → (Run.calls (before ++ call :: front)).kept = none ∧
      ∀ later ∈ front, later.provisionWg.isOk = false := by
  intro front
  induction front using List.reverseRecOn with
  | nil =>
    intro back _
    rw [Run.calls_concat]
    exact ⟨kept_of_loses loses, forall_mem_nil _⟩
  | append_singleton front later ih =>
    rintro back rfl
    obtain ⟨empty, refused⟩ := ih (later :: back) (by simp)
    have closed : later.provisionWg.isOk = false := by
      by_contra handed
      have one := registrations_provisionGool (Run.calls (before ++ call :: front)).kept later
      rw [if_pos ⟨empty, Bool.not_eq_false _ ▸ handed⟩] at one
      have accounted := sound (before ++ call :: front) later back (by simp) (one ▸ Nat.one_ne_zero)
      -- but the device lost in between is accounted for nowhere
      have lost : losses (Run.calls (before ++ [call])).acts ≠ 0 := by
        have own := (losses_provisionGool _ _).mpr loses
        rw [Run.calls_concat]
        simp only [losses, countP_append] at own ⊢
        omega
      have more := losses_calls_append (before ++ [call]) front
      have balance := balance_calls (before ++ call :: front)
      rw [append_assoc, singleton_append] at more
      omega
    constructor
    · rw [← cons_append, ← append_assoc, Run.calls_concat, empty]
      cases failed : later.provisionWg with
      | error error => simp [provisionGool, failed]
      | ok identity =>
        rw [failed] at closed
        cases closed
    · intro other member
      rcases mem_append.mp member with earlier | here
      · exact refused other earlier
      · exact mem_singleton.mp here ▸ closed

theorem NotAbandoned.bounded {list : List Call} (sound : NotAbandoned list) :
    registrations (Run.calls list).acts ≤
      1 + refusals (Run.calls list).acts + returns (Run.calls list).results := by
  induction list using List.reverseRecOn with
  | nil => exact Nat.zero_le _
  | append_singleton list call ih =>
    have earlier := ih fun before first after split registers =>
      sound before first (after ++ [call]) (by simp [split]) registers
    have accounted := sound list call [] rfl
    have one := registrations_provisionGool (Run.calls list).kept call
    rw [Run.calls_concat]
    simp only [registrations, refusals, returns, countP_append] at earlier accounted one ⊢
    split at one <;> omega

/-- The refusals and the calls that returned a device bound the registrations, and none is made
    while an earlier device is usable, precisely if none is made after a device was lost. -/
theorem gool_registrations_bounded_iff (list : List Call) :
    (registrations (Run.calls list).acts ≤
          1 + refusals (Run.calls list).acts + returns (Run.calls list).results ∧
        NotAbandoned list) ↔
      LossIsLast list := by
  constructor
  · rintro ⟨-, sound⟩ before call after rfl loses
    exact (sound.closed loses after [] (append_nil _).symm).2
  · intro last
    exact ⟨last.notAbandoned.bounded, last.notAbandoned⟩

def someDevice : Identity where
  deviceId := "device".toList
  accessToken := "token".toList
  certPem := []
  keyPem := []
  certIssuedAt := 0
  ipv4 := "172.16.0.2".toList
  ipv6 := []
  wgPrivateKey := .zeros 32
  wgPeerPublicKey := .zeros 32
  clientId := .zeros 3
  organization := []
  gatewayProxy := []
  assignedEndpoint := []
  refused := false

theorem full_disk_registers_anew :
    let call : Call := ⟨.ok someDevice, fun _ => .ok (),
      fun _ => .error (.io "No space left on device (os error 28)".toList)⟩
    registrations (Run.calls [call, call]).acts = 2 ∧ refusals (Run.calls [call, call]).acts = 0 ∧
      returns (Run.calls [call, call]).results = 0 ∧
      ¬registrations (Run.calls [call, call]).acts ≤
        1 + refusals (Run.calls [call, call]).acts + returns (Run.calls [call, call]).results := by
  intro call
  exact ⟨rfl, rfl, rfl, by decide⟩

end Gozarbin.Gool
