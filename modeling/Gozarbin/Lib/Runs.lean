import Mathlib.Data.List.Basic

/-! # Runs of a step function that may stop

A system is a step function `step : State → Event → Option State`; `none` is a step that does
not return (a panic, an aborted task). A run is the list of events it is fed. Properties of
steps (`Each`) and of states (`Always`) are read off along that list.
-/

namespace Gozarbin.Runs

variable {State Event : Type*}

def run (step : State → Event → Option State) : State → List Event → Option State
  | s, [] => some s
  | s, e :: rest => (step s e).bind fun s' => run step s' rest

/-- Every step of the run satisfies `P`, which sees the state before the step. -/
def Each (step : State → Event → Option State) (P : State → Event → Prop) :
    State → List Event → Prop
  | _, [] => True
  | s, e :: rest => P s e ∧ ∀ s' ∈ step s e, Each step P s' rest

/-- Every state of the run satisfies `I`, the first and the last one included. -/
def Always (step : State → Event → Option State) (I : State → Prop) :
    State → List Event → Prop
  | s, [] => I s
  | s, e :: rest => I s ∧ ∀ s' ∈ step s e, Always step I s' rest

variable {step : State → Event → Option State} {s t : State} {e : Event} {events : List Event}

@[simp] theorem run_nil : run step s [] = some s := rfl

@[simp] theorem run_cons :
    run step s (e :: events) = (step s e).bind fun s' => run step s' events := rfl

theorem run_append {left right : List Event} :
    run step s (left ++ right) = (run step s left).bind fun s' => run step s' right := by
  induction left generalizing s with
  | nil => rfl
  | cons e left ih => simp only [List.cons_append, run_cons, Option.bind_assoc, ih]

instance decidableEach {P : State → Event → Prop} [∀ s e, Decidable (P s e)] :
    ∀ s events, Decidable (Each step P s events)
  | _, [] => .isTrue trivial
  | s, e :: rest =>
    match h : step s e with
    | none => decidable_of_iff (P s e) (by simp [Each, h])
    | some s' =>
      have : Decidable (Each step P s' rest) := decidableEach s' rest
      decidable_of_iff (P s e ∧ Each step P s' rest) (by simp [Each, h])

instance decidableAlways {I : State → Prop} [DecidablePred I] :
    ∀ s events, Decidable (Always step I s events)
  | s, [] => inferInstanceAs (Decidable (I s))
  | s, e :: rest =>
    match h : step s e with
    | none => decidable_of_iff (I s) (by simp [Always, h])
    | some s' =>
      have : Decidable (Always step I s' rest) := decidableAlways s' rest
      decidable_of_iff (I s ∧ Always step I s' rest) (by simp [Always, h])

variable {P : State → Event → Prop}

theorem Each.of_forall (all : ∀ s e, P s e) : Each step P s events := by
  induction events generalizing s with
  | nil => trivial
  | cons e rest ih => exact ⟨all s e, fun _ _ => ih⟩

theorem Each.append {left right : List Event}
    (reached : run step s left = some t) (before : Each step P s left)
    (after : Each step P t right) : Each step P s (left ++ right) := by
  induction left generalizing s with
  | nil =>
    obtain rfl : s = t := by simpa using reached
    exact after
  | cons e left ih =>
    refine ⟨before.1, fun s' next => ih ?_ (before.2 s' next)⟩
    rwa [run_cons, Option.mem_def.mp next] at reached

theorem Each.of_forall_mem {P : Event → Prop} (all : ∀ e ∈ events, P e) :
    Each step (fun _ e => P e) s events := by
  induction events generalizing s with
  | nil => trivial
  | cons e rest ih =>
    have split := List.forall_mem_cons.mp all
    exact ⟨split.1, fun _ _ => ih split.2⟩

variable {I : State → Prop}

theorem Always.first (always : Always step I s events) : I s := by
  cases events with
  | nil => exact always
  | cons e rest => exact always.1

theorem Always.last (always : Always step I s events)
    (reached : run step s events = some t) : I t := by
  induction events generalizing s with
  | nil =>
    obtain rfl : s = t := by simpa using reached
    exact always
  | cons e rest ih =>
    obtain ⟨s', next, reached⟩ := Option.bind_eq_some_iff.mp reached
    exact ih (always.2 s' next) reached

theorem Always.mono {J : State → Prop} (weaker : ∀ s, I s → J s)
    (always : Always step I s events) : Always step J s events := by
  induction events generalizing s with
  | nil => exact weaker s always
  | cons e rest ih => exact ⟨weaker s always.1, fun s' next => ih (always.2 s' next)⟩

variable {C : State → Event → Prop}

theorem always_of_kept
    (kept : ∀ s e s', I s → C s e → step s e = some s' → I s')
    (first : I s) (met : Each step C s events) : Always step I s events := by
  induction events generalizing s with
  | nil => exact first
  | cons e rest ih =>
    exact ⟨first, fun s' next => ih (kept s e s' first met.1 next) (met.2 s' next)⟩

theorem each_of_kept
    (kept : ∀ s e s', I s → step s e = some s' → I s') (here : ∀ s e, I s → P s e)
    (first : I s) : Each step P s events := by
  induction events generalizing s with
  | nil => trivial
  | cons e rest ih => exact ⟨here s e first, fun s' next => ih (kept s e s' first next)⟩

theorem exists_run
    (proceeds : ∀ s e, I s → C s e → ∃ s', step s e = some s' ∧ I s') (first : I s)
    (events : List Event) (met : Each step C s events) : ∃ t, run step s events = some t ∧ I t := by
  induction events generalizing s with
  | nil => exact ⟨s, rfl, first⟩
  | cons e rest ih =>
    obtain ⟨s', next, kept⟩ := proceeds s e first met.1
    rw [run_cons, next]
    exact ih kept (met.2 s' next)

theorem exists_run_replicate {done : State → Prop} (left : State → Nat)
    (progress : ∀ s, I s → done s ∨ ∃ s', step s e = some s' ∧ I s' ∧ left s' < left s)
    (first : I s) : ∃ n t, run step s (List.replicate n e) = some t ∧ I t ∧ done t := by
  induction bound : left s using Nat.strongRecOn generalizing s with
  | ind bound_left ih =>
    rcases progress s first with stopped | ⟨s', next, kept, lower⟩
    · exact ⟨0, s, rfl, first, stopped⟩
    · obtain ⟨n, t, reached, holds⟩ := ih (left s') (bound ▸ lower) kept rfl
      refine ⟨n + 1, t, ?_, holds⟩
      rw [List.replicate_succ, run_cons, next]
      exact reached

theorem always_iff_each {enabled : State → Event → Prop} {P : State → Prop}
    (kept : ∀ s e s', I s → enabled s e → step s e = some s' → I s')
    (proceeds : ∀ s e, I s → enabled s e → ∃ s', step s e = some s')
    (exact_step : ∀ s e s', I s → enabled s e → step s e = some s' → P s → (P s' ↔ C s e))
    (first : I s) (holds : P s) (valid : Each step enabled s events) :
    Always step P s events ↔ Each step C s events := by
  induction events generalizing s with
  | nil => exact ⟨fun _ => trivial, fun _ => holds⟩
  | cons e rest ih =>
    obtain ⟨s', next⟩ := proceeds s e first valid.1
    have only : ∀ s'' ∈ step s e, s'' = s' := by
      intro s'' member
      exact Option.some.inj (member.symm.trans next)
    have here := exact_step s e s' first valid.1 next holds
    have later := fun kept' => ih (kept s e s' first valid.1 next) kept' (valid.2 s' next)
    constructor
    · intro always
      have after : P s' := (always.2 s' next).first
      refine ⟨here.mp after, fun s'' member => ?_⟩
      obtain rfl := only s'' member
      exact (later after).mp (always.2 s'' next)
    · intro each
      have after : P s' := here.mpr each.1
      refine ⟨holds, fun s'' member => ?_⟩
      obtain rfl := only s'' member
      exact (later after).mpr (each.2 s'' next)

end Gozarbin.Runs
