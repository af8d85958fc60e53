import Mathlib.Data.List.Basic

/-! # Searching a list for the first hit

An item is read before it is looked at. A search may pass by the items that cannot be read, or end
at the first of them; the two differ when one stands in front of the first hit.
-/

namespace Gozarbin.FirstHit

open List

variable {α β γ : Type} (read : α → Option β) (accept : β → Option γ)

def search : List α → Option γ
  | [] => none
  | item :: rest =>
    match read item with
    | none => none
    | some b =>
      match accept b with
      | some result => some result
      | none => search rest

def hit (item : α) : Option γ := (read item).bind accept

def first (items : List α) : Option γ := items.findSome? (hit read accept)

def Unobstructed (items : List α) : Prop :=
  ∀ before item after, items = before ++ item :: after → (hit read accept item).isSome →
    (∀ other ∈ before, hit read accept other = none) → ∀ other ∈ before, (read other).isSome

variable {read accept} {item : α} {items : List α}

theorem hit_of_unread (unread : read item = none) : hit read accept item = none := by
  rw [hit, unread]
  rfl

theorem unobstructed_cons_hit (found : (hit read accept item).isSome) :
    Unobstructed read accept (item :: items) := by
  intro before other after same _ passed
  cases before with
  | nil => simp
  | cons front before =>
    obtain ⟨rfl, _⟩ := List.cons.inj same
    rw [passed item (mem_cons_self ..)] at found
    cases found

theorem unobstructed_cons_pass (readable : (read item).isSome) (passed : hit read accept item = none) :
    Unobstructed read accept (item :: items) ↔ Unobstructed read accept items := by
  constructor
  · intro free before other after same found earlier b member
    refine free (item :: before) other after (by rw [same]; rfl) found ?_ b (mem_cons_of_mem _ member)
    exact forall_mem_cons.mpr ⟨passed, earlier⟩
  · intro free before other after same found earlier
    cases before with
    | nil => simp
    | cons front before =>
      obtain ⟨rfl, rest⟩ := List.cons.inj same
      have later := free before other after rest found (forall_mem_cons.mp earlier).2
      exact forall_mem_cons.mpr ⟨readable, later⟩

theorem unobstructed_cons_unread (unread : read item = none) :
    Unobstructed read accept (item :: items) ↔ first read accept items = none := by
  constructor
  · intro free
    cases found : first read accept items with
    | none => rfl
    | some result =>
      obtain ⟨before, other, after, rfl, here, earlier⟩ := List.findSome?_eq_some_iff.mp found
      have readable := free (item :: before) other after rfl (by simp [here])
        (forall_mem_cons.mpr ⟨hit_of_unread unread, earlier⟩) item (mem_cons_self ..)
      rw [unread] at readable
      cases readable
  · intro none_ before other after same found _
    cases before with
    | nil => simp
    | cons front before =>
      obtain ⟨_, rfl⟩ := List.cons.inj same
      have missed := List.findSome?_eq_none_iff.mp none_ other (by simp)
      rw [missed] at found
      cases found

theorem search_map {ρ : Type} (write : ρ → α) (items : List ρ) :
    search read accept (items.map write) = search (read ∘ write) accept items := by
  induction items with
  | nil => rfl
  | cons item items ih => simp only [map_cons, search, ih, Function.comp_apply]

theorem search_eq_first_iff :
    search read accept items = first read accept items ↔ Unobstructed read accept items := by
  induction items with
  | nil => simp [search, first, Unobstructed]
  | cons item items ih =>
    cases reading : read item with
    | none =>
      have passed : hit read accept item = none := hit_of_unread reading
      rw [search, reading, unobstructed_cons_unread reading, first, List.findSome?_cons, passed]
      exact eq_comm
    | some b =>
      have here : hit read accept item = accept b := by
        rw [hit, reading]
        rfl
      cases accepting : accept b with
      | none =>
        rw [accepting] at here
        rw [unobstructed_cons_pass (by simp [reading]) here, ← ih, search, reading]
        simp only [accepting, first, List.findSome?_cons, here]
      | some result =>
        rw [accepting] at here
        have free : Unobstructed read accept (item :: items) :=
          unobstructed_cons_hit (by simp [here])
        simp [search, reading, accepting, first, here, free]

theorem search_eq_findSome?_iff {found : α → Option γ} (hits : ∀ item, hit read accept item = found item) :
    search read accept items = items.findSome? found ↔
      ∀ before item after, items = before ++ item :: after → (found item).isSome →
        (∀ other ∈ before, found other = none) → ∀ other ∈ before, (read other).isSome := by
  obtain rfl : hit read accept = found := funext hits
  exact search_eq_first_iff

end Gozarbin.FirstHit
