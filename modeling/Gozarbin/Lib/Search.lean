import Mathlib.Data.List.Infix

/-! # Looking for a pattern

The first place a pattern stands at does not move when the list goes on, and can be looked for
in pieces: what was searched before is skipped, but for the end of it, where the pattern may
have started.
-/

namespace Gozarbin.Search

open List

variable {α : Type*}

/-- The pattern comes behind the list, and no earlier. -/
def Until (needle xs : List α) : Prop := ∀ m < xs.length, ¬ needle <+: (xs ++ needle).drop m

theorem prefix_drop_append {needle xs ys : List α} {n : Nat} (inside : n + needle.length ≤ xs.length) :
    needle <+: (xs ++ ys).drop n ↔ needle <+: xs.drop n := by
  have long : needle.length ≤ (xs.drop n).length := by
    rw [length_drop]
    omega
  rw [drop_append_of_le_length (by omega)]
  exact ⟨fun here => prefix_of_prefix_length_le here (prefix_append ..) long,
    fun here => here.trans (prefix_append ..)⟩

theorem until_of_not_mem {a : α} {needle xs : List α} (absent : a ∉ xs) : Until (a :: needle) xs := by
  intro m inside here
  rw [drop_append_of_le_length inside.le, drop_eq_getElem_cons inside, cons_append,
    cons_prefix_cons] at here
  exact absent (here.1 ▸ getElem_mem inside)

theorem until_pair {a b : α} {xs : List α} (apart : a ≠ b)
    (unbroken : ¬ [a, b] <:+: xs) : Until [a, b] xs := by
  intro m inside here
  rcases Nat.lt_or_ge xs.length (m + 2) with last | within
  · obtain rfl : m = xs.length - 1 := by omega
    rw [drop_append_of_le_length (by omega), drop_length_sub_one (ne_nil_of_length_pos (by omega)),
      singleton_append, cons_prefix_cons, cons_prefix_cons] at here
    exact apart here.2.1.symm
  · rw [prefix_drop_append within] at here
    exact unbroken (here.isInfix.trans (drop_suffix m xs).isInfix)

variable [DecidableEq α]

def position (needle : List α) : List α → Option Nat
  | [] => none
  | a :: rest => if needle <+: a :: rest then some 0 else (position needle rest).map (· + 1)

instance (needle xs : List α) : Decidable (Until needle xs) :=
  inferInstanceAs (Decidable (∀ m < xs.length, ¬ needle <+: (xs ++ needle).drop m))

section
variable {needle xs ys : List α} {n s : Nat}

theorem position_eq_some (some_ : needle ≠ []) :
    position needle xs = some n ↔ needle <+: xs.drop n ∧ ∀ m < n, ¬ needle <+: xs.drop m := by
  induction xs generalizing n with
  | nil => simp [position, some_]
  | cons a xs ih =>
    rw [position]
    split
    next here =>
      constructor
      · rintro ⟨⟩
        exact ⟨here, nofun⟩
      · rintro ⟨-, first⟩
        cases n with
        | zero => rfl
        | succ n => exact absurd here (first 0 (Nat.succ_pos n))
    next elsewhere =>
      cases n with
      | zero => simp [elsewhere]
      | succ n =>
        rw [Option.map_eq_some_iff]
        constructor
        · rintro ⟨m, found, same⟩
          obtain rfl : m = n := Nat.succ.inj same
          obtain ⟨there, first⟩ := ih.mp found
          refine ⟨there, fun k before => ?_⟩
          cases k with
          | zero => exact elsewhere
          | succ k => exact first k (Nat.lt_of_succ_lt_succ before)
        · rintro ⟨there, first⟩
          exact ⟨n, ih.mpr ⟨there, fun k before => first (k + 1) (Nat.succ_lt_succ before)⟩, rfl⟩

theorem position_eq_none (some_ : needle ≠ []) :
    position needle xs = none ↔ ∀ m, ¬ needle <+: xs.drop m := by
  constructor
  · intro absent m there
    -- the first of the places up to this one
    induction m using Nat.strong_induction_on with
    | h m ih =>
      have found := (position_eq_some some_).mpr ⟨there, ih⟩
      rw [absent] at found
      cases found
  · intro nowhere
    cases found : position needle xs with
    | none => rfl
    | some n => exact absurd ((position_eq_some some_).mp found).1 (nowhere n)

theorem position_bound (some_ : needle ≠ []) (found : position needle xs = some n) :
    n + needle.length ≤ xs.length := by
  have length := ((position_eq_some some_).mp found).1.length_le
  have := length_pos_of_ne_nil some_
  rw [length_drop] at length
  omega

theorem position_append (some_ : needle ≠ []) (found : position needle xs = some n) (ys : List α) :
    position needle (xs ++ ys) = some n := by
  have bound := position_bound some_ found
  obtain ⟨there, first⟩ := (position_eq_some some_).mp found
  refine (position_eq_some some_).mpr ⟨(prefix_drop_append bound).mpr there, fun m before => ?_⟩
  rw [prefix_drop_append (by omega)]
  exact first m before

theorem position_left (some_ : needle ≠ []) (found : position needle (xs ++ ys) = some n)
    (inside : n + needle.length ≤ xs.length) : position needle xs = some n := by
  obtain ⟨there, first⟩ := (position_eq_some some_).mp found
  refine (position_eq_some some_).mpr ⟨(prefix_drop_append inside).mp there, fun m before => ?_⟩
  rw [← prefix_drop_append (by omega)]
  exact first m before

theorem position_from (some_ : needle ≠ []) (absent : position needle (xs.take s) = none) :
    position needle xs =
      (position needle (xs.drop (s - (needle.length - 1)))).map (s - (needle.length - 1) + ·) := by
  have skipped : ∀ m < s - (needle.length - 1), ¬ needle <+: xs.drop m := by
    intro m before there
    refine (position_eq_none some_).mp absent m ?_
    rw [drop_take, prefix_take_iff]
    exact ⟨there, by omega⟩
  generalize s - (needle.length - 1) = k at *
  cases found : position needle (xs.drop k) with
  | some n =>
    obtain ⟨there, first⟩ := (position_eq_some some_).mp found
    rw [Option.map_some, position_eq_some some_]
    rw [drop_drop] at there
    refine ⟨there, fun m before => ?_⟩
    rcases Nat.lt_or_ge m k with early | late
    · exact skipped m early
    · have later := first (m - k) (by omega)
      rwa [drop_drop, Nat.add_sub_cancel' late] at later
  | none =>
    rw [Option.map_none, position_eq_none some_]
    intro m
    rcases Nat.lt_or_ge m k with early | late
    · exact skipped m early
    · have later := (position_eq_none some_).mp found (m - k)
      rwa [drop_drop, Nat.add_sub_cancel' late] at later

theorem position_resume {start : Nat} (some_ : needle ≠ [])
    (absent : position needle ((xs.drop start).take (s - start)) = none) :
    position needle (xs.drop start) =
      (position needle (xs.drop (max (s - (needle.length - 1)) start))).map
        (max (s - (needle.length - 1)) start - start + ·) := by
  have from_ : max (s - (needle.length - 1)) start - start = s - start - (needle.length - 1) := by omega
  have skip : start + (s - start - (needle.length - 1)) = max (s - (needle.length - 1)) start := by omega
  rw [position_from some_ absent, drop_drop, skip, from_]

theorem until_iff_position (some_ : needle ≠ []) :
    Until needle xs ↔ position needle (xs ++ needle) = some xs.length := by
  rw [position_eq_some some_, drop_left]
  exact ⟨fun first => ⟨prefix_rfl, first⟩, fun found => found.2⟩

theorem Until.position (some_ : needle ≠ []) (before : Until needle xs) (ys : List α) :
    position needle (xs ++ needle ++ ys) = some xs.length :=
  position_append some_ ((until_iff_position some_).mp before) ys

theorem until_of_position (some_ : needle ≠ []) (found : Search.position needle xs = some n) :
    ∃ front rest, xs = front ++ needle ++ rest ∧ front.length = n ∧ Until needle front := by
  have bound := position_bound some_ found
  obtain ⟨⟨rest, there⟩, -⟩ := (position_eq_some some_).mp found
  have length : (xs.take n).length = n := length_take_of_le (by omega)
  have split : xs = xs.take n ++ needle ++ rest := by
    rw [append_assoc, there, take_append_drop]
  refine ⟨xs.take n, rest, split, length, (until_iff_position some_).mpr ?_⟩
  rw [length]
  rw [split] at found
  refine position_left some_ found ?_
  rw [length_append, length]

theorem Until.position_part (some_ : needle ≠ []) (before : Until needle xs) {front rest : List α}
    (split : xs ++ needle = front ++ rest) (more : rest ≠ []) : Search.position needle front = none := by
  cases found : Search.position needle front with
  | none => rfl
  | some n =>
    have bound := position_bound some_ found
    have later := position_append some_ found rest
    rw [← split, (until_iff_position some_).mp before] at later
    obtain rfl := Option.some.inj later
    have length := congrArg List.length split
    rw [length_append, length_append] at length
    have := length_pos_of_ne_nil more
    omega

end

end Gozarbin.Search
