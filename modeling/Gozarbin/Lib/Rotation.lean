import Mathlib.Data.List.Basic
import Mathlib.Logic.Function.Iterate

/-! # Going round a ring

The slots of a ring are `0` to `n - 1`. From a slot one goes on to the next slot that is
open, past those that are not, back to the slot itself when no other is open.
-/

namespace Gozarbin.Rotation

def next (n : Nat) (isOpen : Nat → Bool) (i : Nat) : Nat :=
  (((List.range' 1 n).map fun step => (i + step) % n).find? isOpen).getD i

variable {n i : Nat} {isOpen : Nat → Bool}

theorem mem_round (inside : i < n) {t : Nat} (slot : t < n) :
    t ∈ (List.range' 1 n).map fun step => (i + step) % n := by
  by_cases behind : i < t
  · refine List.mem_map.mpr ⟨t - i, by simp; omega, ?_⟩
    rw [Nat.add_sub_cancel' (Nat.le_of_lt behind), Nat.mod_eq_of_lt slot]
  · refine List.mem_map.mpr ⟨t + n - i, by simp; omega, ?_⟩
    rw [show i + (t + n - i) = t + n by omega, Nat.add_mod_right, Nat.mod_eq_of_lt slot]

theorem next_spec (inside : i < n) (some_open : ∃ t < n, isOpen t = true) :
    ∃ s, 0 < s ∧ s ≤ n ∧ next n isOpen i = (i + s) % n ∧ isOpen ((i + s) % n) = true ∧
      ∀ k, 0 < k → k < s → isOpen ((i + k) % n) = false := by
  cases found : ((List.range' 1 n).map fun step => (i + step) % n).find? isOpen with
  | none =>
    obtain ⟨t, slot, opened⟩ := some_open
    exact absurd opened (List.find?_eq_none.mp found t (mem_round inside slot))
  | some j =>
    obtain ⟨opened, before, after, split, closed⟩ := List.find?_eq_some_iff_append.mp found
    have at_j : ((List.range' 1 n).map fun step => (i + step) % n)[before.length]? = some j := by
      rw [split]
      simp
    have within : before.length < n := by
      have bound := congrArg List.length split
      simp at bound
      omega
    have j_eq : (i + (before.length + 1)) % n = j := by
      simpa [within, Nat.add_comm] using at_j
    refine ⟨before.length + 1, by omega, by omega, ?_, j_eq ▸ opened, fun k pos below => ?_⟩
    · rw [next, found, Option.getD_some, j_eq]
    · have at_k : ((List.range' 1 n).map fun step => (i + step) % n)[k - 1]? =
          some ((i + k) % n) := by
        have step : 1 + (k - 1) = k := by omega
        simp [show k - 1 < n by omega, step]
      rw [split, List.getElem?_append_left (by omega)] at at_k
      simpa using closed _ (List.mem_of_getElem? at_k)

theorem next_lt (inside : i < n) (some_open : ∃ t < n, isOpen t = true) :
    next n isOpen i < n := by
  obtain ⟨s, -, -, eq, -⟩ := next_spec inside some_open
  exact eq ▸ Nat.mod_lt _ (by omega)

theorem next_open (inside : i < n) (some_open : ∃ t < n, isOpen t = true) :
    isOpen (next n isOpen i) = true := by
  obtain ⟨s, -, -, eq, opened, -⟩ := next_spec inside some_open
  exact eq ▸ opened

theorem iterate_spec (inside : i < n) (here : isOpen i = true) (k : Nat) :
    (next n isOpen)^[k] i < n ∧ isOpen ((next n isOpen)^[k] i) = true := by
  induction k generalizing i with
  | zero => exact ⟨inside, here⟩
  | succ k ih => exact ih (next_lt inside ⟨i, inside, here⟩) (next_open inside ⟨i, inside, here⟩)

theorem exists_travelled (inside : i < n) (here : isOpen i = true) (k : Nat) :
    ∃ way, k ≤ way ∧ (next n isOpen)^[k] i = (i + way) % n ∧
      ∀ d ≤ way, isOpen ((i + d) % n) = true →
        ∃ j ≤ k, (next n isOpen)^[j] i = (i + d) % n := by
  induction k with
  | zero =>
    refine ⟨0, Nat.le_refl 0, (Nat.mod_eq_of_lt inside).symm, fun d least _ => ⟨0, Nat.le_refl 0, ?_⟩⟩
    obtain rfl : d = 0 := by omega
    exact (Nat.mod_eq_of_lt inside).symm
  | succ k ih =>
    obtain ⟨way, far, arrived, visited⟩ := ih
    obtain ⟨inside', here'⟩ := iterate_spec inside here k
    obtain ⟨s, pos, -, goes, -, past⟩ := next_spec inside' ⟨_, inside', here'⟩
    have offset : ∀ m, ((next n isOpen)^[k] i + m) % n = (i + (way + m)) % n := by
      intro m
      rw [arrived, Nat.mod_add_mod, Nat.add_assoc]
    have lands : (next n isOpen)^[k + 1] i = (i + (way + s)) % n := by
      rw [Function.iterate_succ_apply', goes, offset]
    refine ⟨way + s, by omega, lands, fun d within opened => ?_⟩
    -- behind the slot of round `k`, the slot of round `k + 1` is the first that is open
    rcases Nat.lt_trichotomy d (way + s) with short | rfl | over_far
    · by_cases reached : d ≤ way
      · obtain ⟨j, early, visit⟩ := visited d reached opened
        exact ⟨j, by omega, visit⟩
      · have closed := past (d - way) (by omega) (by omega)
        rw [offset, show way + (d - way) = d by omega, opened] at closed
        cases closed
    · exact ⟨k + 1, Nat.le_refl _, lands⟩
    · omega

theorem visits_all (inside : i < n) (here : isOpen i = true) {k : Nat} (pos : 0 < k)
    (back : (next n isOpen)^[k] i = i) {t : Nat} (slot : t < n) (opened : isOpen t = true) :
    ∃ j < k, (next n isOpen)^[j] i = t := by
  obtain ⟨way, far, arrived, visited⟩ := exists_travelled inside here k
  have round : n ≤ way := by
    by_contra short
    rcases Nat.lt_or_ge (i + way) n with inner | outer
    · rw [Nat.mod_eq_of_lt inner] at arrived
      omega
    · rw [Nat.mod_eq_sub_mod outer, Nat.mod_eq_of_lt (by omega)] at arrived
      omega
  obtain ⟨d, near, t_eq⟩ := List.mem_map.mp (mem_round inside slot)
  have within : d ≤ way := by
    simp at near
    omega
  obtain ⟨j, early, visit⟩ := visited d within (t_eq ▸ opened)
  rcases Nat.lt_or_eq_of_le early with before | rfl
  · exact ⟨j, before, visit.trans t_eq⟩
  · exact ⟨0, pos, (back.symm.trans visit).trans t_eq⟩

end Gozarbin.Rotation
