import Mathlib.Data.List.Basic
import Mathlib.Tactic.Linarith

/-! # Maps filled from a list

A list is gone through once and what is under the key of each element is changed: the element is
put behind the others of its key, or they are counted. What is under a key in the end depends on
the elements of that key alone. With a cap on the counts, the first elements of each key are kept.
-/

namespace Gozarbin.Grouping

open List Std

variable {α κ : Type*} [Ord κ] [TransOrd κ] [LawfulEqOrd κ] [DecidableEq κ] {key : α → κ} {k k' : κ}

def push (k : κ) (a : α) (groups : TreeMap κ (List α)) : TreeMap κ (List α) :=
  groups.insert k (groups.getD k [] ++ [a])

theorem getD_push {a : α} {groups : TreeMap κ (List α)} :
    (push k a groups).getD k' [] = if k = k' then groups.getD k [] ++ [a] else groups.getD k' [] := by
  simp only [push, TreeMap.getD_insert, LawfulEqOrd.compare_eq_iff_eq]

omit [DecidableEq κ] in
theorem mem_push {a : α} {groups : TreeMap κ (List α)} : k' ∈ push k a groups ↔ k = k' ∨ k' ∈ groups := by
  simp only [push, TreeMap.mem_insert, LawfulEqOrd.compare_eq_iff_eq]

def groupBy (key : α → κ) (list : List α) (groups : TreeMap κ (List α)) : TreeMap κ (List α) :=
  list.foldl (fun groups a => push (key a) a groups) groups

theorem getD_groupBy (list : List α) (groups : TreeMap κ (List α)) :
    (groupBy key list groups).getD k [] = groups.getD k [] ++ list.filter (key · = k) := by
  induction list generalizing groups with
  | nil => simp [groupBy]
  | cons a rest ih =>
    have step : groupBy key (a :: rest) groups = groupBy key rest (push (key a) a groups) := rfl
    rw [step, ih, getD_push]
    by_cases same : key a = k
    · subst same
      simp
    · simp [same]

omit [DecidableEq κ] in
theorem mem_groupBy (list : List α) (groups : TreeMap κ (List α)) :
    k ∈ groupBy key list groups ↔ k ∈ groups ∨ ∃ a ∈ list, key a = k := by
  induction list generalizing groups with
  | nil => simp [groupBy]
  | cons a rest ih =>
    have step : groupBy key (a :: rest) groups = groupBy key rest (push (key a) a groups) := rfl
    rw [step, ih, mem_push, exists_mem_cons_iff, ← or_assoc, or_comm (a := key a = k)]

omit [Ord κ] [TransOrd κ] [LawfulEqOrd κ] in
theorem flatMap_filter_perm {keys : List κ} (nodup : keys.Nodup) {list : List α}
    (every : ∀ a ∈ list, key a ∈ keys) : (keys.flatMap fun k => list.filter (key · = k)).Perm list := by
  induction keys generalizing list with
  | nil =>
    rw [eq_nil_iff_forall_not_mem.mpr fun a mem => not_mem_nil (every a mem)]
    exact .nil
  | cons k keys ih =>
    obtain ⟨new, nodup'⟩ := nodup_cons.mp nodup
    -- the other groups are made of the other elements
    have others : (keys.flatMap fun k' => list.filter (key · = k')) =
        keys.flatMap fun k' => (list.filter fun a => !decide (key a = k)).filter (key · = k') := by
      refine flatMap_congr fun k' mem => ?_
      rw [filter_filter]
      refine filter_congr fun a _ => ?_
      by_cases same : key a = k'
      · have apart : k' ≠ k := fun h => new (h ▸ mem)
        simp [same, apart]
      · simp [same]
    have every' : ∀ a ∈ list.filter (fun a => !decide (key a = k)), key a ∈ keys := by
      intro a mem
      obtain ⟨mem, apart⟩ := mem_filter.mp mem
      exact (mem_cons.mp (every a mem)).resolve_left (by simpa using apart)
    rw [flatMap_cons, others]
    exact ((ih nodup' every').append_left _).trans (filter_append_perm _ _)

def bump (k : κ) (counts : TreeMap κ Nat) : TreeMap κ Nat := counts.insert k (counts.getD k 0 + 1)

theorem getD_bump {counts : TreeMap κ Nat} :
    (bump k counts).getD k' 0 = counts.getD k' 0 + if k = k' then 1 else 0 := by
  simp only [bump, TreeMap.getD_insert]
  split <;> simp_all

theorem getD_foldl_bump (list : List α) (counts : TreeMap κ Nat) :
    (list.foldl (fun counts a => bump (key a) counts) counts).getD k 0 =
      counts.getD k 0 + list.countP (key · = k) := by
  induction list generalizing counts with
  | nil => simp
  | cons a rest ih =>
    rw [foldl_cons, ih, getD_bump, countP_cons]
    simp only [decide_eq_true_eq]
    omega

def capped (key : α → κ) (cap : Nat) : (held : TreeMap κ Nat) → List α → List α
  | _, [] => []
  | held, a :: rest =>
    if cap ≤ held.getD (key a) 0 then capped key cap held rest
    else a :: capped key cap (bump (key a) held) rest

omit [TransOrd κ] [LawfulEqOrd κ] [DecidableEq κ] in
theorem capped_sublist (cap : Nat) (held : TreeMap κ Nat) (list : List α) :
    (capped key cap held list).Sublist list := by
  induction list generalizing held with
  | nil => exact .slnil
  | cons a rest ih =>
    rw [capped]
    split
    · exact .cons a (ih held)
    · exact .cons_cons a (ih _)

theorem filter_capped (cap : Nat) (held : TreeMap κ Nat) (list : List α) :
    (capped key cap held list).filter (key · = k) =
      (list.filter (key · = k)).take (cap - held.getD k 0) := by
  induction list generalizing held with
  | nil => simp [capped]
  | cons a rest ih =>
    rw [capped]
    by_cases same : key a = k
    · subst same
      rw [filter_cons_of_pos (by simp)]
      split
      · next full => rw [ih, Nat.sub_eq_zero_of_le full, take_zero, take_zero]
      · next room =>
          have one : cap - held.getD (key a) 0 = (cap - (bump (key a) held).getD (key a) 0) + 1 := by
            rw [getD_bump, if_pos rfl]
            omega
          rw [filter_cons_of_pos (by simp), ih, one, take_succ_cons]
    · rw [filter_cons_of_neg (by simpa using same)]
      split
      · exact ih held
      · rw [filter_cons_of_neg (by simpa using same), ih, getD_bump, if_neg same, Nat.add_zero]

end Gozarbin.Grouping
