import Mathlib.Data.List.Basic
import Mathlib.Data.List.Sort

/-! # Leaving repetitions out

A list is gone through with a set of the keys seen so far, and an element is kept if its key is
new. What is kept depends on the set by what is in it only, so a list can be gone through in
parts.
-/

namespace Gozarbin.Distinct

open List

variable {α β : Type*} [DecidableEq β] {f : α → β} {a b : α} {seen seen' : List β} {list more : List α}

def distinctBy (f : α → β) : (seen : List β) → List α → List α
  | _, [] => []
  | seen, a :: rest =>
    if f a ∈ seen then distinctBy f seen rest else a :: distinctBy f (f a :: seen) rest

theorem distinctBy_old (old : f a ∈ seen) : distinctBy f seen (a :: list) = distinctBy f seen list :=
  if_pos old

theorem distinctBy_new (new : f a ∉ seen) :
    distinctBy f seen (a :: list) = a :: distinctBy f (f a :: seen) list :=
  if_neg new

theorem distinctBy_sublist : (distinctBy f seen list).Sublist list := by
  induction list generalizing seen with
  | nil => exact .slnil
  | cons b rest ih =>
    by_cases old : f b ∈ seen
    · rw [distinctBy_old old]
      exact .cons b ih
    · rw [distinctBy_new old]
      exact .cons_cons b ih

theorem mem_of_mem_distinctBy (mem : a ∈ distinctBy f seen list) : a ∈ list := distinctBy_sublist.subset mem

theorem not_mem_of_mem_distinctBy (mem : a ∈ distinctBy f seen list) : f a ∉ seen := by
  induction list generalizing seen with
  | nil => cases mem
  | cons b rest ih =>
    by_cases old : f b ∈ seen
    · rw [distinctBy_old old] at mem
      exact ih mem
    · rw [distinctBy_new old] at mem
      rcases mem_cons.mp mem with rfl | later
      · exact old
      · exact fun known => ih later (mem_cons_of_mem _ known)

theorem pairwise_distinctBy : (distinctBy f seen list).Pairwise fun a b => f a ≠ f b := by
  induction list generalizing seen with
  | nil => exact .nil
  | cons b rest ih =>
    by_cases old : f b ∈ seen
    · rw [distinctBy_old old]
      exact ih
    · rw [distinctBy_new old]
      refine .cons (fun c later same => ?_) ih
      exact not_mem_of_mem_distinctBy later (same ▸ mem_cons_self)

theorem exists_mem_distinctBy (mem : a ∈ list) (new : f a ∉ seen) :
    ∃ b ∈ distinctBy f seen list, f b = f a := by
  induction list generalizing seen with
  | nil => cases mem
  | cons c rest ih =>
    by_cases old : f c ∈ seen
    · rw [distinctBy_old old]
      rcases mem_cons.mp mem with rfl | later
      · exact absurd old new
      · exact ih later new
    · rw [distinctBy_new old]
      by_cases same : f a = f c
      · exact ⟨c, mem_cons_self, same.symm⟩
      · have later := (mem_cons.mp mem).resolve_left fun here => same (here ▸ rfl)
        obtain ⟨b, kept, key⟩ := ih later (not_mem_cons_of_ne_of_not_mem same new)
        exact ⟨b, mem_cons_of_mem c kept, key⟩

theorem rel_of_mem_distinctBy {r : α → α → Prop} (refl : ∀ a, r a a) (sorted : list.Pairwise r)
    (kept : a ∈ distinctBy f seen list) (mem : b ∈ list) (same : f b = f a) : r a b := by
  induction list generalizing seen with
  | nil => cases mem
  | cons c rest ih =>
    obtain ⟨first, sorted'⟩ := pairwise_cons.mp sorted
    have new := not_mem_of_mem_distinctBy kept
    by_cases old : f c ∈ seen
    · rw [distinctBy_old old] at kept
      rcases mem_cons.mp mem with rfl | later
      · exact absurd (same ▸ old) new
      · exact ih sorted' kept later
    · rw [distinctBy_new old] at kept
      rcases mem_cons.mp kept with rfl | kept'
      · rcases mem_cons.mp mem with rfl | later
        · exact refl b
        · exact first b later
      · rcases mem_cons.mp mem with rfl | later
        · exact absurd (same ▸ mem_cons_self) (not_mem_of_mem_distinctBy kept')
        · exact ih sorted' kept' later

theorem distinctBy_congr (same : ∀ a ∈ list, f a ∈ seen ↔ f a ∈ seen') :
    distinctBy f seen list = distinctBy f seen' list := by
  induction list generalizing seen seen' with
  | nil => rfl
  | cons a rest ih =>
    obtain ⟨here, later⟩ := forall_mem_cons.mp same
    by_cases old : f a ∈ seen
    · rw [distinctBy_old old, distinctBy_old (here.mp old), ih later]
    · rw [distinctBy_new old, distinctBy_new (mt here.mpr old)]
      exact congrArg (a :: ·) (ih fun b mem => by simp only [mem_cons, later b mem])

theorem distinctBy_append :
    distinctBy f seen (list ++ more) =
      distinctBy f seen list ++ distinctBy f (list.map f ++ seen) more := by
  induction list generalizing seen with
  | nil => rfl
  | cons a rest ih =>
    by_cases old : f a ∈ seen
    · rw [cons_append, distinctBy_old old, distinctBy_old old, ih]
      refine congrArg (_ ++ ·) (distinctBy_congr fun b _ => ?_)
      rw [map_cons, cons_append, mem_cons]
      refine ⟨.inr, fun known => known.elim (fun here => ?_) id⟩
      rw [here]
      exact mem_append_right _ old
    · rw [cons_append, distinctBy_new old, distinctBy_new old, ih, cons_append]
      refine congrArg (fun l => a :: (_ ++ l)) (distinctBy_congr fun b _ => ?_)
      simp only [map_cons, mem_append, mem_cons]
      tauto

section
variable {list more seen : List β} {a : β}

theorem distinct_old (old : a ∈ seen) : distinctBy id seen (a :: list) = distinctBy id seen list :=
  distinctBy_old old

theorem distinct_new (new : a ∉ seen) :
    distinctBy id seen (a :: list) = a :: distinctBy id (a :: seen) list :=
  distinctBy_new new

theorem mem_distinct : a ∈ distinctBy id seen list ↔ a ∈ list ∧ a ∉ seen := by
  refine ⟨fun mem => ⟨mem_of_mem_distinctBy mem, not_mem_of_mem_distinctBy mem⟩, fun ⟨mem, new⟩ => ?_⟩
  obtain ⟨b, kept, rfl⟩ : ∃ b ∈ distinctBy id seen list, b = a := exists_mem_distinctBy mem new
  exact kept

theorem nodup_distinct : (distinctBy id seen list).Nodup := pairwise_distinctBy

theorem distinct_of_nodup (nodup : list.Nodup) : distinctBy id seen list = list.filter (· ∉ seen) := by
  induction list generalizing seen with
  | nil => rfl
  | cons a rest ih =>
    obtain ⟨absent, nodup'⟩ := nodup_cons.mp nodup
    by_cases old : a ∈ seen
    · rw [distinct_old old, ih nodup', filter_cons_of_neg (by simpa using old)]
    · rw [distinct_new old, ih nodup', filter_cons_of_pos (by simpa using old)]
      refine congrArg (a :: ·) (filter_congr fun b mem => ?_)
      have other : b ≠ a := fun same => absent (same ▸ mem)
      simp [other]

theorem filter_distinct (p : β → Bool) :
    (distinctBy id seen list).filter p = distinctBy id seen (list.filter p) := by
  induction list generalizing seen with
  | nil => rfl
  | cons a rest ih =>
    cases kept : p a with
    | true =>
      rw [filter_cons_of_pos kept]
      by_cases old : a ∈ seen
      · rw [distinct_old old, distinct_old old, ih]
      · rw [distinct_new old, distinct_new old, filter_cons_of_pos kept, ih]
    | false =>
      rw [filter_cons_of_neg (by simp [kept])]
      by_cases old : a ∈ seen
      · rw [distinct_old old, ih]
      · rw [distinct_new old, filter_cons_of_neg (by simp [kept]), ih]
        refine distinctBy_congr fun b mem => ?_
        have other : b ≠ a := by
          rintro rfl
          simp [kept] at mem
        simp [other]

theorem distinct_map {γ : Type*} [DecidableEq γ] {g : β → γ} (inj : Function.Injective g) :
    distinctBy id (seen.map g) (list.map g) = (distinctBy id seen list).map g := by
  induction list generalizing seen with
  | nil => rfl
  | cons a rest ih =>
    have known : g a ∈ seen.map g ↔ a ∈ seen := mem_map_of_injective inj
    by_cases old : a ∈ seen
    · rw [map_cons, distinct_old (known.mpr old), distinct_old old, ih]
    · rw [map_cons, distinct_new (mt known.mp old), distinct_new old, map_cons]
      have later : distinctBy id ((a :: seen).map g) (rest.map g) = _ := ih
      exact congrArg (g a :: ·) later

theorem distinct_cons : distinctBy id [] (a :: list) = a :: (distinctBy id [] list).filter (· ≠ a) := by
  have others : ∀ b ∈ distinctBy id [a] list, decide (b ≠ a) = true := fun b mem => by
    simpa using (mem_distinct.mp mem).2
  have unseen : distinctBy id [a] (list.filter (· ≠ a)) = distinctBy id [] (list.filter (· ≠ a)) := by
    refine distinctBy_congr fun b mem => ?_
    have other : b ≠ a := by simpa using (mem_filter.mp mem).2
    simp [other]
  rw [distinct_new not_mem_nil, ← filter_eq_self.mpr others, filter_distinct, filter_distinct,
    unseen]

theorem take_filter_take (nodup : list.Nodup) (n : Nat) :
    ((list.take (n + 1)).filter (· ≠ a)).take n = (list.filter (· ≠ a)).take n := by
  induction list generalizing n with
  | nil => rfl
  | cons b rest ih =>
    obtain ⟨absent, nodup'⟩ := nodup_cons.mp nodup
    rw [take_succ_cons]
    by_cases same : b = a
    · subst same
      have whole : ∀ part : List β, part ⊆ rest → part.filter (· ≠ b) = part := fun part sub =>
        filter_eq_self.mpr fun c mem => by
          have other : c ≠ b := fun same => absent (same ▸ sub mem)
          simpa using other
      rw [filter_cons_of_neg (by simp), filter_cons_of_neg (by simp),
        whole _ (take_subset _ _), whole rest (List.Subset.refl _), take_take, Nat.min_self]
    · rw [filter_cons_of_pos (by simpa using same), filter_cons_of_pos (by simpa using same)]
      cases n with
      | zero => rfl
      | succ n => rw [take_succ_cons, take_succ_cons, ih nodup']

theorem distinct_flatMap_range {g : Nat → List β} (nodup : ∀ i, (g i).Nodup) {n : Nat} :
    distinctBy id [] ((List.range n).flatMap g) =
      (List.range n).flatMap fun i => (g i).filter fun a => ∀ j < i, a ∉ g j := by
  induction n with
  | zero => rfl
  | succ n ih =>
    rw [range_succ, flatMap_append, distinctBy_append, ih, flatMap_append,
      flatMap_singleton, flatMap_singleton, distinct_of_nodup (nodup n)]
    simp

end

section
variable {β : Type*} [LinearOrder β] {list : List β} {a : β}

def sortedSet (list : List β) : List β := (distinctBy id [] list).insertionSort (· ≤ ·)

theorem mem_sortedSet : a ∈ sortedSet list ↔ a ∈ list := by
  rw [sortedSet, (perm_insertionSort _ _).mem_iff, mem_distinct, and_iff_left not_mem_nil]

theorem pairwise_sortedSet (list : List β) : (sortedSet list).Pairwise (· < ·) := by
  have sorted : (sortedSet list).Pairwise (· ≤ ·) := pairwise_insertionSort _ _
  have nodup : (sortedSet list).Nodup := (perm_insertionSort _ _).nodup_iff.mpr nodup_distinct
  exact (sorted.and nodup).imp fun ⟨le, ne⟩ => lt_of_le_of_ne le ne

end

end Gozarbin.Distinct
