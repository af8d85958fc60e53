import Mathlib.Data.List.Nodup

/-! # Maps that keep their order

A map is the list of its entries, in the order their keys first came in. A new value takes the place
of the old one under its key.
-/

namespace Gozarbin

open List

structure IndexMap (κ ν : Type*) where
  entries : List (κ × ν)
  nodup : (entries.map (·.1)).Nodup

namespace IndexMap

variable {κ ν : Type*} [DecidableEq κ] {map : IndexMap κ ν} {k : κ} {v : ν} {e : κ × ν}
  {list : List (κ × ν)}

def empty : IndexMap κ ν := ⟨[], .nil⟩

def keys (map : IndexMap κ ν) : List κ := map.entries.map (·.1)

def place (k : κ) (v : ν) : List (κ × ν) → List (κ × ν)
  | [] => [(k, v)]
  | e :: rest => if e.1 = k then (k, v) :: rest else e :: place k v rest

theorem mem_map_place {k' : κ} : k' ∈ (place k v list).map (·.1) ↔ k' = k ∨ k' ∈ list.map (·.1) := by
  induction list with
  | nil => simp [place]
  | cons e rest ih =>
    rw [place]
    split
    · next same => simp [same]
    · rw [map_cons, mem_cons, ih, map_cons, mem_cons, or_left_comm]

theorem nodup_place (nodup : (list.map (·.1)).Nodup) : ((place k v list).map (·.1)).Nodup := by
  induction list with
  | nil => simp [place]
  | cons e rest ih =>
    obtain ⟨new, nodup'⟩ := nodup_cons.mp nodup
    rw [place]
    split
    · next same =>
        subst same
        exact nodup_cons.mpr ⟨new, nodup'⟩
    · next other =>
        refine nodup_cons.mpr ⟨fun mem => ?_, ih nodup'⟩
        exact (mem_map_place.mp mem).elim other new

theorem mem_place (nodup : (list.map (·.1)).Nodup) :
    e ∈ place k v list ↔ e = (k, v) ∨ e.1 ≠ k ∧ e ∈ list := by
  induction list with
  | nil => simp [place]
  | cons first rest ih =>
    obtain ⟨new, nodup'⟩ := nodup_cons.mp nodup
    rw [place]
    split
    · next same =>
        subst same
        -- what is behind the place has other keys
        have others : e ∈ rest → e.1 ≠ first.1 := fun mem same =>
          new (mem_map.mpr ⟨e, mem, same⟩)
        rw [mem_cons, mem_cons]
        constructor
        · exact Or.imp_right fun mem => ⟨others mem, .inr mem⟩
        · rintro (here | ⟨other, rfl | mem⟩)
          · exact .inl here
          · exact absurd rfl other
          · exact .inr mem
    · next other =>
        rw [mem_cons, ih nodup', mem_cons]
        constructor
        · rintro (rfl | here | ⟨apart, mem⟩)
          · exact .inr ⟨other, .inl rfl⟩
          · exact .inl here
          · exact .inr ⟨apart, .inr mem⟩
        · rintro (here | ⟨apart, rfl | mem⟩)
          · exact .inr (.inl here)
          · exact .inl rfl
          · exact .inr (.inr ⟨apart, mem⟩)

def insert (k : κ) (v : ν) (map : IndexMap κ ν) : IndexMap κ ν where
  entries := place k v map.entries
  nodup := nodup_place map.nodup

def insertMany (map : IndexMap κ ν) (list : List (κ × ν)) : IndexMap κ ν :=
  list.foldl (fun map e => map.insert e.1 e.2) map

def retain (p : κ → Bool) (map : IndexMap κ ν) : IndexMap κ ν where
  entries := map.entries.filter (p ·.1)
  nodup := map.nodup.sublist (filter_sublist.map _)

theorem insertMany_append {more : List (κ × ν)} :
    map.insertMany (list ++ more) = (map.insertMany list).insertMany more :=
  foldl_append

theorem mem_keys_insertMany : k ∈ (map.insertMany list).keys ↔ k ∈ list.map (·.1) ∨ k ∈ map.keys := by
  induction list generalizing map with
  | nil => simp [insertMany]
  | cons e rest ih =>
    have step : map.insertMany (e :: rest) = (map.insert e.1 e.2).insertMany rest := rfl
    have first : k ∈ (map.insert e.1 e.2).keys ↔ k = e.1 ∨ k ∈ map.keys := mem_map_place
    rw [step, ih, first, map_cons, mem_cons, or_left_comm, or_assoc]

theorem mem_insertMany (nodup : (list.map (·.1)).Nodup) :
    e ∈ (map.insertMany list).entries ↔ e ∈ list ∨ e.1 ∉ list.map (·.1) ∧ e ∈ map.entries := by
  induction list generalizing map with
  | nil => simp [insertMany]
  | cons first rest ih =>
    obtain ⟨new, nodup'⟩ := nodup_cons.mp nodup
    have step : map.insertMany (first :: rest) = (map.insert first.1 first.2).insertMany rest := rfl
    have here : e ∈ (map.insert first.1 first.2).entries ↔ e = first ∨ e.1 ≠ first.1 ∧ e ∈ map.entries :=
      mem_place map.nodup
    rw [step, ih nodup', here, mem_cons, map_cons, mem_cons, not_or]
    constructor
    · rintro (later | ⟨behind, rfl | ⟨apart, mem⟩⟩)
      · exact .inl (.inr later)
      · exact .inl (.inl rfl)
      · exact .inr ⟨⟨apart, behind⟩, mem⟩
    · rintro ((rfl | later) | ⟨⟨apart, behind⟩, mem⟩)
      · exact .inr ⟨new, .inl rfl⟩
      · exact .inl later
      · exact .inr ⟨behind, .inr ⟨apart, mem⟩⟩

omit [DecidableEq κ] in
theorem mem_retain {p : κ → Bool} : e ∈ (map.retain p).entries ↔ e ∈ map.entries ∧ p e.1 = true :=
  mem_filter

theorem mem_insertMany_retain {p : κ → Bool} {more : List (κ × ν)}
    (nodup : ((list ++ more).map (·.1)).Nodup) (kept : ∀ e ∈ list, p e.1 = true) :
    e ∈ (((map.insertMany list).retain p).insertMany more).entries ↔
      e ∈ list ++ more ∨ e.1 ∉ (list ++ more).map (·.1) ∧ e ∈ map.entries ∧ p e.1 = true := by
  rw [map_append] at nodup ⊢
  obtain ⟨nodup₁, nodup₂, apart⟩ := nodup_append.mp nodup
  rw [mem_insertMany nodup₂, mem_retain, mem_insertMany nodup₁, mem_append, mem_append, not_or]
  constructor
  · rintro (later | ⟨behind, first | ⟨other, left⟩, holds⟩)
    · exact .inl (.inr later)
    · exact .inl (.inl first)
    · exact .inr ⟨⟨other, behind⟩, left, holds⟩
  · rintro ((first | later) | ⟨⟨other, behind⟩, left, holds⟩)
    · exact .inr ⟨fun again => apart _ (mem_map_of_mem first) _ again rfl, .inl first, kept e first⟩
    · exact .inl later
    · exact .inr ⟨behind, .inr ⟨other, left⟩, holds⟩

omit [DecidableEq κ] in
theorem filter_eq_singleton_iff (p : κ → Bool) (mem : (k, v) ∈ map.entries) (holds : p k = true) :
    map.entries.filter (p ·.1) = [(k, v)] ↔ ∀ k' ∈ map.keys, p k' = true → k' = k := by
  constructor
  · intro alone k' named holds'
    obtain ⟨e, there, rfl⟩ := mem_map.mp named
    have kept := alone ▸ mem_filter.mpr ⟨there, holds'⟩
    rw [mem_singleton.mp kept]
  · intro free
    have nodup : ((map.entries.filter (p ·.1)).map (·.1)).Nodup := (map.retain p).nodup
    have same : ∀ e ∈ map.entries.filter (p ·.1), e.1 = k := by
      intro e kept
      obtain ⟨there, holds'⟩ := mem_filter.mp kept
      exact free e.1 (mem_map_of_mem there) holds'
    have kept : (k, v) ∈ map.entries.filter (p ·.1) := mem_filter.mpr ⟨mem, holds⟩
    obtain ⟨front, back, split⟩ := append_of_mem kept
    rw [split, map_append, map_cons, nodup_middle, nodup_cons] at nodup
    rw [split] at same ⊢
    have none : front ++ back = [] := by
      refine eq_nil_iff_forall_not_mem.mpr fun e other => nodup.1 ?_
      have named : e.1 = k := same e (by
        rcases mem_append.mp other with before | behind
        · exact mem_append_left _ before
        · exact mem_append_right _ (mem_cons_of_mem _ behind))
      rw [← map_append]
      exact mem_map.mpr ⟨e, other, named⟩
    obtain ⟨rfl, rfl⟩ := append_eq_nil_iff.mp none
    rfl

end IndexMap

end Gozarbin
