import Mathlib.Data.List.Basic
import Mathlib.Data.Nat.Pairing

/-! # Random numbers

A computation that draws random numbers is a function of the numbers that will be drawn, and has
no result if they run out. What it may yield is what it yields for some numbers. A loop that
waits for a number it has not had yet need not end; it does where every number keeps coming up.
-/

namespace Gozarbin.Drawing

open List

variable {α β : Type}

abbrev Draws := StateT (List Nat) Option

def below (bound : Nat) : Draws Nat
  | [] => none
  | number :: rest => some (number % bound, rest)

/-- With some numbers, this is the result. -/
def Yields (m : Draws α) (a : α) : Prop := ∃ numbers rest, m.run numbers = some (a, rest)

theorem Yields.of_pure {a b : α} (yields : Yields (pure a) b) : b = a := by
  obtain ⟨numbers, rest, same⟩ := yields
  cases same
  rfl

variable {m : Draws α} {f : α → Draws β}

theorem Yields.of_bind {b : β} (yields : Yields (m >>= f) b) :
    ∃ a, Yields m a ∧ Yields (f a) b := by
  obtain ⟨numbers, rest, same⟩ := yields
  obtain ⟨⟨a, between⟩, first, second⟩ := Option.bind_eq_some_iff.mp same
  exact ⟨a, ⟨numbers, between, first⟩, ⟨between, rest, second⟩⟩

theorem Yields.of_map {f : α → β} {b : β} (yields : Yields (f <$> m) b) :
    ∃ a, Yields m a ∧ f a = b := by
  rw [map_eq_pure_bind] at yields
  obtain ⟨a, first, second⟩ := yields.of_bind
  exact ⟨a, first, second.of_pure.symm⟩

theorem Yields.of_mapM {list : List α} {results : List β}
    (yields : Yields (list.mapM f) results) : ∀ b ∈ results, ∃ a ∈ list, Yields (f a) b := by
  induction list generalizing results with
  | nil =>
    cases yields.of_pure
    simp
  | cons a list ih =>
    rw [mapM_cons] at yields
    obtain ⟨b, first, yields⟩ := yields.of_bind
    obtain ⟨bs, later, yields⟩ := yields.of_bind
    cases yields.of_pure
    intro c mem
    rcases mem_cons.mp mem with rfl | mem
    · exact ⟨a, mem_cons_self, first⟩
    · obtain ⟨a', given, drawn⟩ := ih later c mem
      exact ⟨a', mem_cons_of_mem a given, drawn⟩

/-- Every remainder comes up again and again. -/
def Fair (source : Nat → Nat) : Prop :=
  ∀ bound r start, r < bound → ∃ i, start ≤ i ∧ source i % bound = r

theorem exists_fair : ∃ source, Fair source := by
  refine ⟨fun i => i.unpair.1, fun bound r start small => ⟨Nat.pair r start, Nat.right_le_pair r start, ?_⟩⟩
  dsimp only
  rw [Nat.unpair_pair]
  exact Nat.mod_eq_of_lt small

def firstOf (source : Nat → Nat) (count : Nat) : List Nat := (List.range count).map source

variable {source : Nat → Nat}

theorem firstOf_add (m n : Nat) :
    firstOf source (m + n) = firstOf source m ++ firstOf (fun i => source (m + i)) n := by
  rw [firstOf, range_add, map_append, map_map]
  rfl

theorem take_firstOf {m n : Nat} (le : m ≤ n) : (firstOf source n).take m = firstOf source m := by
  obtain ⟨k, rfl⟩ := Nat.exists_eq_add_of_le le
  rw [firstOf_add]
  exact take_left' (by rw [firstOf, length_map, List.length_range])

theorem Fair.later (fair : Fair source) (n : Nat) : Fair fun i => source (n + i) := by
  intro bound r start small
  obtain ⟨i, after, hit⟩ := fair bound r (n + start) small
  obtain ⟨k, rfl⟩ := Nat.exists_eq_add_of_le after
  exact ⟨start + k, Nat.le_add_right .., by rwa [Nat.add_assoc] at hit⟩

theorem Fair.exists_firstOf (fair : Fair source) (bound : Nat) :
    ∃ count, ∀ r < bound, ∃ number ∈ firstOf source count, number % bound = r := by
  have upTo : ∀ k ≤ bound, ∃ count, ∀ r < k, ∃ number ∈ firstOf source count, number % bound = r := by
    intro k le
    induction k with
    | zero => exact ⟨0, fun _ small => absurd small (Nat.not_lt_zero _)⟩
    | succ k ih =>
      obtain ⟨count, known⟩ := ih (by omega)
      obtain ⟨i, after, hit⟩ := fair bound k count (by omega)
      refine ⟨i + 1, fun r small => ?_⟩
      rcases Nat.lt_succ_iff_lt_or_eq.mp small with before | rfl
      · obtain ⟨number, mem, same⟩ := known r before
        rw [← take_firstOf (show count ≤ i + 1 by omega)] at mem
        exact ⟨number, mem_of_mem_take mem, same⟩
      · exact ⟨source i, mem_map_of_mem (mem_range.mpr (Nat.lt_succ_self i)), hit⟩
  exact upTo bound (Nat.le_refl _)

/-- Every fair source gives a result, after finitely many numbers. -/
def Ends (m : Draws α) : Prop :=
  ∀ source, Fair source → ∃ count a, ∀ rest, m.run (firstOf source count ++ rest) = some (a, rest)

theorem Ends.yields (ends : Ends m) : ∃ a, Yields m a := by
  obtain ⟨source, fair⟩ := exists_fair
  obtain ⟨count, a, same⟩ := ends source fair
  exact ⟨a, _, [], same []⟩

theorem Ends.pure (a : α) : Ends (pure a : Draws α) := fun _ _ => ⟨0, a, fun _ => rfl⟩

theorem Ends.bind (first : Ends m) (second : ∀ a, Ends (f a)) :
    Ends (m >>= f) := by
  intro source fair
  obtain ⟨n, a, head⟩ := first source fair
  obtain ⟨k, b, tail⟩ := second a _ (fair.later n)
  refine ⟨n + k, b, fun rest => ?_⟩
  rw [firstOf_add, append_assoc, StateT.run_bind, head]
  exact tail rest

theorem Ends.map (f : α → β) (ends : Ends m) : Ends (f <$> m) := by
  exact ends.bind fun a => .pure (f a)

theorem Ends.mapM {list : List α} (each : ∀ a ∈ list, Ends (f a)) :
    Ends (list.mapM f) := by
  induction list with
  | nil =>
    exact .pure []
  | cons a list ih =>
    rw [mapM_cons]
    have rest := ih fun b mem => each b (mem_cons_of_mem a mem)
    exact (each a mem_cons_self).bind fun b => rest.bind fun bs => .pure (b :: bs)

theorem Ends.below (bound : Nat) : Ends (below bound) :=
  fun source _ => ⟨1, source 0 % bound, fun _ => rfl⟩

end Gozarbin.Drawing
