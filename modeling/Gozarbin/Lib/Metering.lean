import Mathlib.Data.List.Basic

/-! # Metering a counter that starts anew

A counter counts up from zero, goes away, and is there again from zero. A meter reads it now and
then and records what it has grown by since the last reading, the baseline; a counter below the
baseline has started anew.
-/

namespace Gozarbin.Metering

def growth (same : Bool) (now base : Nat) : Nat := if same && base ≤ now then now - base else now

theorem growth_le (same : Bool) (now base : Nat) : growth same now base ≤ now := by
  rw [growth]
  split <;> omega

theorem growth_add (same : Bool) (now more base : Nat) :
    growth same (now + more) base ≤ growth same now base + more := by
  cases same with
  | false => simp [growth]
  | true =>
    simp only [growth, Bool.true_and, decide_eq_true_eq]
    split_ifs <;> omega

theorem growth_since {read now : Nat} (same : Bool) (base : Nat) (later : read ≤ now) :
    growth same now base ≤ growth same read base + (now - read) := by
  have grown := growth_add same read (now - read) base
  rwa [Nat.add_sub_cancel' later] at grown

theorem growth_of_le {read now : Nat} (later : read ≤ now) : growth true now read = now - read := by
  simp [growth, later]

structure Meter where
  same : Bool
  base : Nat
  counter : Option Nat
  inFlight : Option Nat
  recorded : Nat
  counted : Nat

namespace Meter

variable {m : Meter}

def reserved (m : Meter) : Nat :=
  match m.inFlight with
  | some read => growth m.same read m.base
  | none => 0

def Covers (m : Meter) (free now : Nat) : Prop :=
  match m.inFlight with
  | some read => read ≤ now ∧ now - read ≤ free ∨ now ≤ free
  | none => growth m.same now m.base ≤ free

def Sound (m : Meter) : Prop :=
  ∃ free, m.recorded + m.reserved + free ≤ m.counted ∧ ∀ now ∈ m.counter, m.Covers free now

namespace Sound

theorem recorded_le (sound : m.Sound) : m.recorded ≤ m.counted := by
  obtain ⟨free, enough, -⟩ := sound
  omega

theorem grow (sound : m.Sound) (more : Nat) :
    Sound { m with counter := m.counter.map (· + more), counted := m.counted + more } := by
  obtain ⟨free, enough, covered⟩ := sound
  refine ⟨free + more, by simp only [reserved] at enough ⊢; omega, fun now shown => ?_⟩
  obtain ⟨before, there, rfl⟩ := Option.map_eq_some_iff.mp shown
  have old := covered before there
  simp only [Covers] at old ⊢
  cases flight : m.inFlight with
  | some read =>
    simp only [flight] at old ⊢
    omega
  | none =>
    simp only [flight] at old ⊢
    exact Nat.le_trans (growth_add _ _ _ _) (Nat.add_le_add_right old _)

theorem hide (sound : m.Sound) : Sound { m with counter := none } := by
  obtain ⟨free, enough, -⟩ := sound
  exact ⟨free, enough, by simp⟩

theorem start (sound : m.Sound) : Sound { m with counter := some 0 } := by
  obtain ⟨free, enough, -⟩ := sound
  refine ⟨free, enough, fun now shown => ?_⟩
  cases shown
  cases m.inFlight with
  | some read => exact .inr (Nat.zero_le free)
  | none => exact Nat.le_trans (growth_le _ _ _) (Nat.zero_le free)

theorem read {now : Nat} (sound : m.Sound) (idle : m.inFlight = none) (shown : m.counter = some now) :
    Sound { m with inFlight := some now } := by
  obtain ⟨free, enough, covered⟩ := sound
  have due := covered now shown
  simp only [Covers, idle] at due enough
  refine ⟨free - growth m.same now m.base, by simp only [reserved]; omega, fun now' shown' => ?_⟩
  cases shown.symm.trans shown'
  exact .inl ⟨Nat.le_refl now, by omega⟩

theorem record {value : Nat} (sound : m.Sound) (flight : m.inFlight = some value) :
    Sound { m with
      same := true
      base := value
      inFlight := none
      recorded := m.recorded + growth m.same value m.base } := by
  obtain ⟨free, enough, covered⟩ := sound
  simp only [reserved, flight] at enough
  refine ⟨free, by simp only [reserved]; omega, fun now shown => ?_⟩
  have due := covered now shown
  simp only [Covers, flight] at due ⊢
  rcases due with ⟨later, few⟩ | few
  · rwa [growth_of_le later]
  · exact Nat.le_trans (growth_le _ _ _) few

theorem abandon (sound : m.Sound) : Sound { m with inFlight := none } := by
  obtain ⟨free, enough, covered⟩ := sound
  cases flight : m.inFlight with
  | none =>
    refine ⟨free, by simpa only [reserved, flight] using enough, fun now shown => ?_⟩
    simpa only [Covers, flight] using covered now shown
  | some value =>
    simp only [reserved, flight] at enough
    refine ⟨free + growth m.same value m.base, by simp only [reserved]; omega, fun now shown => ?_⟩
    have due := covered now shown
    simp only [Covers, flight] at due ⊢
    rcases due with ⟨later, few⟩ | few
    · have := growth_since m.same m.base later
      omega
    · have := growth_le m.same now m.base
      omega

theorem rebase (sound : m.Sound) (idle : m.inFlight = none)
    (none_shown : m.counter = none ∨ m.counter = some 0) (same : Bool) (base : Nat) :
    Sound { m with same, base } := by
  obtain ⟨free, enough, -⟩ := sound
  refine ⟨free, by simpa only [reserved, idle] using enough, fun now shown => ?_⟩
  rcases none_shown with none | zero
  · rw [none] at shown
    cases shown
  · cases zero.symm.trans shown
    simp only [idle]
    exact Nat.le_trans (growth_le _ _ _) (Nat.zero_le free)

end Sound

end Meter

end Gozarbin.Metering
