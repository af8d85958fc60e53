import Mathlib.Data.List.Basic

/-! # Self-delimiting frames in a byte stream

A reader takes one complete frame off the front of a buffer, or waits for more.
If it never looks past the frame it takes, then the frames read from a stream do
not depend on the pieces it arrives in, and the places where frames begin are a
property of the stream alone.
-/

namespace Gozarbin.Framing

open List

variable {α β : Type*} {read : List α → Option (β × List α)} {buffer rest more : List α}
  {frame : β}

structure Delimits (read : List α → Option (β × List α)) : Prop where
  front : ∀ {buffer frame rest}, read buffer = some (frame, rest) →
    ∃ taken, taken ≠ [] ∧ buffer = taken ++ rest
  local_ : ∀ {buffer frame rest more}, read buffer = some (frame, rest) →
    read (buffer ++ more) = some (frame, rest ++ more)

theorem Delimits.length_lt (delimits : Delimits read) (taken : read buffer = some (frame, rest)) :
    rest.length < buffer.length := by
  obtain ⟨front, nonempty, rfl⟩ := delimits.front taken
  have := length_pos_iff.mpr nonempty
  rw [length_append]
  omega

def readUpTo (read : List α → Option (β × List α)) : Nat → List α → List β × List α
  | 0, buffer => ([], buffer)
  | fuel + 1, buffer =>
    match read buffer with
    | none => ([], buffer)
    | some (frame, rest) =>
      (frame :: (readUpTo read fuel rest).1, (readUpTo read fuel rest).2)

def readAll (read : List α → Option (β × List α)) (buffer : List α) : List β × List α :=
  readUpTo read buffer.length buffer

theorem readUpTo_eq_readAll (delimits : Delimits read) {fuel : Nat} (enough : buffer.length ≤ fuel) :
    readUpTo read fuel buffer = readAll read buffer := by
  suffices same : ∀ {fuel fuel' : Nat} {buffer}, buffer.length ≤ fuel → buffer.length ≤ fuel' →
      readUpTo read fuel buffer = readUpTo read fuel' buffer from
    same enough (Nat.le_refl _)
  intro fuel
  induction fuel with
  | zero =>
    intro fuel' buffer empty _
    obtain rfl := length_eq_zero_iff.mp (Nat.le_zero.mp empty)
    cases fuel' with
    | zero => rfl
    | succ fuel' =>
      cases found : read ([] : List α) with
      | none => simp [readUpTo, found]
      | some next => exact absurd (delimits.length_lt found) (Nat.not_lt_zero _)
  | succ fuel ih =>
    intro fuel' buffer enough enough'
    cases found : read buffer with
    | none => cases fuel' <;> simp [readUpTo, found]
    | some next =>
      have shorter := delimits.length_lt found
      cases fuel' with
      | zero => omega
      | succ fuel' =>
        simp only [readUpTo, found, ih (by omega : next.2.length ≤ fuel)
          (by omega : next.2.length ≤ fuel')]

theorem readAll_of_none (waits : read buffer = none) : readAll read buffer = ([], buffer) := by
  unfold readAll
  cases buffer.length <;> simp [readUpTo, waits]

theorem readAll_of_some (delimits : Delimits read) (taken : read buffer = some (frame, rest)) :
    readAll read buffer = (frame :: (readAll read rest).1, (readAll read rest).2) := by
  have shorter := delimits.length_lt taken
  obtain ⟨fuel, same⟩ : ∃ fuel, buffer.length = fuel + 1 :=
    Nat.exists_eq_add_of_le' (Nat.zero_lt_of_lt shorter)
  rw [readAll, same, readUpTo]
  simp only [taken, readUpTo_eq_readAll delimits (by omega : rest.length ≤ fuel)]

theorem Delimits.induction {motive : List α → Prop} (delimits : Delimits read)
    (waits : ∀ buffer, read buffer = none → motive buffer)
    (takes : ∀ buffer frame rest, read buffer = some (frame, rest) → motive rest → motive buffer)
    (buffer : List α) : motive buffer := by
  induction length : buffer.length using Nat.strongRecOn generalizing buffer with
  | _ n ih =>
    cases found : read buffer with
    | none => exact waits buffer found
    | some next =>
      refine takes buffer next.1 next.2 found (ih _ ?_ next.2 rfl)
      rw [← length]
      exact delimits.length_lt found

theorem readAll_waits (delimits : Delimits read) (buffer : List α) :
    read (readAll read buffer).2 = none := by
  induction buffer using delimits.induction with
  | waits buffer waits => rwa [readAll_of_none waits]
  | takes buffer frame rest taken ih => rwa [readAll_of_some delimits taken]

theorem readAll_append (delimits : Delimits read) (buffer more : List α) :
    readAll read (buffer ++ more) =
      ((readAll read buffer).1 ++ (readAll read ((readAll read buffer).2 ++ more)).1,
        (readAll read ((readAll read buffer).2 ++ more)).2) := by
  induction buffer using delimits.induction with
  | waits buffer waits => simp [readAll_of_none waits]
  | takes buffer frame rest taken ih =>
    rw [readAll_of_some delimits (delimits.local_ taken), readAll_of_some delimits taken, ih]
    rfl

theorem readAll_flatMap {γ : Type*} (delimits : Delimits read) (write : γ → List α) (value : γ → β)
    (items : List γ) (tail : List α)
    (reads : ∀ item ∈ items, ∀ more, read (write item ++ more) = some (value item, more)) :
    readAll read (items.flatMap write ++ tail) =
      (items.map value ++ (readAll read tail).1, (readAll read tail).2) := by
  induction items with
  | nil => rfl
  | cons item items ih =>
    have first := reads item (mem_cons_self ..) (items.flatMap write ++ tail)
    have later := ih fun other member => reads other (mem_cons_of_mem _ member)
    rw [flatMap_cons, append_assoc, readAll_of_some delimits first, later]
    rfl

/-- The places of a stream where a frame begins: the start, and after each complete frame. -/
inductive Boundary (read : List α → Option (β × List α)) (stream : List α) : Nat → Prop where
  | start : Boundary read stream 0
  | next {place : Nat} {frame : β} {rest : List α} : Boundary read stream place →
      read (stream.drop place) = some (frame, rest) →
      Boundary read stream (stream.length - rest.length)

theorem Boundary.le {stream : List α} {place : Nat} (boundary : Boundary read stream place) :
    place ≤ stream.length := by
  cases boundary with
  | start => exact Nat.zero_le _
  | next => exact Nat.sub_le _ _

theorem Boundary.eq_zero {stream : List α} {place : Nat} (waits : read stream = none)
    (boundary : Boundary read stream place) : place = 0 := by
  induction boundary with
  | start => rfl
  | next before taken ih =>
    rw [ih, drop_zero, waits] at taken
    cases taken

theorem Boundary.append {stream : List α} {place : Nat} (delimits : Delimits read)
    (boundary : Boundary read stream place) (more : List α) :
    Boundary read (stream ++ more) place := by
  induction boundary with
  | start => exact .start
  | @next place frame rest before taken ih =>
    have longer : read ((stream ++ more).drop place) = some (frame, rest ++ more) := by
      rw [drop_append_of_le_length before.le]
      exact delimits.local_ taken
    have same : stream.length - rest.length = (stream ++ more).length - (rest ++ more).length := by
      rw [length_append, length_append]
      omega
    rw [same]
    exact .next ih longer

end Gozarbin.Framing
