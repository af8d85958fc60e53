import Gozarbin.Lib.Search
import Mathlib.Computability.StateTransition

/-! # Reading a stream in pieces

In each of its stages a reader waits for more of the stream, fails, or takes some of what has
come and goes on. If what it does does not change when more comes, then it comes to rest in the
same place whether the stream came in pieces or at once.
-/

namespace Gozarbin.Resume

open List StateTransition Search

inductive Move (σ ε : Type*) where
  | wait
  | fail (e : ε)
  | go (taken : Nat) (stage : σ)

def Move.map {σ τ ε : Type*} (f : σ → τ) : Move σ ε → Move τ ε
  | .wait => .wait
  | .fail e => .fail e
  | .go n s => .go n (f s)

theorem Move.map_eq_go {σ τ ε : Type*} {f : σ → τ} {m : Move σ ε} {n : Nat} {t : τ} :
    m.map f = .go n t ↔ ∃ s, m = .go n s ∧ f s = t := by
  cases m <;> simp [map]

theorem Move.map_eq_wait {σ τ ε : Type*} {f : σ → τ} {m : Move σ ε} : m.map f = .wait ↔ m = .wait := by
  cases m <;> simp [map]

structure Reader (α σ ε : Type*) where
  move : σ → List α → Move σ ε
  taken_le {s s' : σ} {xs : List α} {n : Nat} (goes : move s xs = .go n s') : n ≤ xs.length
  stable {s : σ} {xs : List α} (moves : move s xs ≠ .wait) (ys : List α) : move s (xs ++ ys) = move s xs

variable {α σ ε : Type*} (r : Reader α σ ε)

def Reader.next : σ × List α → Option (σ × List α)
  | (s, xs) =>
    match r.move s xs with
    | .go n s' => some (s', xs.drop n)
    | _ => none

def Reader.Takes (s : σ) (xs : List α) (s' : σ) : Prop := Reaches r.next (s, xs) (s', [])

section
variable {r} {s s' s'' : σ} {xs xs' ys : List α} {n : Nat} {e : ε} {c : σ × List α}

theorem Reader.next_eq_some :
    r.next (s, xs) = some c ↔ ∃ n s', r.move s xs = .go n s' ∧ c = (s', xs.drop n) := by
  rw [next]
  split
  next n s' goes => simp [goes, eq_comm]
  next still =>
    refine iff_of_false nofun ?_
    rintro ⟨n, s', goes, -⟩
    exact still n s' goes

theorem Reader.next_of_go (goes : r.move s xs = .go n s') : r.next (s, xs) = some (s', xs.drop n) :=
  next_eq_some.mpr ⟨n, s', goes, rfl⟩

theorem Reader.next_of_wait (waits : r.move s xs = .wait) : r.next (s, xs) = none := by
  rw [next, waits]

theorem Reader.next_of_fail (fails : r.move s xs = .fail e) : r.next (s, xs) = none := by
  rw [next, fails]

theorem Reader.next_append (moves : r.next (s, xs) = some (s', xs')) (ys : List α) :
    r.next (s, xs ++ ys) = some (s', xs' ++ ys) := by
  obtain ⟨n, t, goes, same⟩ := next_eq_some.mp moves
  cases same
  rw [← drop_append_of_le_length (r.taken_le goes)]
  refine next_of_go ?_
  rwa [r.stable (by simp [goes])]

theorem reaches_map {σ τ : Type*} {f : σ → Option σ} {g : τ → Option τ} (h : σ → τ)
    (follows : ∀ {a b}, f a = some b → g (h a) = some (h b)) {a b : σ} (reaches : Reaches f a b) :
    Reaches g (h a) (h b) := by
  induction reaches with
  | refl => exact .refl
  | tail _ moves ih => exact ih.tail (follows moves)

theorem Reader.reaches_append (reaches : Reaches r.next (s, xs) (s', xs')) (ys : List α) :
    Reaches r.next (s, xs ++ ys) (s', xs' ++ ys) :=
  reaches_map (fun c => (c.1, c.2 ++ ys)) (fun moves => next_append moves ys) reaches

theorem Reader.eval_append (rests : c ∈ eval r.next (s, xs)) (ys : List α) :
    eval r.next (s, xs ++ ys) = eval r.next (c.1, c.2 ++ ys) :=
  reaches_eval (reaches_append (mem_eval.mp rests).1 ys)

theorem mem_eval_self {f : σ → Option σ} {c : σ} (rests : f c = none) : c ∈ eval f c :=
  mem_eval.mpr ⟨.refl, rests⟩

theorem mem_eval_step {f : σ → Option σ} {a b c : σ} (moves : f a = some b) (rests : c ∈ eval f b) :
    c ∈ eval f a := by
  rwa [reaches_eval (.single moves)]

theorem Reader.Takes.refl (s : σ) : r.Takes s [] s := Relation.ReflTransGen.refl

theorem Reader.Takes.trans (first : r.Takes s xs s') (second : r.Takes s' ys s'') :
    r.Takes s (xs ++ ys) s'' :=
  (reaches_append first ys).trans second

theorem Reader.Takes.of_go (goes : r.move s xs = .go xs.length s') : r.Takes s xs s' := by
  refine .single ?_
  rw [Option.mem_def, next_of_go goes, drop_length]

theorem Reader.Takes.reaches (takes : r.Takes s xs s') (ys : List α) :
    Reaches r.next (s, xs ++ ys) (s', ys) :=
  reaches_append takes ys

theorem Reader.Takes.eval (takes : r.Takes s xs s') (ys : List α) :
    eval r.next (s, xs ++ ys) = eval r.next (s', ys) :=
  reaches_eval (takes.reaches ys)

structure Reader.Feeds (r : Reader α σ ε) (P : σ × List α → Prop) (s : σ) (xs : List α) (s' : σ) :
    Prop where
  takes : r.Takes s xs s'
  waits : ∀ front rest, xs = front ++ rest → rest ≠ [] →
    ∃ c ∈ StateTransition.eval r.next (s, front), r.move c.1 c.2 = .wait ∧ P c

section
variable {P Q : σ × List α → Prop}

theorem Reader.Feeds.of_go (goes : r.move s xs = .go xs.length s')
    (waits : ∀ front rest, xs = front ++ rest → rest ≠ [] → r.move s front = .wait ∧ P (s, front)) :
    r.Feeds P s xs s' where
  takes := .of_go goes
  waits front rest split more := by
    obtain ⟨still, part⟩ := waits front rest split more
    exact ⟨(s, front), mem_eval_self (r.next_of_wait still), still, part⟩

theorem Reader.Feeds.trans (first : r.Feeds P s xs s') (second : r.Feeds P s' ys s'') :
    r.Feeds P s (xs ++ ys) s'' where
  takes := first.takes.trans second.takes
  waits front rest split more := by
    rcases append_eq_append_iff.mp split with ⟨front', rfl, rfl⟩ | ⟨rest', rfl, rfl⟩
    · rw [first.takes.eval]
      exact second.waits front' rest rfl more
    · cases rest' with
      | nil =>
        have empty := second.waits [] ys rfl more
        rwa [← first.takes.eval, append_nil, append_nil] at empty
      | cons a rest' => exact first.waits front (a :: rest') rfl (cons_ne_nil a rest')

theorem Reader.Feeds.mono (feeds : r.Feeds P s xs s') (weaker : ∀ c, P c → Q c) : r.Feeds Q s xs s' where
  takes := feeds.takes
  waits front rest split more := by
    obtain ⟨c, rests, still, part⟩ := feeds.waits front rest split more
    exact ⟨c, rests, still, weaker c part⟩

end

end

section
variable [DecidableEq α] {needle xs ys : List α} {after : List α → Except ε σ} {n : Nat} {s : σ}

def seek (needle : List α) (after : List α → Except ε σ) (xs : List α) : Move σ ε :=
  match position needle xs with
  | none => .wait
  | some n =>
    match after (xs.take n) with
    | .error e => .fail e
    | .ok s => .go (n + needle.length) s

theorem seek_found (found : position needle xs = some n) :
    seek needle after xs =
      match after (xs.take n) with
      | .error e => .fail e
      | .ok s => .go (n + needle.length) s := by
  rw [seek, found]

theorem seek_of_position (some_ : needle ≠ []) (found : position needle xs = some n) (ys : List α) :
    seek needle after (xs ++ ys) = seek needle after xs := by
  have bound := position_bound some_ found
  rw [seek, seek, position_append some_ found, found]
  dsimp only
  rw [take_append_of_le_length (by omega)]

theorem seek_append (some_ : needle ≠ []) (moves : seek needle after xs ≠ .wait) (ys : List α) :
    seek needle after (xs ++ ys) = seek needle after xs := by
  cases found : position needle xs with
  | none =>
    rw [seek, found] at moves
    exact absurd rfl moves
  | some n => exact seek_of_position some_ found ys

theorem eq_of_seek (some_ : needle ≠ []) (goes : seek needle after xs = .go n s) :
    ∃ front rest, xs = front ++ needle ++ rest ∧ Until needle front ∧ after front = .ok s ∧
      n = (front ++ needle).length := by
  rw [seek] at goes
  split at goes
  next => cases goes
  next m found =>
    obtain ⟨front, rest, rfl, rfl, before⟩ := until_of_position some_ found
    rw [append_assoc, take_left] at goes
    split at goes
    next => cases goes
    next t done =>
      cases goes
      exact ⟨front, rest, rfl, before, done, length_append.symm⟩

theorem seek_taken (some_ : needle ≠ []) (goes : seek needle after xs = .go n s) : n ≤ xs.length := by
  obtain ⟨front, rest, rfl, -, -, rfl⟩ := eq_of_seek some_ goes
  simp

theorem seek_until (some_ : needle ≠ []) (before : Until needle xs) (done : after xs = .ok s) :
    seek needle after (xs ++ needle) = .go (xs ++ needle).length s := by
  rw [seek, (until_iff_position some_).mp before]
  dsimp only
  rw [take_left, done, length_append]

theorem seek_eq_wait : seek needle after xs = .wait ↔ position needle xs = none := by
  rw [seek]
  split
  next none_ => exact iff_of_true rfl none_
  next n found =>
    rw [found]
    refine iff_of_false (fun waits => ?_) (Option.some_ne_none n)
    split at waits <;> cases waits

theorem seek_part (some_ : needle ≠ []) (before : Until needle xs) {front rest : List α}
    (split : xs ++ needle = front ++ rest) (more : rest ≠ []) : seek needle after front = .wait :=
  seek_eq_wait.mpr (before.position_part some_ split more)

end

end Gozarbin.Resume
