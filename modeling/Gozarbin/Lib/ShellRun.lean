import Gozarbin.Lib.Shell

/-! # Shell scripts on a state

What a script does to a state that its commands read and change. When a script that was run as a
child ends, its status is noted in the state.
-/

namespace Gozarbin.Shell

namespace Sh

variable {C S : Type}

def followed (first : S × Outcome) (second : Nat → S → S × Outcome) : S × Outcome :=
  match first.2 with
  | .ends n => second n first.1
  | .returns n => (first.1, .returns n)
  | .exits n => (first.1, .exits n)

def called (strict : Bool) (body : S × Outcome) : S × Outcome :=
  match body.2 with
  | .exits n => (body.1, .exits n)
  | .ends n | .returns n => (body.1, .settled strict n)

section
variable (exec : C → S → S × Nat) (note : Nat → S → S)

def run : Sh C → (strict : Bool) → S → S × Outcome
  | .pass, _, s => (s, .ends 0)
  | .cmd c, strict, s => ((exec c s).1, .settled strict (exec c s).2)
  | .seq first second, strict, s =>
    followed (first.run strict s) fun _ s => second.run strict s
  | .and first second, strict, s =>
    followed (first.run false s) fun n s => if n = 0 then second.run strict s else (s, .ends n)
  | .or first second, strict, s =>
    followed (first.run false s) fun n s => if n = 0 then (s, .ends 0) else second.run strict s
  | .not test, _, s =>
    followed (test.run false s) fun n s => (s, .ends (if n = 0 then 1 else 0))
  | .cond test yes no, strict, s =>
    followed (test.run false s) fun n s => if n = 0 then yes.run strict s else no.run strict s
  | .fn body, strict, s => called strict (body.run strict s)
  | .script errexit body, strict, s =>
    (note (body.run errexit s).2.status (body.run errexit s).1,
      .settled strict (body.run errexit s).2.status)
  | .ret n, _, s => (s, .returns n)
  | .exit n, _, s => (s, .exits n)

end

variable {exec : C → S → S × Nat} {note : Nat → S → S} {P : S → Prop}

@[simp] theorem called_fst (strict : Bool) (body : S × Outcome) : (called strict body).1 = body.1 := by
  unfold called
  split <;> rfl

theorem followed_keeps {first : S × Outcome} {second : Nat → S → S × Outcome} (holds : P first.1)
    (later : ∀ n s, P s → P (second n s).1) : P (followed first second).1 := by
  unfold followed
  split
  · exact later _ _ holds
  · exact holds
  · exact holds

theorem run_cmd_seq (c : C) (rest : Sh C) (s : S) :
    (Sh.seq (.cmd c) rest).run exec note true s =
      if (exec c s).2 = 0 then rest.run exec note true (exec c s).1
      else ((exec c s).1, .exits (exec c s).2) := by
  by_cases fine : (exec c s).2 = 0 <;> simp [run, followed, Outcome.settled, fine]

variable {sh : Sh C} {φ : C → Prop}

theorem All.imp {ψ : C → Prop} (implies : ∀ c, φ c → ψ c) (each : sh.All φ) : sh.All ψ := by
  induction sh with
  | pass | ret _ | exit _ => trivial
  | cmd c => exact implies c each
  | seq _ _ iha ihb | and _ _ iha ihb | or _ _ iha ihb => exact ⟨iha each.1, ihb each.2⟩
  | not _ ih | fn _ ih | script _ _ ih => exact ih each
  | cond _ _ _ iht ihy ihn => exact ⟨iht each.1, ihy each.2.1, ihn each.2.2⟩

theorem all_of_forall (every : ∀ c, φ c) (sh : Sh C) : sh.All φ := by
  induction sh with
  | pass | ret _ | exit _ => trivial
  | cmd c => exact every c
  | seq _ _ iha ihb | and _ _ iha ihb | or _ _ iha ihb => exact ⟨iha, ihb⟩
  | not _ ih | fn _ ih | script _ _ ih => exact ih
  | cond _ _ _ iht ihy ihn => exact ⟨iht, ihy, ihn⟩

variable {strict : Bool}

theorem run_keeps (notes : ∀ n s, P s → P (note n s))
    (keeps : ∀ c s, φ c → P s → P (exec c s).1) (each : sh.All φ) {s : S}
    (holds : P s) : P (sh.run exec note strict s).1 := by
  induction sh generalizing strict s with
  | pass => exact holds
  | cmd c => exact keeps c s each holds
  | seq first second ihf ihs =>
    exact followed_keeps (ihf each.1 holds) fun _ _ => ihs each.2
  | and first second ihf ihs =>
    apply followed_keeps (ihf each.1 holds)
    intro n s holds
    split
    · exact ihs each.2 holds
    · exact holds
  | or first second ihf ihs =>
    apply followed_keeps (ihf each.1 holds)
    intro n s holds
    split
    · exact holds
    · exact ihs each.2 holds
  | not test ih => exact followed_keeps (ih each holds) fun _ _ holds => holds
  | cond test yes no iht ihy ihn =>
    apply followed_keeps (iht each.1 holds)
    intro n s holds
    split
    · exact ihy each.2.1 holds
    · exact ihn each.2.2 holds
  | fn body ih =>
    rw [run, called_fst]
    exact ih each holds
  | script errexit body ih => exact notes _ _ (ih each holds)
  | ret n => exact holds
  | exit n => exact holds

def quits : Sh C → Bool
  | .exit _ => true
  | .seq a b | .and a b | .or a b => a.quits || b.quits
  | .not a | .fn a | .script _ a => a.quits
  | .cond a b c => a.quits || b.quits || c.quits
  | .pass | .cmd _ | .ret _ => false

inductive Comes (rets exits : Bool) : Outcome → Prop where
  | ends (n : Nat) : Comes rets exits (.ends n)
  | returns (n : Nat) (some_ : rets = true) : Comes rets exits (.returns n)
  | exits (n : Nat) (some_ : exits = true) (failed : n ≠ 0) : Comes rets exits (.exits n)

variable {exits rets : Bool}

theorem Comes.mono {rets' exits' : Bool} {o : Outcome} (comes : Comes rets exits o)
    (more : rets = true → rets' = true) (more' : exits = true → exits' = true) : Comes rets' exits' o := by
  cases comes with
  | ends n => exact .ends n
  | returns n some_ => exact .returns n (more some_)
  | exits n some_ failed => exact .exits n (more' some_) failed

theorem comes_settled (strict : Bool) (n : Nat) (some_ : strict = true → exits = true) :
    Comes false exits (.settled strict n) := by
  unfold Outcome.settled
  split
  next failed =>
    simp only [Bool.and_eq_true, decide_eq_true_eq] at failed
    exact .exits n (some_ failed.1) failed.2
  next => exact .ends n

theorem comes_followed {rets' exits' : Bool} {first : S × Outcome}
    {second : Nat → S → S × Outcome} (here : Comes rets exits first.2)
    (later : ∀ n s, Comes rets' exits' (second n s).2) :
    Comes (rets || rets') (exits || exits') (followed first second).2 := by
  obtain ⟨s, o⟩ := first
  cases here with
  | ends n =>
    apply (later n s).mono
    · exact fun some_ => by rw [some_, Bool.or_true]
    · exact fun some_ => by rw [some_, Bool.or_true]
  | returns n some_ => exact .returns n (by rw [some_, Bool.true_or])
  | exits n some_ failed => exact .exits n (by rw [some_, Bool.true_or]) failed

theorem comes_called {body : S × Outcome} (comes : Comes rets exits body.2) :
    Comes false (strict || exits) (called strict body).2 := by
  obtain ⟨s, o⟩ := body
  cases comes with
  | ends n => exact comes_settled strict n fun some_ => by rw [some_, Bool.true_or]
  | returns n _ => exact comes_settled strict n fun some_ => by rw [some_, Bool.true_or]
  | exits n some_ failed => exact .exits n (by rw [some_, Bool.or_true]) failed

theorem run_comes (plain : sh.quits = false) {s : S} :
    Comes sh.rets (sh.exits strict) (sh.run exec note strict s).2 := by
  induction sh generalizing strict s with
  | pass => exact .ends 0
  | cmd c => exact comes_settled strict _ id
  | seq first second ihf ihs =>
    simp only [quits, Bool.or_eq_false_iff] at plain
    exact comes_followed (ihf plain.1) fun _ _ => ihs plain.2
  | and first second ihf ihs =>
    simp only [quits, Bool.or_eq_false_iff] at plain
    apply comes_followed (ihf plain.1)
    intro n s
    split
    · exact ihs plain.2
    · exact .ends n
  | or first second ihf ihs =>
    simp only [quits, Bool.or_eq_false_iff] at plain
    apply comes_followed (ihf plain.1)
    intro n s
    split
    · exact .ends 0
    · exact ihs plain.2
  | not test ih =>
    rw [rets, exits, ← Bool.or_false test.rets, ← Bool.or_false (test.exits false)]
    exact comes_followed (ih plain) fun _ _ => .ends _
  | cond test yes no iht ihy ihn =>
    simp only [quits, Bool.or_eq_false_iff] at plain
    simp only [rets, exits, Bool.or_assoc]
    apply comes_followed (iht plain.1.1)
    intro n s
    split
    · apply (ihy plain.1.2).mono
      · exact fun some_ => by rw [some_, Bool.true_or]
      · exact fun some_ => by rw [some_, Bool.true_or]
    · apply (ihn plain.2).mono
      · exact fun some_ => by rw [some_, Bool.or_true]
      · exact fun some_ => by rw [some_, Bool.or_true]
  | fn body ih => exact comes_called (ih plain)
  | script errexit body ih => exact comes_settled strict _ id
  | ret n => exact .returns n rfl
  | exit n => cases plain

theorem quits_each {ι : Type} {items : List ι} {body : ι → Sh C} :
    (each items body).quits = items.any fun item => (body item).quits := by
  induction items with
  | nil => rfl
  | cons item items ih =>
    rw [List.any_cons, ← ih]
    rfl

theorem run_ends (plain : sh.quits = false) (stays : sh.rets = false)
    (lasts : sh.exits strict = false) (s : S) : ∃ n, (sh.run exec note strict s).2 = .ends n := by
  have comes : Comes sh.rets (sh.exits strict) (sh.run exec note strict s).2 := run_comes plain
  rw [stays, lasts] at comes
  generalize (sh.run exec note strict s).2 = o at comes
  cases comes with
  | ends n => exact ⟨n, rfl⟩
  | returns n some_ => cases some_
  | exits n some_ _ => cases some_

theorem run_seq {first : Sh C} (plain : first.quits = false) (stays : first.rets = false)
    (lasts : first.exits strict = false) (second : Sh C) (s : S) :
    (Sh.seq first second).run exec note strict s =
      second.run exec note strict (first.run exec note strict s).1 := by
  obtain ⟨n, ends⟩ : ∃ n, (first.run exec note strict s).2 = .ends n := run_ends plain stays lasts s
  rw [run, followed, ends]

theorem run_block {first next : Sh C} (plain : first.quits = false)
    (stays : first.rets = false) (lasts : first.exits strict = false) (rest : List (Sh C)) (s : S) :
    (block (first :: next :: rest)).run exec note strict s =
      (block (next :: rest)).run exec note strict (first.run exec note strict s).1 :=
  run_seq plain stays lasts _ s

end Sh

end Gozarbin.Shell
