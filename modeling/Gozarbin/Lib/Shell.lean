import Gozarbin.Lib.Runs

/-! # Shell scripts

A small part of `sh`: commands whose status steers what runs next, functions, scripts that run
other scripts, and `set -e`. A script means a process, a tree that says which command is next
for each status. Processes are run on their own, or side by side over a state they share.
-/

namespace Gozarbin.Shell

/-- What a script is made of. `C` are the commands that are not taken apart. -/
inductive Sh (C : Type) where
  | pass
  | cmd (c : C)
  | seq (first second : Sh C)
  | and (first second : Sh C)
  | or (first second : Sh C)
  | not (test : Sh C)
  | cond (test yes no : Sh C)
  | fn (body : Sh C)
  | script (errexit : Bool) (body : Sh C)
  | ret (status : Nat)
  | exit (status : Nat)

inductive Proc (C : Type) where
  | done (status : Nat)
  | act (c : C) (next : Nat → Proc C)

namespace Sh

variable {C ι : Type}

def block : List (Sh C) → Sh C
  | [] => .pass
  | [last] => last
  | first :: rest => .seq first (block rest)

def each (items : List ι) (body : ι → Sh C) : Sh C :=
  items.foldr (fun item rest => .seq (body item) rest) .pass

def after (strict : Bool) (exit next : Nat → Proc C) (status : Nat) : Proc C :=
  if strict && status ≠ 0 then exit status else next status

def denote : Sh C → (strict : Bool) → (back quit next : Nat → Proc C) → Proc C
  | .pass, _, _, _, next => next 0
  | .cmd c, strict, _, quit, next => .act c (after strict quit next)
  | .seq first second, strict, back, quit, next =>
    first.denote strict back quit fun _ => second.denote strict back quit next
  | .and first second, strict, back, quit, next =>
    first.denote false back quit fun status =>
      if status = 0 then second.denote strict back quit next else next status
  | .or first second, strict, back, quit, next =>
    first.denote false back quit fun status =>
      if status = 0 then next 0 else second.denote strict back quit next
  | .not test, _, back, quit, next =>
    test.denote false back quit fun status => next (if status = 0 then 1 else 0)
  | .cond test yes no, strict, back, quit, next =>
    test.denote false back quit fun status =>
      if status = 0 then yes.denote strict back quit next else no.denote strict back quit next
  | .fn body, strict, _, quit, next =>
    body.denote strict (after strict quit next) quit (after strict quit next)
  | .script errexit body, strict, _, quit, next =>
    body.denote errexit (after strict quit next) (after strict quit next) (after strict quit next)
  | .ret status, _, back, _, _ => back status
  | .exit status, _, _, quit, _ => quit status

def proc (sh : Sh C) : Proc C := sh.denote false .done .done .done

/-- Every command in the script satisfies `φ`. -/
def All (φ : C → Prop) : Sh C → Prop
  | .pass | .ret _ | .exit _ => True
  | .cmd c => φ c
  | .seq a b | .and a b | .or a b => a.All φ ∧ b.All φ
  | .not a | .fn a | .script _ a => a.All φ
  | .cond a b c => a.All φ ∧ b.All φ ∧ c.All φ

instance decidableAll {φ : C → Prop} [DecidablePred φ] : ∀ sh : Sh C, Decidable (sh.All φ)
  | .pass | .ret _ | .exit _ => .isTrue trivial
  | .cmd c => inferInstanceAs (Decidable (φ c))
  | .seq a b | .and a b | .or a b =>
    have : Decidable (a.All φ) := decidableAll a
    have : Decidable (b.All φ) := decidableAll b
    inferInstanceAs (Decidable (a.All φ ∧ b.All φ))
  | .not a | .fn a | .script _ a => decidableAll a
  | .cond a b c =>
    have : Decidable (a.All φ) := decidableAll a
    have : Decidable (b.All φ) := decidableAll b
    have : Decidable (c.All φ) := decidableAll c
    inferInstanceAs (Decidable (a.All φ ∧ b.All φ ∧ c.All φ))

variable {items : List ι} {body : ι → Sh C}

theorem all_each {φ : C → Prop} :
    (each items body).All φ ↔ ∀ item ∈ items, (body item).All φ := by
  induction items with
  | nil => simp [each, All]
  | cons item items ih =>
    rw [List.forall_mem_cons, ← ih]
    rfl

def rets : Sh C → Bool
  | .ret _ => true
  | .seq a b | .and a b | .or a b => a.rets || b.rets
  | .not a => a.rets
  | .cond a b c => a.rets || b.rets || c.rets
  | .pass | .cmd _ | .fn _ | .script _ _ | .exit _ => false

def exits : Sh C → (strict : Bool) → Bool
  | .exit _, _ => true
  | .cmd _, strict | .script _ _, strict => strict
  | .fn a, strict => strict || a.exits strict
  | .seq a b, strict => a.exits strict || b.exits strict
  | .and a b, strict | .or a b, strict => a.exits false || b.exits strict
  | .not a, _ => a.exits false
  | .cond a b c, strict => a.exits false || b.exits strict || c.exits strict
  | .pass, _ | .ret _, _ => false

theorem rets_each :
    (each items body).rets = items.any fun item => (body item).rets := by
  induction items with
  | nil => rfl
  | cons item items ih =>
    rw [List.any_cons, ← ih]
    rfl

theorem exits_each {strict : Bool} :
    (each items body).exits strict = items.any fun item => (body item).exits strict := by
  induction items with
  | nil => rfl
  | cons item items ih =>
    rw [List.any_cons, ← ih]
    rfl

def Keeps (X : Proc C → Prop) (strict : Bool) (sh : Sh C) : Prop :=
  ∀ back quit next, (sh.rets = true → ∀ n, X (back n)) →
    (sh.exits strict = true → ∀ n, X (quit n)) → (∀ n, X (next n)) →
      X (sh.denote strict back quit next)

variable {X : Proc C → Prop} {strict : Bool} {a b c : Sh C}

theorem after_of (strict : Bool) {quit next : Nat → Proc C} (quits : strict = true → ∀ n, X (quit n))
    (goes : ∀ n, X (next n)) (n : Nat) : X (after strict quit next n) := by
  unfold after
  split
  next fails => exact quits (by simp_all) n
  · exact goes n

namespace Keeps

theorem pass : Keeps X strict .pass := fun _ _ _ _ _ goes => goes 0

theorem ret {n : Nat} : Keeps X strict (.ret n) := fun _ _ _ backs _ _ => backs rfl n

theorem exit {n : Nat} : Keeps X strict (.exit n) := fun _ _ _ _ quits _ => quits rfl n

theorem cmd {c : C} (closed : ∀ next, (∀ n, X (next n)) → X (.act c next)) :
    Keeps X strict (.cmd c) :=
  fun _ _ _ _ quits goes => closed _ (after_of strict quits goes)

theorem seq (first : Keeps X strict a) (second : Keeps X strict b) : Keeps X strict (.seq a b) := by
  intro back quit next backs quits goes
  simp only [rets, exits, Bool.or_eq_true] at backs quits
  apply first _ _ _ (fun here => backs (.inl here)) (fun here => quits (.inl here))
  intro _
  exact second _ _ _ (fun here => backs (.inr here)) (fun here => quits (.inr here)) goes

theorem and (first : Keeps X false a) (second : Keeps X strict b) : Keeps X strict (.and a b) := by
  intro back quit next backs quits goes
  simp only [rets, exits, Bool.or_eq_true] at backs quits
  apply first _ _ _ (fun here => backs (.inl here)) (fun here => quits (.inl here))
  intro n
  split
  · exact second _ _ _ (fun here => backs (.inr here)) (fun here => quits (.inr here)) goes
  · exact goes n

theorem or (first : Keeps X false a) (second : Keeps X strict b) : Keeps X strict (.or a b) := by
  intro back quit next backs quits goes
  simp only [rets, exits, Bool.or_eq_true] at backs quits
  apply first _ _ _ (fun here => backs (.inl here)) (fun here => quits (.inl here))
  intro n
  split
  · exact goes 0
  · exact second _ _ _ (fun here => backs (.inr here)) (fun here => quits (.inr here)) goes

theorem not (test : Keeps X false a) : Keeps X strict (.not a) :=
  fun _ _ _ backs quits goes => test _ _ _ backs quits fun _ => goes _

theorem cond (test : Keeps X false a) (yes : Keeps X strict b) (no : Keeps X strict c) :
    Keeps X strict (.cond a b c) := by
  intro back quit next backs quits goes
  simp only [rets, exits, Bool.or_eq_true] at backs quits
  apply test _ _ _ (fun here => backs (.inl (.inl here))) (fun here => quits (.inl (.inl here)))
  intro n
  split
  · exact yes _ _ _ (fun here => backs (.inl (.inr here))) (fun here => quits (.inl (.inr here))) goes
  · exact no _ _ _ (fun here => backs (.inr here)) (fun here => quits (.inr here)) goes

theorem fn (body : Keeps X strict a) : Keeps X strict (.fn a) := by
  intro back quit next _ quits goes
  simp only [exits, Bool.or_eq_true] at quits
  have then_ := after_of strict (fun here => quits (.inl here)) goes
  exact body _ _ _ (fun _ => then_) (fun here => quits (.inr here)) then_

theorem script {errexit : Bool} (body : Keeps X errexit a) : Keeps X strict (.script errexit a) := by
  intro back quit next _ quits goes
  have then_ := after_of strict quits goes
  exact body _ _ _ (fun _ => then_) (fun _ => then_) then_

theorem of_all {φ : C → Prop}
    (closed : ∀ c next, φ c → (∀ n, X (next n)) → X (.act c next)) :
    ∀ {strict : Bool} {sh : Sh C}, sh.All φ → Keeps X strict sh
  | _, .pass, _ => pass
  | _, .cmd _, here => cmd fun next => closed _ next here
  | _, .seq _ _, all => seq (of_all closed all.1) (of_all closed all.2)
  | _, .and _ _, all => and (of_all closed all.1) (of_all closed all.2)
  | _, .or _ _, all => or (of_all closed all.1) (of_all closed all.2)
  | _, .not _, all => not (of_all closed all)
  | _, .cond _ _ _, all =>
    cond (of_all closed all.1) (of_all closed all.2.1) (of_all closed all.2.2)
  | _, .fn _, all => fn (of_all closed all)
  | _, .script _ _, all => script (of_all closed all)
  | _, .ret _, _ => ret
  | _, .exit _, _ => exit

end Keeps

theorem Keeps.proc (keeps : Keeps X false a) (ends : ∀ n, X (.done n)) : X a.proc :=
  keeps _ _ _ (fun _ => ends) (fun _ => ends) ends

end Sh

namespace Proc

variable {C : Type}

def trace (status : C → Nat) : Proc C → List C
  | .done _ => []
  | .act c next => c :: trace status (next (status c))

def result (status : C → Nat) : Proc C → Nat
  | .done n => n
  | .act c next => result status (next (status c))

def finished : Proc C → Bool
  | .done _ => true
  | .act _ _ => false

end Proc

/-- How a script or a part of it comes to its end. -/
inductive Outcome where
  | ends (status : Nat)
  | returns (status : Nat)
  | exits (status : Nat)
  deriving DecidableEq

namespace Outcome

variable {C : Type}

def status : Outcome → Nat
  | ends n | returns n | exits n => n

def go (back quit next : Nat → Proc C) : Outcome → Proc C
  | ends n => next n
  | returns n => back n
  | exits n => quit n

def settled (strict : Bool) (n : Nat) : Outcome := if strict && n ≠ 0 then exits n else ends n

theorem go_settled {strict : Bool} {n : Nat} {back quit next : Nat → Proc C} :
    (settled strict n).go back quit next = Sh.after strict quit next n := by
  unfold settled Sh.after
  split <;> rfl

@[simp] theorem settled_false {n : Nat} : settled false n = ends n := rfl

@[simp] theorem settled_true_zero : settled true 0 = ends 0 := rfl

end Outcome

namespace Sh

variable {C : Type}

def andThen (first : List C × Outcome) (second : Nat → List C × Outcome) : List C × Outcome :=
  match first.2 with
  | .ends n => (first.1 ++ (second n).1, (second n).2)
  | o => (first.1, o)

def eval (status : C → Nat) : Sh C → (strict : Bool) → List C × Outcome
  | .pass, _ => ([], .ends 0)
  | .cmd c, strict => ([c], .settled strict (status c))
  | .seq first second, strict =>
    andThen (first.eval status strict) fun _ => second.eval status strict
  | .and first second, strict =>
    andThen (first.eval status false) fun n =>
      if n = 0 then second.eval status strict else ([], .ends n)
  | .or first second, strict =>
    andThen (first.eval status false) fun n =>
      if n = 0 then ([], .ends 0) else second.eval status strict
  | .not test, _ =>
    andThen (test.eval status false) fun n => ([], .ends (if n = 0 then 1 else 0))
  | .cond test yes no, strict =>
    andThen (test.eval status false) fun n =>
      if n = 0 then yes.eval status strict else no.eval status strict
  | .fn body, strict =>
    let (commands, o) := body.eval status strict
    match o with
    | .exits n => (commands, .exits n)
    | o => (commands, .settled strict o.status)
  | .script errexit body, strict =>
    let (commands, o) := body.eval status errexit
    (commands, .settled strict o.status)
  | .ret n, _ => ([], .returns n)
  | .exit n, _ => ([], .exits n)

variable {status : C → Nat}

theorem mem_andThen {c : C} {first : List C × Outcome} {second : Nat → List C × Outcome} :
    c ∈ (andThen first second).1 ↔ c ∈ first.1 ∨ ∃ n, first.2 = .ends n ∧ c ∈ (second n).1 := by
  obtain ⟨commands, o⟩ := first
  cases o <;> simp [andThen]

theorem mem_seq {c : C} {strict : Bool} {first second : Sh C} :
    c ∈ ((Sh.seq first second).eval status strict).1 ↔
      c ∈ (first.eval status strict).1 ∨
        (∃ n, (first.eval status strict).2 = .ends n) ∧ c ∈ (second.eval status strict).1 := by
  simp only [eval, mem_andThen, exists_and_right]

theorem mem_cmd_seq {c d : C} {rest : Sh C} (other : d ≠ c) :
    d ∈ ((Sh.seq (.cmd c) rest).eval status true).1 ↔
      status c = 0 ∧ d ∈ (rest.eval status true).1 := by
  by_cases fine : status c = 0 <;> simp [eval, mem_andThen, Outcome.settled, fine, other]

@[simp] theorem commands_fn {strict : Bool} {body : Sh C} :
    ((Sh.fn body).eval status strict).1 = (body.eval status strict).1 := by
  simp only [eval]
  split <;> rfl

def Reaches (status : C → Nat) (p : Proc C) (commands : List C) (q : Proc C) : Prop :=
  p.trace status = commands ++ q.trace status ∧ p.result status = q.result status

theorem Reaches.andThen {p : Proc C} {first : List C × Outcome} {second : Nat → List C × Outcome}
    {back quit next : Nat → Proc C} {middle : Nat → Proc C}
    (begins : Reaches status p first.1 (first.2.go back quit middle))
    (goes : ∀ n, Reaches status (middle n) (second n).1 ((second n).2.go back quit next)) :
    Reaches status p (andThen first second).1 ((Sh.andThen first second).2.go back quit next) := by
  obtain ⟨commands, o⟩ := first
  cases o with
  | ends n =>
    have later := goes n
    simp only [Outcome.go] at begins
    refine ⟨?_, begins.2.trans later.2⟩
    rw [begins.1, later.1, ← List.append_assoc]
    rfl
  | returns n => exact begins
  | exits n => exact begins

theorem denote_reaches (status : C → Nat) (sh : Sh C) (strict : Bool) (back quit next : Nat → Proc C) :
    Reaches status (sh.denote strict back quit next) (sh.eval status strict).1
      ((sh.eval status strict).2.go back quit next) := by
  induction sh generalizing strict back quit next with
  | pass => exact ⟨rfl, rfl⟩
  | cmd c =>
    simp only [eval, Outcome.go_settled]
    exact ⟨rfl, rfl⟩
  | seq first second ihf ihs => exact (ihf _ _ _ _).andThen fun _ => ihs _ _ _ _
  | and first second ihf ihs =>
    refine (ihf _ _ _ _).andThen fun n => ?_
    split
    · exact ihs _ _ _ _
    · exact ⟨rfl, rfl⟩
  | or first second ihf ihs =>
    refine (ihf _ _ _ _).andThen fun n => ?_
    split
    · exact ⟨rfl, rfl⟩
    · exact ihs _ _ _ _
  | not test ih => exact (ih _ _ _ _).andThen fun _ => ⟨rfl, rfl⟩
  | cond test yes no iht ihy ihn =>
    refine (iht _ _ _ _).andThen fun n => ?_
    split
    · exact ihy _ _ _ _
    · exact ihn _ _ _ _
  | fn body ih =>
    have inner := ih strict (after strict quit next) quit (after strict quit next)
    simp only [eval]
    cases o : (body.eval status strict).2 with
    | exits n =>
      rw [o] at inner
      exact inner
    | ends n =>
      rw [o] at inner
      simp only [Outcome.go_settled]
      exact inner
    | returns n =>
      rw [o] at inner
      simp only [Outcome.go_settled]
      exact inner
  | script errexit body ih =>
    have inner := ih errexit (after strict quit next) (after strict quit next)
      (after strict quit next)
    simp only [eval, Outcome.go_settled]
    cases o : (body.eval status errexit).2 <;>
      · rw [o] at inner
        exact inner
  | ret n => exact ⟨rfl, rfl⟩
  | exit n => exact ⟨rfl, rfl⟩

theorem trace_proc (sh : Sh C) : sh.proc.trace status = (sh.eval status false).1 := by
  have reaches := denote_reaches status sh false .done .done .done
  rw [proc, reaches.1]
  cases (sh.eval status false).2 <;> exact List.append_nil _

end Sh

inductive Side where
  | left
  | right
  deriving DecidableEq

structure Par (C S : Type) where
  left : Proc C
  right : Proc C
  state : S

namespace Par

variable {C S A : Type}

def side (w : Par C S) : Side → Proc C
  | .left => w.left
  | .right => w.right

def set (w : Par C S) : Side → Proc C → S → Par C S
  | .left, p, s => { w with left := p, state := s }
  | .right, p, s => { w with right := p, state := s }

def step (exec : Side → C → A → S → S × Nat) (w : Par C S) (e : Side × A) : Option (Par C S) :=
  match w.side e.1 with
  | .done _ => some w
  | .act c next =>
    let (s, status) := exec e.1 c e.2 w.state
    some (w.set e.1 (next status) s)

theorem step_cases {exec : Side → C → A → S → S × Nat} {w w' : Par C S} {e : Side × A}
    (next : w.step exec e = some w') :
    (∃ n, w.side e.1 = .done n) ∧ w' = w ∨
      ∃ c k, w.side e.1 = .act c k ∧
        w' = w.set e.1 (k (exec e.1 c e.2 w.state).2) (exec e.1 c e.2 w.state).1 := by
  unfold step at next
  split at next
  next n ended =>
    cases next
    exact .inl ⟨⟨n, ended⟩, rfl⟩
  next c k here =>
    cases next
    exact .inr ⟨c, k, here, rfl⟩

end Par

end Gozarbin.Shell
