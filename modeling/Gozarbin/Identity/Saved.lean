import Mathlib.Logic.Function.Basic
import Gozarbin.Lib.Runs
import Gozarbin.Net.Addr

/-! # Saving an identity

`write_private` writes a document to a temporary file beside the one it is for, and renames it.
All calls for one path in one process share the temporary file. Each operation on a file is a
step that may fail and may come between the steps of other calls; a document is written byte by
byte.
-/

namespace Gozarbin.Identity

open List Runs

/-- Which file each of the two names stands for, and what the files hold. Files from `next` on
    are new. -/
structure Disk where
  path : Option Nat
  temporary : Option Nat
  contents : Nat → Bytes
  next : Nat

namespace Disk

def saved (d : Disk) : Option Bytes := d.path.map d.contents

def openTemporary (d : Disk) : Disk × Nat :=
  match d.temporary with
  | some file => ({ d with contents := Function.update d.contents file [] }, file)
  | none =>
    ({ d with
      temporary := some d.next
      contents := Function.update d.contents d.next []
      next := d.next + 1 }, d.next)

def overwrite (bytes : Bytes) (offset : Nat) (byte : UInt8) : Bytes :=
  if offset < bytes.length then bytes.set offset byte
  else bytes ++ List.replicate (offset - bytes.length) 0 ++ [byte]

def writeByte (d : Disk) (file offset : Nat) (byte : UInt8) : Disk :=
  { d with contents := Function.update d.contents file (overwrite (d.contents file) offset byte) }

end Disk

/-- Where a call is; `update` is what `save_masque_creds` makes of what is saved. -/
inductive Phase where
  | checks (update : Bytes → Option Bytes)
  | reads (update : Bytes → Option Bytes)
  | makesDir (document : Bytes)
  | opens (document : Bytes)
  | writes (document : Bytes) (file written : Nat)
  | syncs (document : Bytes)
  | permits (document : Bytes)
  | renames (document : Bytes)
  | removes
  | returned (ok : Bool)

namespace Phase

def step (d : Disk) (ok : Bool) : Phase → Disk × Phase
  | .checks update => (d, if ok && d.path.isSome then .reads update else .returned true)
  | .reads update =>
    match ok, d.saved with
    | true, some text =>
      match update text with
      | some document => (d, .makesDir document)
      | none => (d, .returned false)
    | _, _ => (d, .returned false)
  | .makesDir document => (d, if ok then .opens document else .returned false)
  | .opens document =>
    if ok then (d.openTemporary.1, .writes document d.openTemporary.2 0) else (d, .removes)
  | .writes document file written =>
    if ok then
      match document[written]? with
      | some byte => (d.writeByte file written byte, .writes document file (written + 1))
      | none => (d, .syncs document)
    else (d, .removes)
  | .syncs document => (d, if ok then .permits document else .removes)
  | .permits document => (d, if ok && d.temporary.isSome then .renames document else .removes)
  | .renames _ =>
    match ok, d.temporary with
    | true, some file => ({ d with path := some file, temporary := none }, .returned true)
    | _, _ => (d, .removes)
  | .removes => (if ok then { d with temporary := none } else d, .returned false)
  | .returned result => (d, .returned result)

def isOpens : Phase → Bool
  | .opens _ => true
  | _ => false

def holds : Phase → Bool
  | .writes _ _ _ | .syncs _ | .permits _ | .renames _ | .removes => true
  | _ => false

def completes : Phase → Option Bytes
  | .syncs document => some document
  | _ => none

end Phase

inductive SaveEvent where
  | save (document : Bytes)
  | saveMasqueCreds (update : Bytes → Option Bytes)
  | goes (call : Nat) (ok : Bool)

/-- The disk and the calls, the documents written in full, and the calls that changed what is
    saved. -/
structure World where
  disk : Disk
  calls : List Phase := []
  complete : List Bytes := []
  changed : List Nat := []

namespace World

def initial (previous leftover : Option Bytes) : World where
  disk :=
    { path := previous.map fun _ => 0
      temporary := leftover.map fun _ => 1
      contents := fun file => if file = 0 then previous.getD [] else leftover.getD []
      next := 2 }

def step (w : World) : SaveEvent → Option World
  | .save document => some { w with calls := w.calls ++ [.makesDir document] }
  | .saveMasqueCreds update => some { w with calls := w.calls ++ [.checks update] }
  | .goes call ok =>
    match w.calls[call]? with
    | none => some w
    | some phase =>
      let (disk, phase') := phase.step w.disk ok
      some {
        disk
        calls := w.calls.set call phase'
        complete := w.complete ++ phase'.completes.toList
        changed := if disk.saved = w.disk.saved then w.changed else w.changed ++ [call] }

/-- What is saved is what was, or a document that a call has written in full; a call that
    changed it has succeeded. -/
structure Intact (previous : Option Bytes) (w : World) : Prop where
  whole : w.disk.saved = previous ∨ ∃ document ∈ w.complete, w.disk.saved = some document
  succeeded : ∀ call ∈ w.changed, w.calls[call]? = some (.returned true)

/-- A call opens the temporary file when no other call has it in use. -/
def OpensAlone (w : World) : SaveEvent → Prop
  | .goes call _ => (w.calls[call]?.any Phase.isOpens) = true → ∀ phase ∈ w.calls, phase.holds = false
  | _ => True

end World

structure Disk.Tidy (d : Disk) : Prop where
  path_lt : ∀ file, d.path = some file → file < d.next
  temporary_lt : ∀ file, d.temporary = some file → file < d.next
  apart : ∀ file, d.path = some file → d.temporary ≠ some file

def Phase.Owns (d : Disk) (complete : List Bytes) : Phase → Prop
  | .writes document file written =>
    d.temporary = some file ∧ d.contents file = document.take written ∧ written ≤ document.length
  | .syncs document | .permits document | .renames document =>
    document ∈ complete ∧ ∃ file, d.temporary = some file ∧ d.contents file = document
  | _ => True

structure Phase.Stepped (d : Disk) (complete : List Bytes) (p : Phase) (d' : Disk) (p' : Phase) :
    Prop where
  tidy : d'.Tidy
  owns : p'.Owns d' (complete ++ p'.completes.toList)
  saved : d'.saved = d.saved ∨
    ∃ document ∈ complete, d'.saved = some document ∧ p' = .returned true
  takes : p.holds = false → p'.holds = true → p.isOpens = true
  idle : p.holds = false → p.isOpens = false → d' = d ∧ p'.completes = none
  final : ∀ ok, p = .returned ok → p' = p

section
variable {d : Disk} {complete : List Bytes}

theorem Disk.saved_update {file : Nat} {bytes : Bytes} (other : d.path ≠ some file) :
    (d.path.map (Function.update d.contents file bytes)) = d.saved := by
  rw [Disk.saved]
  cases named : d.path with
  | none => rfl
  | some saved =>
    have apart : saved ≠ file := fun same => other (same ▸ named)
    simp [Function.update_of_ne apart]

theorem Disk.Tidy.openTemporary (tidy : d.Tidy) :
    d.openTemporary.1.Tidy ∧ d.openTemporary.1.temporary = some d.openTemporary.2 ∧
      d.openTemporary.1.contents d.openTemporary.2 = [] ∧
      d.openTemporary.1.saved = d.saved := by
  rw [Disk.openTemporary]
  cases named : d.temporary with
  | some file =>
    have other : d.path ≠ some file := fun same => tidy.apart file same named
    exact ⟨⟨tidy.path_lt, fun f eq => tidy.temporary_lt f (named.trans eq),
      fun f at_path eq => tidy.apart f at_path (named.trans eq)⟩, rfl, by simp, saved_update other⟩
  | none =>
    have other : d.path ≠ some d.next := fun same => Nat.lt_irrefl _ (tidy.path_lt _ same)
    refine ⟨⟨fun file at_path => ?_, fun file at_temporary => ?_, fun file at_path same => ?_⟩,
      rfl, by simp, saved_update other⟩
    · exact Nat.lt_succ_of_lt (tidy.path_lt file at_path)
    · cases at_temporary
      exact Nat.lt_succ_self _
    · cases same
      exact other at_path

variable {document : Bytes}

theorem overwrite_take {written : Nat} {byte : UInt8}
    (here : document[written]? = some byte) :
    Disk.overwrite (document.take written) written byte = document.take (written + 1) := by
  have within := (List.getElem?_eq_some_iff.mp here).1
  have full : (document.take written).length = written := by
    rw [length_take]
    omega
  rw [Disk.overwrite, full, if_neg (Nat.lt_irrefl _), Nat.sub_self, replicate_zero,
    append_nil, take_add_one, here, Option.toList_some]

theorem Phase.Owns.of_free {p : Phase} (free : p.holds = false) : p.Owns d complete := by
  cases p with
  | writes | syncs | permits | renames => simp [holds] at free
  | _ => trivial

theorem Phase.Stepped.of_busy {d' : Disk} {p p' : Phase} (busy : p.holds = true) (tidy : d'.Tidy)
    (owns : p'.Owns d' (complete ++ p'.completes.toList))
    (saved : d'.saved = d.saved ∨
      ∃ document ∈ complete, d'.saved = some document ∧ p' = .returned true) :
    p.Stepped d complete d' p' where
  tidy := tidy
  owns := owns
  saved := saved
  takes := by simp [busy]
  idle := by simp [busy]
  final := by
    rintro ok rfl
    simp [holds] at busy

theorem Phase.Stepped.of_free {p p' : Phase} (tidy : d.Tidy) (free : p'.holds = false)
    (final : ∀ ok, p = .returned ok → p' = p) : p.Stepped d complete d p' where
  tidy := tidy
  owns := .of_free free
  saved := .inl rfl
  takes := by simp [free]
  idle := by
    intro _ _
    cases p' with
    | syncs => simp [holds] at free
    | _ => exact ⟨rfl, rfl⟩
  final := final

theorem Phase.Stepped.of_fails {p : Phase} (busy : p.holds = true) (tidy : d.Tidy) :
    p.Stepped d complete d .removes :=
  .of_busy busy tidy trivial (.inl rfl)

theorem Phase.step_opens (document : Bytes) (ok : Bool) (tidy : d.Tidy) :
    (opens document).Stepped d complete ((opens document).step d ok).1
      ((opens document).step d ok).2 := by
  simp only [step]
  split
  · obtain ⟨tidy', named, empty, saved⟩ := tidy.openTemporary
    exact ⟨tidy', ⟨named, by simpa using empty, Nat.zero_le _⟩, .inl saved, by simp [isOpens],
      by simp [isOpens], by simp⟩
  · exact ⟨tidy, trivial, .inl rfl, by simp [isOpens], by simp [isOpens], by simp⟩

theorem Phase.step_writes {file written : Nat} (ok : Bool) (tidy : d.Tidy)
    (owns : (writes document file written).Owns d complete) :
    (writes document file written).Stepped d complete
      ((writes document file written).step d ok).1
      ((writes document file written).step d ok).2 := by
  obtain ⟨named, contents, short⟩ := owns
  simp only [step]
  split
  · split
    next byte here =>
      have other : d.path ≠ some file := fun same => tidy.apart file same named
      have within := (List.getElem?_eq_some_iff.mp here).1
      refine .of_busy rfl ⟨tidy.path_lt, tidy.temporary_lt, tidy.apart⟩ ⟨named, ?_, within⟩
        (.inl (Disk.saved_update other))
      simp [Disk.writeByte, contents, overwrite_take here]
    next at_end =>
      have all : written = document.length := by
        have := List.getElem?_eq_none_iff.mp at_end
        omega
      refine .of_busy rfl tidy ⟨by simp [completes], file, named, ?_⟩ (.inl rfl)
      rw [contents, all, take_length]
  · exact .of_fails rfl tidy

theorem Phase.step_renames (ok : Bool) (tidy : d.Tidy)
    (owns : (renames document).Owns d complete) :
    (renames document).Stepped d complete ((renames document).step d ok).1
      ((renames document).step d ok).2 := by
  obtain ⟨written, file, named, contents⟩ := owns
  simp only [step, named]
  split
  next file' _ same =>
    cases same
    refine .of_busy rfl ⟨?_, by simp, by simp⟩ trivial (.inr ⟨document, written, ?_, rfl⟩)
    · intro saved eq
      cases eq
      exact tidy.temporary_lt _ named
    · simp [Disk.saved, contents]
  · exact .of_fails rfl tidy

theorem Phase.step_stepped (p : Phase) (ok : Bool) (tidy : d.Tidy) (owns : p.Owns d complete) :
    p.Stepped d complete (p.step d ok).1 (p.step d ok).2 := by
  cases p with
  | checks update =>
    simp only [step]
    split <;> exact .of_free tidy rfl (by simp)
  | reads update =>
    simp only [step]
    split
    · split <;> exact .of_free tidy rfl (by simp)
    · exact .of_free tidy rfl (by simp)
  | makesDir document =>
    simp only [step]
    split <;> exact .of_free tidy rfl (by simp)
  | opens document => exact step_opens document ok tidy
  | writes document file written => exact step_writes ok tidy owns
  | syncs document =>
    simp only [step]
    split
    · exact .of_busy rfl tidy (by simpa [completes, Owns] using owns) (.inl rfl)
    · exact .of_fails rfl tidy
  | permits document =>
    simp only [step]
    split
    · exact .of_busy rfl tidy (by simpa [completes, Owns] using owns) (.inl rfl)
    · exact .of_fails rfl tidy
  | renames document => exact step_renames ok tidy owns
  | removes =>
    simp only [step]
    split
    · exact .of_busy rfl ⟨tidy.path_lt, by simp, by simp⟩ trivial (.inl rfl)
    · exact .of_busy rfl tidy trivial (.inl rfl)
  | returned result => exact .of_free tidy rfl (by simp [step])

end

namespace World

variable {previous : Option Bytes} {w w' : World}

structure Sound (previous : Option Bytes) (w : World) : Prop extends Intact previous w where
  tidy : w.disk.Tidy
  owns : ∀ {i : Nat} {p : Phase}, w.calls[i]? = some p → p.Owns w.disk w.complete
  alone : ∀ {i j : Nat} {p q : Phase}, w.calls[i]? = some p → w.calls[j]? = some q →
    p.holds = true → q.holds = true → i = j

theorem initial_sound (previous leftover : Option Bytes) : (initial previous leftover).Sound previous where
  whole := .inl (by cases previous <;> rfl)
  succeeded := by simp [initial]
  tidy := by
    constructor
    all_goals cases previous <;> cases leftover <;> simp [initial]
  owns := by simp [initial]
  alone := by simp [initial]

theorem Sound.append (sound : w.Sound previous) {p : Phase} (owns : p.Owns w.disk w.complete)
    (free : p.holds = false) : Sound previous { w with calls := w.calls ++ [p] } := by
  have split : ∀ {i : Nat} {q : Phase}, (w.calls ++ [p])[i]? = some q → w.calls[i]? = some q ∨ q = p := by
    intro i q found
    rcases Nat.lt_or_ge i w.calls.length with old | new
    · exact .inl (by rwa [List.getElem?_append_left old] at found)
    · rw [List.getElem?_append_right new] at found
      exact .inr (mem_singleton.mp (mem_of_getElem? found))
  refine ⟨⟨sound.whole, fun call mem => ?_⟩, sound.tidy, fun found => ?_, fun at_i at_j hi hj => ?_⟩
  · have found := sound.succeeded call mem
    exact (List.getElem?_append_left (List.getElem?_eq_some_iff.mp found).1).trans found
  · rcases split found with old | rfl
    · exact sound.owns old
    · exact owns
  · rcases split at_i with old_i | rfl
    · rcases split at_j with old_j | rfl
      · exact sound.alone old_i old_j hi hj
      · simp [free] at hj
    · simp [free] at hi

section
variable {call : Nat} {p p' : Phase} {d' : Disk}

variable {i : Nat} {q : Phase}

theorem getElem?_set_phase {calls : List Phase}
    (at_i : (calls.set call p)[i]? = some q) :
    i = call ∧ q = p ∨ i ≠ call ∧ calls[i]? = some q := by
  by_cases same : i = call
  · subst same
    simp only [List.getElem?_set, if_true, Option.ite_none_right_eq_some, Option.some.injEq] at at_i
    exact .inl ⟨rfl, at_i.2.symm⟩
  · exact .inr ⟨same, (List.getElem?_set_ne (Ne.symm same)).symm.trans at_i⟩

theorem Sound.goes_whole (sound : w.Sound previous)
    (stepped : p.Stepped w.disk w.complete d' p') :
    d'.saved = previous ∨
      ∃ document ∈ w.complete ++ p'.completes.toList, d'.saved = some document := by
  rcases stepped.saved with same | ⟨document, written, new, -⟩
  · rcases sound.whole with old | ⟨document, written, old⟩
    · exact .inl (same.trans old)
    · exact .inr ⟨document, mem_append_left _ written, same.trans old⟩
  · exact .inr ⟨document, mem_append_left _ written, new⟩

theorem Sound.goes_succeeded (sound : w.Sound previous) (found : w.calls[call]? = some p)
    (stepped : p.Stepped w.disk w.complete d' p')
    (mem : i ∈ if d'.saved = w.disk.saved then w.changed else w.changed ++ [call]) :
    (w.calls.set call p')[i]? = some (.returned true) := by
  have within := (List.getElem?_eq_some_iff.mp found).1
  have here : (w.calls.set call p')[call]? = some p' := by simp [within]
  have before : i ∈ w.changed → (w.calls.set call p')[i]? = some (.returned true) := by
    intro mem
    have old := sound.succeeded i mem
    by_cases same : i = call
    · subst same
      obtain rfl : p = .returned true := Option.some.inj (found.symm.trans old)
      exact here.trans (congrArg some (stepped.final true rfl))
    · rw [List.getElem?_set_ne (Ne.symm same), old]
  split at mem
  · exact before mem
  next changes =>
    rcases mem_append.mp mem with old | new
    · exact before old
    · obtain rfl := mem_singleton.mp new
      obtain ⟨-, -, -, returned⟩ := stepped.saved.resolve_left changes
      exact here.trans (congrArg some returned)

theorem Sound.others_free (sound : w.Sound previous) (found : w.calls[call]? = some p)
    (alone : p.isOpens = true → ∀ phase ∈ w.calls, phase.holds = false)
    (busy : p.holds = true ∨ p.isOpens = true) (other : i ≠ call)
    (at_i : w.calls[i]? = some q) : q.holds = false := by
  rcases busy with holds | opens
  · rw [Bool.eq_false_iff]
    exact fun also => other (sound.alone at_i found also holds)
  · exact alone opens q (mem_of_getElem? at_i)

theorem Sound.goes_owns (sound : w.Sound previous) (found : w.calls[call]? = some p)
    (alone : p.isOpens = true → ∀ phase ∈ w.calls, phase.holds = false)
    (stepped : p.Stepped w.disk w.complete d' p')
    (at_i : (w.calls.set call p')[i]? = some q) :
    q.Owns d' (w.complete ++ p'.completes.toList) := by
  rcases getElem?_set_phase at_i with ⟨-, rfl⟩ | ⟨other, old⟩
  · exact stepped.owns
  by_cases busy : p.holds = true ∨ p.isOpens = true
  · exact .of_free (sound.others_free found alone busy other old)
  · simp only [not_or, Bool.not_eq_true] at busy
    obtain ⟨rfl, none⟩ := stepped.idle busy.1 busy.2
    simpa [none] using sound.owns old

theorem Sound.goes_alone (sound : w.Sound previous) (found : w.calls[call]? = some p)
    (alone : p.isOpens = true → ∀ phase ∈ w.calls, phase.holds = false)
    (stepped : p.Stepped w.disk w.complete d' p') {j : Nat} {r : Phase}
    (at_i : (w.calls.set call p')[i]? = some q) (at_j : (w.calls.set call p')[j]? = some r)
    (hi : q.holds = true) (hj : r.holds = true) : i = j := by
  have single : p'.holds = true → ∀ {k s}, k ≠ call → w.calls[k]? = some s → s.holds = false := by
    intro holds k s
    refine sound.others_free found alone ?_
    by_cases free : p.holds = false
    · exact .inr (stepped.takes free holds)
    · exact .inl (by simpa using free)
  rcases getElem?_set_phase at_i with ⟨rfl, rfl⟩ | ⟨other_i, old_i⟩ <;>
    rcases getElem?_set_phase at_j with ⟨rfl, rfl⟩ | ⟨other_j, old_j⟩
  · rfl
  · simp [single hi other_j old_j] at hj
  · simp [single hj other_i old_i] at hi
  · exact sound.alone old_i old_j hi hj

theorem Sound.goes (sound : w.Sound previous) (ok : Bool) (found : w.calls[call]? = some p)
    (alone : p.isOpens = true → ∀ phase ∈ w.calls, phase.holds = false) :
    Sound previous {
      disk := (p.step w.disk ok).1
      calls := w.calls.set call (p.step w.disk ok).2
      complete := w.complete ++ (p.step w.disk ok).2.completes.toList
      changed := if (p.step w.disk ok).1.saved = w.disk.saved then w.changed
        else w.changed ++ [call] } := by
  have stepped := p.step_stepped ok sound.tidy (sound.owns found)
  exact {
    whole := sound.goes_whole stepped
    succeeded := fun _ mem => sound.goes_succeeded found stepped mem
    tidy := stepped.tidy
    owns := sound.goes_owns found alone stepped
    alone := sound.goes_alone found alone stepped }

end

theorem Sound.step (sound : w.Sound previous) {e : SaveEvent} (alone : w.OpensAlone e)
    (next : w.step e = some w') : w'.Sound previous := by
  cases e with
  | save document =>
    cases next
    exact sound.append trivial rfl
  | saveMasqueCreds update =>
    cases next
    exact sound.append trivial rfl
  | goes call ok =>
    simp only [World.step] at next
    cases found : w.calls[call]? with
    | none =>
      rw [found] at next
      cases next
      exact sound
    | some p =>
      rw [found] at next
      cases next
      refine sound.goes ok found fun opens => alone ?_
      simp [found, opens]

/-- In every run in which calls open the temporary file alone, what is saved is whole in every
    state. -/
theorem saved_intact (previous leftover : Option Bytes) (events : List SaveEvent)
    (alone : Each World.step OpensAlone (initial previous leftover) events) :
    Always World.step (Intact previous) (initial previous leftover) events := by
  have always : Always World.step (Sound previous) (initial previous leftover) events :=
    always_of_kept (fun _ _ _ sound alone next => sound.step alone next)
      (initial_sound previous leftover) alone
  exact always.mono fun _ sound => sound.toIntact

def wholeCall (call : Nat) : List SaveEvent := List.replicate 8 (.goes call true)

instance (w : World) : DecidablePred w.OpensAlone
  | .goes _ _ => inferInstanceAs (Decidable (_ → ∀ phase ∈ w.calls, _))
  | .save _ | .saveMasqueCreds _ => .isTrue trivial

theorem saved_intact_one_by_one :
    Always World.step (Intact (some [9])) (initial (some [9]) none)
      ([.save [1, 2], .save [3, 4]] ++ wholeCall 0 ++ wholeCall 1) :=
  saved_intact (some [9]) none ([.save [1, 2], .save [3, 4]] ++ wholeCall 0 ++ wholeCall 1) (by decide)

def tornRun : List SaveEvent :=
  [.save [1, 2], .save [3, 4]] ++ List.replicate 7 (.goes 0 true) ++
    [.goes 1 true, .goes 1 true, .goes 0 true]

theorem saved_torn :
    (run World.step (initial (some [9]) none) tornRun).map
        (fun w => (w.disk.saved, w.complete)) = some (some [], [[1, 2]]) ∧
      ¬ Always World.step (Intact (some [9])) (initial (some [9]) none) tornRun := by
  have last : (run World.step (initial (some [9]) none) tornRun).map
      (fun w => (w.disk.saved, w.complete)) = some (some [], [[1, 2]]) := by decide
  refine ⟨last, fun always => ?_⟩
  obtain ⟨w, reached, eq⟩ := Option.map_eq_some_iff.mp last
  obtain ⟨saved, complete⟩ := Prod.mk.inj eq
  have intact := (always.last reached).whole
  rw [saved, complete] at intact
  revert intact
  decide

end World

end Gozarbin.Identity
