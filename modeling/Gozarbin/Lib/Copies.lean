import Mathlib.Data.List.Basic
import Mathlib.Data.List.Induction

/-! # Copying ranges

A list that is put together from ranges of others. An operation takes a range of a source;
operations in a row on adjacent ranges of one source are the same as one.
-/

namespace Gozarbin.Copies

open List

variable {α Source : Type}

def slice (offset length : Nat) (data : List α) : List α := (data.drop offset).take length

theorem slice_append (offset a b : Nat) (data : List α) :
    slice offset a data ++ slice (offset + a) b data = slice offset (a + b) data := by
  rw [slice, slice, slice, take_add, drop_drop]

theorem length_slice {offset length : Nat} {data : List α} (inside : offset + length ≤ data.length) :
    (slice offset length data).length = length := by
  rw [slice, length_take, length_drop]
  omega

def find? [DecidableEq α] (needle : List α) : List α → Option Nat
  | [] => if needle = [] then some 0 else none
  | a :: rest => if needle.isPrefixOf (a :: rest) then some 0 else (find? needle rest).map (· + 1)

theorem add_length_le_of_find? [DecidableEq α] {needle data : List α} {i : Nat}
    (found : find? needle data = some i) : i + needle.length ≤ data.length := by
  induction data generalizing i with
  | nil =>
    simp only [find?, Option.ite_none_right_eq_some] at found
    obtain ⟨rfl, eq⟩ := found
    cases eq
    exact Nat.le_refl 0
  | cons a rest ih =>
    simp only [find?] at found
    split at found
    case isTrue starts =>
      cases found
      have starts : needle <+: a :: rest := by simpa using starts
      rw [Nat.zero_add]
      exact starts.length_le
    case isFalse =>
      obtain ⟨j, later, rfl⟩ := Option.map_eq_some_iff.mp found
      have := ih later
      rw [length_cons]
      omega

structure Op (Source : Type) where
  source : Source
  offset : Nat
  length : Nat

variable (content : Source → List α)

def Op.bytes (op : Op Source) : List α := slice op.offset op.length (content op.source)

def assemble (ops : List (Op Source)) : List α := ops.flatMap (·.bytes content)

def push [DecidableEq Source] (ops : List (Op Source)) (op : Op Source) : List (Op Source) :=
  match ops.getLast? with
  | some last =>
    if last.source = op.source ∧ last.offset + last.length = op.offset then
      ops.dropLast ++ [{ last with length := last.length + op.length }]
    else ops ++ [op]
  | none => [op]

theorem assemble_append (ops more : List (Op Source)) :
    assemble content (ops ++ more) = assemble content ops ++ assemble content more :=
  flatMap_append

theorem assemble_singleton (op : Op Source) : assemble content [op] = op.bytes content := by
  simp [assemble]

variable [DecidableEq Source]

theorem assemble_push (ops : List (Op Source)) (op : Op Source) :
    assemble content (push ops op) = assemble content ops ++ op.bytes content := by
  cases ops using List.reverseRecOn with
  | nil => simp [push, assemble]
  | append_singleton ops last =>
    simp only [push, List.getLast?_append, List.getLast?_singleton, Option.some_or]
    split
    case isTrue adjacent =>
      obtain ⟨source, goes_on⟩ := adjacent
      rw [dropLast_concat, assemble_append, assemble_append, append_assoc,
        assemble_singleton, assemble_singleton]
      simp only [Op.bytes]
      rw [← slice_append, goes_on, source]
    case isFalse =>
      rw [assemble_append, assemble_singleton]

theorem assemble_foldl_push {ι : Type} (op : ι → Op Source) (items : List ι) (ops : List (Op Source)) :
    assemble content (items.foldl (fun ops item => push ops (op item)) ops) =
      assemble content ops ++ items.flatMap fun item => (op item).bytes content := by
  induction items generalizing ops with
  | nil => simp
  | cons item items ih =>
    rw [foldl_cons, ih, assemble_push, flatMap_cons, append_assoc]

def Op.Fits (op : Op Source) : Prop :=
  0 < op.length ∧ op.offset + op.length ≤ (content op.source).length

variable {content}

omit [DecidableEq Source] in
theorem Op.Fits.length_bytes {op : Op Source} (fits : op.Fits content) :
    (op.bytes content).length = op.length := length_slice fits.2

theorem fits_push {ops : List (Op Source)} {op : Op Source} (all : ∀ other ∈ ops, other.Fits content)
    (fits : op.Fits content) : ∀ other ∈ push ops op, other.Fits content := by
  cases ops using List.reverseRecOn with
  | nil => simpa [push] using fits
  | append_singleton ops last =>
    obtain ⟨others, here⟩ := forall_mem_append.mp all
    have last_fits := forall_mem_singleton.mp here
    simp only [push, List.getLast?_append, List.getLast?_singleton, Option.some_or]
    split
    case isTrue adjacent =>
      obtain ⟨source, goes_on⟩ := adjacent
      rw [dropLast_concat, forall_mem_append, forall_mem_singleton]
      refine ⟨others, Nat.add_pos_left last_fits.1 _, ?_⟩
      have inside := fits.2
      rw [← source] at inside
      simp only
      omega
    case isFalse =>
      rw [forall_mem_append, forall_mem_singleton]
      exact ⟨all, fits⟩

theorem fits_foldl_push {ι : Type} {op : ι → Op Source} {items : List ι} {ops : List (Op Source)}
    (all : ∀ other ∈ ops, other.Fits content) (each : ∀ item ∈ items, (op item).Fits content) :
    ∀ other ∈ items.foldl (fun ops item => push ops (op item)) ops, other.Fits content := by
  induction items generalizing ops with
  | nil => exact all
  | cons item items ih =>
    obtain ⟨first, rest⟩ := forall_mem_cons.mp each
    exact ih (fits_push all first) rest

end Gozarbin.Copies
