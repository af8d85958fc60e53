import Mathlib.Data.List.TakeWhile
import Gozarbin.Lib.Text

/-! # Trimming and splitting text

What `trim`, `split_once` and `rsplit_once` do, said once: a text is what trimming
leaves of it between blanks, and a split is at the first or the last occurrence.
-/

namespace Gozarbin.Text

open List

variable {text start mid rest : Text} {c : Char}

def stripBy (p : Char → Bool) (text : Text) : Text :=
  ((text.dropWhile p).reverse.dropWhile p).reverse

/-- Neither the first nor the last character is a blank. -/
structure Trimmed (text : Text) : Prop where
  first : ∀ c ∈ text.head?, isWhitespace c = false
  last : ∀ c ∈ text.getLast?, isWhitespace c = false

def Blank (text : Text) : Prop := ∀ c ∈ text, isWhitespace c = true

theorem dropWhile_blank (blank : Blank start) :
    (start ++ rest).dropWhile isWhitespace = rest.dropWhile isWhitespace := by
  rw [dropWhile_append, dropWhile_eq_nil_iff.mpr blank]
  rfl

theorem dropWhile_of_head (first : ∀ c ∈ text.head?, isWhitespace c = false) :
    text.dropWhile isWhitespace = text := by
  cases text with
  | nil => rfl
  | cons c rest => rw [dropWhile_cons_of_neg (by simp [first c rfl])]

theorem trim_eq (front : Blank start) (back : Blank rest) (trimmed : Trimmed mid) :
    trim (start ++ mid ++ rest) = mid := by
  have back' : Blank rest.reverse := fun c member => back c (mem_reverse.mp member)
  rw [trim, append_assoc, dropWhile_blank front]
  by_cases empty : mid = []
  · subst empty
    have gone : rest.dropWhile isWhitespace = [] := dropWhile_eq_nil_iff.mpr back
    simp [gone]
  · have kept : ∀ c ∈ (mid ++ rest).head?, isWhitespace c = false := by
      rw [List.head?_append_of_ne_nil _ empty]
      exact trimmed.first
    have ends : ∀ c ∈ mid.reverse.head?, isWhitespace c = false := by
      rw [List.head?_reverse]
      exact trimmed.last
    rw [dropWhile_of_head kept, reverse_append, dropWhile_blank back', dropWhile_of_head ends,
      reverse_reverse]

theorem Blank.append (blank : Blank start) (blank' : Blank rest) : Blank (start ++ rest) := by
  intro c member
  exact (mem_append.mp member).elim (blank c) (blank' c)

theorem Blank.not_mem (blank : Blank text) (visible : isWhitespace c = false) : c ∉ text := by
  intro member
  rw [blank c member] at visible
  cases visible

theorem stripBy_spec (p : Char → Bool) (text : Text) :
    ∃ front back, text = front ++ stripBy p text ++ back ∧ (∀ c ∈ front, p c = true) ∧
      (∀ c ∈ back, p c = true) ∧ (∀ c ∈ (stripBy p text).head?, p c = false) ∧
      ∀ c ∈ (stripBy p text).getLast?, p c = false := by
  have stops (text : Text) : ∀ c ∈ (text.dropWhile p).head?, p c = false := by
    intro c found
    have stops := List.head?_dropWhile_not p text
    rw [Option.mem_def.mp found] at stops
    exact stops
  have later : text.dropWhile p = stripBy p text ++ ((text.dropWhile p).reverse.takeWhile p).reverse := by
    rw [stripBy, ← reverse_append, takeWhile_append_dropWhile, reverse_reverse]
  refine ⟨text.takeWhile p, ((text.dropWhile p).reverse.takeWhile p).reverse, ?_,
    fun c member => mem_takeWhile_imp member, fun c member => ?_, ?_, ?_⟩
  · rw [append_assoc, ← later]
    exact takeWhile_append_dropWhile.symm
  · exact mem_takeWhile_imp (mem_reverse.mp member)
  · intro c first
    refine stops text c ?_
    rw [later, List.head?_append_of_ne_nil]
    · exact first
    · rintro empty
      simp [empty] at first
  · intro c last
    rw [stripBy, List.getLast?_reverse] at last
    exact stops _ c last

variable {p : Char → Bool}

theorem stripBy_eq_nil_iff : stripBy p text = [] ↔ ∀ c ∈ text, p c = true := by
  constructor
  · intro none_
    obtain ⟨front, back, same, blank, blank', -⟩ := stripBy_spec p text
    rw [none_, append_nil] at same
    rw [same]
    intro c member
    exact (mem_append.mp member).elim (blank c) (blank' c)
  · intro blank
    rw [stripBy, dropWhile_eq_nil_iff.mpr blank]
    rfl

theorem trim_spec (text : Text) :
    ∃ front back, text = front ++ trim text ++ back ∧ Blank front ∧ Blank back ∧
      Trimmed (trim text) := by
  obtain ⟨front, back, same, blank, blank', first, last⟩ := stripBy_spec isWhitespace text
  exact ⟨front, back, same, blank, blank', first, last⟩

theorem Trimmed.trim_eq (trimmed : Trimmed text) : trim text = text := by
  have blank : Blank [] := by simp [Blank]
  simpa using Text.trim_eq blank blank trimmed

theorem trimmed_trim (text : Text) : Trimmed (trim text) := by
  obtain ⟨-, -, -, -, -, trimmed⟩ := trim_spec text
  exact trimmed

theorem trim_blank_append (front : Blank start) (text : Text) : trim (start ++ text) = trim text := by
  rw [trim, dropWhile_blank front]
  rfl

theorem trim_append_blank (back : Blank rest) (text : Text) : trim (text ++ rest) = trim text := by
  obtain ⟨front, back', same, blank, blank', -⟩ := trim_spec text
  have parts : text ++ rest = front ++ trim text ++ (back' ++ rest) := by
    rw [← append_assoc, ← same]
  rw [parts]
  exact trim_eq blank (blank'.append back) (trimmed_trim text)

theorem mem_trim (visible : isWhitespace c = false) (member : c ∈ text) : c ∈ trim text := by
  obtain ⟨front, back, same, blank, blank', -⟩ := trim_spec text
  rw [same] at member
  rcases mem_append.mp member with early | late
  · exact (mem_append.mp early).resolve_left (blank.not_mem visible)
  · exact absurd late (blank'.not_mem visible)

@[simp] theorem trim_trim (text : Text) : trim (trim text) = trim text := (trimmed_trim text).trim_eq

theorem Trimmed.of_append (trimmed : Trimmed (start ++ c :: rest))
    (first : isWhitespace c = false) : Trimmed (c :: rest) where
  first := by simpa using first
  last := by
    intro d last
    refine trimmed.last d ?_
    rwa [List.getLast?_append_of_ne_nil _ (by simp)]

theorem trim_cons_append (first : isWhitespace c = false) (start : Text) (left : trim text ≠ []) :
    ∃ front, Blank front ∧ trim (c :: start ++ text) = c :: start ++ (front ++ trim text) ∧
      trim (front ++ trim text) = trim text := by
  obtain ⟨front, back, same, blank_front, blank_back, trimmed⟩ := trim_spec text
  have none_blank : Blank [] := by simp [Blank]
  have ends : Trimmed (c :: start ++ (front ++ trim text)) := by
    refine ⟨by simpa using first, fun d last => trimmed.last d ?_⟩
    rwa [List.getLast?_append_of_ne_nil _ (by simp [left]),
      List.getLast?_append_of_ne_nil _ left] at last
  refine ⟨front, blank_front, ?_, ?_⟩
  · have whole : c :: start ++ text = [] ++ (c :: start ++ (front ++ trim text)) ++ back := by
      conv_lhs => rw [same]
      simp
    rw [whole, trim_eq none_blank blank_back ends]
  · simpa using trim_eq blank_front none_blank trimmed

theorem trim_concat (blank : isWhitespace c = true) : trim (text ++ [c]) = trim text := by
  obtain ⟨front, back, same, blank_front, blank_back, trimmed⟩ := trim_spec text
  have longer : Blank (back ++ [c]) := by
    intro d member
    rcases mem_append.mp member with old | new
    · exact blank_back d old
    · rwa [mem_singleton.mp new]
  have whole : text ++ [c] = front ++ trim text ++ (back ++ [c]) := by
    conv_lhs => rw [same]
    simp
  rw [whole, trim_eq blank_front longer trimmed]

theorem trim_concat_visible (visible : isWhitespace c = false) (text : Text) :
    trim (text ++ [c]) = text.dropWhile isWhitespace ++ [c] := by
  have front : (text ++ [c]).dropWhile isWhitespace = text.dropWhile isWhitespace ++ [c] := by
    rw [dropWhile_append]
    split
    next empty => rw [isEmpty_iff.mp empty, dropWhile_cons_of_neg (by simp [visible])]; rfl
    next => rfl
  rw [trim, front, reverse_concat, dropWhile_cons_of_neg (by simp [visible]),
    reverse_cons, reverse_reverse]

theorem length_trim (text : Text) : (trim text).length ≤ (text.dropWhile isWhitespace).length := by
  rw [trim, length_reverse]
  exact Nat.le_trans (dropWhile_sublist _).length_le (Nat.le_of_eq length_reverse)

theorem length_trimEndMatches (c : Char) (text : Text) :
    (trimEndMatches c text).length ≤ text.length := by
  rw [trimEndMatches, length_reverse]
  exact Nat.le_trans (dropWhile_sublist _).length_le (Nat.le_of_eq length_reverse)

variable {d : Char}

theorem trimEndMatches_concat (other : d ≠ c) (text : Text) :
    trimEndMatches c (text ++ [d]) = text ++ [d] := by
  rw [trimEndMatches, reverse_concat, dropWhile_cons_of_neg (by simp [other]),
    reverse_cons, reverse_reverse]

theorem trimEndMatches_of_last (last : text.getLast? = some d) (other : d ≠ c) :
    trimEndMatches c text = text := by
  obtain ⟨front, rfl⟩ := List.getLast?_eq_some_iff.mp last
  exact trimEndMatches_concat other front

theorem trimEndMatches_of_not_mem (absent : c ∉ text) : trimEndMatches c text = text := by
  cases last : text.getLast? with
  | none =>
    rw [List.getLast?_eq_none_iff.mp last]
    rfl
  | some d =>
    refine trimEndMatches_of_last last ?_
    rintro rfl
    exact absent (mem_of_getLast? last)

theorem mem_trimEndMatches (member : d ∈ text) (other : d ≠ c) : d ∈ trimEndMatches c text := by
  have parts := takeWhile_append_dropWhile (p := fun d => decide (d = c)) (l := text.reverse)
  rw [← mem_reverse, ← parts, mem_append] at member
  rw [trimEndMatches, mem_reverse]
  refine member.resolve_left fun taken => other ?_
  have same := mem_takeWhile_imp taken
  exact of_decide_eq_true same

theorem subset_trimEndMatches (c : Char) (text : Text) : trimEndMatches c text ⊆ text := by
  intro d member
  rw [trimEndMatches, mem_reverse] at member
  exact mem_reverse.mp ((dropWhile_sublist _).subset member)

theorem head?_trim (front : Blank start) (visible : isWhitespace c = false) :
    (trim (start ++ c :: rest)).head? = some c := by
  have kept : ((c :: rest).reverse.dropWhile isWhitespace).getLast? = some c := by
    rw [reverse_cons, dropWhile_append]
    split <;> simp [visible]
  rw [trim, dropWhile_blank front, dropWhile_cons_of_neg (by simp [visible]),
    List.head?_reverse, kept]

theorem Trimmed.of_visible (visible : ∀ c ∈ text, isWhitespace c = false) : Trimmed text where
  first c first := visible c (mem_of_head? first)
  last c last := visible c (mem_of_getLast? last)

theorem strip_append (start rest : Text) : strip start (start ++ rest) = some rest := by
  have starts : (start ++ rest).startsWith start = true :=
    isPrefixOf_iff_prefix.mpr (prefix_append ..)
  rw [strip, if_pos starts, drop_left]

theorem startsWith_singleton (text : Text) (c : Char) :
    text.startsWith [c] = true ↔ text.head? = some c := by
  rw [startsWith, isPrefixOf_iff_prefix]
  cases text with
  | nil => simp
  | cons d text => simp [eq_comm]

theorem strip_of_head? (other : text.head? ≠ some c) : strip [c] text = none := by
  rw [strip, if_neg fun starts => other ((startsWith_singleton text c).mp starts)]

theorem strip_eq_some (found : strip start text = some rest) : text = start ++ rest := by
  rw [strip, Option.ite_none_right_eq_some] at found
  obtain ⟨starts, same⟩ := found
  obtain ⟨rest', rfl⟩ := isPrefixOf_iff_prefix.mp starts
  rw [drop_left] at same
  rw [Option.some.inj same]

theorem stripEnd_append (start suffix : Text) : stripEnd suffix (start ++ suffix) = some start := by
  have ends : (start ++ suffix).endsWith suffix = true :=
    isSuffixOf_iff_suffix.mpr (suffix_append ..)
  rw [stripEnd, if_pos ends, length_append, Nat.add_sub_cancel, take_left]

theorem stripEnd_eq_some {suffix : Text} (found : stripEnd suffix text = some start) :
    text = start ++ suffix := by
  rw [stripEnd, Option.ite_none_right_eq_some] at found
  obtain ⟨ends, same⟩ := found
  obtain ⟨front, rfl⟩ := isSuffixOf_iff_suffix.mp ends
  rw [length_append, Nat.add_sub_cancel, take_left] at same
  rw [Option.some.inj same]

theorem contains_singleton (text : Text) (c : Char) : text.contains [c] = decide (c ∈ text) := by
  rw [contains]
  simp only [singleton_infix_iff]

theorem before?_of_not_mem (absent : c ∉ text) : before? [c] text = none := by
  induction text with
  | nil => rfl
  | cons d rest ih =>
    simp only [mem_cons, not_or] at absent
    simp [before?, absent.1, ih absent.2]

theorem before?_append (first : c ∉ start) : before? [c] (start ++ c :: rest) = some start := by
  induction start with
  | nil => simp [before?]
  | cons d start ih =>
    simp only [mem_cons, not_or] at first
    simp [before?, first.1, ih first.2]

theorem splitOnce_of_not_mem (absent : c ∉ text) : splitOnce [c] text = none := by
  simp [splitOnce, before?_of_not_mem absent]

theorem splitOnce_append (first : c ∉ start) :
    splitOnce [c] (start ++ c :: rest) = some (start, rest) := by
  simp [splitOnce, before?_append first]

theorem splitOnce_needle {needle : Text} (first : c ∉ start) (rest : Text) :
    splitOnce (c :: needle) (start ++ c :: needle ++ rest) = some (start, rest) := by
  have found : before? (c :: needle) (start ++ c :: needle ++ rest) = some start := by
    induction start with
    | nil =>
      have here : (c :: needle).isPrefixOf (c :: (needle ++ rest)) = true :=
        isPrefixOf_iff_prefix.mpr (prefix_append ..)
      rw [nil_append, cons_append, before?, if_pos here]
    | cons d start ih =>
      simp only [mem_cons, not_or] at first
      rw [cons_append, cons_append, before?, ih first.2]
      simp [first.1]
  rw [splitOnce, found]
  simp

theorem splitOnce_eq_some (split : splitOnce [c] text = some (start, rest)) :
    text = start ++ c :: rest ∧ c ∉ start := by
  by_cases found : c ∈ text
  · obtain ⟨before, after, rfl, first⟩ := eq_append_cons_of_mem found
    rw [splitOnce_append first] at split
    cases split
    exact ⟨rfl, first⟩
  · rw [splitOnce_of_not_mem found] at split
    cases split

theorem rsplitOnce_eq_some (split : rsplitOnce c text = some (start, rest)) :
    text = start ++ c :: rest := by
  obtain ⟨⟨after, before⟩, back, same⟩ := Option.map_eq_some_iff.mp split
  cases same
  rw [← reverse_inj, (splitOnce_eq_some back).1]
  simp

theorem not_mem_of_rsplitOnce (split : rsplitOnce c text = some (start, rest)) : c ∉ rest := by
  obtain ⟨⟨after, before⟩, back, same⟩ := Option.map_eq_some_iff.mp split
  cases same
  simpa using (splitOnce_eq_some back).2

theorem rsplitOnce_of_not_mem (absent : c ∉ text) : rsplitOnce c text = none := by
  rw [rsplitOnce, splitOnce_of_not_mem (by simpa using absent)]
  rfl

theorem not_mem_of_rsplitOnce_eq_none (unsplit : rsplitOnce c text = none) : c ∉ text := by
  intro member
  obtain ⟨before, after, back, first⟩ := eq_append_cons_of_mem (mem_reverse.mpr member)
  rw [rsplitOnce, back, splitOnce_append first] at unsplit
  cases unsplit

theorem rsplitOnce_append (last : c ∉ rest) : rsplitOnce c (start ++ c :: rest) = some (start, rest) := by
  have back : (start ++ c :: rest).reverse = rest.reverse ++ c :: start.reverse := by simp
  rw [rsplitOnce, back, splitOnce_append (by simpa using last)]
  simp

variable {word : Text}

theorem splitWords_append (visible : ∀ c ∈ word, isWhitespace c = false)
    (start rest : Text) : splitWords start (word ++ rest) = splitWords (word.reverse ++ start) rest := by
  induction word generalizing start with
  | nil => rfl
  | cons c word ih =>
    obtain ⟨here, later⟩ := forall_mem_cons.mp visible
    rw [cons_append, splitWords, here, if_neg (by simp), ih later, reverse_cons,
      append_assoc, singleton_append]

theorem splitWhitespace_cons (visible : ∀ c ∈ word, isWhitespace c = false)
    (some_ : word ≠ []) (blank : isWhitespace c = true) (rest : Text) :
    splitWhitespace (word ++ c :: rest) = word :: splitWhitespace rest := by
  rw [splitWhitespace, splitWords_append visible, append_nil, splitWords, if_pos blank,
    if_neg (by simpa using some_), reverse_reverse, splitWhitespace]

theorem splitWhitespace_word (visible : ∀ c ∈ word, isWhitespace c = false)
    (some_ : word ≠ []) : splitWhitespace word = [word] := by
  have whole := splitWords_append visible [] []
  rw [append_nil] at whole
  rw [splitWhitespace, whole, append_nil, splitWords, if_neg (by simpa using some_),
    reverse_reverse]

theorem splitOnP_append (whole : ∀ c ∈ start, p c = false) (text : Text) :
    (start ++ text).splitOnP p = (text.splitOnP p).modifyHead (start ++ ·) := by
  induction start with
  | nil =>
    rw [nil_append]
    cases text.splitOnP p <;> rfl
  | cons c start ih =>
    have here := whole c (mem_cons_self ..)
    have later := ih fun d member => whole d (mem_cons_of_mem _ member)
    rw [cons_append, splitOnP_cons_eq_if_modifyHead, later, here]
    cases text.splitOnP p <;> rfl

theorem splitAt_eq (c : Char) (text : Text) : splitAt c text = text.splitOn c := by
  have from_ (piece : Text) : splitFrom c piece text =
      (text.splitOn c).modifyHead (piece.reverse ++ ·) := by
    rw [List.splitOn]
    induction text generalizing piece with
    | nil => simp [splitFrom]
    | cons d rest ih =>
      rw [splitFrom, splitOnP_cons_eq_if_modifyHead]
      by_cases same : d = c
      · rw [if_pos same, if_pos (by simpa using same), ih]
        cases List.splitOnP (· == c) rest <;> simp
      · rw [if_neg same, if_neg (by simpa using same), ih]
        cases List.splitOnP (· == c) rest <;> simp
  rw [splitAt, from_]
  cases text.splitOn c <;> rfl

theorem splitAt_ne_nil (c : Char) (text : Text) : splitAt c text ≠ [] := by
  rw [splitAt_eq]
  exact splitOnP_ne_nil _ _

variable {pieces : List Text}

theorem splitAt_intercalate (clean : ∀ piece ∈ pieces, c ∉ piece)
    (some_ : pieces ≠ []) :
    splitAt c ([c].intercalate pieces) = pieces := by
  rw [splitAt_eq, splitOn_intercalate c clean some_]

theorem intercalate_splitAt (c : Char) (text : Text) : [c].intercalate (splitAt c text) = text := by
  rw [splitAt_eq, intercalate_splitOn]

theorem not_mem_of_mem_splitAt {piece : Text} (member : piece ∈ splitAt c text) : c ∉ piece := by
  rw [splitAt_eq, List.splitOn] at member
  induction text generalizing piece with
  | nil =>
    rw [mem_singleton.mp member]
    exact not_mem_nil
  | cons d rest ih =>
    rw [splitOnP_cons_eq_if_modifyHead] at member
    split at member
    next =>
      rcases mem_cons.mp member with rfl | later
      · exact not_mem_nil
      · exact ih later
    next other =>
      cases split : List.splitOnP (· == c) rest with
      | nil => exact absurd split (splitOnP_ne_nil _ _)
      | cons first pieces =>
        rw [split] at member ih
        rcases mem_cons.mp member with rfl | later
        · simp only [mem_cons, not_or]
          exact ⟨fun same => other (by simpa using same.symm), ih (mem_cons_self ..)⟩
        · exact ih (mem_cons_of_mem _ later)

theorem splitAt_eq_iff :
    splitAt c text = pieces ↔
      pieces ≠ [] ∧ (∀ piece ∈ pieces, c ∉ piece) ∧ text = [c].intercalate pieces := by
  constructor
  · intro same
    subst same
    refine ⟨splitAt_ne_nil c text, fun piece => not_mem_of_mem_splitAt, ?_⟩
    exact (intercalate_splitAt c text).symm
  · intro ⟨some_, clean, same⟩
    rw [same, splitAt_intercalate clean some_]

theorem splitAt_append (clean : c ∉ start) (text : Text) :
    splitAt c (start ++ text) = (splitAt c text).modifyHead (start ++ ·) := by
  have whole : ∀ d ∈ start, (d == c) = false := fun d member => by
    simpa using ne_of_mem_of_not_mem member clean
  rw [splitAt_eq, splitAt_eq, List.splitOn, List.splitOn, splitOnP_append whole]

theorem splitAt_append_cons (c : Char) (front back : Text) :
    splitAt c (front ++ c :: back) = splitAt c front ++ splitAt c back := by
  rw [splitAt_eq, splitAt_eq, splitAt_eq]
  exact splitOnP_append_cons (p := (· == c)) front back (beq_self_eq_true c)

theorem splitAt_concat (c : Char) (text : Text) : splitAt c (text ++ [c]) = splitAt c text ++ [[]] :=
  splitAt_append_cons c text []

theorem mem_intercalate (member : d ∈ [c].intercalate pieces) :
    d = c ∨ ∃ piece ∈ pieces, d ∈ piece := by
  induction pieces with
  | nil => cases member
  | cons piece pieces ih =>
    cases pieces with
    | nil => exact .inr ⟨piece, by simp, by simpa using member⟩
    | cons next pieces =>
      rw [intercalate_cons_cons] at member
      simp only [mem_append, mem_singleton] at member
      rcases member with (here | same) | later
      · exact .inr ⟨piece, by simp, here⟩
      · exact .inl same
      · rcases ih later with same | ⟨other, listed, inside⟩
        · exact .inl same
        · exact .inr ⟨other, mem_cons_of_mem _ listed, inside⟩

theorem mem_splitAt (member : d ∈ text) : d = c ∨ ∃ piece ∈ splitAt c text, d ∈ piece := by
  rw [← intercalate_splitAt c text] at member
  exact mem_intercalate member

theorem intercalate_concat_append (c : Char) (init : List Text) (last more : Text) :
    [c].intercalate (init ++ [last]) ++ more = [c].intercalate (init ++ [last ++ more]) := by
  induction init with
  | nil => simp
  | cons piece init ih =>
    cases init with
    | nil => simp
    | cons next init =>
      simp only [cons_append] at ih ⊢
      rw [intercalate_cons_cons, intercalate_cons_cons, append_assoc, ih]

theorem map_trim_splitAt_trim (visible : isWhitespace c = false) (text : Text) :
    (splitAt c (trim text)).map trim = (splitAt c text).map trim := by
  obtain ⟨front, back, same, blank, blank', -⟩ := trim_spec text
  have cut (piece : Text) (member : piece ∈ splitAt c (trim text)) : c ∉ piece :=
    not_mem_of_mem_splitAt member
  rcases eq_nil_or_concat (splitAt c (trim text)) with empty | ⟨init, last, split⟩
  · exact absurd empty (splitAt_ne_nil _ _)
  · rw [concat_eq_append] at split
    rw [split] at cut
    have whole : text = front ++ [c].intercalate (init ++ [last ++ back]) := by
      rw [← intercalate_concat_append, ← split, intercalate_splitAt, ← append_assoc]
      exact same
    have cut' : ∀ piece ∈ init ++ [last ++ back], c ∉ piece := by
      intro piece member
      rcases mem_append.mp member with inner | final
      · exact cut piece (mem_append_left _ inner)
      · rw [mem_singleton.mp final, mem_append, not_or]
        exact ⟨cut last (by simp), blank'.not_mem visible⟩
    have split' : splitAt c text = (init ++ [last ++ back]).modifyHead (front ++ ·) := by
      rw [whole, splitAt_append (blank.not_mem visible), splitAt_intercalate cut' (by simp)]
    rw [split, split']
    cases init with
    | nil => simp [trim_blank_append blank, trim_append_blank blank']
    | cons piece init => simp [trim_blank_append blank, trim_append_blank blank']

variable {lines : List Text}

theorem flatMap_splitOnP (feed : p '\n' = true) {first : Text} :
    (['\n'].intercalate (first :: lines)).splitOnP p = (first :: lines).flatMap (·.splitOnP p) := by
  induction lines generalizing first with
  | nil => simp
  | cons next lines ih =>
    rw [intercalate_cons_cons, append_assoc, singleton_append,
      splitOnP_append_cons _ _ feed, ih, flatMap_cons (x := first)]

theorem linesFrom_feed (line rest : Text) :
    ∃ ended, linesFrom line ('\n' :: rest) = ended :: linesFrom [] rest ∧
      (line.reverse = ended ∨ line.reverse = ended ++ ['\r']) := by
  by_cases cr : ∃ before, line = '\r' :: before
  · obtain ⟨before, rfl⟩ := cr
    exact ⟨before.reverse, rfl, .inr (by simp)⟩
  · refine ⟨line.reverse, ?_, .inl rfl⟩
    rw [linesFrom]
    exact fun before same => cr ⟨before, same⟩

theorem linesFrom_cons (line rest : Text) (inside : c ≠ '\n') :
    linesFrom line (c :: rest) = linesFrom (c :: line) rest := by
  rw [linesFrom]
  · exact inside
  · exact fun _ _ feed => inside feed

theorem foldl_lines {σ : Type*} {f : σ → Text → σ} (cr : ∀ s line, f s (line ++ ['\r']) = f s line)
    (empty : ∀ s, f s [] = s) (s : σ) (text : Text) :
    text.lines.foldl f s = (text.splitOnP (· = '\n')).foldl f s := by
  suffices general : ∀ (line text : Text) s, (linesFrom line text).foldl f s =
      ((text.splitOnP (· = '\n')).modifyHead (line.reverse ++ ·)).foldl f s by
    rw [lines, general]
    cases text.splitOnP (· = '\n') <;> rfl
  intro line text
  induction text generalizing line with
  | nil =>
    cases line with
    | nil => simp [linesFrom, empty]
    | cons c line => simp [linesFrom]
  | cons c text ih =>
    intro s
    rw [splitOnP_cons_eq_if_modifyHead]
    by_cases feed : c = '\n'
    · subst feed
      obtain ⟨ended, split, same⟩ := linesFrom_feed line text
      have first : f s line.reverse = f s ended := by
        rcases same with same | same
        · rw [same]
        · rw [same, cr]
      rw [split, foldl_cons, ih, if_pos (by simp)]
      cases text.splitOnP (· = '\n') with
      | nil => simp [first]
      | cons piece pieces => simp [first]
    · rw [linesFrom_cons line text feed, ih, if_neg (by simpa using feed)]
      cases text.splitOnP (· = '\n') with
      | nil => rfl
      | cons piece pieces => simp

def splitCrlf : Text → List Text
  | [] => [[]]
  | '\r' :: '\n' :: rest => [] :: splitCrlf rest
  | c :: rest => (splitCrlf rest).modifyHead (c :: ·)

theorem splitCrlf_cons (inside : ¬ (c = '\r' ∧ rest.head? = some '\n')) :
    splitCrlf (c :: rest) = (splitCrlf rest).modifyHead (c :: ·) := by
  rw [splitCrlf]
  rintro rest' rfl rfl
  exact inside ⟨rfl, rfl⟩

theorem splitCrlf_ne_nil (text : Text) : splitCrlf text ≠ [] := by
  fun_induction splitCrlf text with
  | case1 => exact cons_ne_nil _ _
  | case2 rest ih => exact cons_ne_nil _ _
  | case3 c rest inside ih => simpa using ih

theorem splitCrlf_eq_cons {line : Text} (split : splitCrlf text = line :: lines)
    (ended : lines ≠ []) :
    ∃ later, text = line ++ '\r' :: '\n' :: later ∧ splitCrlf later = lines ∧
      ∀ other, splitCrlf (line ++ '\r' :: '\n' :: other) = line :: splitCrlf other := by
  fun_induction splitCrlf text generalizing line with
  | case1 => cases split; contradiction
  | case2 rest ih =>
    cases split
    exact ⟨rest, rfl, rfl, fun other => rfl⟩
  | case3 c rest inside ih =>
    obtain ⟨first, lines', at_rest⟩ := exists_cons_of_ne_nil (splitCrlf_ne_nil rest)
    rw [at_rest] at split
    cases split
    obtain ⟨later, rfl, behind, again⟩ := ih at_rest
    refine ⟨later, rfl, behind, fun other => ?_⟩
    -- the line goes on with its own next character, or ends
    have inside' : ¬ (c = '\r' ∧ (first ++ '\r' :: '\n' :: other).head? = some '\n') := by
      rintro ⟨rfl, feed⟩
      cases first with
      | nil => cases feed
      | cons d first =>
        cases feed
        exact inside _ rfl rfl
    rw [cons_append, splitCrlf_cons inside', again]
    rfl

theorem splitCrlf_eq_append {front : List Text} (split : splitCrlf text = front ++ lines)
    (ended : lines ≠ []) :
    ∃ later, text = front.flatMap (· ++ ['\r', '\n']) ++ later ∧
      ∀ other, splitCrlf (front.flatMap (· ++ ['\r', '\n']) ++ other) = front ++ splitCrlf other := by
  induction front generalizing text with
  | nil => exact ⟨text, rfl, fun other => rfl⟩
  | cons line front ih =>
    obtain ⟨later, rfl, behind, again⟩ := splitCrlf_eq_cons split (by simp [ended])
    obtain ⟨later', rfl, again'⟩ := ih behind
    refine ⟨later', by simp, fun other => ?_⟩
    rw [flatMap_cons, append_assoc, append_assoc, cons_append, cons_append,
      nil_append, again, again', cons_append]

theorem splitCrlf_concat {front : List Text} {last : Text} (split : splitCrlf text = front ++ [last])
    (other : c ≠ '\n') : splitCrlf (text ++ [c]) = front ++ [last ++ [c]] := by
  fun_induction splitCrlf text generalizing front last with
  | case1 =>
    obtain ⟨rfl, rfl⟩ : front = [] ∧ last = [] := by
      cases front <;> simp_all
    rw [nil_append, splitCrlf_cons (by simp)]
    rfl
  | case2 rest ih =>
    cases front with
    | nil =>
      obtain ⟨-, ended⟩ := List.cons.inj split
      exact absurd ended (splitCrlf_ne_nil rest)
    | cons line front =>
      obtain ⟨rfl, behind⟩ := List.cons.inj split
      exact congrArg ([] :: ·) (ih behind)
  | case3 d rest inside ih =>
    have inside' : ¬ (d = '\r' ∧ (rest ++ [c]).head? = some '\n') := by
      rintro ⟨rfl, feed⟩
      cases rest with
      | nil => exact other (Option.some.inj feed)
      | cons e rest =>
        cases feed
        exact inside _ rfl rfl
    rw [cons_append, splitCrlf_cons inside']
    obtain ⟨first, lines, at_rest⟩ := exists_cons_of_ne_nil (splitCrlf_ne_nil rest)
    rw [at_rest] at ih split
    cases front with
    | nil =>
      cases split
      rw [ih (nil_append _).symm]
      rfl
    | cons line front =>
      cases split
      rw [ih (cons_append ..).symm]
      rfl

theorem toLowercase_ascii (ucd : Ucd) (ascii : ∀ c ∈ text, c.toNat < 128) :
    text.toLowercase ucd = text.map Char.toLower := by
  unfold toLowercase
  generalize ([] : Text) = passed
  induction text generalizing passed with
  | nil => rfl
  | cons c rest ih =>
    have here := ascii c (mem_cons_self ..)
    have other : c ≠ 'Σ' := by
      rintro rfl
      exact absurd here (by decide)
    rw [Ucd.lowerFrom, if_neg other, ucd.lower_ascii c here,
      ih fun d member => ascii d (mem_cons_of_mem _ member)]
    rfl

end Gozarbin.Text
