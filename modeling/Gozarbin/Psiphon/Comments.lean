import Mathlib.Data.List.Chain
import Gozarbin.Lib.Json

/-! # Comments in a config file

A config file of the user's may have comments, as JSON does not. They are taken out character by
character before the text is parsed: a block becomes a blank and the rest of a line a line feed.
Nothing is known of the parser but that blanks between tokens mean nothing to it.
-/

namespace Gozarbin.Psiphon

open List

/-- Between tokens, in a string behind a backslash or not, in a block comment, or in a line
    comment. -/
inductive Mode where
  | plain
  | string (escaped : Bool)
  | block (last : Char)
  | line

def Mode.inString (escaped : Bool) (c : Char) : Mode :=
  if escaped then .string false
  else if c = '\\' then .string true
  else if c = '"' then .plain
  else .string false

def clean : Mode → Text → Text
  | .string _, [] => []
  | .string escaped, c :: rest => c :: clean (.inString escaped c) rest
  | .block _, [] => [' ']
  | .block last, n :: rest =>
    if last = '*' && n = '/' then ' ' :: clean .plain rest else clean (.block n) rest
  | .line, [] => ['\n']
  | .line, n :: rest => if n = '\n' then '\n' :: clean .plain rest else clean .line rest
  | .plain, [] => []
  | .plain, '/' :: '*' :: rest => clean (.block '\x00') rest
  | .plain, '/' :: '/' :: rest => clean .line rest
  | .plain, c :: rest => c :: clean (if c = '"' then .string false else .plain) rest

def json5Ish (fromStr : Text → Except Text Json) (text : Text) : Except Text Json :=
  fromStr (clean .plain text)

example : clean .plain "\x7b/**/\"a\\\"//\":/*/ x **/1\x7d//".toList =
    "\x7b \"a\\\"//\": 1\x7d\n".toList := by decide

def isBlank (c : Char) : Bool := c = ' ' || c = '\t' || c = '\n' || c = '\r'

def isMark (c : Char) : Bool := c = '{' || c = '}' || c = '[' || c = ']' || c = ':' || c = ','

def isWordChar (c : Char) : Bool := !isBlank c && !isMark c && !decide (c = '"') && !decide (c = '/')

/-- A character of a string, as it is written. -/
inductive Piece where
  | plain (c : Char) (usual : c ≠ '"' ∧ c ≠ '\\')
  | escape (c : Char)

def Piece.text : Piece → Text
  | .plain c _ => [c]
  | .escape c => ['\\', c]

inductive Token where
  | mark (c : Char) (mark : isMark c = true)
  | word (text : Text) (filled : text ≠ []) (letters : ∀ c ∈ text, isWordChar c = true)
  | string (pieces : List Piece)

namespace Token

def text : Token → Text
  | .mark c _ => [c]
  | .word text _ _ => text
  | .string pieces => '"' :: pieces.flatMap Piece.text ++ ['"']

def isWord : Token → Bool
  | .word _ _ _ => true
  | _ => false

end Token

/-- A text without comments: its tokens, each with the blanks behind it. -/
structure Layout where
  lead : Text
  items : List (Token × Text)
  tail : Text
  lead_blank : ∀ c ∈ lead, isBlank c = true
  items_blank : ∀ item ∈ items, ∀ c ∈ item.2, isBlank c = true
  tail_blank : ∀ c ∈ tail, isBlank c = true
  apart : items.IsChain fun a b => a.1.isWord = true → b.1.isWord = true → a.2 ≠ []

def Layout.text (layout : Layout) : Text :=
  layout.lead ++ layout.items.flatMap (fun item => item.1.text ++ item.2) ++ layout.tail

def Layout.tokens (layout : Layout) : List Token := layout.items.map (·.1)

/-- Blanks between tokens mean nothing. -/
def IgnoresBlanks (fromStr : Text → Except Text Json) : Prop :=
  ∀ a b : Layout, a.tokens = b.tokens → ∀ value, fromStr a.text = .ok value → fromStr b.text = .ok value

/-- What may be between tokens in a config file. -/
inductive Filler where
  | blank (c : Char) (blank : isBlank c = true)
  | block (text : Text) (unclosed : ¬ ['*', '/'] <:+: text)
  | line (text : Text) (unended : '\n' ∉ text)

namespace Filler

def text : Filler → Text
  | .blank c _ => [c]
  | .block text _ => '/' :: '*' :: text ++ ['*', '/']
  | .line text _ => '/' :: '/' :: text ++ ['\n']

def original : Filler → Text
  | .blank c _ => [c]
  | .block _ _ => []
  | .line _ _ => []

def stripped : Filler → Text
  | .blank c _ => [c]
  | .block _ _ => [' ']
  | .line _ _ => ['\n']

end Filler

/-- A text with comments between its tokens. -/
structure Commented where
  lead : List Filler
  items : List (Token × List Filler)
  tail : Option { text : Text // '\n' ∉ text }
  apart : items.IsChain fun a b => a.1.isWord = true → b.1.isWord = true → a.2.flatMap Filler.original ≠ []

namespace Commented

def text (doc : Commented) : Text :=
  doc.lead.flatMap Filler.text ++
    doc.items.flatMap (fun item => item.1.text ++ item.2.flatMap Filler.text) ++
    (doc.tail.map fun text => '/' :: '/' :: text.1).getD []

def tokens (doc : Commented) : List Token := doc.items.map (·.1)

def layout (doc : Commented) (f : Filler → Text) (tail : Text)
    (blank : ∀ filler, ∀ c ∈ f filler, isBlank c = true)
    (tail_blank : ∀ c ∈ tail, isBlank c = true)
    (kept : ∀ filler, filler.original ≠ [] → f filler ≠ []) : Layout where
  lead := doc.lead.flatMap f
  items := doc.items.map fun item => (item.1, item.2.flatMap f)
  tail := tail
  lead_blank := by
    intro c mem
    obtain ⟨filler, -, inside⟩ := mem_flatMap.mp mem
    exact blank filler c inside
  items_blank := by
    intro item mem c inside
    obtain ⟨item, -, rfl⟩ := mem_map.mp mem
    obtain ⟨filler, -, inside⟩ := mem_flatMap.mp inside
    exact blank filler c inside
  tail_blank := tail_blank
  apart := by
    refine (isChain_map _).mpr (doc.apart.imp fun a b apart first second => ?_)
    have gap := apart first second
    simp only [ne_eq, flatMap_eq_nil_iff, not_forall] at gap ⊢
    obtain ⟨filler, mem, shown⟩ := gap
    exact ⟨filler, mem, kept filler shown⟩

def original (doc : Commented) : Layout :=
  doc.layout Filler.original []
    (by
      rintro (⟨c, blank⟩ | ⟨text, unclosed⟩ | ⟨text, unended⟩) d mem
      · exact mem_singleton.mp mem ▸ blank
      · cases mem
      · cases mem)
    (fun _ mem => by cases mem) (fun _ shown => shown)

def stripped (doc : Commented) : Layout :=
  doc.layout Filler.stripped (if doc.tail.isSome then ['\n'] else [])
    (by
      rintro (⟨c, blank⟩ | ⟨text, unclosed⟩ | ⟨text, unended⟩) d mem
      · exact mem_singleton.mp mem ▸ blank
      · exact mem_singleton.mp mem ▸ by decide
      · exact mem_singleton.mp mem ▸ by decide)
    (by
      intro c mem
      split at mem
      · exact mem_singleton.mp mem ▸ by decide
      · cases mem)
    (by
      rintro (⟨c, blank⟩ | ⟨text, unclosed⟩ | ⟨text, unended⟩) shown
      · exact shown
      · simp [Filler.stripped]
      · simp [Filler.stripped])

end Commented

section
variable {rest : Text}

theorem clean_cons {c : Char} (quote : c ≠ '"') (slash : c ≠ '/') :
    clean .plain (c :: rest) = c :: clean .plain rest := by
  rw [clean, if_neg quote]
  · exact fun _ same => absurd same slash
  · exact fun _ same => absurd same slash

theorem clean_quote : clean .plain ('"' :: rest) = '"' :: clean (.string false) rest := rfl

theorem clean_append {text : Text} (usual : ∀ c ∈ text, c ≠ '"' ∧ c ≠ '/') :
    clean .plain (text ++ rest) = text ++ clean .plain rest := by
  induction text with
  | nil => rfl
  | cons c text ih =>
    obtain ⟨⟨quote, slash⟩, later⟩ := forall_mem_cons.mp usual
    rw [cons_append, clean_cons quote slash, ih later, cons_append]

theorem clean_pieces (pieces : List Piece) :
    clean (.string false) (pieces.flatMap Piece.text ++ '"' :: rest) =
      pieces.flatMap Piece.text ++ '"' :: clean .plain rest := by
  induction pieces with
  | nil => rfl
  | cons piece pieces ih =>
    rw [flatMap_cons, append_assoc, append_assoc, ← ih]
    cases piece with
    | plain c usual =>
      have stays : Mode.inString false c = .string false := by simp [Mode.inString, usual]
      rw [Piece.text, singleton_append, singleton_append, clean, stays]
    | escape c => rfl

theorem clean_block {last : Char} {text : Text} (unclosed : ¬ ['*', '/'] <:+: last :: text) :
    clean (.block last) (text ++ '*' :: '/' :: rest) = ' ' :: clean .plain rest := by
  induction text generalizing last with
  | nil => simp [clean]
  | cons n text ih =>
    have open' : ¬ (last = '*' && n = '/') = true := by
      intro closed
      simp only [Bool.and_eq_true, decide_eq_true_eq] at closed
      obtain ⟨rfl, rfl⟩ := closed
      exact unclosed ⟨[], text, rfl⟩
    rw [cons_append, clean, if_neg open']
    exact ih fun inner => unclosed (inner.trans (suffix_cons last _).isInfix)

theorem clean_line {text : Text} (unended : '\n' ∉ text) :
    clean .line (text ++ '\n' :: rest) = '\n' :: clean .plain rest := by
  induction text with
  | nil => simp [clean]
  | cons n text ih =>
    obtain ⟨other, later⟩ := ne_and_not_mem_of_not_mem_cons unended
    rw [cons_append, clean, if_neg (Ne.symm other), ih later]

theorem clean_tail {text : Text} (unended : '\n' ∉ text) : clean .line text = ['\n'] := by
  induction text with
  | nil => rfl
  | cons n text ih =>
    obtain ⟨other, later⟩ := ne_and_not_mem_of_not_mem_cons unended
    rw [clean, if_neg (Ne.symm other), ih later]

theorem usual_of_isBlank {c : Char} (blank : isBlank c = true) : c ≠ '"' ∧ c ≠ '/' := by
  simp only [isBlank, Bool.or_eq_true, decide_eq_true_eq] at blank
  rcases blank with ((rfl | rfl) | rfl) | rfl <;> decide

theorem usual_of_isMark {c : Char} (mark : isMark c = true) : c ≠ '"' ∧ c ≠ '/' := by
  simp only [isMark, Bool.or_eq_true, decide_eq_true_eq] at mark
  rcases mark with ((((rfl | rfl) | rfl) | rfl) | rfl) | rfl <;> decide

theorem usual_of_isWordChar {c : Char} (letter : isWordChar c = true) : c ≠ '"' ∧ c ≠ '/' := by
  simp only [isWordChar, Bool.and_eq_true, Bool.not_eq_true', decide_eq_false_iff_not] at letter
  exact ⟨letter.1.2, letter.2⟩

theorem Filler.clean_text (filler : Filler) :
    clean .plain (filler.text ++ rest) = filler.stripped ++ clean .plain rest := by
  cases filler with
  | blank c blank =>
    obtain ⟨quote, slash⟩ := usual_of_isBlank blank
    exact clean_cons quote slash
  | block text unclosed =>
    have unclosed' : ¬ ['*', '/'] <:+: '\x00' :: text := by
      rw [infix_cons_iff]
      rintro (first | inner)
      · simp at first
      · exact unclosed inner
    have split :
        (Filler.block text unclosed).text ++ rest = '/' :: '*' :: (text ++ '*' :: '/' :: rest) := by
      simp [Filler.text]
    rw [split, clean, clean_block unclosed']
    rfl
  | line text unended =>
    have split : (Filler.line text unended).text ++ rest = '/' :: '/' :: (text ++ '\n' :: rest) := by
      simp [Filler.text]
    rw [split, clean, clean_line unended]
    rfl

theorem Token.clean_text (token : Token) :
    clean .plain (token.text ++ rest) = token.text ++ clean .plain rest := by
  cases token with
  | mark c mark =>
    obtain ⟨quote, slash⟩ := usual_of_isMark mark
    exact clean_cons quote slash
  | word text filled letters =>
    exact clean_append fun c mem => usual_of_isWordChar (letters c mem)
  | string pieces =>
    have split :
        (Token.string pieces).text ++ rest = '"' :: (pieces.flatMap Piece.text ++ '"' :: rest) := by
      simp [Token.text]
    rw [split, clean_quote, clean_pieces]
    simp [Token.text]

theorem clean_fillers (fillers : List Filler) :
    clean .plain (fillers.flatMap Filler.text ++ rest) =
      fillers.flatMap Filler.stripped ++ clean .plain rest := by
  induction fillers with
  | nil => rfl
  | cons filler fillers ih =>
    rw [flatMap_cons, append_assoc, filler.clean_text, ih, flatMap_cons,
      append_assoc]

theorem clean_items (items : List (Token × List Filler)) :
    clean .plain (items.flatMap (fun item => item.1.text ++ item.2.flatMap Filler.text) ++ rest) =
      items.flatMap (fun item => item.1.text ++ item.2.flatMap Filler.stripped) ++ clean .plain rest := by
  induction items with
  | nil => rfl
  | cons item items ih =>
    rw [flatMap_cons, append_assoc, append_assoc, item.1.clean_text, clean_fillers, ih,
      flatMap_cons, append_assoc, append_assoc]

end

theorem clean_text (doc : Commented) : clean .plain doc.text = doc.stripped.text := by
  have tail : clean .plain ((doc.tail.map fun text => '/' :: '/' :: text.1).getD []) =
      if doc.tail.isSome then ['\n'] else [] := by
    cases doc.tail with
    | none => rfl
    | some text => exact clean_tail text.2
  rw [Commented.text, append_assoc, clean_fillers, clean_items, tail, ← append_assoc]
  simp only [Layout.text, Commented.stripped, Commented.layout, flatMap_map]

/-- A text with comments is read as the text without them. -/
theorem comments_stripped_exactly (fromStr : Text → Except Text Json) (ignores : IgnoresBlanks fromStr)
    (doc : Commented) :
    (∃ layout : Layout, layout.tokens = doc.tokens ∧ clean .plain doc.text = layout.text) ∧
      doc.original.tokens = doc.tokens ∧
      ∀ value, json5Ish fromStr doc.text = .ok value ↔ fromStr doc.original.text = .ok value := by
  have stripped : doc.stripped.tokens = doc.tokens := map_map
  have original : doc.original.tokens = doc.tokens := map_map
  refine ⟨⟨doc.stripped, stripped, clean_text doc⟩, original, fun value => ?_⟩
  rw [json5Ish, clean_text]
  exact ⟨ignores _ _ (stripped.trans original.symm) value, ignores _ _ (original.trans stripped.symm) value⟩

def readString : Text → Option (Text × Text)
  | '"' :: rest => some ([], rest)
  | '\\' :: c :: rest => (readString rest).map fun (string, rest) => (c :: string, rest)
  | c :: rest => (readString rest).map fun (string, rest) => (c :: string, rest)
  | [] => none

def readObject (text : Text) : Except Text Json :=
  match text.filter (!isBlank ·) with
  | '{' :: '"' :: rest =>
    match readString rest with
    | some (name, ':' :: rest) =>
      match Text.parseUnsigned UInt64.size rest.dropLast with
      | some number => if rest.getLast? = some '}' then .ok (.object [(name, .int number)]) else .error []
      | none => .error []
    | _ => .error []
  | _ => .error []

theorem readObject_ignoresBlanks : IgnoresBlanks readObject := by
  have none {text : Text} (blank : ∀ c ∈ text, isBlank c = true) : text.filter (!isBlank ·) = [] :=
    filter_eq_nil_iff.mpr fun c mem => by simp [blank c mem]
  have seen (layout : Layout) : layout.text.filter (!isBlank ·) =
      layout.tokens.flatMap fun token => token.text.filter (!isBlank ·) := by
    rw [Layout.text, filter_append, filter_append, none layout.lead_blank, none layout.tail_blank,
      nil_append, append_nil, filter_flatMap, Layout.tokens, flatMap_map]
    refine flatMap_congr fun item mem => ?_
    rw [filter_append, none (layout.items_blank item mem), append_nil]
  intro a b same value read
  rw [readObject, seen] at read ⊢
  rw [← same]
  exact read

def someComments : Commented where
  lead := [.block "/ **".toList (by decide), .blank '\n' rfl]
  items := [(.mark '{' rfl, [.line "\x7b".toList (by decide)]),
    (.string [.plain '/' (by decide), .plain '*' (by decide), .escape '"'], []),
    (.mark ':' rfl, [.block [] (by decide)]),
    (.word "1".toList (by decide) (forall_iff_forall_mem.mp (by decide)),
      [.block "*".toList (by decide)]), (.mark '}' rfl, [])]
  tail := some ⟨"\"".toList, by decide⟩
  apart := by simp [Token.isWord]

theorem some_comments_stripped :
    someComments.text = "/*/ ***/\n\x7b//\x7b\n\"/*\\\"\":/**/1/***/\x7d//\"".toList ∧
      json5Ish readObject someComments.text = .ok (.object [("/*\"".toList, .int 1)]) :=
  ⟨by decide,
    ((comments_stripped_exactly readObject readObject_ignoresBlanks someComments).2.2 _).mpr rfl⟩

end Gozarbin.Psiphon
