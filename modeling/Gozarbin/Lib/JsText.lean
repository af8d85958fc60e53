import Gozarbin.Lib.Text

/-! # The text of a script

JavaScript without regular expression literals, as far as it matters where the tokens of a text
are. Blanks, literals and comments end a run of other characters, which a tokenizer then takes
apart. Parts may be left out where they say nothing (`Spared`): what is left has the same
tokens.
-/

namespace Gozarbin.JsText

open List

inductive Quote where
  | single
  | double
  | back
  deriving DecidableEq

def Quote.char : Quote → Char
  | .single => '\x27'
  | .double => '"'
  | .back => '\x60'

def quote? (c : Char) : Option Quote :=
  if c = '\x27' then some .single
  else if c = '"' then some .double
  else if c = '\x60' then some .back
  else none

def isLineEnd (c : Char) : Bool := c = '\n' || c = '\r' || c = '\u2028' || c = '\u2029'

def isBlank (c : Char) : Bool :=
  Text.isWhitespace c || (0x1c ≤ c.toNat && c.toNat ≤ 0x1f) || c = '\ufeff'

/-- What takes a run of code apart. -/
structure Tokenizer (τ : Type) where
  words : Text → List τ
  words_nil : words [] = []

inductive Token (τ : Type) where
  | word (word : τ)
  | literal (text : Text)
  deriving DecidableEq

inductive Mode where
  | code
  | slash
  | literal (quote : Quote) (escaped : Bool)
  | line
  | block (star : Bool)
  deriving DecidableEq

structure Lexer (τ : Type) where
  mode : Mode
  run : Text
  tokens : List (Token τ)
  deriving DecidableEq

namespace Lexer

variable {τ : Type}

def start : Lexer τ := ⟨.code, [], []⟩

variable (t : Tokenizer τ)

def flush (s : Lexer τ) : Lexer τ := ⟨.code, [], s.tokens ++ (t.words s.run).map .word⟩

def push (s : Lexer τ) (c : Char) : Lexer τ := ⟨.code, s.run ++ [c], s.tokens⟩

def inCode (s : Lexer τ) (c : Char) : Lexer τ :=
  match quote? c with
  | some quote => { s.flush t with mode := .literal quote false, run := [c] }
  | none => if isBlank c then s.flush t else s.push c

def inLiteral (s : Lexer τ) (quote : Quote) (escaped : Bool) (c : Char) : Lexer τ :=
  if escaped then { s with mode := .literal quote false, run := s.run ++ [c] }
  else if c = '\\' then { s with mode := .literal quote true, run := s.run ++ [c] }
  else if c = quote.char then ⟨.code, [], s.tokens ++ [.literal (s.run ++ [c])]⟩
  else { s with mode := .literal quote false, run := s.run ++ [c] }

def step (s : Lexer τ) (c : Char) : Lexer τ :=
  match s.mode with
  | .code => if c = '/' then { s with mode := .slash } else s.inCode t c
  | .slash =>
    if c = '/' then { s.flush t with mode := .line }
    else if c = '*' then { s.flush t with mode := .block false }
    else (s.push '/').inCode t c
  | .literal quote escaped => s.inLiteral quote escaped c
  | .line => if isLineEnd c then s.flush t else s
  | .block star =>
    if star && c = '/' then { s with mode := .code } else { s with mode := .block (c = '*') }

def read (s : Lexer τ) (text : Text) : Lexer τ := text.foldl (step t) s

def settled (s : Lexer τ) : Lexer τ :=
  match s.mode with
  | .slash => s.push '/'
  | .line => s.flush t
  | _ => s

def finish (s : Lexer τ) : Option (List (Token τ)) :=
  match (s.settled t).mode with
  | .code => some ((s.settled t).flush t).tokens
  | _ => none

end Lexer

def lex {τ : Type} (t : Tokenizer τ) (text : Text) : Option (List (Token τ)) :=
  (Lexer.start.read t text).finish t

theorem quote?_char (quote : Quote) : quote? quote.char = some quote := by
  cases quote <;> decide

theorem eq_char_of_quote? {c : Char} {quote : Quote} (same : quote? c = some quote) : c = quote.char := by
  unfold quote? at same
  grind [Quote.char]

theorem isBlank_of_isLineEnd {c : Char} (ends : isLineEnd c = true) : isBlank c = true := by
  simp only [isLineEnd, Bool.or_eq_true, decide_eq_true_eq] at ends
  rcases ends with ((rfl | rfl) | rfl) | rfl <;> decide

theorem not_special_of_isBlank {c : Char} (blank : isBlank c = true) :
    quote? c = none ∧ c ≠ '/' ∧ c ≠ '*' ∧ c ≠ '\\' := by
  refine ⟨?_, ?_, ?_, ?_⟩
  · cases quoted : quote? c with
    | none => rfl
    | some quote =>
      rw [eq_char_of_quote? quoted] at blank
      revert blank
      cases quote <;> decide
  all_goals
    rintro rfl
    revert blank
    decide

namespace Lexer

variable {τ : Type} {t : Tokenizer τ} {s o : Lexer τ} {c : Char} {text : Text}

@[simp] theorem flush_flush (s : Lexer τ) : (s.flush t).flush t = s.flush t := by
  simp [flush, t.words_nil]

theorem read_cons (c : Char) (text : Text) : s.read t (c :: text) = (s.step t c).read t text := rfl

theorem read_append (a b : Text) : s.read t (a ++ b) = (s.read t a).read t b := foldl_append

theorem settled_settled (s : Lexer τ) : (s.settled t).settled t = s.settled t := by
  cases mode : s.mode <;> simp [settled, mode, push, flush]

theorem step_tokens (s : Lexer τ) (c : Char) : s.tokens <+: (s.step t c).tokens := by
  have inCode (s : Lexer τ) : s.tokens <+: (s.inCode t c).tokens := by
    unfold inCode
    split
    · exact prefix_append ..
    · split
      · exact prefix_append ..
      · exact prefix_rfl
  unfold step
  split
  next => split; exacts [prefix_rfl, inCode s]
  next =>
    split
    · exact prefix_append ..
    · split; exacts [prefix_append .., inCode (s.push '/')]
  next =>
    unfold inLiteral
    split; exact prefix_rfl
    split; exact prefix_rfl
    split; exacts [prefix_append .., prefix_rfl]
  next => split; exacts [prefix_append .., prefix_rfl]
  next => split <;> exact prefix_rfl

def Inside (s : Lexer τ) : Prop := ∃ quote escaped, s.mode = .literal quote escaped

theorem not_inside {mode : Mode} (other : ∀ quote escaped, mode ≠ .literal quote escaped) (run : Text)
    (tokens : List (Token τ)) : ¬ (⟨mode, run, tokens⟩ : Lexer τ).Inside :=
  fun ⟨quote, escaped, inside⟩ => other quote escaped inside

def Still (t : Tokenizer τ) (s : Lexer τ) : Prop := ∀ c, isBlank c = true → s.step t c = s

theorem step_blank (code : s.mode = .code) (blank : isBlank c = true) : s.step t c = s.flush t := by
  obtain ⟨unquoted, slash, -, -⟩ := not_special_of_isBlank blank
  simp [step, code, slash, inCode, unquoted, blank]

theorem still_flush (s : Lexer τ) : (s.flush t).Still t := by
  intro c blank
  rw [step_blank rfl blank, flush_flush]

theorem Still.read (still : s.Still t) (blank : ∀ c ∈ text, isBlank c = true) : s.read t text = s := by
  induction text with
  | nil => rfl
  | cons c text ih =>
    obtain ⟨here, later⟩ := forall_mem_cons.mp blank
    rw [read_cons, still c here, ih later]

theorem step_blank_feed (outside : ¬ s.Inside) (blank : isBlank c = true) :
    ¬ (s.step t c).Inside ∧ (s.step t c).step t '\n' = s.step t '\n' := by
  obtain ⟨unquoted, slash, star, -⟩ := not_special_of_isBlank blank
  have flushed (s : Lexer τ) : ¬ (s.flush t).Inside ∧ (s.flush t).step t '\n' = s.flush t :=
    ⟨not_inside (fun _ _ eq => by cases eq) _ _, still_flush s '\n' (by decide)⟩
  cases mode : s.mode with
  | code =>
    rw [step_blank mode blank, step_blank mode (by decide)]
    exact flushed s
  | slash =>
    have reads {d : Char} (blank : isBlank d = true) : s.step t d = (s.push '/').flush t := by
      obtain ⟨unquoted, slash, star, -⟩ := not_special_of_isBlank blank
      simp [step, mode, slash, star, inCode, unquoted, blank]
    rw [reads blank, reads (by decide)]
    exact flushed _
  | line =>
    have feed : s.step t '\n' = s.flush t := by simp [step, mode, isLineEnd]
    cases ends : isLineEnd c with
    | true =>
      have reads : s.step t c = s.flush t := by simp [step, mode, ends]
      rw [reads, feed]
      exact flushed s
    | false =>
      have reads : s.step t c = s := by simp [step, mode, ends]
      rw [reads]
      exact ⟨outside, rfl⟩
  | block behind =>
    have reads : s.step t c = { s with mode := .block false } := by simp [step, mode, slash, star]
    rw [reads]
    exact ⟨not_inside (fun _ _ eq => by cases eq) _ _, by simp [step, mode]⟩
  | literal quote escaped => exact absurd ⟨quote, escaped, mode⟩ outside

theorem read_blank_feed (outside : ¬ s.Inside) (blank : ∀ c ∈ text, isBlank c = true) :
    ¬ (s.read t text).Inside ∧ (s.read t text).step t '\n' = s.step t '\n' := by
  induction text generalizing s with
  | nil => exact ⟨outside, rfl⟩
  | cons c text ih =>
    obtain ⟨here, later⟩ := forall_mem_cons.mp blank
    obtain ⟨outside', same⟩ := step_blank_feed (t := t) outside here
    rw [read_cons, ← same]
    exact ih outside' later

theorem still_feed (outside : ¬ s.Inside) : (s.step t '\n').Still t := by
  cases mode : s.mode with
  | code => rw [step_blank mode (by decide)]; exact still_flush s
  | slash =>
    have reads : s.step t '\n' = (s.push '/').flush t := by
      simp [step, mode, inCode, quote?, isBlank, Text.isWhitespace]
    rw [reads]
    exact still_flush _
  | line =>
    have reads : s.step t '\n' = s.flush t := by simp [step, mode, isLineEnd]
    rw [reads]
    exact still_flush s
  | block behind =>
    intro c blank
    obtain ⟨-, slash, star, -⟩ := not_special_of_isBlank blank
    simp [step, mode, star]
  | literal quote escaped => exact absurd ⟨quote, escaped, mode⟩ outside

theorem finish_feed (outside : ¬ s.Inside) : (s.step t '\n').finish t = s.finish t := by
  cases mode : s.mode with
  | code | slash | line =>
    simp [step, mode, inCode, quote?, isBlank, Text.isWhitespace, isLineEnd, finish, settled, push, flush,
      t.words_nil]
  | block behind => simp [step, mode, finish, settled]
  | literal quote escaped => exact absurd ⟨quote, escaped, mode⟩ outside

theorem read_inBlock {text : Text} {star : Bool} (block : s.mode = .block star)
    (open_ : star = true → text.head? ≠ some '/') (unclosed : ¬ ['*', '/'] <:+: text) :
    ∃ star', s.read t text = { s with mode := .block star' } := by
  induction text generalizing s star with
  | nil =>
    refine ⟨star, ?_⟩
    rw [← block]
    rfl
  | cons c text ih =>
    have next : s.step t c = { s with mode := .block (c = '*') } := by
      have inside : ¬ (star && decide (c = '/')) = true := by
        simp only [Bool.and_eq_true, decide_eq_true_eq]
        rintro ⟨behind, rfl⟩
        exact open_ behind rfl
      simp only [step, block]
      rw [if_neg inside]
    obtain ⟨star', rest⟩ := ih (s := { s with mode := .block (c = '*') }) rfl
      (by
        intro star' slash
        obtain ⟨rest, rfl⟩ := List.head?_eq_some_iff.mp slash
        simp only [decide_eq_true_eq] at star'
        subst star'
        exact unclosed ⟨[], rest, rfl⟩)
      fun inner => unclosed (inner.trans (suffix_cons c text).isInfix)
    exact ⟨star', by rw [read_cons, next, rest]⟩

theorem Inside.step (inside : s.Inside) (c : Char) :
    s.step t c = ⟨.code, [], s.tokens ++ [.literal (s.run ++ [c])]⟩ ∨
      (s.step t c).Inside ∧ (s.step t c).run = s.run ++ [c] := by
  obtain ⟨quote, escaped, mode⟩ := inside
  simp only [Lexer.step, mode, inLiteral]
  split
  · exact .inr ⟨⟨_, _, rfl⟩, rfl⟩
  split
  · exact .inr ⟨⟨_, _, rfl⟩, rfl⟩
  split
  · exact .inl rfl
  · exact .inr ⟨⟨_, _, rfl⟩, rfl⟩

theorem Inside.feed (inside : s.Inside) :
    (s.step t '\n').Inside ∧ (s.step t '\n').run = s.run ++ ['\n'] := by
  obtain ⟨quote, escaped, mode⟩ := inside
  have other : '\n' ≠ quote.char := by cases quote <;> decide
  cases escaped <;> simp [Lexer.step, mode, inLiteral, other, Inside]

theorem Inside.finish (inside : s.Inside) : s.finish t = none := by
  obtain ⟨quote, escaped, mode⟩ := inside
  simp [Lexer.finish, settled, mode]

theorem Inside.read (inside : s.Inside) (blank : ∀ c ∈ text, isBlank c = true) : (s.read t text).Inside := by
  induction text generalizing s with
  | nil => exact inside
  | cons c text ih =>
    obtain ⟨here, later⟩ := forall_mem_cons.mp blank
    obtain ⟨unquoted, -, -, backslash⟩ := not_special_of_isBlank here
    obtain ⟨quote, escaped, mode⟩ := inside
    have other : c ≠ quote.char := by
      rintro rfl
      cases (quote?_char quote).symm.trans unquoted
    apply ih _ later
    refine ⟨quote, false, ?_⟩
    cases escaped <;> simp [Lexer.step, mode, inLiteral, backslash, other]

theorem Still.outside (still : s.Still t) : ¬ s.Inside := by
  intro inside
  have longer := (inside.feed (t := t)).2
  rw [still '\n' (by decide)] at longer
  simpa using congrArg List.length longer

theorem run_of_inCode (inside : (s.inCode t c).Inside) : (s.inCode t c).run = [c] := by
  cases quoted : quote? c with
  | some quote => simp [inCode, quoted]
  | none =>
    obtain ⟨quote, escaped, other⟩ := inside
    simp only [inCode, quoted] at other
    split at other <;> cases other

theorem run_of_inside (inside : (s.step t c).Inside) : ∃ front, (s.step t c).run = front ++ [c] := by
  by_cases before : s.Inside
  · rcases before.step (t := t) c with closed | open_
    · rw [closed] at inside
      exact absurd inside (not_inside (fun _ _ eq => by cases eq) _ _)
    · exact ⟨s.run, open_.2⟩
  · -- It was opened just now.
    refine ⟨[], ?_⟩
    generalize next : s.step t c = s' at inside ⊢
    obtain ⟨quote, escaped, literal⟩ := inside
    unfold Lexer.step at next
    split at next <;> try split at next
    all_goals try split at next
    all_goals first
      | exact next ▸ run_of_inCode ⟨quote, escaped, next ▸ literal⟩
      | exact absurd ⟨_, _, ‹s.mode = _›⟩ before
      | (subst next; simp_all [flush])

theorem tokens_of_finish {tokens : List (Token τ)} (ends : (s.read t text).finish t = some tokens) :
    ∀ token ∈ s.tokens, token ∈ tokens := by
  induction text generalizing s with
  | nil =>
    intro token member
    unfold Lexer.finish at ends
    split at ends
    · cases ends
      cases mode : s.mode <;> simp [read, settled, mode, push, flush, member]
    · cases ends
  | cons c text ih =>
    exact fun token member => ih ends token ((step_tokens s c).subset member)

theorem literal_of_inside {tokens : List (Token τ)} (inside : s.Inside)
    (ends : (s.read t text).finish t = some tokens) :
    ∃ more rest, text = more ++ rest ∧ .literal (s.run ++ more) ∈ tokens := by
  induction text generalizing s with
  | nil => cases ends.symm.trans inside.finish
  | cons c text ih =>
    rw [read_cons] at ends
    rcases inside.step (t := t) c with closed | ⟨inside', run⟩
    · rw [closed] at ends
      exact ⟨[c], text, rfl, tokens_of_finish ends _ (by simp)⟩
    · obtain ⟨more, rest, rfl, member⟩ := ih inside' ends
      rw [run, append_assoc] at member
      exact ⟨c :: more, rest, rfl, member⟩

end Lexer

/-- A part of a text: a character that is kept, or a text that is left out. -/
inductive Part where
  | kept (c : Char)
  | out (text : Text)

def Part.text : Part → Text
  | .kept c => [c]
  | .out text => text

def Part.left : Part → Text
  | .kept c => [c]
  | .out _ => []

namespace Lexer

variable {τ : Type} {t : Tokenizer τ} {s o : Lexer τ} {c : Char} {glued : Text}

def inRun (s : Lexer τ) : Bool :=
  match s.mode with
  | .code => !s.run.isEmpty
  | .slash => true
  | _ => false

def runBefore (s : Lexer τ) (c : Char) : Text :=
  if s.mode = .slash ∧ c ≠ '/' ∧ c ≠ '*' then s.run ++ ['/'] else s.run

/-- Behind a comment: in code, or at the end of the line of a line comment. -/
def Ended (s : Lexer τ) (rest : Text) : Prop :=
  s.mode = .code ∨ s.mode = .line ∧ ∀ c ∈ rest.head?, isLineEnd c = true

/-- Two texts have the same tokens together as one by one. -/
def Joins (t : Tokenizer τ) (front back : Text) : Prop :=
  t.words (front ++ back) = t.words front ++ t.words back

/-- What is left out says nothing where it stands: it leaves the reader as it is, or it is a
    comment with nothing but blanks behind it, and the runs that it kept apart keep their tokens
    when they are joined. -/
def Spared (t : Tokenizer τ) : (glued : Text) → Lexer τ → List Part → Prop
  | glued, s, [] => Joins t glued (s.settled t).run
  | glued, s, .kept c :: rest =>
    if (s.step t c).inRun then Spared t glued (s.step t c) rest
    else Joins t glued (s.runBefore c) ∧ Spared t [] (s.step t c) rest
  | glued, s, .out text :: rest =>
    s.read t text = s ∧ Spared t glued s rest ∨
      s.mode = .code ∧ (s.read t text).settled t = s.flush t ∧
        (s.read t text).Ended (rest.flatMap Part.text) ∧ Joins t glued s.run ∧
        Spared t (glued ++ s.run) (s.flush t) rest

instance (s : Lexer τ) (rest : Text) : Decidable (s.Ended rest) :=
  inferInstanceAs (Decidable (_ ∨ _ ∧ _))

instance [DecidableEq τ] (front back : Text) : Decidable (Joins t front back) :=
  inferInstanceAs (Decidable (_ = _))

instance decidableSpared [DecidableEq τ] (t : Tokenizer τ) :
    ∀ (glued : Text) (s : Lexer τ) (parts : List Part), Decidable (Spared t glued s parts)
  | glued, s, [] => inferInstanceAs (Decidable (Joins t glued (s.settled t).run))
  | glued, s, .kept c :: rest =>
    have := decidableSpared t glued (s.step t c) rest
    have := decidableSpared t [] (s.step t c) rest
    inferInstanceAs (Decidable (if (s.step t c).inRun then _ else _ ∧ _))
  | glued, s, .out _ :: rest =>
    have := decidableSpared t glued s rest
    have := decidableSpared t (glued ++ s.run) (s.flush t) rest
    inferInstanceAs (Decidable (_ ∧ _ ∨ _ ∧ _ ∧ _ ∧ _ ∧ _))

structure Behind (t : Tokenizer τ) (glued : Text) (s o : Lexer τ) : Prop where
  mode : o.mode = s.mode
  run : o.run = glued ++ s.run
  tokens : s.tokens = o.tokens ++ (t.words glued).map .word
  inCode : glued ≠ [] → s.mode = .code ∨ s.mode = .slash

namespace Behind

theorem refl (s : Lexer τ) : Behind t [] s s :=
  ⟨rfl, rfl, by simp [t.words_nil], fun some_ => absurd rfl some_⟩

theorem eq_of_nil (behind : Behind t [] s o) : o = s := by
  obtain ⟨mode, run, tokens, -⟩ := behind
  rw [t.words_nil, map_nil, append_nil] at tokens
  cases s
  cases o
  simp_all

theorem flush (behind : Behind t glued s o) (joins : Joins t glued s.run) : o.flush t = s.flush t := by
  simp only [Lexer.flush, behind.run, behind.tokens, show t.words (glued ++ s.run) = _ from joins,
    map_append, append_assoc]

theorem push (behind : Behind t glued s o) (c : Char) : Behind t glued (s.push c) (o.push c) :=
  ⟨rfl, by simp [Lexer.push, behind.run], behind.tokens, fun _ => .inl rfl⟩

theorem step_inCode (behind : Behind t glued s o) (c : Char) :
    ((s.inCode t c).inRun = true → Behind t glued (s.inCode t c) (o.inCode t c)) ∧
      ((s.inCode t c).inRun = false → Joins t glued s.run → o.inCode t c = s.inCode t c) := by
  unfold Lexer.inCode
  split
  next => exact ⟨fun goes => (by cases goes), fun _ joins => by rw [behind.flush joins]⟩
  next =>
    split
    · exact ⟨fun goes => (by cases goes), fun _ joins => behind.flush joins⟩
    · exact ⟨fun _ => behind.push c, fun ends => by simp [inRun, Lexer.push] at ends⟩

theorem step (behind : Behind t glued s o) (c : Char) :
    ((s.step t c).inRun = true → Behind t glued (s.step t c) (o.step t c)) ∧
      ((s.step t c).inRun = false → Joins t glued (s.runBefore c) → o.step t c = s.step t c) := by
  by_cases none_ : glued = []
  · subst none_
    rw [behind.eq_of_nil]
    exact ⟨fun _ => refl _, fun _ _ => rfl⟩
  rcases behind.inCode none_ with code | slash
  · simp only [Lexer.step, behind.mode, code, runBefore]
    split
    · exact ⟨fun _ => ⟨rfl, behind.run, behind.tokens, fun _ => .inr rfl⟩, fun ends => by cases ends⟩
    · simpa using behind.step_inCode c
  · simp only [Lexer.step, behind.mode, slash, runBefore]
    split
    next begins =>
      simp only [begins]
      exact ⟨fun goes => (by cases goes), fun _ joins => by rw [behind.flush joins]⟩
    split
    next begins =>
      simp only [begins]
      exact ⟨fun goes => (by cases goes), fun _ joins => by rw [behind.flush joins]⟩
    next slash' star =>
      simp only [slash', star, ne_eq]
      exact (behind.push '/').step_inCode c

theorem finish (behind : Behind t glued s o) (joins : Joins t glued (s.settled t).run) :
    o.finish t = s.finish t := by
  by_cases none_ : glued = []
  · subst none_
    rw [behind.eq_of_nil]
  rcases behind.inCode none_ with code | slash
  · have settled : s.settled t = s := by simp [Lexer.settled, code]
    rw [settled] at joins
    simp only [Lexer.finish, Lexer.settled, behind.mode, code, behind.flush joins]
  · have settled : s.settled t = s.push '/' := by simp [Lexer.settled, slash]
    rw [settled] at joins
    simp only [Lexer.finish, Lexer.settled, behind.mode, slash, (behind.push '/').flush joins]
    rfl

end Behind

theorem Ended.finish {rest : Text} (ended : s.Ended rest) :
    (s.read t rest).finish t = ((s.settled t).read t rest).finish t := by
  rcases ended with code | ⟨line, ends⟩
  · have settled : s.settled t = s := by simp [settled, code]
    rw [settled]
  · have settled : s.settled t = s.flush t := by simp [Lexer.settled, line]
    cases rest with
    | nil => simp only [read, foldl_nil, Lexer.finish, settled_settled]
    | cons c rest =>
      have ends := ends c rfl
      have reads : s.step t c = s.flush t := by simp [step, line, ends]
      rw [settled, read_cons, read_cons, reads, still_flush s c (isBlank_of_isLineEnd ends)]

theorem Behind.read {parts : List Part} (behind : Behind t glued s o) (spared : Spared t glued s parts) :
    (o.read t (parts.flatMap Part.left)).finish t = (s.read t (parts.flatMap Part.text)).finish t := by
  induction parts generalizing glued s o with
  | nil => exact behind.finish spared
  | cons part rest ih =>
    simp only [flatMap_cons, read_append]
    cases part with
    | kept c =>
      change ((o.step t c).read t _).finish t = ((s.step t c).read t _).finish t
      rw [Spared] at spared
      cases goes : (s.step t c).inRun with
      | true => exact ih ((behind.step c).1 goes) (by simpa [goes] using spared)
      | false =>
        rw [goes] at spared
        rw [(behind.step c).2 goes spared.1]
        exact ih (.refl _) spared.2
    | out text =>
      rcases spared with ⟨same, later⟩ | ⟨code, comment, ended, joins, later⟩
      · rw [Part.text, same]
        exact ih behind later
      · rw [Part.text, ended.finish, comment]
        apply ih _ later
        have tokens : (s.flush t).tokens = o.tokens ++ (t.words (glued ++ s.run)).map .word := by
          rw [show t.words (glued ++ s.run) = _ from joins, map_append, ← append_assoc,
            ← behind.tokens]
          rfl
        exact ⟨behind.mode.trans code, behind.run.trans (append_nil _).symm, tokens, fun _ => .inl rfl⟩

end Lexer

theorem lex_left {τ : Type} {t : Tokenizer τ} {parts : List Part} (spared : Lexer.Spared t [] .start parts) :
    lex t (parts.flatMap Part.left) = lex t (parts.flatMap Part.text) :=
  (Lexer.Behind.refl .start).read spared

end Gozarbin.JsText
