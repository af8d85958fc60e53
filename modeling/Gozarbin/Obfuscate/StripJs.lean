import Gozarbin.Lib.JsText
import Gozarbin.Lib.Split

/-! # Packing a script

`strip_js` takes out the comments, trims the lines, drops the empty ones and puts the licence
lines of a leading comment in front. Line comments behind code are copied, and literals and
block comments are looked for in them. A script keeps its tokens if it is `Unharmed`.
-/

namespace Gozarbin.Obfuscate

open JsText (Lexer Part Token Tokenizer lex)

def isSpace (c : Char) : Bool := Text.isWhitespace c || (0x1c ≤ c.toNat && c.toNat ≤ 0x1f)

def strip (text : Text) : Text := text.stripBy isSpace

def isQuote (c : Char) : Bool := c = '"' || c = '\x27' || c = '\x60'

/-- Where `strip_c_comments` is: in a literal, or in a comment with what it has skipped of it. -/
inductive Mode where
  | code
  | literal (quote : Char) (escaped : Bool)
  | block (seen : Text)
  | line (seen : Text)

def Mode.inCode (c : Char) : Mode := if isQuote c then .literal c false else .code

def Mode.inLiteral (quote : Char) (escaped : Bool) (c : Char) : Mode :=
  if escaped then .literal quote false
  else if c = '\\' then .literal quote true
  else if c = quote then .code
  else .literal quote false

def lineOf (before : Text) : Text := (before.reverse.takeWhile (· ≠ '\n')).reverse

def block (keep : List Text) (seen : Text) : List Part :=
  if keep.contains seen then seen.map .kept else [.out seen]

def stripFrom (keep : List Text) : Mode → (before : Text) → Text → List Part
  | .code, _, [] => []
  | .code, before, '/' :: '*' :: rest => stripFrom keep (.block ['/', '*']) (before ++ ['/', '*']) rest
  | .code, before, '/' :: '/' :: rest =>
    -- Only a line comment when nothing but whitespace precedes it on the line.
    if (strip (lineOf before)).isEmpty then
      stripFrom keep (.line ['/', '/']) (before ++ ['/', '/']) rest
    else .kept '/' :: stripFrom keep .code (before ++ ['/']) ('/' :: rest)
  | .code, before, c :: rest => .kept c :: stripFrom keep (.inCode c) (before ++ [c]) rest
  | .literal _ _, _, [] => []
  | .literal quote escaped, before, c :: rest =>
    .kept c :: stripFrom keep (.inLiteral quote escaped c) (before ++ [c]) rest
  | .block seen, _, [] => block keep seen
  | .block seen, before, '*' :: '/' :: rest =>
    block keep (seen ++ ['*', '/']) ++ stripFrom keep .code (before ++ ['*', '/']) rest
  | .block seen, before, c :: rest => stripFrom keep (.block (seen ++ [c])) (before ++ [c]) rest
  | .line seen, _, [] => [.out seen]
  | .line seen, before, '\n' :: rest =>
    .out seen :: .kept '\n' :: stripFrom keep .code (before ++ ['\n']) rest
  | .line seen, before, c :: rest => stripFrom keep (.line (seen ++ [c])) (before ++ [c]) rest

def stripCComments (text : Text) (keep : List Text) : Text :=
  (stripFrom keep .code [] text).flatMap Part.left

def Mode.seen : Mode → Text
  | .code => []
  | .literal _ _ => []
  | .block seen => seen
  | .line seen => seen

@[simp] theorem Mode.seen_code : Mode.code.seen = [] := rfl
@[simp] theorem Mode.seen_literal (quote : Char) (escaped : Bool) : (literal quote escaped).seen = [] := rfl
@[simp] theorem Mode.seen_block (seen : Text) : (block seen).seen = seen := rfl
@[simp] theorem Mode.seen_line (seen : Text) : (line seen).seen = seen := rfl

@[simp] theorem Mode.seen_inCode (c : Char) : (Mode.inCode c).seen = [] := by
  unfold Mode.inCode
  split <;> rfl

@[simp] theorem Mode.seen_inLiteral (quote : Char) (escaped : Bool) (c : Char) :
    (Mode.inLiteral quote escaped c).seen = [] := by
  unfold Mode.inLiteral
  split_ifs <;> rfl

@[simp] theorem text_block (keep : List Text) (seen : Text) : (block keep seen).flatMap Part.text = seen := by
  unfold block
  split
  · rw [List.flatMap_map]
    exact List.flatMap_singleton' seen
  · simp [Part.text]

theorem text_stripFrom (keep : List Text) (mode : Mode) (before text : Text) :
    (stripFrom keep mode before text).flatMap Part.text = mode.seen ++ text := by
  fun_induction stripFrom keep mode before text <;> simp_all [Part.text]

def headerComment (text : Text) : Option Text :=
  (Text.strip ['/', '*'] (text.dropWhile isSpace)).bind fun inside =>
    (Text.splitOnce ['*', '/'] inside).map fun parts =>
      text.takeWhile isSpace ++ ['/', '*'] ++ parts.1 ++ ['*', '/']

def withoutMark (line : Text) : Text :=
  let rest := line.dropWhile isSpace
  let rest := (Text.strip ['/', '*'] rest).getD ((Text.strip ['*'] rest).getD rest)
  match rest with
  | [] => []
  | c :: more => if isSpace c then more else c :: more

def rstrip (text : Text) : Text := (text.reverse.dropWhile isSpace).reverse

def licenseLines (text : Text) : Option (List Text) :=
  match headerComment text with
  | none => none
  | some comment =>
    if comment.contains "SPDX-License-Identifier".toList then
      some (((Text.splitAt '\n' comment).filter fun line =>
        line.contains "SPDX-License-Identifier".toList || line.contains "Copyright".toList).map
          fun line => rstrip (withoutMark line))
    else none

def cLicenseHeader (text : Text) : Text :=
  match licenseLines text with
  | none => []
  | some kept => ['/', '*', ' '] ++ "\n * ".toList.intercalate kept ++ [' ', '*', '/']

def isTabOrSpace (c : Char) : Bool := c = '\t' || c = ' '

def trimmed (lines : List Text) : List Text :=
  (lines.filter fun line => !(strip line).isEmpty).map (Text.stripBy isTabOrSpace)

def stripJs (text : Text) : Text :=
  let header := cLicenseHeader text
  let lines := trimmed (Text.splitAt '\n' (stripCComments text []))
  let out := strip (['\n'].intercalate lines)
  (if header.isEmpty then out else header ++ '\n' :: out) ++ ['\n']

section
variable {τ : Type} {t : Tokenizer τ} {s : Lexer τ} {line : Text} {lines : List Text}

def feeds (lines : List Text) : Text := lines.flatMap (· ++ ['\n'])

def Begins (t : Tokenizer τ) (s : Lexer τ) (line : Text) : Prop :=
  s.Still t ∨ (strip line).isEmpty = false ∧ ∀ c ∈ line.head?, isTabOrSpace c = false

def Ends (t : Tokenizer τ) (s : Lexer τ) (line : Text) : Prop :=
  ¬ (s.read t line).Inside ∨ ∀ c ∈ line.getLast?, isTabOrSpace c = false

def LinesSafe (t : Tokenizer τ) : Lexer τ → List Text → Prop
  | _, [] => True
  | s, line :: rest => Begins t s line ∧ Ends t s line ∧ LinesSafe t (s.read t (line ++ ['\n'])) rest

theorem isEmpty_strip {text : Text} : (strip text).isEmpty = true ↔ ∀ c ∈ text, isSpace c = true := by
  rw [List.isEmpty_iff, strip, Text.stripBy_eq_nil_iff]

theorem isBlank_of_isSpace {c : Char} (space : isSpace c = true) : JsText.isBlank c = true := by
  simp only [isSpace] at space
  simp [JsText.isBlank, space]

theorem isBlank_of_isTabOrSpace {c : Char} (tab : isTabOrSpace c = true) : JsText.isBlank c = true := by
  simp only [isTabOrSpace, Bool.or_eq_true, decide_eq_true_eq] at tab
  rcases tab with rfl | rfl <;> decide

theorem feeds_cons (line : Text) (lines : List Text) :
    feeds (line :: lines) = line ++ ['\n'] ++ feeds lines :=
  List.flatMap_cons

theorem feeds_eq (some_ : lines ≠ []) : feeds lines = ['\n'].intercalate lines ++ ['\n'] := by
  induction lines with
  | nil => exact absurd rfl some_
  | cons line lines ih =>
    cases lines with
    | nil => simp [feeds]
    | cons next lines =>
      rw [feeds_cons, ih (List.cons_ne_nil _ _), List.intercalate_cons_cons]
      simp

theorem read_back {text back : Text} (blank : ∀ c ∈ back, JsText.isBlank c = true)
    (outside : ¬ (s.read t (text ++ back)).Inside) :
    s.read t (text ++ back ++ ['\n']) = s.read t (text ++ ['\n']) := by
  have before : ¬ (s.read t text).Inside := by
    intro inside
    rw [Lexer.read_append] at outside
    exact outside (inside.read blank)
  rw [Lexer.read_append, Lexer.read_append, Lexer.read_append]
  exact (Lexer.read_blank_feed before blank).2

theorem read_stripBy (begins : Begins t s line) (ends : Ends t s line) :
    s.read t (line.stripBy isTabOrSpace ++ ['\n']) = s.read t (line ++ ['\n']) := by
  obtain ⟨front, back, same, blank, blank', -, -⟩ := Text.stripBy_spec isTabOrSpace line
  generalize line.stripBy isTabOrSpace = middle at same
  subst same
  have front_ : s.read t front = s := by
    rcases begins with still | ⟨-, first⟩
    · exact still.read fun c member => isBlank_of_isTabOrSpace (blank c member)
    · cases front with
      | nil => rfl
      | cons c front => cases (first c rfl).symm.trans (blank c (List.mem_cons_self ..))
  rw [Ends, List.append_assoc, Lexer.read_append, front_] at ends
  rw [List.append_assoc front, List.append_assoc front, Lexer.read_append front, front_]
  cases List.eq_nil_or_concat back with
  | inl none_ => rw [none_, List.append_nil]
  | inr some_ =>
    obtain ⟨others, c, rfl⟩ := some_
    have outside := ends.resolve_right fun last => by
      cases (last c (by simp)).symm.trans (blank' c (by simp))
    exact (read_back (fun c member => isBlank_of_isTabOrSpace (blank' c member)) outside).symm

theorem read_trimmed (safe : LinesSafe t s lines) :
    s.read t (feeds (trimmed lines)) = s.read t (feeds lines) := by
  induction lines generalizing s with
  | nil => rfl
  | cons line lines ih =>
    obtain ⟨begins, ends, later⟩ := safe
    rw [feeds_cons, Lexer.read_append]
    cases blank : (strip line).isEmpty with
    | true =>
      have still : s.Still t := begins.resolve_right fun other => by cases other.1.symm.trans blank
      have spaces : ∀ c ∈ line ++ ['\n'], JsText.isBlank c = true := by
        intro c member
        cases List.mem_append.mp member with
        | inl here => exact isBlank_of_isSpace (isEmpty_strip.mp blank c here)
        | inr feed => exact List.mem_singleton.mp feed ▸ by decide
      have dropped : trimmed (line :: lines) = trimmed lines := by simp [trimmed, blank]
      rw [still.read spaces] at later ⊢
      rw [dropped, ih later]
    | false =>
      have kept : trimmed (line :: lines) = line.stripBy isTabOrSpace :: trimmed lines := by
        simp [trimmed, blank]
      rw [kept, feeds_cons, Lexer.read_append, read_stripBy begins ends, ih later]

theorem still_start : (Lexer.start : Lexer τ).Still t := by
  have same : (Lexer.start : Lexer τ) = Lexer.start.flush t := by simp [Lexer.start, Lexer.flush, t.words_nil]
  rw [same]
  exact Lexer.still_flush _

theorem read_strip {text : Text} (still : ((Lexer.start : Lexer τ).read t (text ++ ['\n'])).Still t) :
    (Lexer.start : Lexer τ).read t (strip text ++ ['\n']) = Lexer.start.read t (text ++ ['\n']) := by
  have outside : ¬ ((Lexer.start : Lexer τ).read t text).Inside := by
    intro inside
    rw [Lexer.read_append] at still
    exact still.outside inside.feed.1
  obtain ⟨front, back, same, blank, blank', -, -⟩ := Text.stripBy_spec isSpace text
  rw [strip]
  generalize text.stripBy isSpace = middle at same
  subst same
  have front_ : (Lexer.start : Lexer τ).read t front = .start :=
    still_start.read fun c member => isBlank_of_isSpace (blank c member)
  rw [List.append_assoc, Lexer.read_append, front_] at outside
  rw [List.append_assoc front, List.append_assoc front, Lexer.read_append front, front_]
  exact (read_back (fun c member => isBlank_of_isSpace (blank' c member)) outside).symm

theorem read_lines {body : Text} (safe : LinesSafe t .start (Text.splitAt '\n' body))
    (outside : ¬ ((Lexer.start : Lexer τ).read t body).Inside) :
    (Lexer.start : Lexer τ).read t
        (strip (['\n'].intercalate (trimmed (Text.splitAt '\n' body))) ++ ['\n']) =
      (Lexer.start.read t body).step t '\n' := by
  have whole := read_trimmed safe
  rw [feeds_eq (Text.splitAt_ne_nil _ _), Text.intercalate_splitAt, Lexer.read_append] at whole
  change _ = (Lexer.start.read t body).step t '\n' at whole
  have still := Lexer.still_feed (t := t) outside
  rw [← whole] at still ⊢
  generalize trimmed (Text.splitAt '\n' body) = lines at still ⊢
  cases lines with
  | nil => exact still_start '\n' (by decide)
  | cons line lines =>
    rw [feeds_eq (List.cons_ne_nil _ _)] at still ⊢
    exact read_strip still

/-- No line of a literal is dropped or trimmed. -/
def LinesKept (literal : Text) : Prop :=
  ∀ line ∈ Text.splitAt '\n' literal, (strip line).isEmpty = false ∧ line.stripBy isTabOrSpace = line

instance : DecidablePred LinesKept := fun _ => inferInstanceAs (Decidable (∀ _ ∈ _, _ ∧ _))

theorem LinesKept.ends {front back : Text} {c : Char} (kept : LinesKept (front ++ [c] ++ '\n' :: back)) :
    isTabOrSpace c = false := by
  by_cases feed : c = '\n'
  · exact feed ▸ by decide
  obtain ⟨init, last, lines⟩ := (List.eq_nil_or_concat _).resolve_left (Text.splitAt_ne_nil '\n' front)
  rw [List.concat_eq_append] at lines
  have clean (line : Text) (member : line ∈ init ++ [last]) : '\n' ∉ line :=
    Text.not_mem_of_mem_splitAt (lines ▸ member)
  have longer : Text.splitAt '\n' (front ++ [c]) = init ++ [last ++ [c]] := by
    rw [← Text.intercalate_splitAt '\n' front, lines, Text.intercalate_concat_append]
    apply Text.splitAt_intercalate _ (by simp)
    intro line member
    rcases List.mem_append.mp member with first | rest
    · exact clean line (by simp [first])
    · obtain rfl := List.mem_singleton.mp rest
      simpa [Ne.symm feed] using clean last (by simp)
  have whole := (kept (last ++ [c]) (by rw [Text.splitAt_append_cons, longer]; simp)).2
  obtain ⟨_, _, -, -, -, -, untrimmed⟩ := Text.stripBy_spec isTabOrSpace (last ++ [c])
  rw [whole] at untrimmed
  exact untrimmed c (by simp)

theorem LinesKept.begins {front more tail : Text} (kept : LinesKept (front ++ '\n' :: more))
    (part : more <+: line ++ tail) (feed : ∀ c ∈ tail.head?, c = '\n') : Begins t s line := by
  obtain ⟨first, others, lines⟩ := List.exists_cons_of_ne_nil (Text.splitAt_ne_nil '\n' more)
  have clean : '\n' ∉ first := Text.not_mem_of_mem_splitAt (lines ▸ List.mem_cons_self ..)
  have start : first <+: line ++ tail := by
    refine .trans ?_ part
    rw [← Text.intercalate_splitAt '\n' more, lines]
    cases others with
    | nil => simp
    | cons => rw [List.intercalate_cons_cons, List.append_assoc]; exact List.prefix_append ..
  -- The line goes on at least as far.
  obtain ⟨rest, rfl⟩ : first <+: line := by
    rcases List.prefix_or_prefix_of_prefix start (List.prefix_append line tail) with inside | ⟨more, rfl⟩
    · exact inside
    · obtain ⟨rest, rfl⟩ := (List.prefix_append_right_inj line).mp start
      cases more with
      | nil => simp
      | cons c more => exact absurd (feed c rfl ▸ by simp) clean
  obtain ⟨visible, whole⟩ := kept first (by simp [Text.splitAt_append_cons, lines])
  obtain ⟨_, _, -, -, -, untrimmed, -⟩ := Text.stripBy_spec isTabOrSpace first
  rw [whole] at untrimmed
  refine .inr ⟨?_, ?_⟩
  · rw [← Bool.not_eq_true, isEmpty_strip] at visible ⊢
    exact fun blank => visible fun c member => blank c (List.mem_append_left _ member)
  · cases first with
    | nil => cases visible
    | cons c first => exact untrimmed

theorem linesSafe {tokens : List (Token τ)} (literals : ∀ text, .literal text ∈ tokens → LinesKept text)
    (clean : ∀ line ∈ lines, '\n' ∉ line)
    (start : s.Still t ∨ s.Inside ∧ ∃ front, s.run = front ++ ['\n'])
    (ends : (s.read t (['\n'].intercalate lines)).finish t = some tokens) : LinesSafe t s lines := by
  induction lines generalizing s with
  | nil => trivial
  | cons line rest ih =>
    obtain ⟨here, later⟩ := List.forall_mem_cons.mp clean
    obtain ⟨tail, whole, feed⟩ : ∃ tail, ['\n'].intercalate (line :: rest) = line ++ tail ∧
        ∀ c ∈ tail.head?, c = '\n' := by
      cases rest with
      | nil => exact ⟨[], by simp, by simp⟩
      | cons next rest =>
        exact ⟨_, by rw [List.intercalate_cons_cons, List.append_assoc], by simp⟩
    have begins : Begins t s line := by
      rcases start with still | ⟨inside, front, run⟩
      · exact .inl still
      · rw [whole] at ends
        obtain ⟨more, last, part, member⟩ := Lexer.literal_of_inside inside ends
        rw [run, List.append_assoc] at member
        exact (literals _ member).begins ⟨last, part.symm⟩ feed
    cases rest with
    | nil =>
      rw [List.intercalate_singleton] at ends
      refine ⟨begins, .inl fun inside => ?_, trivial⟩
      cases ends.symm.trans inside.finish
    | cons next rest =>
      rw [List.intercalate_cons_cons, Lexer.read_append] at ends
      by_cases inside : (s.read t line).Inside
      · obtain ⟨inside', run⟩ := inside.feed (t := t)
        obtain ⟨more, -, -, member⟩ := Lexer.literal_of_inside
          (s := s.read t (line ++ ['\n'])) (by rwa [Lexer.read_append]) ends
        refine ⟨begins, .inr fun c last => ?_, ih later (.inr ?_) ends⟩
        · obtain ⟨init, rfl⟩ := List.getLast?_eq_some_iff.mp last
          have read : s.read t (init ++ [c]) = (s.read t init).step t c := Lexer.read_append ..
          rw [read] at inside run
          obtain ⟨front, same⟩ := Lexer.run_of_inside inside
          rw [Lexer.read_append, read, show Lexer.read t _ ['\n'] = Lexer.step t _ '\n' from rfl, run, same,
            List.append_assoc] at member
          exact (literals _ member).ends
        · rw [Lexer.read_append]
          exact ⟨inside', _, run⟩
      · refine ⟨begins, .inl inside, ih later (.inl ?_) ends⟩
        rw [Lexer.read_append]
        exact Lexer.still_feed inside

theorem read_keptLines {kept : List Text} (open_ : ∀ line ∈ kept, ¬ ['*', '/'] <:+: line)
    (block : s.mode = .block false) :
    ∃ star, s.read t ("\n * ".toList.intercalate kept) = { s with mode := .block star } := by
  induction kept with
  | nil =>
    refine ⟨false, ?_⟩
    rw [← block]
    rfl
  | cons line kept ih =>
    obtain ⟨here, later⟩ := List.forall_mem_cons.mp open_
    obtain ⟨star, inside⟩ := Lexer.read_inBlock (t := t) block (fun behind => by cases behind) here
    cases kept with
    | nil => exact ⟨star, by rw [List.intercalate_singleton, inside]⟩
    | cons next kept =>
      obtain ⟨star', rest⟩ := ih later
      refine ⟨star', ?_⟩
      have mark : ({ s with mode := .block star } : Lexer τ).read t "\n * ".toList = s := by
        obtain ⟨mode, run, tokens⟩ := s
        cases block
        simp [Lexer.read, Lexer.step]
      rw [List.intercalate_cons_cons, Lexer.read_append, Lexer.read_append, inside, mark, rest]

theorem read_header {kept : List Text} (open_ : ∀ line ∈ kept, ¬ ['*', '/'] <:+: line) :
    (Lexer.start : Lexer τ).read t
      (['/', '*', ' '] ++ "\n * ".toList.intercalate kept ++ [' ', '*', '/'] ++ ['\n']) = .start := by
  have opens : (Lexer.start : Lexer τ).read t ['/', '*', ' '] =
      { Lexer.start with mode := .block false } := by
    simp [Lexer.read, Lexer.step, Lexer.start, Lexer.flush, t.words_nil]
  obtain ⟨star, inside⟩ :=
    read_keptLines (t := t) (s := { Lexer.start with mode := .block false }) open_ rfl
  have closes : ({ Lexer.start with mode := .block star } : Lexer τ).read t [' ', '*', '/'] = .start := by
    simp [Lexer.read, Lexer.step, Lexer.start]
  rw [Lexer.read_append, Lexer.read_append, Lexer.read_append, opens, inside]
  rw [closes]
  exact still_start '\n' (by decide)

theorem read_cLicenseHeader {text : Text}
    (header : ∀ kept ∈ licenseLines text, ∀ line ∈ kept, ¬ ['*', '/'] <:+: line) :
    cLicenseHeader text = [] ∨ (cLicenseHeader text).isEmpty = false ∧
      (Lexer.start : Lexer τ).read t (cLicenseHeader text ++ ['\n']) = .start := by
  unfold cLicenseHeader
  split
  next => exact .inl rfl
  next kept found => exact .inr ⟨by simp, read_header (header kept found)⟩

theorem read_stripJs {text : Text}
    (header : ∀ kept ∈ licenseLines text, ∀ line ∈ kept, ¬ ['*', '/'] <:+: line) :
    (Lexer.start : Lexer τ).read t (stripJs text) = Lexer.start.read t
      (strip (['\n'].intercalate (trimmed (Text.splitAt '\n' (stripCComments text [])))) ++ ['\n']) := by
  rw [stripJs]
  generalize strip (['\n'].intercalate (trimmed (Text.splitAt '\n' (stripCComments text [])))) = out
  cases read_cLicenseHeader (t := t) header with
  | inl none_ => simp [none_]
  | inr some_ =>
    have split : cLicenseHeader text ++ '\n' :: out ++ ['\n'] =
        (cLicenseHeader text ++ ['\n']) ++ (out ++ ['\n']) := by simp
    rw [some_.1, if_neg (by decide), split, Lexer.read_append, some_.2]

end

/-- The header closes no comment early, what is taken for a comment says nothing where it
    stands, and no line of a literal is touched. -/
structure Unharmed {τ : Type} (t : Tokenizer τ) (text : Text) (tokens : List (Token τ)) : Prop where
  header : ∀ kept ∈ licenseLines text, ∀ line ∈ kept, ¬ ['*', '/'] <:+: line
  comments : Lexer.Spared t [] .start (stripFrom [] .code [] text)
  literals : ∀ literal, .literal literal ∈ tokens → LinesKept literal

def wholeRuns : Tokenizer Text where
  words run := if run.isEmpty then [] else [run]
  words_nil := rfl

def someScript : Text :=
  "/*\n * SPDX-License-Identifier: X\n */\n// a\r\nb=\x60c\nd\x60;/* e */ // it's\n/* f */ g\n".toList

def someTokens : List (Token Text) :=
  [.word "b=".toList, .literal "\x60c\nd\x60".toList, .word ";".toList, .word "g".toList]

theorem someScript_unharmed : Unharmed wholeRuns someScript someTokens where
  header := by
    intro kept found line member
    cases found
    obtain rfl := List.mem_singleton.mp member
    decide
  comments := by decide +kernel
  literals := by
    intro literal member
    obtain rfl : literal = "\x60c\nd\x60".toList := by simpa [someTokens] using member
    decide

-- A quote in a comment behind code begins a literal, so that the next real one is read as code.
example : stripJs "x // it's\ny('/**/')".toList = "x // it's\ny('')\n".toList := by decide

-- The end of the comment is kept with a licence line that it stands on.
example : stripJs "/* SPDX-License-Identifier: X */\ny".toList =
    "/* SPDX-License-Identifier: X */ */\ny\n".toList := by decide

-- What is taken out of a literal may come back out of a comment, so that no condition on what is taken
-- out is a necessary one.
example : stripJs "x // it's\n'/*'//*///**/*'".toList = "x // it's\n'/*'\n".toList ∧
    lex wholeRuns "x // it's\n'/*'\n".toList = lex wholeRuns "x // it's\n'/*'//*///**/*'".toList := by
  decide

end Gozarbin.Obfuscate
