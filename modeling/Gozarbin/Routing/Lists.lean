import Gozarbin.Routing.Entry

/-! # Rule lists

Rules come from two environment variables and from the sections of a file. A list is cut
at line feeds, commas and semicolons alike, and a comment is told by the first character
of an entry; the reader of the file tells it by the first character of a line.
-/

namespace Gozarbin.Routing

open List

variable {Regex : Type}

def isSeparator (c : Char) : Bool := c = '\n' || c = ',' || c = ';'

def parseList (engine : Engine Regex) (raw : Text) : List (Matcher Regex) :=
  (raw.splitOnP isSeparator).filterMap (Matcher.parse engine)

def RuleSet.parse (engine : Engine Regex) (block direct : Text) : RuleSet Regex where
  block := parseList engine block
  direct := parseList engine direct

def pushList (target extra : Text) : Text :=
  if extra.trim.isEmpty then target
  else if !target.trim.isEmpty then target ++ ['\n'] ++ extra
  else target ++ extra

inductive FileSection where
  | block
  | direct
  deriving DecidableEq

/-- What the reader of the file has collected, and for which section it collects. -/
structure Sections where
  block : Text := []
  direct : Text := []
  current : Option FileSection := none

def Sections.line (ucd : Text.Ucd) (s : Sections) (line : Text) : Sections :=
  let trimmed := line.trim
  if trimmed.isEmpty ∨ trimmed.head? = some '#' then s
  else
    let lowered := trimmed.toLowercase ucd
    if lowered = "[block]".toList then { s with current := some .block }
    else if lowered = "[direct]".toList then { s with current := some .direct }
    else if lowered.head? = some '[' then { s with current := none }
    else
      match s.current with
      | some .block => { s with block := s.block ++ trimmed ++ ['\n'] }
      | some .direct => { s with direct := s.direct ++ trimmed ++ ['\n'] }
      | none => s

def splitSections (ucd : Text.Ucd) (text : Text) : Text × Text :=
  let s := text.lines.foldl (Sections.line ucd) {}
  (s.block, s.direct)

/-- The two lists, and what there is to read where the third variable points. -/
structure RouteEnv where
  block : Option Text
  direct : Option Text
  file : Option Text

def RuleSet.fromEnv (engine : Engine Regex) (env : RouteEnv) : RuleSet Regex :=
  let block := env.block.getD []
  let direct := env.direct.getD []
  match env.file with
  | some text =>
    let (fileBlock, fileDirect) := splitSections engine.ucd text
    RuleSet.parse engine (pushList block fileBlock) (pushList direct fileDirect)
  | none => RuleSet.parse engine block direct

def joinLines (lines : List Text) : Text := ['\n'].intercalate lines

/-- A line that starts with `#`, but for blanks. -/
structure IsComment (line : Text) : Prop where
  starts : ∃ blanks rest, line = blanks ++ '#' :: rest ∧ Text.Blank blanks
  single : '\n' ∉ line

/-- The line between these lines of a list carries no rules, in either list. -/
structure CarriesNothing (engine : Engine Regex) (before after : List Text) (line : Text) : Prop where
  block : ∀ direct, RuleSet.parse engine (joinLines (before ++ line :: after)) direct =
    RuleSet.parse engine (joinLines (before ++ after)) direct
  direct : ∀ block, RuleSet.parse engine block (joinLines (before ++ line :: after)) =
    RuleSet.parse engine block (joinLines (before ++ after))

variable (engine : Engine Regex)

theorem parseList_joinLines (lines : List Text) :
    parseList engine (joinLines lines) = lines.flatMap (parseList engine) := by
  cases lines with
  | nil => rfl
  | cons first lines =>
    rw [parseList, joinLines, Text.flatMap_splitOnP (by decide), filterMap_flatMap]
    rfl

theorem parse_comment {blanks : Text} (blank : Text.Blank blanks) (rest : Text) :
    Matcher.parse engine (blanks ++ '#' :: rest) = none := by
  rw [Matcher.parse]
  simp only [Text.head?_trim blank (by decide : Text.isWhitespace '#' = false), or_true, if_true]

variable {line : Text}

theorem parseList_comment (comment : IsComment line) :
    parseList engine line = (line.splitOnP isSeparator).tail.filterMap (Matcher.parse engine) := by
  obtain ⟨blanks, rest, same, blank⟩ := comment.starts
  have together : ∀ c ∈ blanks ++ ['#'], isSeparator c = false := by
    intro c member
    have inside : c ≠ '\n' := by
      rintro rfl
      refine comment.single ?_
      rw [same, append_cons]
      exact mem_append_left _ member
    rcases mem_append.mp member with front | hash
    · have visible : ∀ d : Char, Text.isWhitespace d = false → c ≠ d := by
        rintro d shown rfl
        simp [blank c front] at shown
      simp [isSeparator, inside, visible ',' (by decide), visible ';' (by decide)]
    · rw [mem_singleton.mp hash]
      decide
  have pieces : line.splitOnP isSeparator =
      (rest.splitOnP isSeparator).modifyHead (blanks ++ ['#'] ++ ·) := by
    rw [← Text.splitOnP_append together, same, append_assoc, singleton_append]
  rw [parseList, pieces]
  cases rest.splitOnP isSeparator with
  | nil => rfl
  | cons first others =>
    have none_first : Matcher.parse engine (blanks ++ ['#'] ++ first) = none := by
      rw [append_assoc, singleton_append]
      exact parse_comment engine blank first
    rw [modifyHead_cons, filterMap_cons_none none_first, tail_cons]

theorem Sections.line_comment (ucd : Text.Ucd) (s : Sections) (comment : IsComment line) :
    s.line ucd line = s := by
  obtain ⟨blanks, rest, rfl, blank⟩ := comment.starts
  simp only [Sections.line, Text.head?_trim blank (by decide : Text.isWhitespace '#' = false),
    or_true, if_true]

theorem sections_joinLines (ucd : Text.Ucd) (lines : List Text) :
    (joinLines lines).lines.foldl (Sections.line ucd) {} =
      (lines.flatMap (·.splitOnP (· = '\n'))).foldl (Sections.line ucd) {} := by
  have cr : ∀ (s : Sections) (line : Text), s.line ucd (line ++ ['\r']) = s.line ucd line := by
    intro s line
    simp only [Sections.line, Text.trim_concat (by decide : Text.isWhitespace '\r' = true)]
  cases lines with
  | nil => rfl
  | cons first lines =>
    rw [Text.foldl_lines cr fun _ => rfl, joinLines, Text.flatMap_splitOnP (by decide)]

theorem splitSections_comment (ucd : Text.Ucd) (before after : List Text)
    (comment : IsComment line) :
    splitSections ucd (joinLines (before ++ line :: after)) =
      splitSections ucd (joinLines (before ++ after)) := by
  have whole : line.splitOnP (· = '\n') = [line] := by
    refine splitOnP_eq_singleton fun c member => ?_
    simp only [decide_eq_false_iff_not]
    rintro rfl
    exact comment.single member
  rw [splitSections, splitSections, sections_joinLines, sections_joinLines]
  simp only [flatMap_append, flatMap_cons, whole, foldl_append,
    foldl_cons, foldl_nil, Sections.line_comment ucd _ comment]

/-- A comment in the file carries no rules, and one in a list none precisely if nothing behind
    its commas and semicolons is a rule. -/
theorem carriesNothing_iff (before after : List Text) (comment : IsComment line) :
    (∀ block direct, RuleSet.fromEnv engine ⟨block, direct, joinLines (before ++ line :: after)⟩ =
        RuleSet.fromEnv engine ⟨block, direct, joinLines (before ++ after)⟩) ∧
      (CarriesNothing engine before after line ↔
        ∀ entry ∈ (line.splitOnP isSeparator).tail, Matcher.parse engine entry = none) := by
  have same_list : parseList engine (joinLines (before ++ line :: after)) =
      parseList engine (joinLines (before ++ after)) ↔ parseList engine line = [] := by
    rw [parseList_joinLines, parseList_joinLines]
    simp
  have same_set : CarriesNothing engine before after line ↔
      parseList engine (joinLines (before ++ line :: after)) =
        parseList engine (joinLines (before ++ after)) := by
    constructor
    · intro nothing
      exact congrArg RuleSet.block (nothing.block [])
    · intro same
      exact ⟨fun direct => by simp [RuleSet.parse, same], fun block => by simp [RuleSet.parse, same]⟩
  refine ⟨fun block direct => ?_, ?_⟩
  · simp only [RuleSet.fromEnv, splitSections_comment engine.ucd before after comment]
  · rw [same_set, same_list, parseList_comment engine comment, filterMap_eq_nil_iff]

theorem tracker_comment : IsComment "# trackers".toList :=
  ⟨⟨[], " trackers".toList, rfl, by simp [Text.Blank]⟩, by decide⟩

theorem carriesNothing_trackers :
    CarriesNothing Engine.plain ["ads.example".toList] ["port:25".toList] "# trackers".toList :=
  (carriesNothing_iff Engine.plain ["ads.example".toList] ["port:25".toList] tracker_comment).2.mpr
    (by decide)

theorem comment_blocks :
    IsComment "# not yet, example.com".toList ∧
      (RuleSet.parse Engine.plain "ads.example".toList []).decide Engine.plain.toPatterns
        (.domain "example.com".toList) 443 = .proxy ∧
      (RuleSet.parse Engine.plain "ads.example\n# not yet, example.com".toList []).decide
        Engine.plain.toPatterns (.domain "example.com".toList) 443 = .block ∧
      ¬ CarriesNothing Engine.plain ["ads.example".toList] [] "# not yet, example.com".toList := by
  have proxied : (RuleSet.parse Engine.plain "ads.example".toList []).decide
      Engine.plain.toPatterns (.domain "example.com".toList) 443 = .proxy := by decide
  have blocked : (RuleSet.parse Engine.plain "ads.example\n# not yet, example.com".toList []).decide
      Engine.plain.toPatterns (.domain "example.com".toList) 443 = .block := by decide
  refine ⟨⟨⟨[], " not yet, example.com".toList, rfl, by simp [Text.Blank]⟩, by decide⟩, proxied,
    blocked, fun nothing => ?_⟩
  have same : RuleSet.parse Engine.plain "ads.example\n# not yet, example.com".toList [] =
      RuleSet.parse Engine.plain "ads.example".toList [] := nothing.block []
  rw [same, proxied] at blocked
  cases blocked

end Gozarbin.Routing
