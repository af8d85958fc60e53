import Gozarbin.Routing.Lists

/-! # Absolute names

A name with a dot behind it is the absolute spelling of the name. Rules are stored
without that dot, and it is not taken off the names they are compared with, so no rule on
names matches an absolute spelling.
-/

namespace Gozarbin.Routing

/-- A name a rule is stored with. -/
def Stored (name : Text) : Prop := name ≠ [] ∧ name.getLast? ≠ some '.'

variable {Regex : Type}

def Matcher.onParts : Matcher Regex → Bool
  | .domainKeyword _ | .domainRegex _ => true
  | _ => false

def Matcher.Whole : Matcher Regex → Prop
  | .domainSuffix name | .domainFull name => Stored name
  | .ports _ _ | .net _ | .private_ => True
  | .domainKeyword _ | .domainRegex _ => False

/-- Only the dot is lowercased to nothing or to a text that ends with one. -/
def KeepsDots (ucd : Text.Ucd) : Prop :=
  ∀ c, c ≠ '.' → ∃ d, (ucd.lower c).getLast? = some d ∧ d ≠ '.'

theorem toLower_eq_dot {c : Char} (lower : c.toLower = '.') : c = '.' := by
  unfold Char.toLower at lower
  split at lower
  next upper =>
    have shifted : c.val + 32 = 46 := congrArg Char.val lower
    have value : c.val = 46 - 32 := by rw [← shifted, UInt32.add_sub_cancel]
    rw [value] at upper
    exact absurd upper (by decide)
  next => exact lower

theorem lowerFrom_concat (ucd : Text.Ucd) (passed text : Text) (c : Char) :
    ∃ start, ucd.lowerFrom passed (text ++ [c]) =
      start ++ if c = 'Σ' then [ucd.lowerSigma (text.reverse ++ passed) []] else ucd.lower c := by
  induction text generalizing passed with
  | nil => exact ⟨[], by simp [Text.Ucd.lowerFrom]⟩
  | cons d text ih =>
    obtain ⟨start, same⟩ := ih (d :: passed)
    refine ⟨(if d = 'Σ' then [ucd.lowerSigma passed (text ++ [c])] else ucd.lower d) ++ start, ?_⟩
    rw [List.cons_append, Text.Ucd.lowerFrom, same]
    simp

theorem stored_of_normalize {ucd : Text.Ucd} (keeps : KeepsDots ucd) {value name : Text}
    (normalized : normalizeDomain ucd value = some name) : Stored name := by
  simp only [normalizeDomain, Option.ite_none_left_eq_some, Option.some.injEq] at normalized
  obtain ⟨nonempty, rfl⟩ := normalized
  refine ⟨by simpa using nonempty, ?_⟩
  generalize (value.trim.dropWhile (· = '*')).dropWhile (· = '.') = inner at nonempty ⊢
  have last : (Text.trimEndMatches '.' inner).getLast? ≠ some '.' := by
    intro dot
    rw [Text.trimEndMatches, List.getLast?_reverse] at dot
    have stops := List.head?_dropWhile_not (· = '.') inner.reverse
    rw [dot] at stops
    simp at stops
  rcases List.eq_nil_or_concat (Text.trimEndMatches '.' inner) with empty | ⟨start, c, cut⟩
  · simp [empty, Text.toLowercase, Text.Ucd.lowerFrom] at nonempty
  · rw [List.concat_eq_append] at cut
    obtain ⟨front, lowered⟩ := lowerFrom_concat ucd [] start c
    have other : c ≠ '.' := by
      rintro rfl
      simp [cut] at last
    rw [cut, Text.toLowercase, lowered]
    split
    · rw [List.getLast?_append_of_ne_nil _ (by simp), List.getLast?_singleton, Text.Ucd.lowerSigma]
      split <;> decide
    · obtain ⟨d, ends, no_dot⟩ := keeps c other
      rw [List.getLast?_append, ends]
      simpa using no_dot

variable {engine : Engine Regex} {rule : Matcher Regex}

theorem whole_of_value (keeps : KeepsDots engine.ucd) {value : Text}
    (parsed : Matcher.ofValue engine value = some rule) : rule.Whole := by
  unfold Matcher.ofValue at parsed
  split at parsed
  · cases parsed
    trivial
  · split at parsed
    · cases parsed
      trivial
    · obtain ⟨name, normalized, rfl⟩ := Option.map_eq_some_iff.mp parsed
      exact stored_of_normalize keeps normalized

theorem eq_some_of_ite {α : Type*} {p : Prop} [Decidable p] {a b : Option α} {x : α}
    (found : (if p then a else b) = some x) : a = some x ∨ b = some x := by
  split at found
  · exact .inl found
  · exact .inr found

theorem whole_of_parse (keeps : KeepsDots engine.ucd) {entry : Text}
    (parsed : Matcher.parse engine entry = some rule) :
    rule.Whole ∨ rule.onParts = true := by
  simp only [Matcher.parse, Option.ite_none_left_eq_some] at parsed
  obtain ⟨-, other⟩ := parsed
  -- the kinds in the order of the code
  obtain suffix | other := eq_some_of_ite other
  · obtain ⟨name, normalized, rfl⟩ := Option.map_eq_some_iff.mp suffix
    exact .inl (stored_of_normalize keeps normalized)
  obtain full | other := eq_some_of_ite other
  · obtain ⟨name, normalized, rfl⟩ := Option.map_eq_some_iff.mp full
    exact .inl (stored_of_normalize keeps normalized)
  obtain keyword | other := eq_some_of_ite other
  · obtain ⟨-, same⟩ := Option.ite_none_left_eq_some.mp keyword
    cases same
    exact .inr rfl
  obtain regex | other := eq_some_of_ite other
  · obtain ⟨pattern, -, rfl⟩ := Option.map_eq_some_iff.mp regex
    exact .inr rfl
  obtain net | other := eq_some_of_ite other
  · obtain ⟨network, -, rfl⟩ := Option.map_eq_some_iff.mp net
    exact .inl trivial
  obtain port | other := eq_some_of_ite other
  · obtain ⟨⟨lo, hi⟩, -, rfl⟩ := Option.map_eq_some_iff.mp port
    exact .inl trivial
  obtain private_ | other := eq_some_of_ite other
  · obtain ⟨-, same⟩ := Option.ite_none_right_eq_some.mp private_
    cases same
    exact .inl trivial
  obtain value | other := eq_some_of_ite other
  · exact .inl (whole_of_value keeps value)
  · cases other

theorem whole_of_parseList (keeps : KeepsDots engine.ucd) {raw : Text}
    (whole : ∀ rule ∈ parseList engine raw, rule.onParts = false) :
    ∀ rule ∈ parseList engine raw, rule.Whole := by
  intro rule member
  obtain ⟨entry, -, parsed⟩ := List.mem_filterMap.mp member
  refine (whole_of_parse keeps parsed).resolve_right ?_
  rw [whole rule member]
  decide

variable (env : Patterns Regex) (rules : List (Matcher Regex)) (name : Text)
  (port : UInt16)

def absolute (name : Text) : Text := name ++ ['.']

def hitsName : Bool :=
  rules.any fun rule => rule.reads ≠ .port && rule.matches env (.domain name) port

variable {env name port}

theorem exists_lower_absolute (ucd : Text.Ucd) (name : Text) :
    ∃ start, (absolute name).toLowercase ucd = start ++ ['.'] := by
  obtain ⟨start, lowered⟩ := lowerFrom_concat ucd [] name '.'
  have dot : ucd.lower '.' = ['.'] := ucd.lower_ascii '.' (by decide)
  rw [if_neg (by decide), dot] at lowered
  exact ⟨start, lowered⟩

theorem eqIgnoreAsciiCase_absolute {other : Text} (stored : other.getLast? ≠ some '.') :
    (absolute name).eqIgnoreAsciiCase other = false := by
  rw [← Bool.not_eq_true]
  intro same
  have folded : (absolute name).map Char.toLower = other.map Char.toLower := beq_iff_eq.mp same
  have last := congrArg List.getLast? folded
  simp only [absolute, List.getLast?_concat,
    List.getLast?_map] at last
  obtain ⟨c, ends, lower⟩ := Option.map_eq_some_iff.mp last.symm
  exact stored (toLower_eq_dot lower ▸ ends)

theorem Matcher.Whole.matches_absolute (whole : rule.Whole)
    (reads : rule.reads ≠ .port) : rule.matches env (.domain (absolute name)) port = false := by
  cases rule with
  | domainSuffix suffix =>
    obtain ⟨start, lowered⟩ := exists_lower_absolute env.ucd name
    have other : (start ++ ['.'] == suffix) = false := by
      rw [beq_eq_false_iff_ne]
      rintro rfl
      exact whole.2 (by simp)
    have behind : Text.endsWith (start ++ ['.']) ('.' :: suffix) = false := by
      rw [← Bool.not_eq_true, Text.endsWith, List.isSuffixOf_iff_suffix]
      rintro ⟨front, same⟩
      have last := congrArg List.getLast? same
      rw [List.getLast?_append_of_ne_nil _ (by simp), List.getLast?_concat,
        List.getLast?_cons_of_ne_nil whole.1] at last
      exact whole.2 last
    simp only [Matcher.matches, lowered, other, behind, Bool.or_self]
  | domainFull full => exact eqIgnoreAsciiCase_absolute whole.2
  | private_ => exact eqIgnoreAsciiCase_absolute (by decide)
  | net network => rfl
  | ports lo hi => exact absurd rfl reads
  | domainKeyword needle => exact whole.elim
  | domainRegex pattern => exact whole.elim

theorem any_matches_absolute (whole : ∀ rule ∈ rules, rule.Whole) :
    (rules.any fun rule => rule.matches env (.domain (absolute name)) port) =
      hits env rules .port (.domain name) port := by
  rw [← hits_port env rules port (.domain (absolute name)) (.domain name), Bool.eq_iff_iff]
  simp only [hits, List.any_eq_true, Bool.and_eq_true, decide_eq_true_eq]
  constructor
  · rintro ⟨rule, member, found⟩
    refine ⟨rule, member, ?_, found⟩
    by_contra reads
    rw [(whole rule member).matches_absolute reads] at found
    cases found
  · rintro ⟨rule, member, -, found⟩
    exact ⟨rule, member, found⟩

theorem any_matches_name :
    (rules.any fun rule => rule.matches env (.domain name) port) =
      (hits env rules .port (.domain name) port || hitsName env rules name port) := by
  rw [Bool.eq_iff_iff]
  simp only [hits, hitsName, Bool.or_eq_true, List.any_eq_true, Bool.and_eq_true, decide_eq_true_eq]
  constructor
  · rintro ⟨rule, member, found⟩
    by_cases reads : rule.reads = .port
    · exact .inl ⟨rule, member, reads, found⟩
    · exact .inr ⟨rule, member, reads, found⟩
  · rintro (⟨rule, member, -, found⟩ | ⟨rule, member, -, found⟩)
    · exact ⟨rule, member, found⟩
    · exact ⟨rule, member, found⟩

theorem RuleSet.decide_absolute (set : RuleSet Regex) (env : Patterns Regex) (name : Text) (port : UInt16)
    (blocks : ∀ rule ∈ set.block, rule.Whole) (directs : ∀ rule ∈ set.direct, rule.Whole) :
    set.decide env (.domain (absolute name)) port = set.decide env (.domain name) port ↔
      hits env set.block .port (.domain name) port = true ∨
        hitsName env set.block name port = false ∧
          (hits env set.direct .port (.domain name) port = true ∨
            hitsName env set.direct name port = false) := by
  rw [set.decide_eq_decide]
  simp only [RuleSet.blocks, RuleSet.directs, any_matches_absolute set.block blocks,
    any_matches_absolute set.direct directs, any_matches_name]
  cases hits env set.block .port (.domain name) port <;>
    cases hitsName env set.block name port <;>
    cases hits env set.direct .port (.domain name) port <;>
    cases hitsName env set.direct name port <;> decide

/-- An absolute name goes where the name goes precisely if a block rule on ports matches, or no
    block rule on names does and the same goes for the direct rules. -/
theorem decide_absolute_iff (engine : Engine Regex) (keeps : KeepsDots engine.ucd) (block direct : Text)
    (blocks : ∀ rule ∈ (RuleSet.parse engine block direct).block, rule.onParts = false)
    (directs : ∀ rule ∈ (RuleSet.parse engine block direct).direct, rule.onParts = false)
    (name : Text) (port : UInt16) :
    let set := RuleSet.parse engine block direct
    set.decide engine.toPatterns (.domain (absolute name)) port =
        set.decide engine.toPatterns (.domain name) port ↔
      hits engine.toPatterns set.block .port (.domain name) port = true ∨
        hitsName engine.toPatterns set.block name port = false ∧
          (hits engine.toPatterns set.direct .port (.domain name) port = true ∨
            hitsName engine.toPatterns set.direct name port = false) :=
  RuleSet.decide_absolute _ _ _ _ (whole_of_parseList keeps blocks) (whole_of_parseList keeps directs)

theorem keepsDots_ascii : KeepsDots Engine.plain.ucd :=
  fun c other => ⟨c.toLower, rfl, fun dot => other (toLower_eq_dot dot)⟩

def blockedAds : RuleSet Empty := RuleSet.parse Engine.plain "ads.example,port:25".toList []

theorem absolute_mail :
    blockedAds.decide Engine.plain.toPatterns (.domain "mail.example.".toList) 25 =
      blockedAds.decide Engine.plain.toPatterns (.domain "mail.example".toList) 25 :=
  (decide_absolute_iff Engine.plain keepsDots_ascii "ads.example,port:25".toList [] (by decide)
    (by decide) "mail.example".toList 25).mpr (by decide)

theorem absolute_ads_passes :
    blockedAds.block = [.domainSuffix "ads.example".toList, .ports 25 25] ∧
      blockedAds.decide Engine.plain.toPatterns (.domain "ads.example".toList) 443 = .block ∧
      blockedAds.decide Engine.plain.toPatterns (.domain "ads.example.".toList) 443 = .proxy := by
  decide

end Gozarbin.Routing
