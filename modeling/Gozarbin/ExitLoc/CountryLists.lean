import Gozarbin.ExitLoc
import Gozarbin.Lib.Split

/-! # The countries of an exit policy

A policy is a list of country codes; a mark in front of it makes it a list of the countries to
avoid. An entry further on with a mark of its own is no code and is passed over, so a list with
a mark in front of every code is the list of its first code.
-/

namespace Gozarbin.ExitLoc

open List Text

/-- Two letters. -/
structure IsCode (code : Text) : Prop where
  two : code.length = 2
  letters : ∀ c ∈ code, c.isAlpha = true

def key (code : Text) : Text := toAsciiUppercase code

/-- An entry of a list: a code, blanks, and a mark or none. -/
structure Country where
  front : Text
  mark : Text
  gap : Text
  code : Text
  back : Text
  blank_front : Blank front
  blank_gap : Blank gap
  blank_back : Blank back
  isMark : mark = [] ∨ mark = ['!'] ∨ mark = ['!', '=']
  isCode : IsCode code

namespace Country

def text (country : Country) : Text :=
  country.front ++ (country.mark ++ (country.gap ++ country.code ++ country.back))

def key (country : Country) : Text := ExitLoc.key country.code

end Country

def written (first : Country) (rest : List Country) : Text :=
  [','].intercalate ((first :: rest).map Country.text)

variable {c : Char}

theorem ascii_of_isAlpha (letter : c.isAlpha = true) : c.toNat < 128 := by
  delta Char.isAlpha Char.isUpper Char.isLower at letter
  simp [UInt32.le_iff_toNat_le] at letter
  omega

theorem of_isAlpha {P : Char → Prop} (all : ∀ n < 128, (Char.ofNat n).isAlpha = true → P (Char.ofNat n))
    (letter : c.isAlpha = true) : P c := by
  rw [← Char.ofNat_toNat c] at letter ⊢
  exact all c.toNat (ascii_of_isAlpha (by rwa [Char.ofNat_toNat] at letter)) letter

theorem visible_of_isAlpha (letter : c.isAlpha = true) : isWhitespace c = false :=
  of_isAlpha (P := fun c => isWhitespace c = false) (by decide) letter

theorem isAlpha_toUpper (letter : c.isAlpha = true) :
    c.toUpper.isAlpha = true ∧ c.toUpper.utf8Size = 1 :=
  of_isAlpha (P := fun c => c.toUpper.isAlpha = true ∧ c.toUpper.utf8Size = 1) (by decide) letter

theorem no_sign_of_isAlpha (letter : c.isAlpha = true) : c ≠ ',' ∧ c ≠ '!' ∧ c ≠ '=' :=
  of_isAlpha (P := fun c => c ≠ ',' ∧ c ≠ '!' ∧ c ≠ '=') (by decide) letter

theorem no_sign_of_isWhitespace (white : isWhitespace c = true) : c ≠ '!' ∧ c ≠ '=' := by
  constructor
  · rintro rfl
    cases white
  · rintro rfl
    cases white

namespace IsCode

variable {code : Text} (isCode : IsCode code)
include isCode

theorem visible :
    ∀ c ∈ code, isWhitespace c = false := fun c mem => visible_of_isAlpha (isCode.letters c mem)

theorem trimmed : Trimmed code := .of_visible isCode.visible

theorem key : byteLength (key code) = 2 ∧ (ExitLoc.key code).all Char.isAlpha = true := by
  obtain ⟨a, b, rfl⟩ := length_eq_two.mp isCode.two
  have first := isAlpha_toUpper (isCode.letters a (by simp))
  have second := isAlpha_toUpper (isCode.letters b (by simp))
  simp [ExitLoc.key, toAsciiUppercase, byteLength, first, second]

end IsCode

def counts (entry : Text) : Bool := byteLength entry = 2 && entry.all Char.isAlpha

theorem codesOf_eq (body : Text) :
    codesOf body = (((splitAt ',' body).map trim).map key).filter counts := by
  rw [map_map]
  rfl

theorem codesOf_trim (body : Text) : codesOf (trim body) = codesOf body := by
  rw [codesOf_eq, codesOf_eq, map_trim_splitAt_trim (by decide)]

namespace Country

variable {country : Country}

def inside (country : Country) : Text := country.gap ++ country.code ++ country.back

theorem trim_inside : trim country.inside = country.code :=
  trim_eq country.blank_gap country.blank_back country.isCode.trimmed

theorem trim_text_plain (plain : country.mark = []) : trim country.text = country.code := by
  rw [text, plain, nil_append, trim_blank_append country.blank_front]
  exact trim_inside

theorem signed_of_marked (marked : country.mark ≠ []) : ∃ more, country.mark = '!' :: more := by
  rcases country.isMark with none | single | double
  · exact absurd none marked
  · exact ⟨[], single⟩
  · exact ⟨['='], double⟩

theorem not_counts (marked : country.mark ≠ []) : counts (ExitLoc.key (trim country.text)) = false := by
  obtain ⟨more, mark⟩ := signed_of_marked marked
  have signed : '!' ∈ country.mark := by simp [mark]
  have inText : '!' ∈ trim country.text :=
    mem_trim (by decide) (mem_append_right _ (mem_append_left _ signed))
  have inKey : '!' ∈ ExitLoc.key (trim country.text) := mem_map.mpr ⟨'!', inText, rfl⟩
  refine Bool.eq_false_iff.mpr fun all => ?_
  have letter := all_eq_true.mp ((Bool.and_eq_true _ _).mp all).2 '!' inKey
  cases letter

theorem counts_key : counts (ExitLoc.key country.code) = true := by
  obtain ⟨two, letters⟩ := country.isCode.key
  simp [counts, two, letters]

theorem comma_not_mem_inside : ',' ∉ country.inside := by
  intro mem
  rcases mem_append.mp mem with mem | mem
  · rcases mem_append.mp mem with mem | mem
    · exact country.blank_gap.not_mem (by decide) mem
    · exact (no_sign_of_isAlpha (country.isCode.letters _ mem)).1 rfl
  · exact country.blank_back.not_mem (by decide) mem

theorem comma_not_mem_text : ',' ∉ country.text := by
  intro mem
  rcases mem_append.mp mem with mem | mem
  · exact country.blank_front.not_mem (by decide) mem
  · rcases mem_append.mp mem with mem | mem
    · rcases country.isMark with same | same | same <;> rw [same] at mem <;> simp at mem
    · exact comma_not_mem_inside mem

end Country

theorem filter_texts (rest : List Country) :
    (((rest.map Country.text).map trim).map key).filter counts =
      (rest.filter (·.mark = [])).map Country.key := by
  induction rest with
  | nil => rfl
  | cons country rest ih =>
    rw [map_cons, map_cons, map_cons]
    by_cases plain : country.mark = []
    · rw [Country.trim_text_plain plain, filter_cons_of_pos Country.counts_key,
        filter_cons_of_pos (by simpa using plain), ih]
      rfl
    · rw [filter_cons_of_neg (by simp [Country.not_counts plain]),
        filter_cons_of_neg (by simpa using plain), ih]

def behind (first : Country) (rest : List Country) : Text :=
  [','].intercalate (first.inside :: rest.map Country.text)

def counted (first : Country) (rest : List Country) : List Text :=
  first.key :: (rest.filter (·.mark = [])).map Country.key

theorem codesOf_behind (first : Country) (rest : List Country) :
    codesOf (behind first rest) = counted first rest := by
  have clean : ∀ piece ∈ first.inside :: rest.map Country.text, ',' ∉ piece := by
    refine forall_mem_cons.mpr ⟨Country.comma_not_mem_inside, fun piece mem => ?_⟩
    obtain ⟨country, -, rfl⟩ := mem_map.mp mem
    exact Country.comma_not_mem_text
  rw [codesOf_eq, behind, splitAt_intercalate clean (by simp), map_cons, map_cons,
    Country.trim_inside,
    filter_cons_of_pos Country.counts_key, filter_texts]
  rfl

variable {spec : Text}

theorem eqIgnoreAsciiCase_of_mem {word : Text} (member : c ∈ spec)
    (absent : c.toLower ∉ word.map Char.toLower) : spec.eqIgnoreAsciiCase word = false := by
  refine Bool.eq_false_iff.mpr fun same => absent ?_
  rw [← beq_iff_eq.mp same]
  exact mem_map_of_mem member

theorem eqIgnoreAsciiCase_of_length {word : Text} (other : spec.length ≠ word.length) :
    spec.eqIgnoreAsciiCase word = false := by
  refine Bool.eq_false_iff.mpr fun same => other ?_
  simpa using congrArg List.length (beq_iff_eq.mp same)

/-- Not one of the words for having no policy. -/
structure NoKeyword (spec : Text) : Prop where
  any : spec.eqIgnoreAsciiCase "any".toList = false
  off : spec.eqIgnoreAsciiCase "off".toList = false

theorem NoKeyword.of_sign (sign : c = ',' ∨ c = '!') (member : c ∈ spec) :
    NoKeyword spec := by
  rcases sign with rfl | rfl
  · exact ⟨eqIgnoreAsciiCase_of_mem member (by decide), eqIgnoreAsciiCase_of_mem member (by decide)⟩
  · exact ⟨eqIgnoreAsciiCase_of_mem member (by decide), eqIgnoreAsciiCase_of_mem member (by decide)⟩

def listing (secs : Option Text) (mark : Text) (codes : List Text) : Policy :=
  if mark = [] then ⟨codes, [], intervalFromEnv secs⟩ else ⟨[], codes, intervalFromEnv secs⟩

theorem parse_of_spec (secs : Option Text) {raw mark body code : Text} {codes : List Text}
    (spec : trim raw = mark ++ body) (isMark : mark = [] ∨ mark = ['!'] ∨ mark = ['!', '='])
    (starts : ∃ c, (c ≠ '!' ∧ c ≠ '=') ∧ body.head? = some c) (noKeyword : NoKeyword (trim raw))
    (read : codesOf body = code :: codes) :
    Policy.parse secs raw = some (listing secs mark (code :: codes)) := by
  obtain ⟨c, ⟨noMark, noEq⟩, starts⟩ := starts
  obtain ⟨more, rfl⟩ := List.head?_eq_some_iff.mp starts
  have stripped : (((mark ++ c :: more).dropWhile (· = '!')).dropWhile (· = '=')).dropWhile (· = '!') =
      c :: more := by
    rcases isMark with rfl | rfl | rfl <;> simp [noMark, noEq]
  have negated : (mark ++ c :: more).startsWith ['!'] = decide (mark ≠ []) := by
    rcases isMark with rfl | rfl | rfl <;> simp [Text.startsWith, List.isPrefixOf, Ne.symm noMark]
  rw [Policy.parse, noKeyword.any, noKeyword.off]
  rw [spec] at *
  simp only [stripped, negated, read, listing]
  rcases isMark with rfl | rfl | rfl <;> simp

section
variable (first : Country) (rest : List Country)

theorem written_eq : written first rest = first.front ++ (first.mark ++ behind first rest) := by
  cases rest with
  | nil => simp [written, behind, Country.text, Country.inside]
  | cons country rest => simp [written, behind, Country.text, Country.inside]

theorem head_behind : ∃ c, c.isAlpha = true ∧ (trim (behind first rest)).head? = some c := by
  obtain ⟨a, b, code⟩ := length_eq_two.mp first.isCode.two
  have letter : a.isAlpha = true := first.isCode.letters a (by simp [code])
  have starts : ∃ more, behind first rest = first.gap ++ a :: more := by
    cases rest with
    | nil => exact ⟨b :: first.back, by simp [behind, Country.inside, code]⟩
    | cons country rest =>
      simp [behind, Country.inside, code]
  obtain ⟨more, same⟩ := starts
  rw [same]
  exact ⟨a, letter, head?_trim first.blank_gap (visible_of_isAlpha letter)⟩

theorem noKeyword_written : NoKeyword (trim (written first rest)) := by
  rw [written_eq, trim_blank_append first.blank_front]
  rcases first.isMark with plain | marked | marked
  · rw [plain, nil_append]
    cases rest with
    | nil =>
      have code : trim (behind first []) = first.code := by simp [behind, Country.trim_inside]
      rw [code]
      have two := first.isCode.two
      exact ⟨eqIgnoreAsciiCase_of_length (by simp [two]), eqIgnoreAsciiCase_of_length (by simp [two])⟩
    | cons country rest =>
      refine .of_sign (c := ',') (.inl rfl) (mem_trim (by decide) ?_)
      simp [behind]
  · exact .of_sign (c := '!') (.inr rfl) (mem_trim (by decide) (by simp [marked]))
  · exact .of_sign (c := '!') (.inr rfl) (mem_trim (by decide) (by simp [marked]))

theorem parse_written (secs : Option Text) :
    Policy.parse secs (written first rest) = some (listing secs first.mark (counted first rest)) := by
  obtain ⟨c, letter, starts⟩ := head_behind first rest
  obtain ⟨-, noMark, noEq⟩ := no_sign_of_isAlpha letter
  have codes := codesOf_behind first rest
  have noKeyword := noKeyword_written first rest
  have spec : trim (written first rest) = trim (first.mark ++ behind first rest) := by
    rw [written_eq, trim_blank_append first.blank_front]
  have left : trim (behind first rest) ≠ [] := by
    intro none
    rw [none] at starts
    cases starts
  by_cases plain : first.mark = []
  · have whole : trim (written first rest) = first.mark ++ trim (behind first rest) := by
      rw [spec, plain, nil_append, nil_append]
    exact parse_of_spec secs whole first.isMark ⟨c, ⟨noMark, noEq⟩, starts⟩ noKeyword
      (by rw [codesOf_trim]; exact codes)
  · -- Blanks behind the mark stay until the entries are trimmed one by one.
    obtain ⟨more, mark⟩ := Country.signed_of_marked plain
    obtain ⟨front, blank, whole, same⟩ := trim_cons_append (c := '!') (by decide) more left
    rw [← mark, ← spec] at whole
    refine parse_of_spec secs whole first.isMark ?_ noKeyword ?_
    · cases front with
      | nil => exact ⟨c, ⟨noMark, noEq⟩, starts⟩
      | cons d front => exact ⟨d, no_sign_of_isWhitespace (blank d mem_cons_self), rfl⟩
    · rw [← codesOf_trim, same, codesOf_trim]
      exact codes

end

theorem accepts_listing (secs : Option Text) {mark loc code : Text} (codes : List Text)
    (isCode : IsCode loc) :
    (listing secs mark (code :: codes)).accepts loc =
      (decide (key loc ∈ code :: codes) == decide (mark = [])) := by
  rw [Policy.accepts, isCode.trimmed.trim_eq, listing]
  split
  next plain => simp [plain, key]
  next marked => simp [marked, key]

/-- The location is one of the countries named. -/
def Listed (first : Country) (rest : List Country) (loc : Text) : Prop :=
  ∃ country ∈ first :: rest, country.key = key loc

/-- A plain list, a list with a mark in front, or a list with a mark in front of every code. -/
def Styled (first : Country) (rest : List Country) : Prop :=
  (∀ country ∈ rest, country.mark = []) ∨ first.mark ≠ [] ∧ ∀ country ∈ rest, country.mark ≠ []

/-- The text accepts the countries named and no other, or with a mark in front the others and
    none of those. -/
def EveryCounts (secs : Option Text) (first : Country) (rest : List Country) : Prop :=
  ∃ policy, Policy.parse secs (written first rest) = some policy ∧ ∀ loc, IsCode loc →
    (policy.accepts loc = true ↔ (Listed first rest loc ↔ first.mark = []))

section
variable {first : Country} {rest : List Country}

theorem mem_counted {code : Text} :
    code ∈ counted first rest ↔ code = first.key ∨ ∃ country ∈ rest, country.mark = [] ∧
      country.key = code := by
  simp [counted, and_assoc]

theorem everyCounts_iff (secs : Option Text) :
    EveryCounts secs first rest ↔
      ∀ loc, IsCode loc → (key loc ∈ counted first rest ↔ Listed first rest loc) := by
  have accepted : ∀ loc, IsCode loc →
      ((listing secs first.mark (counted first rest)).accepts loc = true ↔
        (key loc ∈ counted first rest ↔ first.mark = [])) := by
    intro loc isCode
    rw [counted, accepts_listing secs _ isCode, beq_iff_eq, decide_eq_decide]
  constructor
  · rintro ⟨policy, parsed, right⟩ loc isCode
    rw [parse_written, Option.some.injEq] at parsed
    subst parsed
    have both := (accepted loc isCode).symm.trans (right loc isCode)
    tauto
  · intro right
    refine ⟨_, parse_written first rest secs, fun loc isCode => ?_⟩
    rw [accepted loc isCode, right loc isCode]

theorem listed_of_mem_counted {loc : Text} (member : key loc ∈ counted first rest) :
    Listed first rest loc := by
  rcases mem_counted.mp member with same | ⟨country, named, -, same⟩
  · exact ⟨first, mem_cons_self, same.symm⟩
  · exact ⟨country, mem_cons_of_mem _ named, same⟩

theorem every_country_counts_iff (secs : Option Text) (styled : Styled first rest) :
    EveryCounts secs first rest ↔ ∀ country ∈ rest, country.mark = [] ∨ country.key = first.key := by
  rw [everyCounts_iff]
  constructor
  · intro right country named
    have member := (right country.code country.isCode).mpr ⟨country, mem_cons_of_mem _ named, rfl⟩
    rcases styled with plain | ⟨-, marked⟩
    · exact .inl (plain country named)
    · -- Behind the first code every entry has a mark, so none of them counts.
      rcases mem_counted.mp member with same | ⟨other, named', plain, -⟩
      · exact .inr same
      · exact absurd plain (marked other named')
  · intro each loc isCode
    refine ⟨listed_of_mem_counted, ?_⟩
    rintro ⟨country, named, same⟩
    rcases mem_cons.mp named with rfl | named
    · exact mem_counted.mpr (.inl same.symm)
    · rcases each country named with plain | again
      · exact mem_counted.mpr (.inr ⟨country, named, plain, same⟩)
      · exact mem_counted.mpr (.inl (same.symm.trans again))

end

def entry (marked : Bool) (a b : Char) (letters : a.isAlpha = true ∧ b.isAlpha = true) : Country where
  front := []
  mark := if marked then ['!'] else []
  gap := []
  code := [a, b]
  back := []
  blank_front := forall_mem_nil _
  blank_gap := forall_mem_nil _
  blank_back := forall_mem_nil _
  isMark := by cases marked <;> simp
  isCode := ⟨rfl, by simp [letters]⟩

theorem every_country_counts_iff_front :
    EveryCounts none (entry true 'D' 'E' (by decide)) [entry false 'f' 'r' (by decide)] :=
  (every_country_counts_iff none (.inl (by simp [entry]))).mpr (by simp [entry])

theorem second_mark_is_lost :
    let first := entry true 'D' 'E' (by decide)
    let rest := [entry true 'F' 'R' (by decide)]
    Styled first rest ∧ written first rest = "!DE,!FR".toList ∧
      Policy.parse none "!DE,!FR".toList = some ⟨[], ["DE".toList], 60⟩ ∧
      Policy.accepts ⟨[], ["DE".toList], 60⟩ "FR".toList = true ∧ ¬ EveryCounts none first rest := by
  have isCode : IsCode "FR".toList := ⟨rfl, forall_iff_forall_mem.mp (by decide)⟩
  refine ⟨.inr ⟨by simp [entry], by simp [entry]⟩, rfl, by decide, by decide, ?_⟩
  rw [everyCounts_iff]
  intro right
  have member := (right _ isCode).mpr ⟨_, mem_cons_of_mem _ mem_cons_self, rfl⟩
  revert member
  decide

end Gozarbin.ExitLoc
