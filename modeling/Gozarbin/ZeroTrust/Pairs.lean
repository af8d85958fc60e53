import Gozarbin.Lib.FirstHit
import Gozarbin.Lib.Split
import Gozarbin.PercentDecode
import Gozarbin.ZeroTrust

/-! # Tokens in cookies and in queries

A sign-in hands the token out in a cookie, and the way to the next page in the query of an
address. Both are lists of names with values that are searched for one name. The searches read
an item with `?`, so they end at the first item that is not of the form they look for.
-/

namespace Gozarbin.ZeroTrust

open List Text

def extractJwtFromCookie (header : Text) : Option Text :=
  FirstHit.search
    (fun part =>
      let entry := trim part
      (strip "CF_Authorization=".toList entry).or (strip "cf_authorization=".toList entry))
    (fun value => if looksLikeJwt value then some value else none)
    (splitAt ';' header)

def queryValue (url key : Text) : Option Text :=
  (splitOnce ['?'] url).bind fun parts =>
    FirstHit.search (splitOnce ['='])
      (fun pair => if pair.1 = key then some (percentDecode pair.2) else none)
      (splitAt '&' parts.2)

/-- A name, with or without a value. -/
structure Pair where
  name : Text
  value : Option Text
  clean : '=' ∉ name

namespace Pair

def text (pair : Pair) : Text :=
  match pair.value with
  | some value => pair.name ++ '=' :: value
  | none => pair.name

def valueOf (name : Text) (pair : Pair) : Option Text := if pair.name = name then pair.value else none

theorem splitOnce_text (pair : Pair) :
    splitOnce ['='] pair.text = pair.value.map fun value => (pair.name, value) := by
  cases given : pair.value with
  | none =>
    rw [text, given]
    exact splitOnce_of_not_mem pair.clean
  | some value =>
    rw [text, given]
    exact splitOnce_append pair.clean

theorem strip_text {name : Text} (clean : '=' ∉ name) (pair : Pair) :
    strip (name ++ ['=']) pair.text = pair.valueOf name := by
  have split := pair.splitOnce_text
  cases found : strip (name ++ ['=']) pair.text with
  | some value =>
    have same : pair.text = name ++ '=' :: value := by
      rw [strip_eq_some found, append_assoc]
      rfl
    rw [same, splitOnce_append clean] at split
    obtain ⟨_, given, both⟩ := Option.map_eq_some_iff.mp split.symm
    cases both
    rw [valueOf, if_pos rfl, given]
  | none =>
    rw [valueOf]
    split_ifs with named
    · cases given : pair.value with
      | none => rfl
      | some value =>
        have whole : pair.text = name ++ ['='] ++ value := by
          rw [text, given, named, append_assoc]
          rfl
        rw [whole, strip_append] at found
        cases found
    · rfl

end Pair

/-- An entry of the header, with the blanks around it. -/
structure CookieEntry extends Pair where
  front : Text
  back : Text
  trimmed : Trimmed toPair.text
  whole : ';' ∉ toPair.text
  blank_front : Blank front
  blank_back : Blank back

namespace CookieEntry

def part (entry : CookieEntry) : Text := entry.front ++ entry.text ++ entry.back

def authorization (entry : CookieEntry) : Option Text :=
  (entry.valueOf "CF_Authorization".toList).or (entry.valueOf "cf_authorization".toList)

def token (entry : CookieEntry) : Option Text := entry.authorization.filter looksLikeJwt

theorem whole_part (entry : CookieEntry) : ';' ∉ entry.part := by
  simp only [part, mem_append, not_or]
  exact ⟨⟨entry.blank_front.not_mem rfl, entry.whole⟩, entry.blank_back.not_mem rfl⟩

theorem trim_part (entry : CookieEntry) : trim entry.part = entry.text :=
  trim_eq entry.blank_front entry.blank_back entry.trimmed

end CookieEntry

def cookieHeader (entries : List CookieEntry) : Text := [';'].intercalate (entries.map (·.part))

def firstToken (entries : List CookieEntry) : Option Text := entries.findSome? (·.token)

theorem extractJwtFromCookie_cookieHeader (entries : List CookieEntry) :
    extractJwtFromCookie (cookieHeader entries) =
      FirstHit.search CookieEntry.authorization
        (fun value => if looksLikeJwt value then some value else none) entries := by
  cases entries with
  | nil => rfl
  | cons entry entries =>
    have pieces : splitAt ';' (cookieHeader (entry :: entries)) =
        (entry :: entries).map (·.part) := by
      apply splitAt_intercalate _ (by simp)
      intro part member
      obtain ⟨other, _, rfl⟩ := mem_map.mp member
      exact other.whole_part
    rw [extractJwtFromCookie, pieces, FirstHit.search_map]
    congr 1
    funext other
    have upper : '=' ∉ "CF_Authorization".toList := by decide
    have lower : '=' ∉ "cf_authorization".toList := by decide
    simp only [Function.comp_apply, other.trim_part]
    exact congrArg₂ _ (other.strip_text upper) (other.strip_text lower)

theorem CookieEntry.hit_eq (entry : CookieEntry) :
    FirstHit.hit CookieEntry.authorization
      (fun value => if looksLikeJwt value then some value else none) entry = entry.token := by
  rw [FirstHit.hit, CookieEntry.token]
  cases entry.authorization with
  | none => rfl
  | some value => simp [Option.filter_some]

/-- The first token is found exactly when every entry in front of it is one for an authorization. -/
theorem extractJwtFromCookie_eq_iff (entries : List CookieEntry) :
    extractJwtFromCookie (cookieHeader entries) = firstToken entries ↔
      ∀ before entry after, entries = before ++ entry :: after → entry.token.isSome →
        (∀ other ∈ before, other.token = none) → ∀ other ∈ before, other.authorization.isSome := by
  rw [extractJwtFromCookie_cookieHeader]
  exact FirstHit.search_eq_findSome?_iff CookieEntry.hit_eq

theorem cookie_hidden :
    ∃ entries : List CookieEntry,
      cookieHeader entries =
        "lb=1; CF_Authorization=YWJjZGVmZ2hp.YWJjZGVmZ2hp.YWJjZGVmZ2hp".toList ∧
      firstToken entries = some "YWJjZGVmZ2hp.YWJjZGVmZ2hp.YWJjZGVmZ2hp".toList ∧
      extractJwtFromCookie (cookieHeader entries) = none := by
  let other : CookieEntry := {
    name := "lb".toList
    value := some "1".toList
    clean := by decide
    front := []
    back := []
    trimmed := .of_visible (forall_iff_forall_mem.mp (by decide))
    whole := by decide
    blank_front := forall_iff_forall_mem.mp (by decide)
    blank_back := forall_iff_forall_mem.mp (by decide) }
  let signedIn : CookieEntry := {
    name := "CF_Authorization".toList
    value := some "YWJjZGVmZ2hp.YWJjZGVmZ2hp.YWJjZGVmZ2hp".toList
    clean := by decide
    front := " ".toList
    back := []
    trimmed := .of_visible (forall_iff_forall_mem.mp (by decide))
    whole := by decide
    blank_front := forall_iff_forall_mem.mp (by decide)
    blank_back := forall_iff_forall_mem.mp (by decide) }
  exact ⟨[other, signedIn], by decide +kernel, by decide +kernel, by decide +kernel⟩

/-- A parameter of a query. -/
structure Param extends Pair where
  whole : '&' ∉ toPair.text

/-- An address with a query. -/
structure QueryUrl where
  base : Text
  params : List Param
  clean : '?' ∉ base

namespace QueryUrl

def text (url : QueryUrl) : Text := url.base ++ '?' :: ['&'].intercalate (url.params.map (·.text))

def lookup (url : QueryUrl) (key : Text) : Option Text :=
  url.params.findSome? fun param => (param.valueOf key).map percentDecode

end QueryUrl

theorem queryValue_text (url : QueryUrl) (key : Text) :
    queryValue url.text key =
      FirstHit.search (fun param : Param => param.value.map fun value => (param.name, value))
        (fun pair => if pair.1 = key then some (percentDecode pair.2) else none) url.params := by
  rw [queryValue, QueryUrl.text, splitOnce_append url.clean, Option.bind_some]
  cases url.params with
  | nil => rfl
  | cons param params =>
    have pieces : splitAt '&' (['&'].intercalate ((param :: params).map (·.text))) =
        (param :: params).map (·.text) := by
      apply splitAt_intercalate _ (by simp)
      intro piece member
      obtain ⟨other, _, rfl⟩ := mem_map.mp member
      exact other.whole
    rw [pieces, FirstHit.search_map]
    congr 1
    funext other
    exact other.splitOnce_text

theorem Param.hit_eq (key : Text) (param : Param) :
    FirstHit.hit (fun param : Param => param.value.map fun value => (param.name, value))
      (fun pair => if pair.1 = key then some (percentDecode pair.2) else none) param =
        (param.valueOf key).map percentDecode := by
  rw [FirstHit.hit, Pair.valueOf]
  by_cases named : param.name = key <;> cases param.value <;> simp

/-- The value is found exactly when every parameter in front of the first one that has it has a
    value as well. -/
theorem queryValue_eq_iff (url : QueryUrl) (key : Text) :
    queryValue url.text key = url.lookup key ↔
      ∀ before param after, url.params = before ++ param :: after → (param.valueOf key).isSome →
        (∀ other ∈ before, other.valueOf key = none) → ∀ other ∈ before, other.value.isSome := by
  rw [queryValue_text, QueryUrl.lookup, FirstHit.search_eq_findSome?_iff (Param.hit_eq key)]
  simp only [Option.isSome_map, Option.map_eq_none_iff]

theorem query_hidden :
    ∃ url : QueryUrl, url.text = "/warp?new&state=9".toList ∧
      url.lookup "state".toList = some "9".toList ∧ queryValue url.text "state".toList = none := by
  let flag : Param := ⟨⟨"new".toList, none, by decide⟩, by decide⟩
  let state : Param := ⟨⟨"state".toList, some "9".toList, by decide⟩, by decide⟩
  exact ⟨⟨"/warp".toList, [flag, state], by decide⟩, by decide +kernel, by decide +kernel,
    by decide +kernel⟩

end Gozarbin.ZeroTrust
