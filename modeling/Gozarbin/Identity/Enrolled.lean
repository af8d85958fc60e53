import Mathlib.Data.Char
import Mathlib.Data.List.Lex
import Gozarbin.Lib.Distinct
import Gozarbin.Lib.Split
import Gozarbin.Identity.Paths

/-! # The teams a device is enrolled in

Which teams there are identities for is read off the names of the files beside the personal one,
by rules that know one extension and two suffixes, whatever the functions that make the names
use.
-/

namespace Gozarbin.Identity

open List Text ZeroTrust Distinct

def tomlExtension : Text := ".toml".toList

def teamOf (start name : Text) : Option Text := do
  let rest ← strip start name
  let team ← stripEnd tomlExtension rest
  if team.isEmpty || team.endsWith "-secondary".toList || team.endsWith "-lastconn".toList then none
  else some team

def teamsAmong (start : Text) (entries : List Text) : List Text :=
  sortedSet (entries.filterMap (teamOf start))

def enrolledTeams (readDir : Text → Option (List Text)) (base : Text) : List Text :=
  let dir := if dirEnd base = 0 then ['.'] else base.take (dirEnd base)
  let stem :=
    match rfind (· = '.') (base.drop (dirEnd base)) with
    | some rel => (base.drop (dirEnd base)).take rel
    | none => base.drop (dirEnd base)
  match readDir dir with
  | none => []
  | some entries => teamsAmong (stem ++ "-team-".toList) entries

inductive Platform where
  | unix
  | windows
  deriving DecidableEq

namespace Platform

def separates : Platform → Char → Bool
  | .unix, c => c = '/'
  | .windows, c => c = '/' || c = '\\'

def driveEnd : Platform → Text → Nat
  | .unix, _ => 0
  | .windows, path => if path.head?.any Char.isAlpha && path[1]? = some ':' then 2 else 0

def nameStart (os : Platform) (path : Text) : Nat :=
  max (os.driveEnd path) (((path.rfind os.separates).map (· + 1)).getD 0)

def directory (os : Platform) (path : Text) : Text :=
  if os.nameStart path = 0 then ['.'] else path.take (os.nameStart path)

def readDir (os : Platform) (files : List Text) (dir : Text) : Option (List Text) :=
  match files.filter (os.directory · = dir) with
  | [] => none
  | found => some (found.map fun path => path.drop (os.nameStart path))

end Platform

/-- A team the device is enrolled in, and what is kept beside its identity. -/
structure Enrolment (ucd : Ucd) where
  setting : Text
  team : Text
  named : normalizeTeam ucd setting = some team
  siblings : List Role

def Enrolment.files {ucd : Ucd} (base : Text) (e : Enrolment ucd) : List Text :=
  (.main :: e.siblings).flatMap fun role =>
    [teamFile ucd {} base e.setting .wireGuard role, teamFile ucd {} base e.setting .masque role]

/-- The teams are found, in order and each once. -/
def Lists (found : List Text) {ucd : Ucd} (enrolled : List (Enrolment ucd)) : Prop :=
  found.Pairwise (· < ·) ∧ ∀ team, team ∈ found ↔ ∃ e ∈ enrolled, e.team = team

section
variable {os : Platform} {dir stem ext mid : Text}

theorem separates_le (os : Platform) {c : Char} (separates : os.separates c = true) :
    isSeparator c = true := by
  cases os with
  | unix => exact Bool.or_eq_true_iff.mpr (.inl separates)
  | windows => exact separates

theorem driveEnd_le (os : Platform) (path : Text) : os.driveEnd path ≤ path.length := by
  cases os with
  | unix => exact Nat.zero_le _
  | windows =>
    rw [Platform.driveEnd]
    split
    · rename_i drive
      have long : 1 < path.length := by
        by_contra short
        simp [List.getElem?_eq_none (Nat.le_of_not_lt short)] at drive
      exact long
    · exact Nat.zero_le _

theorem nameStart_le (os : Platform) (path : Text) : os.nameStart path ≤ path.length := by
  refine Nat.max_le.mpr ⟨driveEnd_le os path, ?_⟩
  rcases rfind_cases os.separates path with absent | ⟨before, c, after, rfl, found, last⟩
  · rw [rfind_eq_none absent]
    exact Nat.zero_le _
  · rw [rfind_append found last]
    simp

theorem separates_eq_false {name : Text} (plain : ∀ c ∈ name, isSeparator c = false) :
    ∀ c ∈ name, os.separates c = false := by
  intro c mem
  rw [← Bool.not_eq_true]
  exact fun separates => Bool.noConfusion ((plain c mem).symm.trans (separates_le os separates))

theorem Parts.driveEnd_mid (parts : Parts dir stem ext) :
    os.driveEnd (dir ++ (stem ++ '-' :: mid ++ ext)) = os.driveEnd (dir ++ (stem ++ ext)) := by
  cases os with
  | unix => rfl
  | windows =>
    have hyphen : Char.isAlpha '-' = false := by decide
    have dot : Char.isAlpha '.' = false := by decide
    rw [append_assoc stem, ← append_assoc dir, ← append_assoc dir]
    rcases dir ++ stem with _ | ⟨c, _ | ⟨d, rest⟩⟩
    · rcases parts.extension with ⟨rfl, -⟩ | ⟨after, rfl, -⟩ <;> simp [Platform.driveEnd]
    · rcases parts.extension with ⟨rfl, -⟩ | ⟨after, rfl, -⟩ <;> simp [Platform.driveEnd]
    · simp [Platform.driveEnd]

theorem Parts.nameStart_mid (parts : Parts dir stem ext) (plain : ∀ c ∈ mid, isPlain c = true) :
    os.nameStart (dir ++ (stem ++ '-' :: mid ++ ext)) = os.nameStart (dir ++ (stem ++ ext)) := by
  have plain' : ∀ c ∈ '-' :: mid, isPlain c = true := forall_mem_cons.mpr ⟨by decide, plain⟩
  rw [Platform.nameStart, Platform.nameStart, parts.driveEnd_mid,
    rfind_append_absent (separates_eq_false (parts.inDir_mid plain').plain),
    rfind_append_absent (separates_eq_false parts.inDir.plain)]

theorem driveEnd_ne_one (os : Platform) (path : Text) : os.driveEnd path ≠ 1 := by
  cases os with
  | unix => exact Nat.zero_ne_one
  | windows =>
    rw [Platform.driveEnd]
    split <;> decide

theorem Parts.directory_eq_iff (parts : Parts dir stem ext) {path : Text}
    (starts : os.nameStart path = os.nameStart (dir ++ (stem ++ ext))) (inside : dir <+: path) :
    os.directory path = (if dir = [] then ['.'] else dir) ↔
      os.nameStart (dir ++ (stem ++ ext)) = dir.length := by
  have within : os.nameStart (dir ++ (stem ++ ext)) ≤ path.length := starts ▸ nameStart_le os path
  obtain ⟨rest, rfl⟩ := inside
  rw [Platform.directory, starts]
  rcases parts.inDir.ends with rfl | ⟨d, sep, rfl, separator⟩
  · refine ⟨fun same => ?_, fun zero => if_pos zero⟩
    by_contra pos
    rw [length_nil] at pos
    rw [if_neg pos, if_pos rfl] at same
    have one := congrArg List.length same
    rw [length_take, Nat.min_eq_left within, Platform.nameStart, nil_append,
      rfind_eq_none (separates_eq_false parts.inDir.plain)] at one
    exact driveEnd_ne_one os _ (by simpa using one)
  · have below : d ++ [sep] ≠ [] := by simp
    rw [if_neg below]
    constructor
    · intro same
      by_cases zero : os.nameStart (d ++ [sep] ++ (stem ++ ext)) = 0
      · rw [if_pos zero] at same
        have last := congrArg List.getLast? same
        obtain rfl : '.' = sep := by simpa using last
        exact absurd separator (by decide)
      · rw [if_neg zero] at same
        have long := congrArg List.length same
        rwa [length_take, Nat.min_eq_left within] at long
    · intro aligned
      rw [aligned, if_neg (by simp), take_left]

end

section
variable {os : Platform} {dir stem ext front : Text}

theorem toml_suffix_iff (extension : ext = [] ∧ '.' ∉ front ∨ ∃ after, ext = '.' :: after ∧ '.' ∉ after) :
    tomlExtension <:+ front ++ ext ↔ ext = tomlExtension := by
  refine ⟨fun ends => ?_, fun same => same ▸ suffix_append ..⟩
  rcases extension with ⟨rfl, absent⟩ | ⟨after, rfl, absent⟩
  · rw [append_nil] at ends
    exact absurd (ends.subset (by decide : '.' ∈ tomlExtension)) absent
  · have dots : '.' ∉ "toml".toList := by decide
    rcases suffix_or_suffix_of_suffix ends (suffix_append front ('.' :: after)) with
      shorter | longer
    · rcases suffix_cons_iff.mp shorter with same | inner
      · exact same.symm
      · exact absurd (inner.subset (by decide : '.' ∈ tomlExtension)) absent
    · rcases suffix_cons_iff.mp longer with same | inner
      · exact same
      · exact absurd (inner.subset mem_cons_self) dots

theorem Parts.endsWith_toml_iff (parts : Parts dir stem ext) :
    (dir ++ (stem ++ ext)).endsWith tomlExtension = true ↔ ext = tomlExtension := by
  rw [endsWith, isSuffixOf_iff_suffix, ← toml_suffix_iff parts.extension]
  refine ⟨fun ends => ?_, fun ends => ends.trans (suffix_append ..)⟩
  rcases suffix_or_suffix_of_suffix ends (suffix_append dir (stem ++ ext)) with
    shorter | ⟨more, split⟩
  · exact shorter
  rcases eq_nil_or_concat more with rfl | ⟨init, c, rfl⟩
  · exact split ▸ suffix_refl _
  -- the extension would hold the separator before the name
  obtain ⟨start, whole⟩ := ends
  rw [← split, ← append_assoc] at whole
  have dir_eq := append_cancel_right whole
  rcases parts.inDir.ends with rfl | ⟨d, sep, rfl, separator⟩
  · simp at dir_eq
  · obtain rfl : c = sep := by simpa using congrArg List.getLast? dir_eq
    have inside : c ∈ tomlExtension := by
      rw [← split]
      simp
    have plain : ∀ c ∈ tomlExtension, isSeparator c = false := forall_iff_forall_mem.mp (by decide)
    exact Bool.noConfusion ((plain c inside).symm.trans separator)

/-- The suffixes that are known are those of two roles. -/
def Unread (team : Text) : Prop := Role.secondary.suffix <:+ team ∨ Role.lastconn.suffix <:+ team

theorem teamOf_eq_some_iff {ucd : Ucd} {setting team found : Text} (parts : Parts dir stem ext)
    (named : normalizeTeam ucd setting = some team) (role : Role) :
    teamOf (stem ++ "-team-".toList) (stem ++ role.mid team ++ ext) = some found ↔
      ext = tomlExtension ∧ found = team ++ role.suffix ∧ ¬ Unread found := by
  obtain ⟨nonempty, letters⟩ := normalizeTeam_spec named
  have spelled :
      stem ++ role.mid team ++ ext = stem ++ "-team-".toList ++ (team ++ role.suffix ++ ext) := by
    simp [Role.mid]
  have plain : '.' ∉ team ++ role.suffix := by
    intro mem
    rcases mem_append.mp mem with letter | fixed
    · exact absurd (letters '.' letter) (by decide)
    · revert fixed
      cases role <;> decide
  have extension : ext = [] ∧ '.' ∉ team ++ role.suffix ∨ ∃ after, ext = '.' :: after ∧ '.' ∉ after :=
    parts.extension.imp_left fun bare => ⟨bare.1, plain⟩
  have filled : team ++ role.suffix ≠ [] := by simp [nonempty]
  rw [teamOf, spelled, strip_append, Option.bind_eq_bind, Option.bind_some]
  by_cases toml : ext = tomlExtension
  · subst toml
    rw [stripEnd_append, Option.bind_some, Option.ite_none_left_eq_some, Option.some_inj]
    have rejected : ((team ++ role.suffix).isEmpty || (team ++ role.suffix).endsWith "-secondary".toList ||
        (team ++ role.suffix).endsWith "-lastconn".toList) = true ↔ Unread (team ++ role.suffix) := by
      rw [Bool.or_eq_true, Bool.or_eq_true, List.isEmpty_iff, endsWith, endsWith,
        isSuffixOf_iff_suffix, isSuffixOf_iff_suffix, or_iff_right filled, Unread]
      rfl
    rw [rejected, and_iff_right rfl]
    constructor
    · rintro ⟨read, rfl⟩
      exact ⟨rfl, read⟩
    · rintro ⟨rfl, read⟩
      exact ⟨read, rfl⟩
  · have other : ¬ tomlExtension <:+ team ++ role.suffix ++ ext := mt (toml_suffix_iff extension).mp toml
    rw [stripEnd, endsWith, if_neg (mt isSuffixOf_iff_suffix.mp other), Option.bind_none]
    exact iff_of_false (fun found => by cases found) fun read => toml read.1

end

theorem Role.eq_of_ends {role₁ role₂ : Role} {team : Text} (ends : role₁.suffix <:+ team ++ role₂.suffix) :
    role₁ = .main ∨ role₂ = .main ∨ role₁ = role₂ := by
  rcases suffix_or_suffix_of_suffix ends (suffix_append team role₂.suffix) with within | within
  · exact (Role.eq_of_suffix within).imp_right .inr
  · exact .inr ((Role.eq_of_suffix within).imp_right Eq.symm)

theorem unread_append_iff {team : Text} (role : Role) :
    ¬ Unread (team ++ role.suffix) ↔ role = .main ∧ ¬ Unread team ∨ role = .gool := by
  cases role with
  | main => simp
  | gool =>
    refine iff_of_true ?_ (.inr rfl)
    rintro (ends | ends) <;> rcases Role.eq_of_ends ends with h | h | h <;> cases h
  | secondary =>
    refine iff_of_false (fun read => read (.inl (suffix_append ..))) ?_
    rintro (⟨h, -⟩ | h) <;> cases h
  | lastconn =>
    refine iff_of_false (fun read => read (.inr (suffix_append ..))) ?_
    rintro (⟨h, -⟩ | h) <;> cases h

section
variable {ucd : Ucd} {dir stem ext : Text} {os : Platform} {enrolled : List (Enrolment ucd)}
  {files : List Text}

theorem Enrolment.mem_files {path : Text} (parts : Parts dir stem ext) (e : Enrolment ucd) :
    path ∈ e.files (dir ++ (stem ++ ext)) ↔
      ∃ role, (role = .main ∨ role ∈ e.siblings) ∧ path = dir ++ (stem ++ role.mid e.team ++ ext) := by
  have file_eq (transport : Transport) (role : Role) :
      teamFile ucd {} (dir ++ (stem ++ ext)) e.setting transport role =
        dir ++ (stem ++ role.mid e.team ++ ext) :=
    parts.teamFile_eq rfl rfl e.named transport role
  simp only [Enrolment.files, mem_flatMap, mem_cons, file_eq, not_mem_nil, or_false, or_self]

theorem Enrolment.nameStart_eq (parts : Parts dir stem ext) (e : Enrolment ucd) (role : Role) :
    os.nameStart (dir ++ (stem ++ role.mid e.team ++ ext)) = os.nameStart (dir ++ (stem ++ ext)) := by
  have plain : ∀ c ∈ "team-".toList ++ e.team ++ role.suffix, isPlain c = true := by
    intro c mem
    rw [mem_append, mem_append] at mem
    rcases mem with (fixed | letter) | fixed
    · exact all_eq_true.mp (by decide : "team-".toList.all isPlain = true) c fixed
    · exact isPlain_of_isTeamChar ((normalizeTeam_spec e.named).2 c letter)
    · exact all_eq_true.mp (by cases role <;> decide : role.suffix.all isPlain = true) c fixed
  exact parts.nameStart_mid plain

theorem mem_readDir {name : Text} :
    name ∈ (os.readDir files dir).getD [] ↔
      ∃ path ∈ files, os.directory path = dir ∧ path.drop (os.nameStart path) = name := by
  have found : (os.readDir files dir).getD [] =
      (files.filter (os.directory · = dir)).map fun path => path.drop (os.nameStart path) := by
    rw [Platform.readDir]
    cases files.filter (os.directory · = dir) <;> rfl
  rw [found, mem_map]
  simp only [mem_filter, decide_eq_true_eq, and_assoc]

theorem mem_teamsAmong {start team : Text} {entries : List Text} :
    team ∈ teamsAmong start entries ↔ ∃ name ∈ entries, teamOf start name = some team := by
  rw [teamsAmong, mem_sortedSet, mem_filterMap]

theorem Parts.enrolledTeams_eq (parts : Parts dir stem ext) (readDir : Text → Option (List Text)) :
    enrolledTeams readDir (dir ++ (stem ++ ext)) =
      teamsAmong (stem ++ "-team-".toList) ((readDir (if dir = [] then ['.'] else dir)).getD []) := by
  have stem_eq : (match rfind (· = '.') (stem ++ ext) with
      | some rel => (stem ++ ext).take rel
      | none => stem ++ ext) = stem := by
    rcases parts.extension with ⟨rfl, absent⟩ | ⟨after, rfl, last⟩
    · rw [append_nil, rfind_eq_none (dotless absent)]
    · rw [rfind_append (by simp) (dotless last)]
      exact take_left
  simp only [enrolledTeams, parts.inDir.dirEnd_eq, drop_left, take_left, stem_eq,
    length_eq_zero_iff]
  cases readDir (if dir = [] then ['.'] else dir) <;> rfl

theorem mem_enrolledTeams (parts : Parts dir stem ext)
    (held : ∀ path, path ∈ files ↔ ∃ e ∈ enrolled, path ∈ e.files (dir ++ (stem ++ ext))) (team : Text) :
    team ∈ enrolledTeams (os.readDir files) (dir ++ (stem ++ ext)) ↔
      os.nameStart (dir ++ (stem ++ ext)) = dir.length ∧ ext = tomlExtension ∧ ∃ e ∈ enrolled,
        e.team = team ∧ ¬ Unread team ∨ .gool ∈ e.siblings ∧ e.team ++ Role.gool.suffix = team := by
  have starts (e : Enrolment ucd) (role : Role) :
      os.directory (dir ++ (stem ++ role.mid e.team ++ ext)) = (if dir = [] then ['.'] else dir) ↔
        os.nameStart (dir ++ (stem ++ ext)) = dir.length :=
    parts.directory_eq_iff (e.nameStart_eq parts role) (prefix_append ..)
  rw [parts.enrolledTeams_eq, mem_teamsAmong]
  constructor
  · rintro ⟨name, read, found⟩
    obtain ⟨path, mem, inside, rfl⟩ := mem_readDir.mp read
    obtain ⟨e, member, file⟩ := (held path).mp mem
    obtain ⟨role, kept, rfl⟩ := (e.mem_files parts).mp file
    have aligned := (starts e role).mp inside
    rw [e.nameStart_eq parts role, aligned, drop_left, teamOf_eq_some_iff parts e.named role] at found
    obtain ⟨toml, rfl, listed⟩ := found
    refine ⟨aligned, toml, e, member, ?_⟩
    rcases (unread_append_iff role).mp listed with ⟨rfl, readable⟩ | rfl
    · exact .inl ⟨(append_nil _).symm, listed⟩
    · exact .inr ⟨kept.resolve_left (fun h => by cases h), rfl⟩
  · rintro ⟨aligned, toml, e, member, found⟩
    have file (role : Role) (kept : role = .main ∨ role ∈ e.siblings)
        (spelled : e.team ++ role.suffix = team) (readable : ¬ Unread team) :
        ∃ name ∈ (os.readDir files (if dir = [] then ['.'] else dir)).getD [],
          teamOf (stem ++ "-team-".toList) name = some team := by
      refine ⟨stem ++ role.mid e.team ++ ext,
        mem_readDir.mpr ⟨dir ++ (stem ++ role.mid e.team ++ ext), ?_, ?_, ?_⟩, ?_⟩
      · exact (held _).mpr ⟨e, member, (e.mem_files parts).mpr ⟨role, kept, rfl⟩⟩
      · exact (starts e role).mpr aligned
      · rw [e.nameStart_eq parts role, aligned, drop_left]
      · exact (teamOf_eq_some_iff parts e.named role).mpr ⟨toml, spelled.symm, readable⟩
    rcases found with ⟨rfl, readable⟩ | ⟨gool, rfl⟩
    · exact file .main (.inl rfl) (append_nil _) readable
    · exact file .gool (.inr gool) rfl ((unread_append_iff .gool).mpr (.inr rfl))

end

/-- The list is exact precisely if no team is enrolled, or the base has the known extension in a
    directory the system sees, no team is called like a file beside one, and whoever has a file
    of gool has a team of that name. -/
theorem enrolled_teams_exact_iff (os : Platform) {ucd : Ucd} (base : Text) (enrolled : List (Enrolment ucd))
    (files : List Text) (held : ∀ path, path ∈ files ↔ ∃ e ∈ enrolled, path ∈ e.files base) :
    Lists (enrolledTeams (os.readDir files) base) enrolled ↔
      enrolled = [] ∨ os.nameStart base = dirEnd base ∧ base.endsWith tomlExtension = true ∧
        ∀ e ∈ enrolled, ¬ Unread e.team ∧
          (.gool ∈ e.siblings → ∃ e' ∈ enrolled, e'.team = e.team ++ Role.gool.suffix) := by
  obtain ⟨dir, stem, ext, rfl, parts⟩ := exists_parts base
  have sorted : (enrolledTeams (os.readDir files) (dir ++ (stem ++ ext))).Pairwise (· < ·) := by
    rw [parts.enrolledTeams_eq]
    exact pairwise_sortedSet _
  have found : ∀ team, team ∈ enrolledTeams (os.readDir files) (dir ++ (stem ++ ext)) ↔ _ :=
    mem_enrolledTeams parts held
  rw [Lists, and_iff_right sorted, parts.inDir.dirEnd_eq, parts.endsWith_toml_iff]
  constructor
  · intro exact
    cases enrolled with
    | nil => exact .inl rfl
    | cons first rest =>
      obtain ⟨aligned, toml, -⟩ :=
        (found first.team).mp ((exact first.team).mpr ⟨first, mem_cons_self, rfl⟩)
      refine .inr ⟨aligned, toml, fun e member => ⟨?_, fun gool => ?_⟩⟩
      · obtain ⟨-, -, e', -, ⟨-, readable⟩ | ⟨-, same⟩⟩ :=
          (found e.team).mp ((exact e.team).mpr ⟨e, member, rfl⟩)
        · exact readable
        · exact same ▸ (unread_append_iff .gool).mpr (.inr rfl)
      · exact (exact _).mp ((found _).mpr ⟨aligned, toml, e, member, .inr ⟨gool, rfl⟩⟩)
  · rintro (rfl | ⟨aligned, toml, names⟩) team
    · simp [found]
    · rw [found]
      constructor
      · rintro ⟨-, -, e, member, ⟨rfl, -⟩ | ⟨gool, rfl⟩⟩
        · exact ⟨e, member, rfl⟩
        · exact (names e member).2 gool
      · rintro ⟨e, member, rfl⟩
        exact ⟨aligned, toml, e, member, .inl ⟨rfl, (names e member).1⟩⟩

def acmeAndGlobex : List (Enrolment .ascii) :=
  [⟨"https://Globex.cloudflareaccess.com/".toList, "globex".toList, by decide, []⟩,
    ⟨"acme".toList, "acme".toList, by decide, [.secondary, .lastconn]⟩]

theorem acme_and_globex_listed :
    (acmeAndGlobex.flatMap (·.files "/etc/aether.toml".toList)).length = 8 ∧
      Lists (enrolledTeams
        (Platform.unix.readDir (acmeAndGlobex.flatMap (·.files "/etc/aether.toml".toList)))
        "/etc/aether.toml".toList) acmeAndGlobex := by
  refine ⟨by decide, (enrolled_teams_exact_iff .unix "/etc/aether.toml".toList acmeAndGlobex _
    fun path => mem_flatMap).mpr (.inr ⟨by decide, by decide, fun e member => ?_⟩)⟩
  rcases mem_cons.mp member with rfl | member
  · exact ⟨by unfold Unread; decide, fun gool => by cases gool⟩
  · obtain rfl := mem_singleton.mp member
    exact ⟨by unfold Unread; decide, fun gool => absurd gool (by decide)⟩

theorem gool_listed_as_team :
    let enrolled : List (Enrolment .ascii) := [⟨"acme".toList, "acme".toList, by decide, [.gool]⟩]
    let files := enrolled.flatMap (·.files "aether.toml".toList)
    files = ["aether-team-acme.toml".toList, "aether-team-acme.toml".toList,
        "aether-team-acme-gool.toml".toList, "aether-team-acme-gool.toml".toList] ∧
      enrolledTeams (Platform.unix.readDir files) "aether.toml".toList =
        ["acme".toList, "acme-gool".toList] ∧
      ¬ Lists (enrolledTeams (Platform.unix.readDir files) "aether.toml".toList) enrolled := by
  intro enrolled files
  have found : enrolledTeams (Platform.unix.readDir files) "aether.toml".toList =
      ["acme".toList, "acme-gool".toList] := by decide
  refine ⟨by decide, found, fun exact => ?_⟩
  obtain ⟨e, member, same⟩ := (exact.2 "acme-gool".toList).mp (found ▸ by decide)
  obtain rfl := mem_singleton.mp member
  revert same
  decide

end Gozarbin.Identity
