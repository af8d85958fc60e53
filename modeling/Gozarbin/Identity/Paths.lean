import Gozarbin.ZeroTrust

/-! # Where identities are kept

A device has an identity for each organization it is enrolled in, in a file named after
the organization beside the personal one. What belongs to an identity is kept beside it
in turn, under its name with one more suffix.
-/

namespace Gozarbin.Identity

open List Text ZeroTrust

def isSeparator (c : Char) : Bool := c = '/' || c = '\\'

def dirEnd (base : Text) : Nat := ((base.rfind isSeparator).map (· + 1)).getD 0

def deriveSiblingPath (base suffix : Text) : Text :=
  match rfind (· = '.') (base.drop (dirEnd base)) with
  | some rel =>
    let dot := dirEnd base + rel
    base.take dot ++ '-' :: suffix ++ base.drop dot
  | none => base ++ '-' :: suffix

/-- `AETHER_WG_CONFIG`, `AETHER_MASQUE_CONFIG` and `AETHER_TEAM`. -/
structure PathEnv where
  wgConfig : Option Text := none
  masqueConfig : Option Text := none
  team : Option Text := none

variable (ucd : Ucd) (env : PathEnv)

def teamScope : Option Text := normalizeTeam ucd (env.team.getD [])

def warpConfigPath (base : Text) : Text :=
  match env.wgConfig with
  | some p => p
  | none =>
    match teamScope ucd env with
    | some team => deriveSiblingPath base ("team-".toList ++ team)
    | none => base

def masqueConfigPath (base : Text) : Text :=
  match env.masqueConfig with
  | some p => p
  | none =>
    match teamScope ucd env with
    | some team => deriveSiblingPath base ("team-".toList ++ team)
    | none => deriveSiblingPath base "masque".toList

def goolIdentityPath (masqueConfig : Text) : Text := deriveSiblingPath masqueConfig "gool".toList

def lastconnPath (configPath : Text) : Text := deriveSiblingPath configPath "lastconn".toList

/-- An identity, that of the tunnel inside, that of gool, and the gateways last used. -/
inductive Role
  | main
  | secondary
  | gool
  | lastconn
  deriving DecidableEq

def Role.path (role : Role) (config : Text) : Text :=
  match role with
  | .main => config
  | .secondary => deriveSiblingPath config "secondary".toList
  | .gool => goolIdentityPath config
  | .lastconn => lastconnPath config

inductive Transport
  | wireGuard
  | masque
  deriving DecidableEq

def configPath (base : Text) : Transport → Text
  | .wireGuard => warpConfigPath ucd env base
  | .masque => masqueConfigPath ucd env base

def teamFile (base raw : Text) (transport : Transport) (role : Role) : Text :=
  role.path (configPath ucd { env with team := some raw } base transport)

/-- No file of the one team is a file of the other. -/
def Apart (base raw₁ raw₂ : Text) : Prop :=
  ∀ transport₁ transport₂ role₁ role₂,
    teamFile ucd env base raw₁ transport₁ role₁ ≠ teamFile ucd env base raw₂ transport₂ role₂

def Role.suffix : Role → Text
  | .main => []
  | .secondary => '-' :: "secondary".toList
  | .gool => '-' :: "gool".toList
  | .lastconn => '-' :: "lastconn".toList

@[simp] theorem Role.suffix_main : Role.main.suffix = [] := rfl

structure InDir (dir name : Text) : Prop where
  ends : dir = [] ∨ ∃ d sep, dir = d ++ [sep] ∧ isSeparator sep = true
  plain : ∀ c ∈ name, isSeparator c = false

theorem exists_inDir (base : Text) : ∃ dir name, base = dir ++ name ∧ InDir dir name := by
  rcases rfind_cases isSeparator base with absent | ⟨before, c, after, split, found, last⟩
  · exact ⟨[], base, rfl, .inl rfl, absent⟩
  · exact ⟨before ++ [c], after, by simp [split], .inr ⟨before, c, rfl, found⟩, last⟩

theorem InDir.dirEnd_eq {dir name : Text} (h : InDir dir name) :
    dirEnd (dir ++ name) = dir.length := by
  rcases h.ends with rfl | ⟨d, sep, rfl, found⟩
  · simp [dirEnd, rfind_eq_none h.plain]
  · rw [append_assoc]
    simp [dirEnd, rfind_append found h.plain]

theorem InDir.deriveSiblingPath_of_dot {dir stem after : Text} (h : InDir dir (stem ++ '.' :: after))
    (last : ∀ c ∈ after, decide (c = '.') = false) (suffix : Text) :
    deriveSiblingPath (dir ++ (stem ++ '.' :: after)) suffix =
      dir ++ stem ++ '-' :: suffix ++ '.' :: after := by
  have dot : rfind (· = '.') (stem ++ '.' :: after) = some stem.length := rfind_append (by simp) last
  simp only [deriveSiblingPath, h.dirEnd_eq, drop_left, dot]
  rw [← append_assoc, ← length_append, take_left, drop_left]

theorem InDir.deriveSiblingPath_of_none {dir name : Text} (h : InDir dir name)
    (absent : ∀ c ∈ name, decide (c = '.') = false) (suffix : Text) :
    deriveSiblingPath (dir ++ name) suffix = dir ++ name ++ '-' :: suffix := by
  simp [deriveSiblingPath, h.dirEnd_eq, rfind_eq_none absent]

def isPlain (c : Char) : Bool := !isSeparator c && !decide (c = '.')

structure Parts (dir stem ext : Text) : Prop where
  inDir : InDir dir (stem ++ ext)
  extension : ext = [] ∧ '.' ∉ stem ∨ ∃ after, ext = '.' :: after ∧ '.' ∉ after

theorem exists_parts (base : Text) : ∃ dir stem ext, base = dir ++ (stem ++ ext) ∧ Parts dir stem ext := by
  obtain ⟨dir, name, rfl, inDir⟩ := exists_inDir base
  rcases rfind_cases (· = '.') name with absent | ⟨before, dot, after, rfl, found, last⟩
  · refine ⟨dir, name, [], by simp, by simpa using inDir, .inl ⟨rfl, fun mem => ?_⟩⟩
    simpa using absent '.' mem
  · obtain rfl : dot = '.' := by simpa using found
    refine ⟨dir, before, '.' :: after, rfl, inDir, .inr ⟨after, rfl, fun mem => ?_⟩⟩
    simpa using last '.' mem

section
variable {dir stem ext mid : Text}

theorem dotless {text : Text} (absent : '.' ∉ text) : ∀ c ∈ text, decide (c = '.') = false := by
  intro c mem
  rw [decide_eq_false_iff_not]
  rintro rfl
  exact absent mem

theorem Parts.inDir_mid (parts : Parts dir stem ext) (plain : ∀ c ∈ mid, isPlain c = true) :
    InDir dir (stem ++ mid ++ ext) := by
  refine ⟨parts.inDir.ends, fun c mem => ?_⟩
  rw [append_assoc, mem_append, mem_append] at mem
  rcases mem with old | new | old
  · exact parts.inDir.plain c (mem_append.mpr (.inl old))
  · have := plain c new
    simp only [isPlain, Bool.and_eq_true, Bool.not_eq_true'] at this
    exact this.1
  · exact parts.inDir.plain c (mem_append.mpr (.inr old))

theorem Parts.deriveSiblingPath_eq (parts : Parts dir stem ext) (plain : ∀ c ∈ mid, isPlain c = true)
    (suffix : Text) :
    deriveSiblingPath (dir ++ (stem ++ mid ++ ext)) suffix =
      dir ++ (stem ++ (mid ++ '-' :: suffix) ++ ext) := by
  have longer := parts.inDir_mid plain
  rcases parts.extension with ⟨rfl, absent⟩ | ⟨after, rfl, last⟩
  · rw [append_nil] at longer
    have absent' : '.' ∉ stem ++ mid := by
      intro mem
      rcases mem_append.mp mem with old | new
      · exact absent old
      · exact absurd (plain '.' new) (by decide)
    simpa using longer.deriveSiblingPath_of_none (dotless absent') suffix
  · simpa using longer.deriveSiblingPath_of_dot (dotless last) suffix

end

theorem isPlain_of_isTeamChar {c : Char} (h : isTeamChar c = true) : isPlain c = true := by
  cases plain : isPlain c with
  | true => rfl
  | false =>
    simp only [isPlain, isSeparator, Bool.and_eq_false_iff, Bool.not_eq_false',
      Bool.or_eq_true, decide_eq_true_eq] at plain
    rcases plain with (rfl | rfl) | rfl <;> revert h <;> decide

section
variable {ucd : Ucd} {env : PathEnv} {base raw team stem ext : Text}

def Role.mid (role : Role) (team : Text) : Text := '-' :: "team-".toList ++ team ++ role.suffix

theorem Role.path_eq (role : Role) {dir mid : Text} (parts : Parts dir stem ext)
    (plain : ∀ c ∈ mid, isPlain c = true) :
    role.path (dir ++ (stem ++ mid ++ ext)) = dir ++ (stem ++ (mid ++ role.suffix) ++ ext) := by
  cases role with
  | main => exact congrArg (fun name => dir ++ (stem ++ name ++ ext)) (append_nil mid).symm
  | secondary => exact parts.deriveSiblingPath_eq plain _
  | gool => exact parts.deriveSiblingPath_eq plain _
  | lastconn => exact parts.deriveSiblingPath_eq plain _

theorem configPath_of_team (noWg : env.wgConfig = none) (noMasque : env.masqueConfig = none)
    (named : normalizeTeam ucd raw = some team) (transport : Transport) :
    configPath ucd { env with team := some raw } base transport =
      deriveSiblingPath base ("team-".toList ++ team) := by
  have scope : teamScope ucd { env with team := some raw } = some team := named
  cases transport with
  | wireGuard => rw [configPath, warpConfigPath, scope, noWg]
  | masque => rw [configPath, masqueConfigPath, scope, noMasque]

theorem Parts.teamFile_eq {dir : Text} (parts : Parts dir stem ext) (noWg : env.wgConfig = none)
    (noMasque : env.masqueConfig = none) (named : normalizeTeam ucd raw = some team) (transport : Transport)
    (role : Role) :
    teamFile ucd env (dir ++ (stem ++ ext)) raw transport role = dir ++ (stem ++ role.mid team ++ ext) := by
  have plain : ∀ c ∈ ('-' :: "team-".toList) ++ team, isPlain c = true := by
    intro c mem
    rcases mem_append.mp mem with fixed | letter
    · exact all_eq_true.mp (by decide : ('-' :: "team-".toList).all isPlain = true) c fixed
    · exact isPlain_of_isTeamChar ((normalizeTeam_spec named).2 c letter)
  have main : deriveSiblingPath (dir ++ (stem ++ ext)) ("team-".toList ++ team) =
      dir ++ (stem ++ (('-' :: "team-".toList) ++ team) ++ ext) := by
    have first : deriveSiblingPath (dir ++ (stem ++ [] ++ ext)) ("team-".toList ++ team) = _ :=
      parts.deriveSiblingPath_eq (by simp) _
    rw [append_nil stem] at first
    exact first
  rw [teamFile, configPath_of_team noWg noMasque named, main, role.path_eq parts plain, Role.mid]

theorem exists_teamFile_eq (base : Text) :
    ∃ stem ext, ∀ {ucd env raw team}, env.wgConfig = none → env.masqueConfig = none →
      normalizeTeam ucd raw = some team → ∀ transport role,
        teamFile ucd env base raw transport role = stem ++ role.mid team ++ ext := by
  obtain ⟨dir, stem, ext, rfl, parts⟩ := exists_parts base
  refine ⟨dir ++ stem, ext, fun noWg noMasque named transport role => ?_⟩
  rw [parts.teamFile_eq noWg noMasque named, append_assoc, append_assoc, append_assoc]

end

theorem Role.eq_of_suffix {role₁ role₂ : Role} (ends : role₁.suffix <:+ role₂.suffix) :
    role₁ = .main ∨ role₁ = role₂ := by
  revert ends
  cases role₁ <;> cases role₂ <;> decide

theorem Role.main_of_mid_eq {role₁ role₂ : Role} {team₁ team₂ : Text} (different : team₁ ≠ team₂)
    (same : role₁.mid team₁ = role₂.mid team₂) :
    role₁ = .main ∧ role₂ ≠ .main ∧ team₁ = team₂ ++ role₂.suffix ∨
      role₂ = .main ∧ role₁ ≠ .main ∧ team₂ = team₁ ++ role₁.suffix := by
  have spelled : team₁ ++ role₁.suffix = team₂ ++ role₂.suffix := by
    rw [Role.mid, Role.mid, append_assoc, append_assoc] at same
    exact append_cancel_left same
  have apart : role₁ ≠ role₂ := by
    rintro rfl
    exact different (append_cancel_right spelled)
  have ends₁ : role₁.suffix <:+ team₁ ++ role₁.suffix := suffix_append ..
  have ends₂ : role₂.suffix <:+ team₁ ++ role₁.suffix := spelled ▸ suffix_append ..
  rcases suffix_or_suffix_of_suffix ends₁ ends₂ with within | within
  · obtain rfl : role₁ = .main := (Role.eq_of_suffix within).resolve_right apart
    exact .inl ⟨rfl, apart.symm, by simpa using spelled⟩
  · obtain rfl : role₂ = .main := (Role.eq_of_suffix within).resolve_right apart.symm
    exact .inr ⟨rfl, apart, by simpa using spelled.symm⟩

/-- Two teams share no file precisely if no variable names a file outright and neither is called
    like the other with the suffix of a role. -/
theorem identity_files_apart_iff (ucd : Ucd) (env : PathEnv) (base raw₁ raw₂ : Text)
    {team₁ team₂ : Text} (named₁ : normalizeTeam ucd raw₁ = some team₁)
    (named₂ : normalizeTeam ucd raw₂ = some team₂) (different : team₁ ≠ team₂) :
    Apart ucd env base raw₁ raw₂ ↔
      env.wgConfig = none ∧ env.masqueConfig = none ∧ ∀ role : Role, role ≠ .main →
        team₁ ≠ team₂ ++ role.suffix ∧ team₂ ≠ team₁ ++ role.suffix := by
  obtain ⟨stem, ext, file_eq⟩ := exists_teamFile_eq base
  constructor
  · intro apart
    have noWg : env.wgConfig = none := by
      cases given : env.wgConfig with
      | none => rfl
      | some p =>
        refine absurd ?_ (apart .wireGuard .wireGuard .main .main)
        simp only [teamFile, Role.path, configPath, warpConfigPath, given]
    have noMasque : env.masqueConfig = none := by
      cases given : env.masqueConfig with
      | none => rfl
      | some p =>
        refine absurd ?_ (apart .masque .masque .main .main)
        simp only [teamFile, Role.path, configPath, masqueConfigPath, given]
    refine ⟨noWg, noMasque, fun role _ => ⟨?_, ?_⟩⟩
    · rintro rfl
      apply apart .masque .masque .main role
      rw [file_eq noWg noMasque named₁, file_eq noWg noMasque named₂]
      simp only [Role.mid, Role.suffix_main, append_nil, append_assoc]
    · rintro rfl
      apply apart .masque .masque role .main
      rw [file_eq noWg noMasque named₁, file_eq noWg noMasque named₂]
      simp only [Role.mid, Role.suffix_main, append_nil, append_assoc]
  · rintro ⟨noWg, noMasque, unlike⟩ transport₁ transport₂ role₁ role₂ same
    rw [file_eq noWg noMasque named₁, file_eq noWg noMasque named₂] at same
    have mid := append_cancel_left (append_cancel_right same)
    rcases Role.main_of_mid_eq different mid with ⟨-, other, called⟩ | ⟨-, other, called⟩
    · exact (unlike role₂ other).1 called
    · exact (unlike role₁ other).2 called

theorem identity_files_apart_acme_globex :
    Apart .ascii {} "/etc/aether.toml".toList "acme".toList "https://Globex.cloudflareaccess.com/".toList :=
  (identity_files_apart_iff .ascii {} "/etc/aether.toml".toList "acme".toList
    "https://Globex.cloudflareaccess.com/".toList (show normalizeTeam _ _ = some "acme".toList by decide)
    (show normalizeTeam _ _ = some "globex".toList by decide) (by decide)).mpr
    ⟨rfl, rfl, fun role _ => by cases role <;> decide⟩

theorem acme_secondary_collides :
    normalizeTeam .ascii "acme".toList = some "acme".toList ∧
      normalizeTeam .ascii "acme-secondary".toList = some "acme-secondary".toList ∧
      teamFile .ascii {} "aether.toml".toList "acme".toList .masque .secondary =
        "aether-team-acme-secondary.toml".toList ∧
      ¬ Apart .ascii {} "aether.toml".toList "acme".toList "acme-secondary".toList :=
  ⟨by decide, by decide, by decide, fun apart => apart .masque .masque .secondary .main (by decide)⟩

end Gozarbin.Identity
