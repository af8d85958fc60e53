import Mathlib.Data.Char
import Mathlib.Data.List.Lex
import Mathlib.Data.Prod.Lex
import Gozarbin.Bridges.Lines
import Gozarbin.Lib.Distinct
import Gozarbin.Lib.Grouping

/-! # Which bridges tor is started with

The bridges that can be used are those some program speaks the transport of. The programs are those
set by hand and those found on the system, which get what is not claimed before them. If bridges of
several kinds are left, tor is started with one kind after the other.
-/

namespace Gozarbin.Bridges

open List Distinct Grouping Std

/-- A program and the protocols it speaks. -/
structure Transport where
  protocols : List Text
  path : Text
  deriving DecidableEq

structure Plan where
  lines : List Text
  transports : List Transport
  missing : List Text
  source : Text
  deriving DecidableEq

def claimFound : (claimed : List Text) → (found : List Transport) → List Transport × List Text
  | claimed, [] => ([], claimed)
  | claimed, one :: found =>
    let mine := distinctBy id claimed one.protocols
    let (transports, claimed) := claimFound (mine ++ claimed) found
    (if mine.isEmpty then transports else { one with protocols := mine } :: transports, claimed)

def retain (wanted : List Text) (transports : List Transport) : List Transport :=
  (transports.filter fun transport => transport.protocols.any (wanted.elem ·)).map fun transport =>
    { transport with protocols := transport.protocols.filter (wanted.elem ·) }

def planWith (lines : List Text) (source : Text) (extra found : List Transport) : Plan :=
  let (more, claimed) := claimFound (extra.flatMap (·.protocols)) found
  let kept := lines.filter fun line => (transportOf line).all (claimed.elem ·)
  { lines := kept
    transports := retain (kept.filterMap transportOf) (extra ++ more)
    missing := sortedSet
      (lines.filterMap fun line => (transportOf line).filter fun protocol => !claimed.elem protocol)
    source }

def preference : List Text :=
  ["obfs4".toList, "webtunnel".toList, "snowflake".toList, "meek_lite".toList, "meek".toList]

def rank (first : Option Text) (name : Text) : Nat ×ₗ Nat :=
  toLex (if first = some name then 0 else 1, preference.idxOf name)

def wavesFrom (plan : Plan) :
    (grouped : TreeMap Text (List Text)) → (names : List Text) → List (Text × Plan)
  | _, [] => []
  | grouped, name :: names =>
    match grouped[name]? with
    | none => wavesFrom plan grouped names
    | some lines =>
      (name,
        { lines, transports := retain [name] plan.transports, missing := [], source := plan.source }) ::
        wavesFrom plan (grouped.erase name) names

def waves (plan : Plan) (first : Option Text) : List (Text × Plan) :=
  let grouped := groupBy kindOf plan.lines ∅
  if grouped.size < 2 then []
  else wavesFrom plan grouped (grouped.keys.insertionSort (rank first · ≤ rank first ·))

/-- Some program speaks the protocol. -/
def Spoken (transports : List Transport) (protocol : Text) : Prop :=
  ∃ t ∈ transports, protocol ∈ t.protocols

instance (transports : List Transport) (protocol : Text) : Decidable (Spoken transports protocol) :=
  decidable_of_iff (transports.any (·.protocols.elem protocol) = true) (by simp [Spoken])

def speakers (protocol : Text) (transports : List Transport) : Nat :=
  transports.countP (·.protocols.elem protocol)

/-- A plan for lines, with programs set by hand and programs found. -/
structure IsPlan (lines : List Text) (manual found : List Transport) (plan : Plan) : Prop where
  kept : plan.lines = lines.filter fun line => ∀ protocol ∈ transportOf line,
    Spoken (manual ++ found) protocol
  missing : ∀ protocol, protocol ∈ plan.missing ↔
    (∃ line ∈ lines, transportOf line = some protocol) ∧ ¬ Spoken (manual ++ found) protocol
  ordered : plan.missing.Pairwise (· < ·)
  useful : ∀ t ∈ plan.transports,
    t.protocols ≠ [] ∧ ∀ protocol ∈ t.protocols, ∃ line ∈ plan.lines, transportOf line = some protocol
  shared : ∀ protocol, 1 < speakers protocol plan.transports → 1 < speakers protocol manual
  spoken : ∀ line ∈ plan.lines, ∀ protocol ∈ transportOf line, Spoken plan.transports protocol

/-- The parts a plan is tried in. -/
structure AreWaves (plan : Plan) (first : Option Text) (parts : List (Text × Plan)) : Prop where
  distinct : (parts.map (·.1)).Nodup
  kinds : ∀ kind, kind ∈ parts.map (·.1) ↔ ∃ line ∈ plan.lines, kindOf line = kind
  lines : ∀ part ∈ parts, part.2.lines = plan.lines.filter (kindOf · = part.1)
  whole : (parts.flatMap (·.2.lines)).Perm plan.lines
  remembered : ∀ kind, first = some kind → (∃ line ∈ plan.lines, kindOf line = kind) →
    (parts.head?.map (·.1)) = some kind
  preferred : parts.Pairwise fun part later =>
    first = some part.1 ∨ preference.idxOf part.1 ≤ preference.idxOf later.1
  transports : ∀ part ∈ parts, (∃ line ∈ part.2.lines, transportOf line = some part.1) →
    ∃ t ∈ part.2.transports, ∀ protocol, protocol ∈ t.protocols ↔ protocol = part.1

section
variable {claimed wanted : List Text} {found transports : List Transport} {protocol : Text}

theorem speakers_cons (t : Transport) : speakers protocol (t :: transports) =
    speakers protocol transports + if protocol ∈ t.protocols then 1 else 0 := by
  rw [speakers, countP_cons, speakers]
  simp only [elem_iff]

theorem speakers_pos : 0 < speakers protocol transports ↔ Spoken transports protocol := by
  simp [speakers, Spoken]

theorem mem_claimFound :
    protocol ∈ (claimFound claimed found).2 ↔ protocol ∈ claimed ∨ Spoken found protocol := by
  induction found generalizing claimed with
  | nil => simp [claimFound, Spoken]
  | cons one found ih =>
    have step : (claimFound claimed (one :: found)).2 =
        (claimFound (distinctBy id claimed one.protocols ++ claimed) found).2 := rfl
    rw [step, ih, mem_append, mem_distinct, Spoken, Spoken, exists_mem_cons_iff]
    tauto

theorem speakers_claimFound : speakers protocol (claimFound claimed found).1 =
    if protocol ∈ claimed then 0 else if Spoken found protocol then 1 else 0 := by
  induction found generalizing claimed with
  | nil => simp [claimFound, speakers, Spoken]
  | cons one found ih =>
    have step : speakers protocol (claimFound claimed (one :: found)).1 =
        speakers protocol (claimFound (distinctBy id claimed one.protocols ++ claimed) found).1 +
          if protocol ∈ distinctBy id claimed one.protocols then 1 else 0 := by
      simp only [claimFound]
      split
      · next none => simp [isEmpty_iff.mp none]
      · exact speakers_cons _
    have first : Spoken (one :: found) protocol ↔ protocol ∈ one.protocols ∨ Spoken found protocol := by
      rw [Spoken, exists_mem_cons_iff, Spoken]
    rw [step, ih]
    simp only [mem_append, mem_distinct, first]
    by_cases old : protocol ∈ claimed <;> by_cases here : protocol ∈ one.protocols <;> simp [here]

theorem speakers_retain : speakers protocol (retain wanted transports) =
    if protocol ∈ wanted then speakers protocol transports else 0 := by
  induction transports with
  | nil => simp [retain, speakers]
  | cons t transports ih =>
    rw [speakers_cons]
    by_cases useful : t.protocols.any (wanted.elem ·) = true
    · have step : retain wanted (t :: transports) =
          { t with protocols := t.protocols.filter (wanted.elem ·) } :: retain wanted transports := by
        rw [retain, filter_cons, if_pos useful, map_cons, retain]
      rw [step, speakers_cons, ih]
      by_cases asked : protocol ∈ wanted <;> simp [asked]
    · have step : retain wanted (t :: transports) = retain wanted transports := by
        rw [retain, filter_cons, if_neg useful, retain]
      rw [step, ih]
      by_cases asked : protocol ∈ wanted
      · have silent : protocol ∉ t.protocols := fun mem =>
          useful (any_eq_true.mpr ⟨protocol, mem, elem_eq_true_of_mem asked⟩)
        simp [silent]
      · simp [asked]

theorem mem_retain {t : Transport} (mem : t ∈ retain wanted transports) :
    t.protocols ≠ [] ∧ ∀ protocol ∈ t.protocols, protocol ∈ wanted := by
  obtain ⟨t, kept, rfl⟩ := mem_map.mp mem
  obtain ⟨protocol, mem, hit⟩ := any_eq_true.mp (mem_filter.mp kept).2
  refine ⟨ne_nil_of_mem (mem_filter.mpr ⟨mem, hit⟩), fun protocol mem => ?_⟩
  simpa using (mem_filter.mp mem).2

theorem spoken_append {more : List Transport} :
    Spoken (transports ++ more) protocol ↔ Spoken transports protocol ∨ Spoken more protocol := by
  simp [Spoken, or_and_right, exists_or]

end

section
variable (lines : List Text) (source : Text) (manual found : List Transport)

theorem mem_claimed {protocol : Text} : protocol ∈ (claimFound (manual.flatMap (·.protocols)) found).2 ↔
    Spoken (manual ++ found) protocol := by
  rw [mem_claimFound, spoken_append, mem_flatMap]
  rfl

theorem planWith_lines : (planWith lines source manual found).lines =
    lines.filter fun line => ∀ protocol ∈ transportOf line, Spoken (manual ++ found) protocol := by
  refine filter_congr fun line _ => ?_
  cases transportOf line with
  | none => simp
  | some protocol => simp [← mem_claimed]

theorem mem_planWith_missing {protocol : Text} : protocol ∈ (planWith lines source manual found).missing ↔
    (∃ line ∈ lines, transportOf line = some protocol) ∧ ¬ Spoken (manual ++ found) protocol := by
  rw [planWith, mem_sortedSet, mem_filterMap, ← mem_claimed]
  constructor
  · rintro ⟨line, mem, found⟩
    obtain ⟨needs, unclaimed⟩ := Option.filter_eq_some_iff.mp found
    exact ⟨⟨line, mem, needs⟩, by simpa using unclaimed⟩
  · rintro ⟨⟨line, mem, needs⟩, unclaimed⟩
    exact ⟨line, mem, Option.filter_eq_some_iff.mpr ⟨needs, by simpa using unclaimed⟩⟩

theorem speakers_planWith {protocol : Text} :
    speakers protocol (planWith lines source manual found).transports =
      if protocol ∈ (planWith lines source manual found).lines.filterMap transportOf then
        speakers protocol manual +
          if Spoken manual protocol then 0 else if Spoken found protocol then 1 else 0
      else 0 := by
  have transports : (planWith lines source manual found).transports =
      retain ((planWith lines source manual found).lines.filterMap transportOf)
        (manual ++ (claimFound (manual.flatMap (·.protocols)) found).1) := rfl
  have append (more : List Transport) : speakers protocol (manual ++ more) =
      speakers protocol manual + speakers protocol more := countP_append
  have claimed : protocol ∈ manual.flatMap (·.protocols) ↔ Spoken manual protocol := mem_flatMap
  rw [transports, speakers_retain, append, speakers_claimFound, if_congr claimed rfl rfl]

theorem isPlan_planWith : IsPlan lines manual found (planWith lines source manual found) where
  kept := planWith_lines lines source manual found
  missing _ := mem_planWith_missing lines source manual found
  ordered := pairwise_sortedSet _
  useful t mem := by
    obtain ⟨nonempty, used⟩ := mem_retain mem
    exact ⟨nonempty, fun protocol mem => mem_filterMap.mp (used protocol mem)⟩
  shared protocol twice := by
    rw [speakers_planWith] at twice
    by_cases set : Spoken manual protocol
    · split at twice
      · simpa using twice
      · omega
    · rw [← speakers_pos] at set
      split at twice
      · split at twice
        · omega
        · split at twice <;> omega
      · omega
  spoken line mem protocol needs := by
    have used : protocol ∈ (planWith lines source manual found).lines.filterMap transportOf :=
      mem_filterMap.mpr ⟨line, mem, needs⟩
    rw [← speakers_pos, speakers_planWith, if_pos used]
    rw [planWith_lines] at mem
    have given := of_decide_eq_true (mem_filter.mp mem).2 protocol needs
    by_cases set : Spoken manual protocol
    · have := speakers_pos.mpr set
      omega
    · rw [if_neg set, if_pos ((spoken_append.mp given).resolve_left set)]
      omega

end

section
variable {plan : Plan} {first : Option Text}

def Plan.part (plan : Plan) (kind : Text) : Plan where
  lines := plan.lines.filter (kindOf · = kind)
  transports := retain [kind] plan.transports
  missing := []
  source := plan.source

theorem wavesFrom_eq {grouped : TreeMap Text (List Text)} {names : List Text} (nodup : names.Nodup)
    (held : ∀ name ∈ names, grouped[name]? = some (plan.part name).lines) :
    wavesFrom plan grouped names = names.map fun name => (name, plan.part name) := by
  induction names generalizing grouped with
  | nil => rfl
  | cons name names ih =>
    obtain ⟨new, nodup'⟩ := nodup_cons.mp nodup
    obtain ⟨here, later⟩ := forall_mem_cons.mp held
    have held' : ∀ name' ∈ names, (grouped.erase name)[name']? = some (plan.part name').lines := by
      intro name' mem
      have other : compare name name' ≠ .eq := fun same =>
        new (LawfulEqOrd.compare_eq_iff_eq.mp same ▸ mem)
      rw [TreeMap.getElem?_erase, if_neg other, later name' mem]
    rw [wavesFrom, here, map_cons, ← ih nodup' held']
    rfl

def Plan.kinds (plan : Plan) (first : Option Text) : List Text :=
  (groupBy kindOf plan.lines ∅).keys.insertionSort (rank first · ≤ rank first ·)

theorem Plan.mem_kinds {kind : Text} :
    kind ∈ plan.kinds first ↔ ∃ line ∈ plan.lines, kindOf line = kind := by
  rw [Plan.kinds, (perm_insertionSort _ _).mem_iff, TreeMap.mem_keys, mem_groupBy]
  simp

theorem Plan.nodup_kinds : (plan.kinds first).Nodup :=
  (perm_insertionSort _ _).nodup_iff.mpr TreeMap.nodup_keys

theorem worked_of_rank_le {name name' : Text} (below : rank first name ≤ rank first name')
    (worked : first = some name') : first = some name := by
  by_contra other
  rw [rank, rank, if_neg other, if_pos worked, Prod.Lex.toLex_le_toLex] at below
  omega

theorem idxOf_le_of_rank_le {name name' : Text} (below : rank first name ≤ rank first name')
    (other : first ≠ some name) : preference.idxOf name ≤ preference.idxOf name' := by
  rw [rank, rank, if_neg other, Prod.Lex.toLex_le_toLex] at below
  split at below <;> omega

theorem Plan.sorted_kinds : (plan.kinds first).Pairwise (rank first · ≤ rank first ·) :=
  pairwise_insertionSort _ _

theorem Plan.head?_kinds {kind : Text} (worked : first = some kind) (tried : kind ∈ plan.kinds first) :
    (plan.kinds first).head? = some kind := by
  have sorted : (plan.kinds first).Pairwise (rank first · ≤ rank first ·) := Plan.sorted_kinds
  cases split : plan.kinds first with
  | nil => simp [split] at tried
  | cons head rest =>
    rw [split] at sorted tried
    rcases mem_cons.mp tried with rfl | later
    · rfl
    · have worked' := worked_of_rank_le ((pairwise_cons.mp sorted).1 kind later) worked
      rw [← worked, worked']
      rfl

theorem waves_eq {line line' : Text} (mem : line ∈ plan.lines) (mem' : line' ∈ plan.lines)
    (differ : kindOf line ≠ kindOf line') :
    waves plan first = (plan.kinds first).map fun kind => (kind, plan.part kind) := by
  have several : ¬ (groupBy kindOf plan.lines ∅).size < 2 := by
    have size : (groupBy kindOf plan.lines ∅).size = (plan.kinds first).length := by
      rw [Plan.kinds, length_insertionSort, TreeMap.length_keys]
    have both : [kindOf line, kindOf line'] ⊆ plan.kinds first := by
      simp only [cons_subset, nil_subset, and_true]
      exact ⟨Plan.mem_kinds.mpr ⟨line, mem, rfl⟩, Plan.mem_kinds.mpr ⟨line', mem', rfl⟩⟩
    rw [size, Nat.not_lt]
    exact (subperm_of_subset (by simpa using differ) both).length_le
  have held : ∀ name ∈ plan.kinds first,
      (groupBy kindOf plan.lines ∅)[name]? = some (plan.part name).lines := by
    intro name mem
    have present : name ∈ groupBy kindOf plan.lines ∅ :=
      (mem_groupBy plan.lines ∅).mpr (.inr (Plan.mem_kinds.mp mem))
    obtain ⟨lines, found⟩ := Option.isSome_iff_exists.mp (TreeMap.mem_iff_isSome_getElem?.mp present)
    have group : (groupBy kindOf plan.lines ∅).getD name [] = _ := getD_groupBy plan.lines ∅
    rw [TreeMap.getD_eq_getD_getElem?, found, Option.getD_some] at group
    rw [found, group]
    simp [Plan.part]
  rw [waves, if_neg several]
  exact wavesFrom_eq Plan.nodup_kinds held

theorem Plan.exists_transport {kind : Text} (spoken : Spoken plan.transports kind) :
    ∃ t ∈ (plan.part kind).transports, ∀ protocol, protocol ∈ t.protocols ↔ protocol = kind := by
  have given : Spoken (plan.part kind).transports kind := by
    rw [Plan.part, ← speakers_pos, speakers_retain, if_pos mem_cons_self, speakers_pos]
    exact spoken
  obtain ⟨t, held, speaks⟩ := given
  refine ⟨t, held, fun protocol => ⟨fun mem => ?_, fun same => same ▸ speaks⟩⟩
  exact mem_singleton.mp ((mem_retain held).2 protocol mem)

theorem areWaves_waves {line line' : Text} (mem : line ∈ plan.lines) (mem' : line' ∈ plan.lines)
    (differ : kindOf line ≠ kindOf line')
    (spoken : ∀ line ∈ plan.lines, ∀ protocol ∈ transportOf line, Spoken plan.transports protocol) :
    AreWaves plan first (waves plan first) := by
  have names : ((plan.kinds first).map fun kind => (kind, plan.part kind)).map (·.1) =
      plan.kinds first := by
    rw [map_map]
    exact map_id _
  rw [waves_eq mem mem' differ]
  constructor
  case distinct =>
    rw [names]
    exact Plan.nodup_kinds
  case kinds =>
    intro kind
    rw [names]
    exact Plan.mem_kinds
  case lines =>
    intro part mem
    obtain ⟨kind, -, rfl⟩ := mem_map.mp mem
    rfl
  case whole =>
    rw [flatMap_map]
    exact flatMap_filter_perm Plan.nodup_kinds fun line mem => Plan.mem_kinds.mpr ⟨line, mem, rfl⟩
  case remembered =>
    intro kind worked present
    rw [← List.head?_map, names]
    exact Plan.head?_kinds worked (Plan.mem_kinds.mpr present)
  case preferred =>
    refine pairwise_map.mpr (Plan.sorted_kinds.imp fun {kind later} below => ?_)
    rw [or_iff_not_imp_left]
    exact idxOf_le_of_rank_le below
  case transports =>
    intro part mem
    obtain ⟨kind, -, rfl⟩ := mem_map.mp mem
    rintro ⟨line, inside, needs⟩
    exact Plan.exists_transport (spoken line (mem_of_mem_filter inside) kind needs)

end

/-- Every plan can be run, and so can its parts. -/
theorem bridge_plan_runs (lines : List Text) (source : Text) (manual found : List Transport)
    (first : Option Text) :
    IsPlan lines manual found (planWith lines source manual found) ∧
      ∀ line ∈ (planWith lines source manual found).lines,
        ∀ line' ∈ (planWith lines source manual found).lines,
        kindOf line ≠ kindOf line' →
          AreWaves (planWith lines source manual found) first
            (waves (planWith lines source manual found) first) :=
  ⟨isPlan_planWith lines source manual found, fun _ mem _ mem' differ =>
    areWaves_waves mem mem' differ (isPlan_planWith lines source manual found).spoken⟩

example :
    let plan :=
      planWith
        ["obfs4 1.2.3.4:443 A".toList, "5.6.7.8:9001 B".toList, "conjure 192.0.2.5:80 C".toList,
          "Bridge Snowflake 192.0.2.3:80 D".toList]
        "test".toList [⟨["obfs4".toList, "obfs3".toList], "/pt/obfs4proxy".toList⟩]
        [⟨["obfs4".toList, "snowflake".toList], "/pt/lyrebird".toList⟩]
    plan.missing = ["conjure".toList] ∧
      (waves plan (some "snowflake".toList)).map (fun part => (part.1, part.2.transports.map (·.path))) =
        [("snowflake".toList, ["/pt/lyrebird".toList]), ("obfs4".toList, ["/pt/obfs4proxy".toList]),
          ("vanilla".toList, [])] := by
  decide

end Gozarbin.Bridges
