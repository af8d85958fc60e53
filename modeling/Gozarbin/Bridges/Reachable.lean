import Gozarbin.Bridges.Lines
import Gozarbin.Lib.Grouping
import Gozarbin.Upstream.Setting

/-! # Bridges that answer

Before tor is started, a connection is tried to the address of each bridge it can be tried to.
Bridges that do not answer are left out where others of their kind do, and of each kind the first
few are kept.
-/

namespace Gozarbin.Bridges

open List Grouping Std

def keepPerTransport : Nat := 6

def untestable : List Text := ["snowflake".toList, "meek".toList, "meek_lite".toList, "conjure".toList]

def checked (line : Text) : Option SocketAddress :=
  (addressOf line).filter fun _ => !(transportOf line).any (untestable.elem ·)

def verdicts (answers : Nat → SocketAddress → Bool) (lines : List Text) : List Bool :=
  lines.mapIdx fun i line => ((checked line).map (answers i)).getD true

def answered (probed : List (Text × Bool)) : TreeMap Text Nat :=
  probed.foldl (fun answered (line, alive) => if alive then bump (kindOf line) answered else answered) ∅

def keepEach (answered : TreeMap Text Nat) : (held : TreeMap Text Nat) → List (Text × Bool) → List Text
  | _, [] => []
  | held, (line, alive) :: rest =>
    let kind := kindOf line
    let allQuiet := answered.getD kind 0 == 0
    if !alive && !allQuiet then keepEach answered held rest
    else if keepPerTransport ≤ held.getD kind 0 then keepEach answered held rest
    else line :: keepEach answered (bump kind held) rest

def keepReachable (answers : Nat → SocketAddress → Bool) (upstream : Option Upstream) (lines : List Text)
    (through : Option SocketAddress) : List Text :=
  if through.isSome then lines
  else if upstream.isSome then lines
  else
    let probed := lines.zip (verdicts answers lines)
    keepEach (answered probed) ∅ probed

/-- Of the lines probed, with whether they answer, these are kept. -/
structure Keeps (probed kept : List (Text × Bool)) : Prop where
  sublist : kept.Sublist probed
  every : ∀ line ∈ probed, ∃ other ∈ kept, kindOf other.1 = kindOf line.1
  capped : ∀ kind, (kept.filter (kindOf ·.1 = kind)).length ≤ keepPerTransport
  failed : ∀ line ∈ kept, line.2 = false → ∀ other ∈ probed, kindOf other.1 = kindOf line.1 →
    other.2 = false
  answering : ∀ kind, (∃ line ∈ probed, kindOf line.1 = kind ∧ line.2 = true) →
    kept.filter (kindOf ·.1 = kind) =
      (probed.filter fun line => kindOf line.1 = kind ∧ line.2 = true).take keepPerTransport

section
variable {probed : List (Text × Bool)} {kind : Text}

/-- No line of the kind answers. -/
def Quiet (probed : List (Text × Bool)) (kind : Text) : Prop :=
  ∀ line ∈ probed, kindOf line.1 = kind → line.2 = false

theorem getD_answered_eq_zero : (answered probed).getD kind 0 = 0 ↔ Quiet probed kind := by
  have alive : answered probed =
      (probed.filter (·.2)).foldl (fun answered line => bump (kindOf line.1) answered) ∅ := by
    rw [answered, foldl_filter]
  rw [alive, getD_foldl_bump, TreeMap.getD_emptyc, Nat.zero_add, countP_eq_zero]
  constructor
  · intro none line mem same
    rw [← Bool.not_eq_true]
    exact fun answers => none line (mem_filter.mpr ⟨mem, answers⟩) (by simpa using same)
  · intro quiet line mem same
    obtain ⟨mem, answers⟩ := mem_filter.mp mem
    exact Bool.noConfusion ((quiet line mem (by simpa using same)).symm.trans answers)

def wanted (probed : List (Text × Bool)) (line : Text × Bool) : Bool :=
  line.2 || (answered probed).getD (kindOf line.1) 0 == 0

theorem wanted_iff {line : Text × Bool} :
    wanted probed line = true ↔ line.2 = true ∨ Quiet probed (kindOf line.1) := by
  rw [wanted, Bool.or_eq_true, beq_iff_eq, getD_answered_eq_zero]

theorem keepEach_eq (held : TreeMap Text Nat) (rest : List (Text × Bool)) :
    keepEach (answered probed) held rest =
      (capped (kindOf ·.1) keepPerTransport held (rest.filter (wanted probed))).map (·.1) := by
  induction rest generalizing held with
  | nil => rfl
  | cons line rest ih =>
    have out : (!line.2 && !(answered probed).getD (kindOf line.1) 0 == 0) = !wanted probed line :=
      (Bool.not_or _ _).symm
    rw [keepEach]
    cases good : wanted probed line with
    | false =>
      rw [good, Bool.not_false] at out
      rw [if_pos out, ih, filter_cons_of_neg (by simp [good])]
    | true =>
      rw [good, Bool.not_true] at out
      rw [if_neg (Bool.eq_false_iff.mp out), filter_cons_of_pos good, capped, ih, ih]
      split <;> rfl

theorem filter_kept :
    (capped (kindOf ·.1) keepPerTransport ∅ (probed.filter (wanted probed))).filter (kindOf ·.1 = kind) =
    (probed.filter fun line => kindOf line.1 = kind && wanted probed line).take keepPerTransport := by
  rw [filter_capped, filter_filter, TreeMap.getD_emptyc, Nat.sub_zero]

theorem exists_wanted {line : Text × Bool} (mem : line ∈ probed) :
    ∃ other ∈ probed, kindOf other.1 = kindOf line.1 ∧ wanted probed other = true := by
  by_cases quiet : Quiet probed (kindOf line.1)
  · exact ⟨line, mem, rfl, wanted_iff.mpr (.inr quiet)⟩
  · simp only [Quiet, not_forall, Bool.not_eq_false] at quiet
    obtain ⟨other, member, same, answers⟩ := quiet
    exact ⟨other, member, same, wanted_iff.mpr (.inl answers)⟩

theorem keeps_capped :
    Keeps probed (capped (kindOf ·.1) keepPerTransport ∅ (probed.filter (wanted probed))) where
  sublist := (capped_sublist _ _ _).trans filter_sublist
  every line mem := by
    obtain ⟨other, member, same, good⟩ := exists_wanted mem
    have listed : other ∈ probed.filter fun other =>
        kindOf other.1 = kindOf line.1 && wanted probed other :=
      mem_filter.mpr ⟨member, by simp [same, good]⟩
    have nonempty := ne_nil_of_mem listed
    obtain ⟨first, rest, split⟩ := exists_cons_of_ne_nil nonempty
    have kept : (Grouping.capped (kindOf ·.1) keepPerTransport ∅ (probed.filter (wanted probed))).filter
        (kindOf ·.1 = kindOf line.1) = _ := filter_kept
    rw [split, keepPerTransport, take_succ_cons] at kept
    obtain ⟨held, kind⟩ := mem_filter.mp (kept ▸ mem_cons_self)
    exact ⟨first, held, by simpa using kind⟩
  capped kind := by
    rw [filter_kept, length_take]
    exact Nat.min_le_left _ _
  failed line mem silent := by
    have good := (mem_filter.mp ((capped_sublist _ _ _).subset mem)).2
    exact (wanted_iff.mp good).resolve_left (by simp [silent])
  answering kind := by
    rintro ⟨line, mem, rfl, answers⟩
    rw [filter_kept]
    refine congrArg (List.take keepPerTransport) (filter_congr fun other _ => ?_)
    have loud : ¬ Quiet probed (kindOf line.1) := fun quiet =>
      Bool.noConfusion ((quiet line mem rfl).symm.trans answers)
    rw [Bool.eq_iff_iff, Bool.and_eq_true, wanted_iff, decide_eq_true_eq, decide_eq_true_eq]
    refine and_congr_right fun same => ?_
    rw [same, or_iff_left loud]

end

/-- Whatever the network answers, no kind is starved. -/
theorem probing_starves_no_kind (answers : Nat → SocketAddress → Bool) (lines : List Text) :
    (lines.zip (verdicts answers lines)).map (·.1) = lines ∧
      ∃ kept, keepReachable answers none lines none = kept.map (·.1) ∧
        Keeps (lines.zip (verdicts answers lines)) kept := by
  refine ⟨map_fst_zip ?_, _, keepEach_eq ∅ _, keeps_capped⟩
  rw [verdicts, length_mapIdx]

example :
    keepReachable (fun i _ => i = 1) none ["obfs4 1.2.3.4:443 A".toList, "obfs4 1.2.3.5:443 B".toList,
      "5.6.7.8:9001 C".toList, "snowflake 192.0.2.3:80 D".toList] none =
      ["obfs4 1.2.3.5:443 B".toList, "5.6.7.8:9001 C".toList, "snowflake 192.0.2.3:80 D".toList] := by
  decide

end Gozarbin.Bridges
