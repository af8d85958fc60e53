import Gozarbin.Router.Scripts

/-! # Stopping the firewall, and the helpers that can fail on the way

`firewall.sh` runs under `set -e`, and `stop_rules` calls `history.sh` before it
deletes the table.
-/

namespace Gozarbin.Router

open Shell (Sh Proc Outcome)

/-- The commands of `singbox.sh --path`. -/
inductive CoreCmd where
  | sourcePackages
  | currentExecutable
  | ownExecutable
  | versionOf
  | versionFound
  | olderThan
  | printPath
  deriving DecidableEq

instance : Coe CoreCmd (Sh CoreCmd) := ⟨.cmd⟩

def usable : Sh CoreCmd :=
  .fn (.block [
    .or (.and CoreCmd.versionOf CoreCmd.versionFound) (.ret 1),
    .not CoreCmd.olderThan])

def path : Sh CoreCmd :=
  .fn (.cond CoreCmd.currentExecutable
    (.block [.or usable (.ret 1), CoreCmd.printPath])
    (.block [
      -- What `origin` prints is `own` or `none`.
      .cond (.or CoreCmd.currentExecutable CoreCmd.ownExecutable) .pass (.ret 1),
      .or usable (.ret 1),
      CoreCmd.printPath]))

def singboxSh : Sh CoreCmd := .script false (.block [CoreCmd.sourcePackages, path])

inductive HistoryCmd where
  | makeLock
  | trafficSh
  | historyUc
  deriving DecidableEq

instance : Coe HistoryCmd (Sh HistoryCmd) := ⟨.cmd⟩

/-- `sample` is `sample --flush`. -/
inductive HistoryArg where
  | sample
  | reset
  deriving DecidableEq

def historySh : HistoryArg → Sh HistoryCmd
  | .reset => .script false (.block [.or HistoryCmd.makeLock (.exit 0), HistoryCmd.historyUc])
  | .sample =>
    .script false (.block [
      .or HistoryCmd.makeLock (.exit 0),
      .or HistoryCmd.trafficSh (.exit 1),
      HistoryCmd.historyUc])

/-- What `history.uc` finds out. -/
structure HistoryFiles where
  idle : Bool
  ramWritten : Bool
  ramRenamed : Bool
  diskWritten : Bool
  diskRenamed : Bool

def historyUc (arg : HistoryArg) (files : HistoryFiles) : Nat :=
  if arg = .sample && files.idle then 0
  else if !files.ramWritten || !files.ramRenamed then 1
  else if !files.diskWritten || !files.diskRenamed then 1
  else 0

/-- A router, as far as the statuses of commands go. -/
structure Surroundings where
  core : CoreCmd → Nat
  makeLock : Nat
  trafficSh : Nat
  files : HistoryFiles
  system : Cmd → Nat

namespace Surroundings

def history (io : Surroundings) (arg : HistoryArg) : HistoryCmd → Nat
  | .makeLock => io.makeLock
  | .trafficSh => io.trafficSh
  | .historyUc => historyUc arg io.files

def status (io : Surroundings) : Cmd → Nat
  | .singboxPath => singboxSh.proc.result io.core
  | .historySample => (historySh .sample).proc.result (io.history .sample)
  | .historyReset => (historySh .reset).proc.result (io.history .reset)
  | c => io.system c

end Surroundings

def recordHistory : Sh Cmd :=
  .cond Cmd.historyExecutable (.block [Cmd.historySample, Cmd.historyReset]) .pass

theorem recordHistory_ends_iff (status : Cmd → Nat) :
    (∃ n, (recordHistory.eval status true).2 = .ends n) ↔
      status .historyExecutable ≠ 0 ∨ status .historySample = 0 ∧ status .historyReset = 0 := by
  by_cases there : status .historyExecutable = 0 <;>
    by_cases sampled : status .historySample = 0 <;>
      by_cases reset : status .historyReset = 0 <;>
        simp [recordHistory, Sh.block, Sh.eval, Sh.andThen, Outcome.settled, there, sampled, reset]

theorem nftDelete_not_mem_recordHistory (status : Cmd → Nat) :
    .nftDelete ∉ (recordHistory.eval status true).1 := by
  by_cases there : status .historyExecutable = 0 <;>
    simp [recordHistory, Sh.block, Sh.eval, Sh.mem_andThen, there]

theorem stopRules_deletes_iff (status : Cmd → Nat) :
    .nftDelete ∈ (stopRules.eval status true).1 ↔
      status .historyExecutable ≠ 0 ∨ status .historySample = 0 ∧ status .historyReset = 0 := by
  have deletes : .nftDelete ∈ ((orTrue Cmd.nftDelete).eval status true).1 := by
    simp [orTrue, Sh.eval, Sh.mem_andThen]
  change .nftDelete ∈
    ((Sh.fn (.seq recordHistory (.seq (orTrue Cmd.nftDelete) _))).eval status true).1 ↔ _
  rw [Sh.commands_fn, Sh.mem_seq, Sh.mem_seq, recordHistory_ends_iff]
  simp only [nftDelete_not_mem_recordHistory, deletes, true_or, false_or, and_true]

theorem stop_commands_iff (status : Cmd → Nat) :
    .nftDelete ∈ ((firewallSh .stop).eval status false).1 ↔
      status .sourceFunctions = 0 ∧ status .singboxPath = 0 ∧ status .loadConfig = 0 ∧
        (status .historyExecutable ≠ 0 ∨ status .historySample = 0 ∧ status .historyReset = 0) := by
  have cleanup : .nftDelete ∉
      ((Sh.block [Cmd.removeSingboxFile, Cmd.removeRulesetDir]).eval status true).1 := by
    simp [Sh.block, Sh.eval, Sh.mem_andThen]
  have sources : Cmd.nftDelete ≠ .sourceFunctions := by simp
  have asks : Cmd.nftDelete ≠ .singboxPath := by simp
  have loads : Cmd.nftDelete ≠ .loadConfig := by simp
  change .nftDelete ∈ (Sh.eval status (.seq Cmd.sourceFunctions (.seq Cmd.singboxPath
    (.seq Cmd.loadConfig (.seq stopRules _)))) true).1 ↔ _
  rw [Sh.mem_cmd_seq sources, Sh.mem_cmd_seq asks, Sh.mem_cmd_seq loads, Sh.mem_seq,
    stopRules_deletes_iff]
  simp only [cleanup, and_false, or_false]

/-- The table is deleted precisely if nothing before fails: the library and the configuration
    are read, a core is found, and `history.sh` is not there or succeeds twice. -/
theorem stop_deletes_iff (status : Cmd → Nat) :
    .nftDelete ∈ (firewallSh .stop).proc.trace status ↔
      status .sourceFunctions = 0 ∧ status .singboxPath = 0 ∧ status .loadConfig = 0 ∧
        (status .historyExecutable ≠ 0 ∨ status .historySample = 0 ∧ status .historyReset = 0) := by
  rw [Sh.trace_proc]
  exact stop_commands_iff status

def healthy : Surroundings where
  core
    | .olderThan => 1
    | _ => 0
  makeLock := 0
  trafficSh := 0
  files := ⟨false, true, true, true, true⟩
  system _ := 0

def coreless : Surroundings where
  __ := healthy
  core
    | .currentExecutable | .ownExecutable => 1
    | c => healthy.core c

def flashFull : Surroundings where
  __ := healthy
  files := ⟨false, true, true, false, true⟩

theorem stop_aborts :
    (firewallSh .stop).proc.trace coreless.status = [.sourceFunctions, .singboxPath] ∧
      (firewallSh .stop).proc.trace flashFull.status =
        [.sourceFunctions, .singboxPath, .loadConfig, .historyExecutable, .historySample] ∧
      .nftDelete ∈ (firewallSh .stop).proc.trace healthy.status := by
  decide

end Gozarbin.Router
