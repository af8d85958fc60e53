import Mathlib.Data.List.Induction
import Gozarbin.Lib.ShellRun
import Gozarbin.Router.Stop

/-! # The watchdog

The monitor calls `reconcile` again and again; nothing else touches the router between two
calls. At each call the surroundings say anew what the configuration is, whether DNS is wanted
and which ports are listening, and answer what else the scripts ask.
-/

namespace Gozarbin.Router

open List

open Shell (Sh Outcome)
open Shell.Sh (followed run_block run_comes run_seq run_keeps)

/-- What the surroundings are at one call of `reconcile`. -/
structure Call where
  cfg : Config
  listening : Port → Bool
  dnsWanted : Bool
  answers : Nat → Nat

def Call.found (call : Call) : Bool := call.listening .tproxy && call.listening .socks

structure Monitor where
  vars : Vars
  router : RouterState
  answers : Nat → Nat
  failed : Bool

namespace Monitor

def asked (n : Nat) (m : Monitor) : Monitor := { m with answers := fun k => m.answers (k + n) }

def noteStatus (status : Nat) (m : Monitor) : Monitor :=
  { m with failed := m.failed || status != 0 }

@[simp] theorem asked_router (n : Nat) (m : Monitor) : (m.asked n).router = m.router := rfl

@[simp] theorem asked_asked (j k : Nat) (m : Monitor) : (m.asked j).asked k = m.asked (k + j) := by
  simp only [asked, Nat.add_assoc]

end Monitor

namespace Call

def answer (call : Call) (m : Monitor) : Cmd → Nat
  | .listening port => test (call.listening port)
  | _ => m.answers 0

def undeleted (call : Call) (m : Monitor) : Cmd → Bool
  | .nftDelete => m.router.redirect && call.answer m .nftDelete != 0
  | _ => false

def exec (call : Call) (c : Cmd) (m : Monitor) : Monitor × Nat :=
  let did := Router.exec call.cfg (call.answer m c) m.vars m.router c
  ({ m.asked 1 with
      vars := did.1, router := did.2.1, failed := call.undeleted m c || m.failed }, did.2.2)

abbrev does (call : Call) (sh : Sh Cmd) (strict : Bool) (m : Monitor) : Monitor × Outcome :=
  sh.run call.exec (fun status m => m.noteStatus status) strict m

def begins (call : Call) (m : Monitor) : Monitor :=
  { m with
    router := { m.router with wanted := true, dnsWanted := call.dnsWanted }
    answers := call.answers }

def run (dirs : List String) (m : Monitor) (call : Call) : Monitor :=
  (call.does (reconcile dirs) false (call.begins m)).1

end Call

namespace Monitor

def start (vars : Vars) (router : RouterState) : Monitor where
  vars := { vars with missing := 0 }
  router := router
  answers _ := 0
  failed := false

def after (dirs : List String) (m : Monitor) (calls : List Call) : Monitor := calls.foldl (Call.run dirs) m

end Monitor

def Cmd.redirects : Cmd → Bool
  | .nftDelete | .nftLoad => true
  | _ => false

def Cmd.counts : Cmd → Bool
  | .clearMissing | .countMissing => true
  | _ => false

section
variable {call : Call} {m : Monitor} {c : Cmd}

theorem exec_missing (idle : c.counts = false) :
    (call.exec c m).1.vars.missing = m.vars.missing := by
  cases c
  case nftLoad =>
    cases file : m.router.nftFile <;> simp [Call.exec, exec, file]
  all_goals first | rfl | cases idle

theorem exec_redirect_eq (idle : c.redirects = false) :
    (call.exec c m).1.router.redirect = m.router.redirect := by
  cases c
  case writeSnippet dir =>
    by_cases opened : call.answer m (.writeSnippet dir) = 1 <;> simp [Call.exec, exec, opened]
  all_goals first | rfl | cases idle

theorem exec_nftFile (file : (call.exec c m).1.router.nftFile = some true) :
    m.router.nftFile = some true ∨ m.vars.wantedAll = true := by
  cases c
  case writeSnippet dir =>
    by_cases opened : call.answer m (.writeSnippet dir) = 1 <;> simp_all [Call.exec, exec]
  case nftDelete => by_cases deleted : call.answer m .nftDelete = 0 <;> simp_all [Call.exec, exec]
  case nftLoad =>
    cases there : m.router.nftFile with
    | none => simp_all [Call.exec, exec]
    | some chain => by_cases taken : call.answer m .nftLoad = 0 <;> simp_all [Call.exec, exec]
  all_goals simp_all [Call.exec, exec]

theorem exec_failed (failed : m.failed = true) : (call.exec c m).1.failed = true := by
  simp [Call.exec, failed]

theorem exec_wantedAll (other : c ≠ .loadConfig) (all : (call.exec c m).1.vars.wantedAll = true) :
    m.vars.wantedAll = true := by
  cases c
  case nftLoad =>
    cases there : m.router.nftFile <;> simp_all [Call.exec, exec]
  all_goals simp_all [Call.exec, exec]

end

structure Monitor.Off (before : Bool) (m : Monitor) : Prop where
  redirect : m.router.redirect = true → before = true ∧ m.failed = true
  file : m.router.nftFile ≠ some true
  wanted : m.vars.wantedAll = false

theorem Monitor.Off.exec {call : Call} {before : Bool} {m : Monitor} {c : Cmd} (off : m.Off before)
    (other : c ≠ .loadConfig) : (call.exec c m).1.Off before where
  redirect up := by
    cases (exec_redirect up).2 with
    | inl there => exact ⟨(off.redirect there).1, exec_failed (off.redirect there).2⟩
    | inr loaded => exact absurd loaded.2.1 off.file
  file := by
    intro file
    cases exec_nftFile file with
    | inl there => exact off.file there
    | inr all => cases all.symm.trans off.wanted
  wanted := by
    apply Bool.eq_false_of_not_eq_true
    intro all
    cases (exec_wantedAll other all).symm.trans off.wanted

section
variable {call : Call} {sh : Sh Cmd} {strict : Bool} {m : Monitor}

theorem does_keeps {P : Monitor → Prop} {φ : Cmd → Prop} (each : sh.All φ)
    (keeps : ∀ c s, φ c → P s → P (call.exec c s).1) (notes : ∀ n s, P s → P (s.noteStatus n))
    (holds : P m) : P (call.does sh strict m).1 :=
  run_keeps notes keeps each holds

theorem noteStatus_failed (status : Nat) (failed : m.failed = true) :
    (m.noteStatus status).failed = true := by
  simp [Monitor.noteStatus, failed]

theorem does_failed (failed : m.failed = true) : (call.does sh strict m).1.failed = true := by
  apply does_keeps (P := fun s => s.failed = true) (Sh.all_of_forall (fun _ => trivial) _) _ _ failed
  · exact fun _ _ _ failed => exec_failed failed
  · exact fun n _ failed => noteStatus_failed n failed

theorem does_off {before : Bool} (each : sh.All (· ≠ .loadConfig)) (off : m.Off before) :
    (call.does sh strict m).1.Off before := by
  apply does_keeps each _ _ off
  · exact fun _ _ other off => off.exec other
  · intro n s off
    exact ⟨fun up => (off.redirect up).imp_right (noteStatus_failed n), off.file, off.wanted⟩

theorem does_missing (idle : sh.All (·.counts = false)) :
    (call.does sh strict m).1.vars.missing = m.vars.missing := by
  apply does_keeps (P := fun s => s.vars.missing = m.vars.missing) idle _ _ rfl
  · exact fun _ _ idle same => (exec_missing idle).trans same
  · exact fun _ _ same => same

theorem does_redirect (idle : sh.All (·.redirects = false)) :
    (call.does sh strict m).1.router.redirect = m.router.redirect := by
  apply does_keeps (P := fun s => s.router.redirect = m.router.redirect) idle _ _ rfl
  · exact fun _ _ idle same => (exec_redirect_eq idle).trans same
  · exact fun _ _ same => same

theorem does_snippet (reads : sh.All (·.writes = false)) {dir : String}
    (down : m.router.snippet dir = false) : (call.does sh strict m).1.router.snippet dir = false := by
  apply does_keeps (P := fun s => s.router.snippet dir = false) reads _ _ down
  · intro c s reads down
    apply Bool.eq_false_of_not_eq_true
    intro up
    cases exec_snippet up with
    | inl writes => cases writes ▸ reads
    | inr there => cases there.1.symm.trans down
  · exact fun _ _ down => down

end

section
variable {call : Call} {dirs : List String} {m : Monitor}

variable (call dirs m) in
theorem does_dnsUpLoop :
    ∃ k, call.does (.each dirs fun dir => .and (Cmd.snippetExists dir) (.ret 0)) false m =
      (m.asked k, if dirs.any m.router.snippet then .returns 0 else .ends 0) := by
  induction dirs generalizing m with
  | nil => exact ⟨0, rfl⟩
  | cons dir dirs ih =>
    cases up : m.router.snippet dir with
    | true =>
      refine ⟨1, ?_⟩
      simp [Call.does, Sh.each, Sh.run, followed, Outcome.settled, Call.exec, exec, up, test]
      rfl
    | false =>
      obtain ⟨k, rest⟩ := ih (m := m.asked 1)
      refine ⟨k + 1, ?_⟩
      have goes :
          call.does (.each (dir :: dirs) fun dir => .and (Cmd.snippetExists dir) (.ret 0)) false m =
            call.does (.each dirs fun dir => .and (Cmd.snippetExists dir) (.ret 0)) false
              (m.asked 1) := by
        simp [Call.does, Sh.each, Sh.run, followed, Outcome.settled, Call.exec, exec, up, test]
        rfl
      rw [goes, rest]
      simp [up]

variable (call dirs m) in
theorem does_dnsUp :
    ∃ k, call.does (dnsUp dirs) false m = (m.asked k, .ends (test (dirs.any m.router.snippet))) := by
  obtain ⟨k, loop⟩ := does_dnsUpLoop call dirs m
  refine ⟨k, ?_⟩
  have unfolded : call.does (dnsUp dirs) false m = Sh.called false (followed
      (call.does (.each dirs fun dir => .and (Cmd.snippetExists dir) (.ret 0)) false m)
      fun _ s => (s, .returns 1)) := rfl
  rw [unfolded, loop]
  cases dirs.any m.router.snippet <;> rfl

theorem does_removeSnippet {dir : String} :
    (call.does (.cond (Cmd.snippetExists dir) (.block [Cmd.removeSnippet dir, Cmd.setChanged true]) .pass)
      false m).1.router.snippet dir = false := by
  cases up : m.router.snippet dir <;>
    simp [Sh.block, Sh.run, followed, Call.exec, exec, up, test]

theorem does_offLoop {dir : String} (member : dir ∈ dirs) :
    (call.does (.each dirs fun dir =>
      .cond (Cmd.snippetExists dir) (.block [Cmd.removeSnippet dir, Cmd.setChanged true]) .pass)
      false m).1.router.snippet dir = false := by
  induction dirs generalizing m with
  | nil => cases member
  | cons other dirs ih =>
    rw [Call.does, Sh.each, foldr_cons, run_seq rfl rfl rfl]
    cases mem_cons.mp member with
    | inl here =>
      subst here
      apply does_snippet _ does_removeSnippet
      exact Sh.all_each.mpr fun _ _ => ⟨rfl, ⟨rfl, rfl⟩, trivial⟩
    | inr there => exact ih there

theorem does_dnsOff {dir : String} (member : dir ∈ dirs) :
    (call.does (dnsSh (off dirs)) false m).1.router.snippet dir = false := by
  have loop : ∀ s, (call.does (.each dirs fun dir =>
      .cond (Cmd.snippetExists dir) (.block [Cmd.removeSnippet dir, Cmd.setChanged true]) .pass)
      false s).1.router.snippet dir = false := fun s => does_offLoop member
  have restarts : (Sh.seq (.and Cmd.changed restartDnsmasq) (.ret 0)).All (·.writes = false) := by decide
  change (call.does (off dirs) false m).1.router.snippet dir = false
  rw [off, Call.does, Sh.run, Sh.called_fst, run_block rfl rfl rfl, run_block]
  · exact does_snippet restarts (loop _)
  · simp [Sh.quits_each, Sh.quits, Sh.block]
  · simp [Sh.rets_each, Sh.rets, Sh.block]
  · simp [Sh.exits_each, Sh.exits, Sh.block]

end

section
variable {call : Call} {m : Monitor} {strict : Bool}

def TakenOut (m : Monitor) (done : Monitor × Outcome) : Prop :=
  done.1.router.redirect = true →
    m.router.redirect = true ∧ (done.1.failed = true ∨ ∃ n, n ≠ 0 ∧ done.2 = .exits n)

theorem takenOut_cmd_seq {c : Cmd} (idle : c.redirects = false) {rest : Sh Cmd}
    (later : TakenOut (call.exec c m).1 (call.does rest true (call.exec c m).1)) :
    TakenOut m (call.does (.seq c rest) true m) := by
  rw [TakenOut, exec_redirect_eq idle] at later
  rw [TakenOut, Call.does, Sh.run_cmd_seq]
  split
  · exact later
  next failed =>
    rw [exec_redirect_eq idle]
    exact fun up => ⟨up, .inr ⟨_, failed, rfl⟩⟩

theorem does_nftDelete {rest : Sh Cmd} (idle : rest.All (· ≠ .nftLoad)) :
    (call.does (.seq (orTrue Cmd.nftDelete) rest) strict m).1.router.redirect = true →
      m.router.redirect = true ∧
        (call.does (.seq (orTrue Cmd.nftDelete) rest) strict m).1.failed = true := by
  rw [Call.does, run_seq rfl rfl rfl]
  apply does_keeps (P := fun s => s.router.redirect = true → m.router.redirect = true ∧ s.failed = true)
    idle
  · intro c s other holds up
    cases (exec_redirect up).2 with
    | inl there => exact (holds there).imp_right exec_failed
    | inr loaded => exact absurd loaded.1 other
  · exact fun n s holds up => (holds up).imp_right (noteStatus_failed n)
  · by_cases fine : m.answers 0 = 0 <;>
      simp +contextual [orTrue, Sh.run, followed, Call.exec, exec, Call.undeleted, Call.answer, fine]

theorem takenOut_stopRules : TakenOut m (call.does stopRules strict m) := by
  obtain ⟨history, rest, parts, idle, loads⟩ : ∃ history rest, stopRules =
      .fn (.seq history (.seq (orTrue Cmd.nftDelete) rest)) ∧
      (history.All (·.redirects = false) ∧ history.quits = false ∧ history.rets = false) ∧
      rest.All (· ≠ .nftLoad) := ⟨_, _, rfl, by decide, by decide⟩
  obtain ⟨idle, plain, stays⟩ := idle
  have same : (call.does history strict m).1.router.redirect = m.router.redirect := does_redirect idle
  have comes : Sh.Comes history.rets (history.exits strict) (call.does history strict m).2 :=
    run_comes plain
  rw [parts, TakenOut, Call.does, Sh.run, Sh.called_fst, Sh.run]
  change (followed (call.does history strict m) _).1.router.redirect = true → _ ∧
    ((followed (call.does history strict m) _).1.failed = true ∨
      ∃ n, n ≠ 0 ∧ (Sh.called strict (followed (call.does history strict m) _)).2 = _)
  generalize call.does history strict m = here at same comes
  obtain ⟨s, o⟩ := here
  cases comes with
  | ends n =>
    intro up
    obtain ⟨before, failed⟩ := does_nftDelete loads up
    exact ⟨same.symm.trans before, .inl failed⟩
  | returns n some_ => cases stays.symm.trans some_
  | exits n some_ failed => exact fun up => ⟨same.symm.trans up, .inr ⟨n, failed, rfl⟩⟩

theorem does_stopRules (other : m.vars.wantedAll = false) :
    (call.does stopRules false m).1.Off m.router.redirect where
  redirect up := by
    obtain ⟨n, ends⟩ : ∃ n, (call.does stopRules false m).2 = .ends n := Sh.run_ends rfl rfl rfl m
    obtain ⟨before, failed | ⟨_, _, exits⟩⟩ := takenOut_stopRules up
    · exact ⟨before, failed⟩
    · cases ends.symm.trans exits
  file := by
    rw [stopRules, Call.does, Sh.run, Sh.called_fst, run_block rfl rfl rfl, run_block rfl rfl rfl,
      run_block rfl rfl rfl, run_block rfl rfl rfl]
    intro written
    cases written
  wanted := by
    have idle : stopRules.All (· ≠ .loadConfig) := by decide
    apply does_keeps (P := fun s => s.vars.wantedAll = false) idle _ _ other
    · intro c s idle none_
      apply Bool.eq_false_of_not_eq_true
      intro all
      cases (exec_wantedAll idle all).symm.trans none_
    · exact fun _ _ none_ => none_

variable (call) in
theorem does_startRules (other : m.vars.wantedAll = false) :
    (call.does startRules false m).1.Off m.router.redirect := by
  rw [startRules, Call.does, Sh.run, Sh.called_fst, run_block rfl rfl rfl]
  exact does_off (by decide) (does_stopRules other)

theorem takenOut_accountingRules (other : m.vars.wantedAll = false) :
    TakenOut m (call.does (.or (.and Cmd.accountingOn startRules) stopRules) true m) := by
  cases on : m.vars.accounting with
  | false =>
    have stops : call.does (.or (.and Cmd.accountingOn startRules) stopRules) true m =
        call.does stopRules true (m.asked 1) := by
      simp only [Sh.run, Call.exec, exec, on]
      rfl
    rw [stops]
    exact takenOut_stopRules (m := m.asked 1)
  | true =>
    have starts : call.does (.or (.and Cmd.accountingOn startRules) stopRules) true m =
        followed (call.does startRules false (m.asked 1)) fun n s =>
          if n = 0 then (s, .ends 0) else call.does stopRules true s := by
      simp only [Sh.run, Call.exec, exec, on]
      rfl
    have off := (does_startRules call (m := m.asked 1) other).redirect
    rw [starts]
    intro up
    refine And.imp_right .inl (Sh.followed_keeps
      (P := fun s : Monitor => s.router.redirect = true → m.router.redirect = true ∧ s.failed = true)
      off ?_ up)
    intro n s off
    split
    · exact off
    · intro up
      obtain ⟨before, failed⟩ := off (takenOut_stopRules up).1
      exact ⟨before, does_failed failed⟩

theorem does_accounting (up : (call.does (firewallSh .accounting) strict m).1.router.redirect = true) :
    m.router.redirect = true ∧ (call.does (firewallSh .accounting) strict m).1.failed = true := by
  have body : TakenOut m (call.does (.block [Cmd.sourceFunctions, Cmd.singboxPath, Cmd.loadConfig,
      FirewallArg.accounting.body]) true m) := by
    apply takenOut_cmd_seq rfl
    apply takenOut_cmd_seq rfl
    apply takenOut_cmd_seq rfl
    apply takenOut_cmd_seq rfl
    exact takenOut_accountingRules rfl
  obtain ⟨before, failed | ⟨n, failed, exits⟩⟩ := body up
  · exact ⟨before, noteStatus_failed _ failed⟩
  · refine ⟨before, ?_⟩
    rw [firewallSh, Call.does, Sh.run, exits]
    simp [Monitor.noteStatus, Outcome.status, failed]

end

def bothListen (dirs : List String) : Sh Cmd :=
  .block [
    Cmd.clearMissing,
    .cond (.not Cmd.redirectUp) (.block [Cmd.logger, orTrue (firewallSh .start)]) .pass,
    .cond (.and Cmd.dnsWanted (Cmd.listening .dns))
      (.cond (.not (dnsUp dirs)) (.block [Cmd.logger, dnsSh (on dirs)]) .pass)
      (.cond (dnsUp dirs) (.block [Cmd.logger, dnsSh (off dirs)]) .pass),
    .ret 0]

def oneMissing (dirs : List String) : Sh Cmd :=
  .block [
    .or (.or Cmd.redirectUp (dnsUp dirs)) (.block [Cmd.clearMissing, .ret 0]),
    Cmd.countMissing,
    .or Cmd.missingThrice (.ret 0),
    Cmd.clearMissing,
    Cmd.logger,
    dnsSh (off dirs),
    orTrue (firewallSh .accounting)]

section
variable {call : Call} {dirs : List String} {m : Monitor}

variable (call m) in
theorem does_listening :
    ∃ k, call.does (.and (Cmd.listening .tproxy) (Cmd.listening .socks)) false m =
      (m.asked k, .ends (test call.found)) := by
  cases tproxy : call.listening .tproxy with
  | false =>
    refine ⟨1, ?_⟩
    simp only [Call.does, Sh.run, Call.exec, exec, Call.answer, Call.found, tproxy, test,
      Outcome.settled, followed]
    rfl
  | true =>
    refine ⟨2, ?_⟩
    simp only [Call.does, Sh.run, Call.exec, exec, Call.answer, Call.found, tproxy, test,
      Outcome.settled, followed]
    rfl

variable (call dirs m) in
theorem bothListen_returns : (call.does (bothListen dirs) false m).2 = .returns 0 := by
  rw [bothListen, Call.does, run_block rfl rfl rfl, run_block rfl rfl rfl, run_block]
  · rfl
  all_goals
    simp [on, off, dnsUp, dnsSh, restartDnsmasq, Sh.block, Sh.quits_each, Sh.quits, Sh.rets, Sh.exits,
      Sh.exits_each]

section
variable {up rest : Sh Cmd}

theorem does_guard {c out : Sh Cmd} {s : Monitor} {holds : Bool}
    (tested : call.does c false m = (s, .ends (test holds))) :
    call.does (.seq (.or c out) rest) false m =
      if holds then call.does rest false s
      else followed (call.does out false s) fun _ s => call.does rest false s := by
  change followed (followed (call.does c false m) _) _ = _
  rw [tested]
  cases holds <;> rfl

theorem does_ports (down : Sh Cmd) (m : Monitor) (returns : ∀ s, (call.does up false s).2 = .returns 0) :
    ∃ k, (call.does (.seq (.cond (.and (Cmd.listening .tproxy) (Cmd.listening .socks)) up .pass) down)
        false m).1 = (call.does (if call.found then up else down) false (m.asked k)).1 := by
  obtain ⟨k, listens⟩ := does_listening call m
  refine ⟨k, ?_⟩
  have parts : call.does (.seq (.cond (.and (Cmd.listening .tproxy) (Cmd.listening .socks)) up .pass)
      down) false m =
      followed (followed (call.does (.and (Cmd.listening .tproxy) (Cmd.listening .socks)) false m)
        fun n s => if n = 0 then call.does up false s else (s, .ends 0))
        fun _ s => call.does down false s := rfl
  rw [parts, listens]
  cases call.found with
  | true =>
    change (followed (call.does up false (m.asked k)) _).1 = _
    rw [followed, returns]
    rfl
  | false => rfl

theorem does_wanted (wanted : m.router.wanted = true) :
    call.does (.seq (.or Cmd.wantedTransparent (.ret 0)) (.seq (Cmd.readPort .tproxy)
      (.seq (Cmd.readPort .socks) (.seq (Cmd.readPort .dns) rest)))) false m =
      call.does rest false (m.asked 4) := by
  have transparent : call.does Cmd.wantedTransparent false m =
    (m.asked 1, .ends (test m.router.wanted)) := rfl
  rw [does_guard transparent, if_pos wanted, Call.does, run_seq rfl rfl rfl, run_seq rfl rfl rfl,
    run_seq rfl rfl rfl]
  rfl

end

variable (dirs) in
theorem does_reconcile (wanted : m.router.wanted = true) :
    ∃ k, (call.does (reconcile dirs) false m).1 =
      (call.does (if call.found then bothListen dirs else oneMissing dirs) false (m.asked k)).1 := by
  obtain ⟨k, ports⟩ := does_ports (oneMissing dirs) (m.asked 4) (bothListen_returns call dirs)
  refine ⟨k + 4, ?_⟩
  rw [← Monitor.asked_asked, ← ports, ← does_wanted wanted]
  have body : reconcile dirs = .fn (.seq (.or Cmd.wantedTransparent (.ret 0)) (.seq (Cmd.readPort .tproxy)
      (.seq (Cmd.readPort .socks) (.seq (Cmd.readPort .dns) (.seq (.cond
        (.and (Cmd.listening .tproxy) (Cmd.listening .socks)) (bothListen dirs) .pass)
        (oneMissing dirs)))))) := rfl
  rw [body, Call.does, Sh.run, Sh.called_fst]

theorem firewallSh_counts (arg : FirewallArg) : (firewallSh arg).All (·.counts = false) := by
  cases arg <;> decide

theorem dns_idle : (Sh.seq (.cond (.and Cmd.dnsWanted (Cmd.listening .dns))
    (.cond (.not (dnsUp dirs)) (.block [Cmd.logger, dnsSh (on dirs)]) .pass)
    (.cond (dnsUp dirs) (.block [Cmd.logger, dnsSh (off dirs)]) .pass)) (.ret 0)).All
      fun c => c.counts = false ∧ c.redirects = false := by
  simp [on, off, dnsUp, dnsSh, restartDnsmasq, Sh.block, Sh.All, Sh.all_each, Cmd.counts, Cmd.redirects]

theorem does_redirectUp {sh : Sh Cmd} (up : m.router.redirect = true) :
    call.does (.cond (.not Cmd.redirectUp) sh .pass) false m = (m.asked 1, .ends 0) := by
  simp only [Sh.run, Call.exec, exec, up]
  rfl

theorem does_bothListen :
    (call.does (bothListen dirs) false m).1.vars.missing = 0 ∧
      (m.router.redirect = true → (call.does (bothListen dirs) false m).1.router.redirect = true) := by
  rw [bothListen, Call.does, run_block rfl rfl rfl]
  constructor
  · exact does_missing ⟨⟨rfl, ⟨rfl, firewallSh_counts _, trivial⟩, trivial⟩,
      dns_idle.imp fun _ idle => idle.1⟩
  · intro up
    rw [run_block rfl rfl rfl]
    change (call.does _ false (call.does _ false
      (call.does Cmd.clearMissing false m).1).1).1.router.redirect = true
    rw [does_redirectUp (m := (call.does Cmd.clearMissing false m).1) up]
    exact (does_redirect (dns_idle.imp fun _ idle => idle.2)).trans up

inductive Missed (dirs : List String) (m m' : Monitor) : Prop where
  | idle (clean : m.router.Clean dirs) (none_ : m'.vars.missing = 0) (still : m'.router.Clean dirs)
  | waits (early : m.vars.missing + 1 < 3) (counted : m'.vars.missing = m.vars.missing + 1)
      (redirect : m'.router.redirect = m.router.redirect)
      (snippets : m'.router.snippet = m.router.snippet)
  | givesUp (late : 3 ≤ m.vars.missing + 1) (none_ : m'.vars.missing = 0)
      (redirect : m'.router.redirect = true → m.router.redirect = true ∧ m'.failed = true)
      (snippets : ∀ dir ∈ dirs, m'.router.snippet dir = false)

variable (call dirs m) in
theorem does_somethingUp :
    ∃ k, call.does (.or Cmd.redirectUp (dnsUp dirs)) false m =
      (m.asked k, .ends (test (m.router.redirect || dirs.any m.router.snippet))) := by
  cases up : m.router.redirect with
  | true =>
    refine ⟨1, ?_⟩
    simp only [Call.does, Sh.run, Call.exec, exec, up, test, Outcome.settled, followed]
    rfl
  | false =>
    obtain ⟨k, dns⟩ := does_dnsUp call dirs (m.asked 1)
    refine ⟨k + 1, ?_⟩
    have next : call.does (.or Cmd.redirectUp (dnsUp dirs)) false m =
        call.does (dnsUp dirs) false (m.asked 1) := by
      simp only [Call.does, Sh.run, Call.exec, exec, up, test, Outcome.settled, followed]
      rfl
    rw [next, dns]
    simp

theorem clean_iff {r : RouterState} : r.Clean dirs ↔ (r.redirect || dirs.any r.snippet) = false := by
  simp [RouterState.Clean]

theorem does_orTrue {sh : Sh Cmd} : (call.does (orTrue sh) false m).1 = (call.does sh false m).1 := by
  rw [orTrue, Call.does, Sh.run, followed]
  split
  · split <;> rfl
  · rfl
  · rfl

def takeOut (dirs : List String) : Sh Cmd :=
  .block [Cmd.clearMissing, Cmd.logger, dnsSh (off dirs), orTrue (firewallSh .accounting)]

variable (dirs) in
theorem off_idle : (off dirs).All fun c => c.counts = false ∧ c.redirects = false := by
  simp [off, restartDnsmasq, Sh.block, Sh.All, Sh.all_each, Cmd.counts, Cmd.redirects]

theorem does_offThenAccounting :
    (call.does (.seq (dnsSh (off dirs)) (orTrue (firewallSh .accounting))) false m).1 =
      (call.does (firewallSh .accounting) false (call.does (dnsSh (off dirs)) false m).1).1 := by
  have plain : (dnsSh (off dirs)).quits = false := by
    simp [off, dnsSh, restartDnsmasq, Sh.block, Sh.quits_each, Sh.quits]
  rw [Call.does, run_seq plain rfl rfl]
  exact does_orTrue

variable (call dirs m) in
theorem does_takeOut :
    (call.does (takeOut dirs) false m).1.vars.missing = 0 ∧
      ((call.does (takeOut dirs) false m).1.router.redirect = true →
        m.router.redirect = true ∧ (call.does (takeOut dirs) false m).1.failed = true) ∧
      ∀ dir ∈ dirs, (call.does (takeOut dirs) false m).1.router.snippet dir = false := by
  obtain ⟨s, cleared, missing, same⟩ : ∃ s, call.does (takeOut dirs) false m =
      call.does (.seq (dnsSh (off dirs)) (orTrue (firewallSh .accounting))) false s ∧
      s.vars.missing = 0 ∧ s.router = m.router := by
    rw [takeOut, Call.does, run_block rfl rfl rfl, run_block rfl rfl rfl]
    exact ⟨_, rfl, rfl, rfl⟩
  rw [cleared, does_offThenAccounting, ← same]
  refine ⟨?_, ?_, ?_⟩
  · have idle : (dnsSh (off dirs)).All (·.counts = false) := (off_idle dirs).imp fun _ idle => idle.1
    rw [does_missing (firewallSh_counts _), does_missing idle, missing]
  · intro up
    obtain ⟨before, failed⟩ := does_accounting up
    have idle : (dnsSh (off dirs)).All (·.redirects = false) := (off_idle dirs).imp fun _ idle => idle.2
    rw [does_redirect idle] at before
    exact ⟨before, failed⟩
  · intro dir member
    exact does_snippet (firewallSh_reads _) (does_dnsOff member)

variable (call dirs m) in
theorem does_oneMissing : Missed dirs m (call.does (oneMissing dirs) false m).1 := by
  have parts : oneMissing dirs = .seq (.or (.or Cmd.redirectUp (dnsUp dirs))
      (.block [Cmd.clearMissing, .ret 0])) (.seq Cmd.countMissing
        (.seq (.or Cmd.missingThrice (.ret 0)) (takeOut dirs))) := rfl
  obtain ⟨k, up⟩ := does_somethingUp call dirs m
  rw [parts, does_guard up]
  cases something : m.router.redirect || dirs.any m.router.snippet with
  | false => exact .idle (clean_iff.mpr something) rfl (clean_iff.mpr something)
  | true =>
    rw [if_pos rfl, Call.does, run_seq rfl rfl rfl]
    obtain ⟨s, counts, missing, same⟩ : ∃ s, (call.does Cmd.countMissing false (m.asked k)).1 = s ∧
      s.vars.missing = m.vars.missing + 1 ∧ s.router = m.router := ⟨_, rfl, rfl, rfl⟩
    have thrice : call.does Cmd.missingThrice false s =
      (s.asked 1, .ends (test (decide (3 ≤ s.vars.missing)))) := rfl
    rw [counts]
    change Missed dirs m (call.does _ false s).1
    rw [does_guard thrice]
    split
    next late =>
      obtain ⟨none_, redirect, snippets⟩ := does_takeOut call dirs (s.asked 1)
      exact .givesUp (missing ▸ of_decide_eq_true late) none_ (same ▸ redirect) snippets
    next early =>
      simp only [missing, decide_eq_true_eq] at early
      exact .waits (by omega) missing (same ▸ rfl) (same ▸ rfl)

end

section
variable {call : Call} {dirs : List String} {m : Monitor}

theorem run_found (found : call.found = true) :
    (Call.run dirs m call).vars.missing = 0 ∧
      (m.router.redirect = true → (Call.run dirs m call).router.redirect = true) := by
  obtain ⟨k, runs⟩ := does_reconcile dirs (m := call.begins m) rfl
  rw [found, if_pos rfl] at runs
  rw [Call.run, runs]
  exact does_bothListen

variable (dirs m) in
theorem run_missed (missed : call.found = false) : Missed dirs m (Call.run dirs m call) := by
  obtain ⟨k, runs⟩ := does_reconcile dirs (m := call.begins m) rfl
  rw [missed, if_neg (by decide)] at runs
  rw [Call.run, runs]
  -- The markers and the answers are none of what is compared.
  cases does_oneMissing call dirs ((call.begins m).asked k) with
  | idle clean none_ still => exact .idle clean none_ still
  | waits early counted redirect snippets => exact .waits early counted redirect snippets
  | givesUp late none_ redirect snippets => exact .givesUp late none_ redirect snippets

theorem run_failed (failed : m.failed = true) : (Call.run dirs m call).failed = true :=
  does_failed (m := call.begins m) failed

theorem found_of_installed (down : m.router.redirect = false)
    (up : (Call.run dirs m call).router.redirect = true) : call.found = true := by
  cases found : call.found with
  | true => rfl
  | false =>
    cases run_missed dirs m found with
    | idle _ _ still => cases up.symm.trans still.1
    | waits _ _ redirect _ => cases (up.symm.trans redirect).trans down
    | givesUp _ _ redirect _ => cases (redirect up).1.symm.trans down

theorem clean_or_counted (missed : call.found = false) (fine : (Call.run dirs m call).failed = false) :
    (Call.run dirs m call).router.Clean dirs ∨
      (Call.run dirs m call).vars.missing = m.vars.missing + 1 ∧ m.vars.missing + 1 < 3 := by
  cases run_missed dirs m missed with
  | idle _ _ still => exact .inl still
  | waits early counted _ _ => exact .inr ⟨counted, early⟩
  | givesUp _ _ redirect snippets =>
    refine .inl ⟨?_, snippets⟩
    apply Bool.eq_false_of_not_eq_true
    intro up
    cases (redirect up).2.symm.trans fine

theorem clean_of_clean (missed : call.found = false) (clean : m.router.Clean dirs) :
    (Call.run dirs m call).router.Clean dirs := by
  obtain ⟨down, none_⟩ := clean
  cases run_missed dirs m missed with
  | idle _ _ still => exact still
  | waits _ _ redirect snippets =>
    exact ⟨redirect.trans down, fun dir member => snippets ▸ none_ dir member⟩
  | givesUp _ _ redirect snippets =>
    refine ⟨?_, snippets⟩
    apply Bool.eq_false_of_not_eq_true
    intro up
    cases (redirect up).1.symm.trans down

theorem after_concat (calls : List Call) :
    m.after dirs (calls ++ [call]) = Call.run dirs (m.after dirs calls) call := by
  rw [Monitor.after, foldl_concat, Monitor.after]

end

section
variable {dirs : List String} {vars : Vars} {router : RouterState}

variable (dirs vars router) in
theorem missing_run (calls : List Call) :
    ∃ earlier late, calls = earlier ++ late ∧ (∀ call ∈ late, call.found = false) ∧
      late.length = ((Monitor.start vars router).after dirs calls).vars.missing := by
  induction calls using List.reverseRecOn with
  | nil => exact ⟨[], [], rfl, forall_mem_nil _, rfl⟩
  | append_singleton calls call ih =>
    have anew (none_ :
          (Call.run dirs ((Monitor.start vars router).after dirs calls) call).vars.missing = 0) :
        ∃ earlier late, calls ++ [call] = earlier ++ late ∧ (∀ call ∈ late, call.found = false) ∧
          late.length =
            (Call.run dirs ((Monitor.start vars router).after dirs calls) call).vars.missing :=
      ⟨calls ++ [call], [], (append_nil _).symm, forall_mem_nil _, none_.symm⟩
    rw [after_concat]
    cases found : call.found with
    | true => exact anew (run_found found).1
    | false =>
      cases run_missed dirs ((Monitor.start vars router).after dirs calls) found with
      | idle _ none_ _ => exact anew none_
      | givesUp _ none_ _ _ => exact anew none_
      | waits _ counted _ _ =>
        obtain ⟨earlier, late, rfl, missed, length⟩ := ih
        refine ⟨earlier, late ++ [call], by simp, ?_, by simp [length, counted]⟩
        intro other member
        cases mem_append.mp member with
        | inl before => exact missed other before
        | inr last => exact mem_singleton.mp last ▸ found

theorem clean_after_three {m : Monitor} {a b c : Call} (first : a.found = false)
    (second : b.found = false) (third : c.found = false)
    (fine : (m.after dirs [a, b, c]).failed = false) : (m.after dirs [a, b, c]).router.Clean dirs := by
  have fine₂ : (m.after dirs [a, b]).failed = false := by
    apply Bool.eq_false_of_not_eq_true
    intro failed
    cases (run_failed failed).symm.trans fine
  have fine₁ : (m.after dirs [a]).failed = false := by
    apply Bool.eq_false_of_not_eq_true
    intro failed
    cases (run_failed failed).symm.trans fine₂
  cases clean_or_counted first fine₁ with
  | inl clean => exact clean_of_clean third (clean_of_clean second clean)
  | inr one =>
    cases clean_or_counted second fine₂ with
    | inl clean => exact clean_of_clean third clean
    | inr two =>
      cases clean_or_counted third fine with
      | inl clean => exact clean
      | inr three =>
        -- Three calls have counted to less than three.
        omega

theorem missed_of_takenDown {before : List Call} {call : Call}
    (up : ((Monitor.start vars router).after dirs before).router.redirect = true)
    (down : ((Monitor.start vars router).after dirs (before ++ [call])).router.redirect = false) :
    ∃ earlier a b, before = earlier ++ [a, b] ∧
      a.found = false ∧ b.found = false ∧ call.found = false := by
  rw [after_concat] at down
  cases found : call.found with
  | true => cases ((run_found found).2 up).symm.trans down
  | false =>
    cases run_missed dirs ((Monitor.start vars router).after dirs before) found with
    | idle clean _ _ => cases up.symm.trans clean.1
    | waits _ _ redirect _ => cases (redirect.trans up).symm.trans down
    | givesUp late _ _ _ =>
      obtain ⟨earlier, missed, rfl, each, length⟩ := missing_run dirs vars router before
      have two : (missed.drop (missed.length - 2)).length = 2 := by
        rw [length_drop]
        omega
      obtain ⟨a, b, last⟩ := length_eq_two.mp two
      have member : ∀ other ∈ [a, b], other.found = false := by
        intro other there
        exact each other (mem_of_mem_drop (last ▸ there))
      refine ⟨earlier ++ missed.take (missed.length - 2), a, b, ?_, member a (by simp),
        member b (by simp), rfl⟩
      rw [append_assoc, ← last, take_append_drop]

/-- From any router: only a call that finds both ports installs the redirect; three calls in a
    row that find one missing leave neither it nor a snippet, if no script fails and `nft`
    deletes the table; and only the third such call takes it down. -/
theorem redirect_matches_ports (dirs : List String) (vars : Vars) (router : RouterState) :
    (∀ before call, ((Monitor.start vars router).after dirs before).router.redirect = false →
        ((Monitor.start vars router).after dirs (before ++ [call])).router.redirect = true →
        call.found = true) ∧
      (∀ before a b c, a.found = false → b.found = false → c.found = false →
        ((Monitor.start vars router).after dirs (before ++ [a, b, c])).failed = false →
        ((Monitor.start vars router).after dirs (before ++ [a, b, c])).router.Clean dirs) ∧
      ∀ before call, ((Monitor.start vars router).after dirs before).router.redirect = true →
        ((Monitor.start vars router).after dirs (before ++ [call])).router.redirect = false →
        ∃ earlier a b, before = earlier ++ [a, b] ∧
          a.found = false ∧ b.found = false ∧ call.found = false := by
  refine ⟨?_, ?_, ?_⟩
  · intro before call down up
    rw [after_concat] at up
    exact found_of_installed down up
  · intro before a b c first second third fine
    rw [Monitor.after, foldl_append] at fine ⊢
    exact clean_after_three first second third fine
  · intro before call
    exact missed_of_takenDown

end

-- The redirect and the snippet come up, stay for two calls and are gone after the third.
example :
    let call (both : Bool) : Call := ⟨⟨.tproxy, true⟩, fun _ => both, true, fun _ => 0⟩
    let m := Monitor.start ⟨false, 0, false, false⟩ ⟨true, true, false, fun _ => false, none⟩
    let before := m.after ["d"] [call true, call false, call false]
    let after := m.after ["d"] [call true, call false, call false, call false]
    (before.router.redirect, before.router.snippet "d", before.failed) = (true, true, false) ∧
      (after.router.redirect, after.router.snippet "d", after.failed) = (false, false, false) := by
  decide

end Gozarbin.Router
