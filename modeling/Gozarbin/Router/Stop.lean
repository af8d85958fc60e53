import Mathlib.Data.Set.Insert
import Mathlib.Order.BooleanAlgebra.Set
import Gozarbin.Router.Scripts

/-! # Stopping the service while the monitor reconciles

`stop_service` and one `reconcile` of the monitor run side by side over the state of the router,
and each command of either is a step. What is not in the state, such as whether a port is
listening or whether `nft` succeeds, is answered by the surroundings as they like.
-/

namespace Gozarbin.Router

open Shell (Sh Proc Par Side)

inductive Mode where
  | tproxy
  | tun
  | socks
  deriving DecidableEq

structure Config where
  mode : Mode
  accounting : Bool

/-- The variables of a process and of the scripts it runs. -/
structure Vars where
  changed : Bool
  missing : Nat
  accounting : Bool
  wantedAll : Bool

structure RouterState where
  wanted : Bool
  dnsWanted : Bool
  redirect : Bool
  snippet : String → Bool
  nftFile : Option Bool

def test (holds : Bool) : Nat := if holds then 0 else 1

def exec (cfg : Config) (answer : Nat) (v : Vars) (r : RouterState) : Cmd → Vars × RouterState × Nat
  | .wantedTransparent => (v, r, test r.wanted)
  | .redirectUp => (v, r, test r.redirect)
  | .clearMissing => ({ v with missing := 0 }, r, 0)
  | .countMissing => ({ v with missing := v.missing + 1 }, r, 0)
  | .missingThrice => (v, r, test (3 ≤ v.missing))
  | .removeWanted => (v, { r with wanted := false }, 0)
  | .removeDnsWanted => (v, { r with dnsWanted := false }, 0)
  | .dnsWanted => (v, r, test r.dnsWanted)
  | .setChanged value => ({ v with changed := value }, r, 0)
  | .changed => (v, r, test v.changed)
  -- Without the file there is nothing to compare; what another one holds is not modelled.
  | .snippetCurrent dir => (v, r, if r.snippet dir then answer else 1)
  -- A file that cannot be opened is not made; one that cannot be written is there.
  | .writeSnippet dir =>
    (v, if answer = 1 then r else { r with snippet := Function.update r.snippet dir true }, answer)
  | .snippetExists dir => (v, r, test (r.snippet dir))
  | .removeSnippet dir => (v, { r with snippet := Function.update r.snippet dir false }, 0)
  | .loadConfig => ({ v with accounting := cfg.accounting, wantedAll := true }, r, answer)
  | .wantAccounting => ({ v with wantedAll := false }, r, 0)
  | .wantedAll => (v, r, test v.wantedAll)
  | .modeTproxy => (v, r, test (cfg.mode = .tproxy))
  | .modeTun => (v, r, test (cfg.mode = .tun))
  | .accountingOn => (v, r, test v.accounting)
  | .accountingOff => ({ v with accounting := false }, r, 0)
  | .nftDelete => (v, if answer = 0 then { r with redirect := false } else r, answer)
  | .nftCheck => (v, r, if r.nftFile.isSome then answer else 1)
  | .nftLoad =>
    match r.nftFile with
    | none => (v, r, 1)
    | some chain =>
      (v, if answer = 0 then { r with redirect := r.redirect || chain } else r, answer)
  -- A file that was cut short is none that `nft` would take.
  | .writeRules =>
    (v, { r with nftFile := if answer = 0 then some (v.wantedAll && cfg.mode = .tproxy) else none },
      answer)
  | .removeNftFile => (v, { r with nftFile := none }, 0)
  | _ => (v, r, answer)

/-- `stop_service` is on the left, the monitor on the right. -/
structure System where
  router : RouterState
  vars : Side → Vars
  deleted : Bool

def execOn (cfg : Config) (side : Side) (c : Cmd) (answer : Nat) (s : System) : System × Nat :=
  let (v, r, status) := exec cfg answer (s.vars side) s.router c
  (⟨r, Function.update s.vars side v, s.deleted || (side = .left && c = .nftDelete)⟩, status)

abbrev World := Par Cmd System

def World.initial (dirs : List String) (router : RouterState) (vars : Side → Vars) : World where
  left := (stopService dirs).proc
  right := (reconcile dirs).proc
  state := ⟨router, vars, false⟩

def step (cfg : Config) : World → Side × Nat → Option World := Par.step (execOn cfg)

/-- Nothing of the service is left behind. -/
def RouterState.Clean (dirs : List String) (r : RouterState) : Prop :=
  r.redirect = false ∧ ∀ dir ∈ dirs, r.snippet dir = false

def Cmd.helper : Cmd → Bool
  | .sourceFunctions | .singboxPath | .loadConfig | .historySample | .historyReset => true
  | _ => false

/-- In `stop_service` the helpers of `firewall.sh` succeed, and so does its `nft delete` if the
    redirect is there; no redirect is installed after that. -/
def InTime (w : World) (e : Side × Nat) : Prop :=
  match w.side e.1 with
  | .done _ => True
  | .act c _ =>
    (e.1 = .left → c.helper = true → e.2 = 0) ∧
      (e.1 = .left → c = .nftDelete → w.state.router.redirect = true → e.2 = 0) ∧
      (c = .nftLoad → w.state.deleted = true → w.state.router.nftFile = some true → e.2 ≠ 0)

instance (w : World) (e : Side × Nat) : Decidable (InTime w e) :=
  match here : w.side e.1 with
  | .done _ => .isTrue (by simp [InTime, here])
  | .act c _ =>
    decidable_of_iff
      ((e.1 = .left → c.helper = true → e.2 = 0) ∧
        (e.1 = .left → c = .nftDelete → w.state.router.redirect = true → e.2 = 0) ∧
        (c = .nftLoad → w.state.deleted = true → w.state.router.nftFile = some true → e.2 ≠ 0))
      (by simp [InTime, here])

/-! ## What a process does about the snippets

The marker `dns-wanted` is looked at by the process itself. When it is gone, `Cleans p D`
says of what is left of a process that it takes the snippets out that are in the
directories `D`, and also those that it writes. Other processes may add and take out
snippets meanwhile.
-/

def Cleans : Proc Cmd → Set String → Prop
  | .done _, D => D = ∅
  | .act c next, D =>
    match c with
    | .dnsWanted => Cleans (next 1) D
    | .snippetExists dir => Cleans (next 0) D ∧ Cleans (next 1) (D \ {dir})
    | .removeSnippet dir => Cleans (next 0) (D \ {dir})
    | .writeSnippet dir => ∀ n, Cleans (next n) (insert dir D)
    | _ => ∀ n, Cleans (next n) D

def Ready : Proc Cmd → Prop
  | .done _ => True
  | .act c next => Cleans (.act c next) ∅ ∧ ∀ n, Ready (next n)

/-- The marker is taken out, and then all snippets. -/
def Announces (dirs : Set String) : Proc Cmd → Prop
  | .done _ => False
  | .act c next =>
    Cleans (.act c next) dirs ∧ (c = .removeDnsWanted ∨ ∀ n, Announces dirs (next n))

def Cmd.writes : Cmd → Bool
  | .writeSnippet _ => true
  | _ => false

theorem Cleans.mono {p : Proc Cmd} {D E : Set String} (fewer : E ⊆ D) (cleans : Cleans p D) :
    Cleans p E := by
  induction p generalizing D E with
  | done n =>
    subst cleans
    exact Set.subset_empty_iff.mp fewer
  | act c next ih =>
    cases c
    case dnsWanted => exact ih 1 fewer cleans
    case snippetExists dir =>
      exact ⟨ih 0 fewer cleans.1, ih 1 (Set.sdiff_subset_sdiff_left fewer) cleans.2⟩
    case removeSnippet dir => exact ih 0 (Set.sdiff_subset_sdiff_left fewer) cleans
    case writeSnippet dir => exact fun n => ih n (Set.insert_subset_insert fewer) (cleans n)
    all_goals exact fun n => ih n fewer (cleans n)

theorem Cleans.act {c : Cmd} {next : Nat → Proc Cmd} {D : Set String} (reads : c.writes = false)
    (later : ∀ n, Cleans (next n) D) : Cleans (.act c next) D := by
  cases c
  case dnsWanted => exact later 1
  case snippetExists dir => exact ⟨later 0, (later 1).mono Set.sdiff_subset⟩
  case removeSnippet dir =>
    change Cleans (next 0) (D \ {dir})
    exact (later 0).mono Set.sdiff_subset
  case writeSnippet dir => cases reads
  all_goals exact later

theorem Ready.cleans {p : Proc Cmd} (ready : Ready p) : Cleans p ∅ := by
  cases p with
  | done n => rfl
  | act c next => exact ready.1

theorem Ready.act {c : Cmd} {next : Nat → Proc Cmd} (reads : c.writes = false)
    (later : ∀ n, Ready (next n)) : Ready (.act c next) :=
  ⟨.act reads fun n => (later n).cleans, later⟩

theorem keeps_cleans {strict : Bool} {sh : Sh Cmd} {D : Set String}
    (reads : sh.All (·.writes = false)) : sh.Keeps (Cleans · D) strict :=
  .of_all (fun _ _ => .act) reads

theorem keeps_ready {strict : Bool} {sh : Sh Cmd} (reads : sh.All (·.writes = false)) :
    sh.Keeps Ready strict :=
  .of_all (fun _ _ => .act) reads

theorem off_reads {dirs : List String} : (off dirs).All (·.writes = false) := by
  simp [off, restartDnsmasq, Sh.block, Sh.All, Sh.all_each, Cmd.writes]

theorem off_exits {dirs : List String} : (off dirs).exits false = false := by
  simp [off, restartDnsmasq, Sh.block, Sh.exits, Sh.exits_each]

theorem dnsUp_reads {dirs : List String} : (dnsUp dirs).All (·.writes = false) := by
  simp [dnsUp, Sh.block, Sh.All, Sh.all_each, Cmd.writes]

theorem firewallSh_reads (arg : FirewallArg) : (firewallSh arg).All (·.writes = false) := by
  cases arg <;> decide

theorem offLoop_cleans {dirs : List String} {back quit next : Nat → Proc Cmd} {D E : Set String}
    (covered : ∀ dir ∈ D, dir ∈ dirs ∨ dir ∈ E) (ends : ∀ n, Cleans (next n) E) :
    Cleans ((Sh.each dirs fun dir =>
      .cond (Cmd.snippetExists dir)
        (.block [Cmd.removeSnippet dir, Cmd.setChanged true]) .pass).denote false back quit next) D := by
  induction dirs generalizing D with
  | nil =>
    apply (ends 0).mono
    intro dir member
    exact (covered dir member).resolve_left List.not_mem_nil
  | cons dir dirs ih =>
    have rest := ih (D := D \ {dir}) (by
      intro other member
      rcases covered other member.1 with here | there
      · exact .inl ((List.mem_cons.mp here).resolve_left member.2)
      · exact .inr there)
    exact ⟨fun _ => rest, rest⟩

theorem off_cleans {dirs : List String} (back quit : Nat → Proc Cmd) {next : Nat → Proc Cmd}
    {D : Set String} (covered : ∀ dir ∈ D, dir ∈ dirs) (ends : ∀ n, Cleans (next n) ∅) :
    Cleans ((off dirs).denote false back quit next) D := by
  have restarts : (Sh.seq (.and Cmd.changed restartDnsmasq) (.ret 0)).Keeps (Cleans · ∅) false :=
    keeps_cleans (by decide)
  intro _
  apply offLoop_cleans (fun dir member => .inl (covered dir member))
  intro _
  exact restarts next quit next (fun _ => ends) nofun ends

structure Watches (dirs : List String) (p : Proc Cmd) : Prop where
  ready : Ready p
  cleans : ∀ D : Set String, (∀ dir ∈ D, dir ∈ dirs) → Cleans p D

theorem Watches.act {dirs : List String} {c : Cmd} {next : Nat → Proc Cmd}
    (inside : ∀ dir, c = .writeSnippet dir → dir ∈ dirs)
    (later : ∀ n, Watches dirs (next n)) : Watches dirs (.act c next) := by
  have cleans : ∀ D : Set String, (∀ dir ∈ D, dir ∈ dirs) → Cleans (.act c next) D := by
    intro D covered
    cases writes : c.writes with
    | false => exact .act writes fun n => (later n).cleans D covered
    | true =>
      cases c
      case writeSnippet dir =>
        intro n
        apply (later n).cleans
        intro other member
        cases member with
        | inl here => exact here ▸ inside dir rfl
        | inr there => exact covered other there
      all_goals cases writes
  exact ⟨⟨cleans ∅ nofun, fun n => (later n).ready⟩, cleans⟩

theorem lookAgain_watches {dirs : List String} {quit next : Nat → Proc Cmd}
    (goes : ∀ n, Ready (next n)) :
    Watches dirs ((Sh.seq (.or Cmd.dnsWanted (.block [off dirs, .ret 1])) (.ret 0)).denote
      false next quit next) where
  ready := by
    have reads : (Sh.seq (.or Cmd.dnsWanted (.block [off dirs, .ret 1])) (.ret 0)).All
        (·.writes = false) := ⟨⟨rfl, off_reads, trivial⟩, trivial⟩
    apply keeps_ready reads next quit next (fun _ => goes) _ goes
    simp [Sh.exits, Sh.block, off_exits]
  cleans D covered := off_cleans next quit covered fun _ => (goes 1).cleans

theorem on_ready {dirs : List String} : (on dirs).Keeps Ready false := by
  intro back quit next _ _ goes
  -- From the first snippet that is written to the second look.
  have writes : (Sh.seq
      (.each dirs fun dir => .cond (Cmd.snippetCurrent dir) .pass
        (.block [Cmd.writeSnippet dir, Cmd.setChanged true]))
      (.and Cmd.changed restartDnsmasq)).Keeps (Watches dirs) false := by
    apply Sh.Keeps.of_all (fun c next inside later => Watches.act inside later)
    simp [restartDnsmasq, Sh.block, Sh.All, Sh.all_each]
  have watched := writes next quit
    (fun _ => (Sh.seq (.or Cmd.dnsWanted (.block [off dirs, .ret 1])) (.ret 0)).denote
      false next quit next)
    (by simp [restartDnsmasq, Sh.rets, Sh.block, Sh.rets_each])
    (by simp [restartDnsmasq, Sh.exits, Sh.block, Sh.exits_each])
    fun _ => lookAgain_watches goes
  apply Ready.act (c := .setChanged false) rfl
  intro _
  apply Ready.act (c := .dnsWanted) rfl
  intro n
  change Ready (if n = 0 then _ else _)
  split
  · apply Ready.act (c := .readPort .dns) rfl
    intro _
    exact watched.ready
  · apply Ready.act (c := .complain) rfl
    intro _
    exact goes 1

theorem reconcile_ready {dirs : List String} : Ready (reconcile dirs).proc := by
  have redirects : (Sh.cond (.not Cmd.redirectUp)
      (.block [Cmd.logger, orTrue (firewallSh .start)]) .pass).Keeps Ready false :=
    keeps_ready ⟨rfl, ⟨rfl, firewallSh_reads _, trivial⟩, trivial⟩
  have resolves : (Sh.cond (.and Cmd.dnsWanted (Cmd.listening .dns))
      (.cond (.not (dnsUp dirs)) (.block [Cmd.logger, dnsSh (on dirs)]) .pass)
      (.cond (dnsUp dirs) (.block [Cmd.logger, dnsSh (off dirs)]) .pass)).Keeps Ready false :=
    .cond (keeps_ready ⟨rfl, rfl⟩)
      (.cond (keeps_ready dnsUp_reads) (.seq (keeps_ready rfl) (.script on_ready)) .pass)
      (keeps_ready ⟨dnsUp_reads, ⟨rfl, off_reads⟩, trivial⟩)
  have gives_up : (Sh.block [
      .or (.or Cmd.redirectUp (dnsUp dirs)) (.block [Cmd.clearMissing, .ret 0]),
      Cmd.countMissing, .or Cmd.missingThrice (.ret 0), Cmd.clearMissing, Cmd.logger,
      dnsSh (off dirs), orTrue (firewallSh .accounting)]).Keeps Ready false :=
    keeps_ready ⟨⟨⟨rfl, dnsUp_reads⟩, rfl, trivial⟩, rfl, ⟨rfl, trivial⟩, rfl, rfl, off_reads,
      firewallSh_reads _, trivial⟩
  have keeps : (reconcile dirs).Keeps Ready false :=
    .fn (.seq (keeps_ready (by decide)) (.seq (keeps_ready rfl) (.seq (keeps_ready rfl)
      (.seq (keeps_ready rfl) (.seq
        (.cond (keeps_ready ⟨rfl, rfl⟩)
          (.seq (keeps_ready rfl) (.seq redirects (.seq resolves .ret))) .pass)
        gives_up)))))
  exact keeps.proc fun _ => trivial

theorem stopService_announces {dirs : List String} :
    Announces {dir | dir ∈ dirs} (stopService dirs).proc := by
  have tail : (Sh.seq (firewallSh .stop) (.seq Cmd.removeReason Cmd.stopPsiphon)).Keeps
      (Cleans · ∅) false := keeps_cleans ⟨firewallSh_reads _, rfl, rfl⟩
  have rest : Cleans ((dnsSh (off dirs)).denote false .done .done fun _ =>
      (Sh.seq (firewallSh .stop) (.seq Cmd.removeReason Cmd.stopPsiphon)).denote
        false .done .done .done) {dir | dir ∈ dirs} :=
    off_cleans .done _ (fun _ member => member) fun _ =>
      tail _ _ _ (fun _ _ => rfl) (fun _ _ => rfl) fun _ => rfl
  exact ⟨fun _ _ => rest, .inr fun _ => ⟨fun _ => rest, .inl rfl⟩⟩

def Deletes : Proc Cmd → Prop
  | .done _ => False
  | .act c next =>
    c = .nftDelete ∨ if c.helper then Deletes (next 0) else ∀ n, Deletes (next n)

theorem Deletes.act {c : Cmd} {next : Nat → Proc Cmd} (later : ∀ n, Deletes (next n)) :
    Deletes (.act c next) := by
  right
  split
  · exact later 0
  · exact later

theorem Deletes.help {c : Cmd} {next : Nat → Proc Cmd} (helper : c.helper = true)
    (later : Deletes (next 0)) : Deletes (.act c next) := by
  right
  rw [if_pos helper]
  exact later

theorem stopRules_deletes {quit next : Nat → Proc Cmd} :
    Deletes (stopRules.denote true (Sh.after true quit next) quit next) := by
  apply Deletes.act (c := .historyExecutable)
  intro n
  change Deletes (if n = 0 then _ else _)
  split
  · apply Deletes.help (c := .historySample) rfl
    apply Deletes.help (c := .historyReset) rfl
    exact .inl rfl
  · exact .inl rfl

theorem stopService_deletes {dirs : List String} : Deletes (stopService dirs).proc := by
  have firewall : Deletes ((firewallSh .stop).denote false .done .done fun _ =>
      (Sh.seq Cmd.removeReason Cmd.stopPsiphon).denote false .done .done .done) := by
    apply Deletes.help (c := .sourceFunctions) rfl
    apply Deletes.help (c := .singboxPath) rfl
    apply Deletes.help (c := .loadConfig) rfl
    exact stopRules_deletes
  have before : (Sh.seq Cmd.removeWanted (.seq Cmd.removeDnsWanted (dnsSh (off dirs)))).Keeps
      Deletes false := by
    have reads : (Sh.seq Cmd.removeWanted (.seq Cmd.removeDnsWanted (dnsSh (off dirs)))).All
        (·.writes = false) := ⟨rfl, rfl, off_reads⟩
    exact .of_all (fun _ _ _ later => Deletes.act later) reads
  exact before .done .done _ nofun nofun fun _ => firewall

section
variable {cfg : Config} {answer : Nat} {v : Vars} {r : RouterState} {c : Cmd}

theorem exec_dnsWanted :
    (exec cfg answer v r c).2.1.dnsWanted = true ↔ r.dnsWanted = true ∧ c ≠ .removeDnsWanted := by
  cases c
  case writeSnippet dir => by_cases opened : answer = 1 <;> simp [exec, opened]
  case nftDelete => by_cases deleted : answer = 0 <;> simp [exec, deleted]
  case nftLoad =>
    cases file : r.nftFile with
    | none => simp [exec, file]
    | some chain => by_cases taken : answer = 0 <;> simp [exec, file, taken]
  all_goals simp [exec]

theorem exec_redirect (redirect : (exec cfg answer v r c).2.1.redirect = true) :
    (c = .nftDelete → answer ≠ 0) ∧
      (r.redirect = true ∨ c = .nftLoad ∧ r.nftFile = some true ∧ answer = 0) := by
  cases c
  case writeSnippet dir => by_cases opened : answer = 1 <;> simp_all [exec]
  case nftDelete => by_cases deleted : answer = 0 <;> simp_all [exec]
  case nftLoad =>
    cases file : r.nftFile with
    | none => simp_all [exec]
    | some chain => by_cases taken : answer = 0 <;> simp_all [exec]
  all_goals simp_all [exec]

theorem exec_helper (helper : c.helper = true) : (exec cfg answer v r c).2.2 = answer := by
  cases c <;> first | rfl | cases helper

theorem exec_snippet {dir : String} (present : (exec cfg answer v r c).2.1.snippet dir = true) :
    c = .writeSnippet dir ∨ r.snippet dir = true ∧ c ≠ .removeSnippet dir := by
  cases c
  case writeSnippet other =>
    by_cases here : dir = other
    · exact .inl (here ▸ rfl)
    · by_cases opened : answer = 1 <;> simp_all [exec]
  case removeSnippet other =>
    by_cases here : dir = other
    · subst here
      simp [exec] at present
    · simp only [exec, Function.update_of_ne here] at present
      simp [present, Ne.symm here]
  case nftDelete => by_cases deleted : answer = 0 <;> simp_all [exec]
  case nftLoad =>
    cases file : r.nftFile with
    | none => simp_all [exec]
    | some chain => by_cases taken : answer = 0 <;> simp_all [exec]
  all_goals simp_all [exec]

theorem exec_cleans {next : Nat → Proc Cmd} {D : Set String} (gone : r.dnsWanted = false)
    (cleans : Cleans (.act c next) D) :
    ∃ E, Cleans (next (exec cfg answer v r c).2.2) E ∧
      ∀ dir, (exec cfg answer v r c).2.1.snippet dir = true →
        dir ∈ E ∨ r.snippet dir = true ∧ dir ∉ D := by
  have same : ∀ dir, r.snippet dir = true → dir ∈ D ∨ r.snippet dir = true ∧ dir ∉ D := by
    intro dir there
    exact (Classical.em (dir ∈ D)).imp_right fun outside => ⟨there, outside⟩
  cases c
  case dnsWanted =>
    have absent : (exec cfg answer v r .dnsWanted).2.2 = 1 := by simp [exec, gone, test]
    rw [absent]
    exact ⟨D, cleans, same⟩
  case snippetExists dir =>
    cases there : r.snippet dir with
    | true =>
      refine ⟨D, ?_, same⟩
      simpa [exec, there, test] using cleans.1
    | false =>
      refine ⟨D \ {dir}, by simpa [exec, there, test] using cleans.2, ?_⟩
      intro other present
      have apart : other ≠ dir := by
        rintro rfl
        cases present.symm.trans there
      exact (same other present).imp_left fun inside => ⟨inside, apart⟩
  case removeSnippet dir =>
    refine ⟨D \ {dir}, cleans, ?_⟩
    intro other present
    obtain ⟨before, kept⟩ := (exec_snippet present).resolve_left (by simp)
    have apart : other ≠ dir := fun here => kept (here ▸ rfl)
    exact (same other before).imp_left fun inside => ⟨inside, apart⟩
  case writeSnippet dir =>
    refine ⟨insert dir D, cleans _, ?_⟩
    intro other present
    rcases exec_snippet present with here | ⟨before, -⟩
    · exact .inl (.inl (Cmd.writeSnippet.inj here).symm)
    · exact (same other before).imp_left .inr
  all_goals
    exact ⟨D, cleans _, fun dir present => same dir ((exec_snippet present).resolve_left (by simp)).1⟩

end

theorem Announces.cleans {dirs : Set String} {p : Proc Cmd} (announces : Announces dirs p) :
    Cleans p dirs := by
  cases p with
  | done n => exact announces.elim
  | act c next => exact announces.1

structure World.Watched (dirs : List String) (w : World) : Prop where
  announced : w.state.router.dnsWanted = true →
    Announces {dir | dir ∈ dirs} w.left ∧ Ready w.right
  covered : w.state.router.dnsWanted = false →
    ∃ D E, Cleans w.left D ∧ Cleans w.right E ∧
      ∀ dir ∈ dirs, w.state.router.snippet dir = true → dir ∈ D ∨ dir ∈ E

structure World.Closing (w : World) : Prop where
  pending : w.state.deleted = false → Deletes w.left
  deleted : w.state.deleted = true → w.state.router.redirect = false

section
variable {cfg : Config} {dirs : List String} {router : RouterState} {vars : Side → Vars}
  {w w' : World} {c : Cmd} {next : Nat → Proc Cmd} {answer : Nat} {e : Side × Nat}

theorem World.initial_watched : (World.initial dirs router vars).Watched dirs where
  announced _ := ⟨stopService_announces, reconcile_ready⟩
  covered _ := by
    refine ⟨_, ∅, stopService_announces.cleans, reconcile_ready.cleans, ?_⟩
    intro dir member _
    exact .inl member

theorem World.initial_closing : (World.initial dirs router vars).Closing where
  pending _ := stopService_deletes
  deleted := nofun

theorem World.Watched.left (watched : w.Watched dirs) (here : w.left = .act c next) :
    World.Watched dirs (w.set .left (next (execOn cfg .left c answer w.state).2)
      (execOn cfg .left c answer w.state).1) where
  announced marked := by
    obtain ⟨before, other⟩ := exec_dnsWanted.mp marked
    obtain ⟨announces, ready⟩ := watched.announced before
    rw [here] at announces
    exact ⟨announces.2.resolve_left other _, ready⟩
  covered gone := by
    cases before : w.state.router.dnsWanted with
    | true =>
      obtain ⟨announces, ready⟩ := watched.announced before
      have removes : c = .removeDnsWanted := by
        by_contra other
        cases (exec_dnsWanted.mpr ⟨before, other⟩).symm.trans gone
      rw [here] at announces
      subst removes
      exact ⟨_, ∅, announces.1 _, ready.cleans, fun dir member _ => .inl member⟩
    | false =>
      obtain ⟨D, E, left, right, all⟩ := watched.covered before
      rw [here] at left
      obtain ⟨D', left, seen⟩ := exec_cleans before left
      refine ⟨D', E, left, right, ?_⟩
      intro dir member present
      cases seen dir present with
      | inl mine => exact .inl mine
      | inr other => exact .inr ((all dir member other.1).resolve_left other.2)

theorem World.Watched.right (watched : w.Watched dirs) (here : w.right = .act c next) :
    World.Watched dirs (w.set .right (next (execOn cfg .right c answer w.state).2)
      (execOn cfg .right c answer w.state).1) where
  announced marked := by
    obtain ⟨before, -⟩ := exec_dnsWanted.mp marked
    obtain ⟨announces, ready⟩ := watched.announced before
    rw [here] at ready
    exact ⟨announces, ready.2 _⟩
  covered gone := by
    cases before : w.state.router.dnsWanted with
    | true =>
      obtain ⟨announces, ready⟩ := watched.announced before
      rw [here] at ready
      exact ⟨_, ∅, announces.cleans, (ready.2 _).cleans, fun dir member _ => .inl member⟩
    | false =>
      obtain ⟨D, E, left, right, all⟩ := watched.covered before
      rw [here] at right
      obtain ⟨E', right, seen⟩ := exec_cleans before right
      refine ⟨D, E', left, right, ?_⟩
      intro dir member present
      cases seen dir present with
      | inl mine => exact .inr mine
      | inr other => exact .inl ((all dir member other.1).resolve_right other.2)

theorem World.Watched.step (watched : w.Watched dirs) (next : Router.step cfg w e = some w') :
    w'.Watched dirs := by
  obtain ⟨side, answer⟩ := e
  rcases Par.step_cases next with ⟨-, rfl⟩ | ⟨c, k, here, rfl⟩
  · exact watched
  · cases side with
    | left => exact watched.left here
    | right => exact watched.right here

theorem World.Closing.redirect {side : Side} (closing : w.Closing)
    (here : w.side side = .act c next) (inTime : InTime w (side, answer))
    (deleted : (execOn cfg side c answer w.state).1.deleted = true) :
    (execOn cfg side c answer w.state).1.router.redirect = false := by
  by_contra present
  obtain ⟨failed, source⟩ := exec_redirect (Bool.not_eq_false _ ▸ present)
  simp only [InTime, here] at inTime
  obtain ⟨-, deletes, late⟩ := inTime
  have before : w.state.deleted = true ∨ side = .left ∧ c = .nftDelete := by
    simpa [execOn] using deleted
  rcases before, source with ⟨gone | ⟨left, delete⟩, there | ⟨load, file, taken⟩⟩
  · cases there.symm.trans (closing.deleted gone)
  · exact late load gone file taken
  · exact failed delete (deletes left delete there)
  · cases load.symm.trans delete

theorem World.Closing.step (closing : w.Closing) (inTime : InTime w e)
    (next : Router.step cfg w e = some w') : w'.Closing := by
  obtain ⟨side, answer⟩ := e
  rcases Par.step_cases next with ⟨-, rfl⟩ | ⟨c, k, here, rfl⟩
  · exact closing
  cases side with
  | right =>
    refine ⟨fun waits => closing.pending ?_, closing.redirect here inTime⟩
    simpa [execOn, Par.set] using waits
  | left =>
    refine ⟨fun waits => ?_, closing.redirect here inTime⟩
    have both : w.state.deleted = false ∧ c ≠ .nftDelete := by
      simpa [execOn, Par.set] using waits
    have deletes := closing.pending both.1
    rw [show w.left = .act c k from here] at deletes
    have later := deletes.resolve_left both.2
    split at later
    next helper =>
      have fine : answer = 0 := by
        simp only [InTime, here] at inTime
        exact inTime.1 trivial helper
      have status : (execOn cfg .left c answer w.state).2 = 0 := (exec_helper helper).trans fine
      rw [status]
      exact later
    · exact later _

end

/-- Both processes have come to their ends. -/
def World.Finished (w : World) : Prop := w.left.finished = true ∧ w.right.finished = true

theorem World.Finished.done {w : World} (finished : w.Finished) :
    ∃ m n, w.left = .done m ∧ w.right = .done n := by
  obtain ⟨stopped, reconciled⟩ := finished
  cases left : w.left with
  | act c next =>
    rw [left] at stopped
    cases stopped
  | done m =>
    cases right : w.right with
    | act c next =>
      rw [right] at reconciled
      cases reconciled
    | done n => exact ⟨m, n, rfl, rfl⟩

theorem stop_leaves_no_snippet (cfg : Config) (dirs : List String) (router : RouterState)
    (vars : Side → Vars) (schedule : List (Side × Nat)) {w : World}
    (ran : Runs.run (step cfg) (World.initial dirs router vars) schedule = some w)
    (finished : w.Finished) : ∀ dir ∈ dirs, w.state.router.snippet dir = false := by
  have always : Runs.Always (step cfg) (World.Watched dirs) (World.initial dirs router vars)
      schedule :=
    Runs.always_of_kept (C := fun _ _ => True) (fun _ _ _ watched _ next => watched.step next)
      World.initial_watched (.of_forall fun _ _ => trivial)
  have watched := always.last ran
  obtain ⟨m, n, left, right⟩ := finished.done
  intro dir member
  by_contra present
  cases marked : w.state.router.dnsWanted with
  | true =>
    have announces := (watched.announced marked).1
    rw [left] at announces
    exact announces
  | false =>
    obtain ⟨D, E, first, second, all⟩ := watched.covered marked
    rw [left] at first
    rw [right] at second
    have none_left : D = ∅ ∧ E = ∅ := ⟨first, second⟩
    have seen := all dir member (Bool.not_eq_false _ ▸ present)
    rw [none_left.1, none_left.2] at seen
    exact seen.elim id id

/-- When `stop_service` and a `reconcile` beside it are over, nothing of the service is left, if
    `firewall.sh stop` could delete the table and no redirect was installed after that. -/
theorem stop_leaves_clean (cfg : Config) (dirs : List String) (router : RouterState)
    (vars : Side → Vars) (schedule : List (Side × Nat)) {w : World}
    (inTime : Runs.Each (step cfg) InTime (World.initial dirs router vars) schedule)
    (ran : Runs.run (step cfg) (World.initial dirs router vars) schedule = some w)
    (finished : w.Finished) : w.state.router.Clean dirs := by
  have always : Runs.Always (step cfg) World.Closing (World.initial dirs router vars) schedule :=
    Runs.always_of_kept (fun _ _ _ closing inTime next => closing.step inTime next)
      World.initial_closing inTime
  have closing := always.last ran
  obtain ⟨m, n, left, right⟩ := finished.done
  refine ⟨?_, stop_leaves_no_snippet cfg dirs router vars schedule ran finished⟩
  apply closing.deleted
  by_contra waits
  have deletes := closing.pending (Bool.not_eq_true _ ▸ waits)
  rw [left] at deletes
  exact deletes

def tproxy : Config := ⟨.tproxy, true⟩

def confDirs : List String := ["/tmp/dnsmasq.d"]

def wanting : RouterState where
  wanted := true
  dnsWanted := true
  redirect := false
  snippet _ := false
  nftFile := none

def freshVars (_ : Side) : Vars := ⟨false, 0, true, true⟩

def loadFirst : List (Side × Nat) :=
  List.replicate 20 (.right, 0) ++ List.replicate 8 (.left, 0) ++ List.replicate 13 (.right, 0) ++
    List.replicate 40 (.left, 0) ++ List.replicate 60 (.right, 0)

theorem loadFirst_leaves_clean :
    (Runs.run (step tproxy) (World.initial confDirs wanting freshVars)
        (loadFirst.take 41)).map (fun w => (w.state.router.redirect, w.state.deleted)) =
      some (true, false) ∧
    ∃ w, Runs.run (step tproxy) (World.initial confDirs wanting freshVars) loadFirst = some w ∧
      w.state.router.Clean confDirs := by
  have inTime : Runs.Each (step tproxy) InTime (World.initial confDirs wanting freshVars)
      loadFirst := by decide +kernel
  have ends : (Runs.run (step tproxy) (World.initial confDirs wanting freshVars) loadFirst).map
      (fun w => (w.left.finished, w.right.finished)) = some (true, true) := by decide +kernel
  obtain ⟨w, ran, finished⟩ := Option.map_eq_some_iff.mp ends
  exact ⟨by decide +kernel, w, ran, stop_leaves_clean tproxy confDirs wanting freshVars loadFirst
    inTime ran (Prod.mk.inj finished)⟩

def stopBetween : List (Side × Nat) :=
  List.replicate 8 (.right, 0) ++ List.replicate 40 (.left, 0) ++ List.replicate 60 (.right, 0)

theorem stopBetween_leaves_redirect :
    (Runs.run (step tproxy) (World.initial confDirs wanting freshVars) stopBetween).map
        (fun w => (w.left.finished, w.right.finished, w.state.router.redirect)) =
      some (true, true, true) := by
  decide

end Gozarbin.Router
