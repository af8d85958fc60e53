import Gozarbin.Lib.Metering
import Gozarbin.Lib.Runs
import Mathlib.Algebra.GroupWithZero.Nat
import Mathlib.Data.List.Induction

/-! # The traffic history

`history.sh sample` adds what the kernel's counters have grown by since the last sample, the
baseline, to the row of the hour. `stop_rules` takes a sample, resets the baseline and deletes
the table with the counters. The scripts are kept apart by a lock; a script that finds it taken
does nothing. Everything else, the reading of the counters and the two writes included, is a
step of its own.
-/

namespace Gozarbin.Router.History

open Runs Metering

/-- Bytes in each direction. -/
structure Traffic where
  up : Nat
  down : Nat
  deriving DecidableEq

inductive Way where
  | up
  | down

namespace Traffic

def zero : Traffic := ⟨0, 0⟩

def add (a b : Traffic) : Traffic := ⟨a.up + b.up, a.down + b.down⟩

def get (t : Traffic) : Way → Nat
  | .up => t.up
  | .down => t.down

@[simp] theorem zero_get (way : Way) : zero.get way = 0 := by cases way <;> rfl

@[simp] theorem add_get (a b : Traffic) (way : Way) : (a.add b).get way = a.get way + b.get way := by
  cases way <;> rfl

end Traffic

structure Row where
  hour : Int
  traffic : Traffic

/-- The contents of the history file: `up` and `down` are the baseline. -/
structure Data where
  hours : List Row := []
  saved : Nat := 0
  baseline : Traffic := .zero
  boot : Option Nat := none

def hourOf (now : Nat) : Int := ((now + 12600) / 3600 * 3600 : Nat) - 12600

namespace Data

def recent (now : Nat) (data : Data) : List Row :=
  data.hours.filter fun row => hourOf now - 31 * 86400 ≤ row.hour && row.hour ≤ hourOf now

def same (boot : Nat) (data : Data) : Bool := data.boot == some boot

def growth (boot : Nat) (read : Traffic) (data : Data) : Traffic where
  up := Metering.growth (data.same boot) read.up data.baseline.up
  down := Metering.growth (data.same boot) read.down data.baseline.down

def addTo (hour : Int) (traffic : Traffic) (hours : List Row) : List Row :=
  match hours.getLast? with
  | some last =>
    if last.hour = hour then hours.dropLast ++ [{ last with traffic := last.traffic.add traffic }]
    else hours ++ [⟨hour, traffic⟩]
  | none => [⟨hour, traffic⟩]

def isDue (now : Nat) (flush : Bool) (data : Data) : Bool := flush || 900 ≤ now - data.saved

def sample (now boot : Nat) (flush : Bool) (read : Traffic) (data : Data) : Data where
  hours := addTo (hourOf now) (data.growth boot read) (data.recent now)
  saved := if data.isDue now flush then now else data.saved
  baseline := read
  boot := some boot

def reset (now boot : Nat) (data : Data) : Data where
  hours := data.recent now
  saved := now
  baseline := .zero
  boot := some boot

def column (way : Way) (rows : List Row) : Nat :=
  rows.foldr (fun row sum => row.traffic.get way + sum) 0

def total (way : Way) (data : Data) : Nat := column way data.hours

end Data

inductive Job where
  | sample (flush : Bool)
  | reset

inductive Cmd where
  | history (job : Job)
  | deleteTable

/-- What is left of a script. Under `set -e` a command that fails ends it. -/
structure Script where
  errexit : Bool
  cmds : List Cmd

def stopRules (errexit : Bool) : Script where
  errexit := errexit
  cmds := [.history (.sample true), .history .reset, .deleteTable]

def monitor : Script where
  errexit := false
  cmds := [.history (.sample false)]

def Script.fail (script : Script) : Script :=
  if script.errexit then { script with cmds := [] } else script

/-- Where the script that has the lock is. -/
inductive Phase where
  | locked (job : Job)
  | sampled (flush : Bool) (read : Option Traffic)
  | flushes (data : Data)
  | unlocks (failed : Bool)

structure World where
  now : Nat := 0
  boot : Nat := 0
  accounting : Bool := true
  table : Option Traffic := none
  lock : Option (Nat × Phase) := none
  ram : Option Data := none
  disk : Option Data := none
  procs : List Script := []
  counted : Traffic := .zero
  recorded : Traffic := .zero
  spent : Bool := false

inductive Event where
  | tick (seconds : Nat)
  | grow (bytes : Traffic)
  | create
  | setAccounting (on : Bool)
  | spawn (script : Script)
  | goes (proc : Nat) (ok : Bool)
  | reboot

namespace World

def data (w : World) : Data := (w.ram <|> w.disk).getD {}

def held (w : World) (proc : Nat) (ok : Bool) : Phase → World
  | .locked .reset =>
    let data := w.data.reset w.now w.boot
    if ok then
      { w with
        ram := some data
        spent := w.table.any (· ≠ .zero)
        lock := some (proc, .flushes data) }
    else { w with lock := some (proc, .unlocks true) }
  | .locked (.sample flush) =>
    let read := if w.accounting then w.table else none
    { w with lock := some (proc, if ok then .sampled flush read else .unlocks true) }
  | .sampled _ none => { w with lock := some (proc, .unlocks false) }
  | .sampled flush (some read) =>
    let data := w.data.sample w.now w.boot flush read
    if ok then
      { w with
        ram := some data
        recorded := w.recorded.add (w.data.growth w.boot read)
        lock := some (proc, if w.data.isDue w.now flush then .flushes data else .unlocks false) }
    else { w with lock := some (proc, .unlocks true) }
  | .flushes data =>
    { w with disk := if ok then some data else w.disk, lock := some (proc, .unlocks (!ok)) }
  | .unlocks failed =>
    { w with lock := none, procs := if failed then w.procs.modify proc .fail else w.procs }

def next (w : World) (proc : Nat) (ok : Bool) : List Cmd → World
  | [] => w
  | .history job :: rest =>
    { w with
      procs := w.procs.modify proc ({ · with cmds := rest })
      lock := if ok && w.lock.isNone then some (proc, .locked job) else w.lock }
  | .deleteTable :: rest =>
    { w with
      procs := w.procs.modify proc ({ · with cmds := rest })
      table := if ok then none else w.table
      spent := if ok then false else w.spent }

def left (w : World) (proc : Nat) : List Cmd := (w.procs[proc]?).elim [] (·.cmds)

def goes (w : World) (proc : Nat) (ok : Bool) : World :=
  match w.lock with
  | some (holder, phase) =>
    if holder = proc then w.held proc ok phase else w.next proc ok (w.left proc)
  | none => w.next proc ok (w.left proc)

def step (w : World) : Event → Option World
  | .tick seconds => some { w with now := w.now + seconds }
  | .grow bytes =>
    match w.table with
    | some counters =>
      some { w with table := some (counters.add bytes), counted := w.counted.add bytes }
    | none => some w
  | .create => some { w with table := w.table <|> some .zero }
  | .setAccounting on => some { w with accounting := on }
  | .spawn script => some { w with procs := w.procs ++ [script] }
  | .goes proc ok => some (w.goes proc ok)
  | .reboot => some { w with
      boot := w.boot + 1, table := none, lock := none, ram := none, procs := [], spent := false }

/-- No byte is counted twice. -/
structure Honest (w : World) : Prop where
  recorded : ∀ way, w.recorded.get way ≤ w.counted.get way
  rows : ∀ data, w.ram = some data ∨ w.disk = some data →
    ∀ way, data.total way ≤ w.recorded.get way

def reads (w : World) : Event → Bool
  | .goes proc _ =>
    match w.lock with
    | some (holder, .locked (.sample _)) => holder == proc && w.accounting
    | _ => false
  | _ => false

/-- A sample does not read counters whose baseline was reset before the table was
    deleted. -/
def ReadsLive (w : World) (event : Event) : Prop := w.reads event → w.spent = false

end World

namespace Data

theorem growth_get (boot : Nat) (read : Traffic) (data : Data) (way : Way) :
    (data.growth boot read).get way =
      Metering.growth (data.same boot) (read.get way) (data.baseline.get way) := by
  cases way <;> rfl

theorem column_append (way : Way) (rows more : List Row) :
    column way (rows ++ more) = column way rows + column way more := by
  induction rows with
  | nil => simp [column]
  | cons row rows ih =>
    simp only [column, List.cons_append, List.foldr_cons] at ih ⊢
    omega

theorem column_singleton (way : Way) (row : Row) : column way [row] = row.traffic.get way := by
  simp [column]

theorem column_addTo (hour : Int) (traffic : Traffic) (rows : List Row) (way : Way) :
    column way (addTo hour traffic rows) = column way rows + traffic.get way := by
  cases rows using List.reverseRecOn with
  | nil => simp [column, addTo]
  | append_singleton rows last =>
    simp only [addTo, List.getLast?_append, List.getLast?_singleton, Option.some_or]
    split
    · rw [List.dropLast_concat, column_append, column_append, column_singleton, column_singleton,
        Traffic.add_get, Nat.add_assoc]
    · rw [column_append, column_singleton]

theorem column_filter (keep : Row → Bool) (rows : List Row) (way : Way) :
    column way (rows.filter keep) ≤ column way rows := by
  induction rows with
  | nil => simp
  | cons row rows ih =>
    rw [List.filter_cons]
    simp only [column] at ih ⊢
    split
    · simp only [List.foldr_cons]
      omega
    · simp only [List.foldr_cons]
      omega

theorem total_sample (now boot : Nat) (flush : Bool) (read : Traffic) (data : Data) (way : Way) :
    (data.sample now boot flush read).total way ≤
      data.total way + (data.growth boot read).get way := by
  rw [total, sample, column_addTo]
  exact Nat.add_le_add_right (column_filter _ _ _) _

theorem total_reset (now boot : Nat) (data : Data) (way : Way) :
    (data.reset now boot).total way ≤ data.total way := column_filter _ _ _

end Data

namespace World

variable {w w' : World}

def inFlight : Option (Nat × Phase) → Option Traffic
  | some (_, .sampled _ read) => read
  | _ => none

def meter (w : World) (way : Way) : Meter where
  same := w.data.same w.boot
  base := w.data.baseline.get way
  counter := if w.spent then none else w.table.map (·.get way)
  inFlight := (inFlight w.lock).map (·.get way)
  recorded := w.recorded.get way
  counted := w.counted.get way

/-- The invariant. -/
structure Sound (w : World) : Prop where
  meters : ∀ way, (w.meter way).Sound
  rows : ∀ data, w.ram = some data ∨ w.disk = some data →
    ∀ way, data.total way ≤ w.recorded.get way
  flushed : ∀ proc data, w.lock = some (proc, .flushes data) → w.ram = some data

theorem initial_sound : Sound {} where
  meters _ := ⟨0, by simp [meter, Meter.reserved, inFlight], by simp [meter]⟩
  rows := by simp
  flushed := by simp

theorem Sound.honest (sound : w.Sound) : w.Honest where
  recorded way := (sound.meters way).recorded_le
  rows := sound.rows

theorem Sound.rows_data (sound : w.Sound) (way : Way) : w.data.total way ≤ w.recorded.get way := by
  rw [data]
  cases ram : w.ram with
  | some data => exact sound.rows data (.inl ram) way
  | none =>
    cases disk : w.disk with
    | some data => exact sound.rows data (.inr disk) way
    | none => exact Nat.zero_le _

theorem Sound.lock (sound : w.Sound) (lock : Option (Nat × Phase)) (nothing : inFlight lock = none)
    (no_flush : ∀ proc data, lock ≠ some (proc, .flushes data)) : Sound { w with lock } where
  meters way := by
    have left : meter { w with lock } way =
      { w.meter way with inFlight := (inFlight lock).map (·.get way) } := rfl
    rw [left, nothing]
    exact (sound.meters way).abandon
  rows := sound.rows
  flushed proc data eq := absurd eq (no_flush proc data)

theorem Sound.procs (sound : w.Sound) (procs : List Script) : Sound { w with procs } where
  meters := sound.meters
  rows := sound.rows
  flushed := sound.flushed

theorem Sound.grow (sound : w.Sound) {counters : Traffic} (table : w.table = some counters)
    (bytes : Traffic) :
    Sound { w with table := some (counters.add bytes), counted := w.counted.add bytes } where
  meters way := by
    have grown := (sound.meters way).grow (bytes.get way)
    simp only [meter, table, data] at grown ⊢
    cases spent : w.spent with
    | true => simpa [spent] using grown
    | false => simpa [spent] using grown
  rows := sound.rows
  flushed := sound.flushed

theorem Sound.create (sound : w.Sound) : Sound { w with table := w.table <|> some .zero } where
  meters way := by
    cases table : w.table with
    | some counters => simpa [meter, table, data] using sound.meters way
    | none =>
      cases spent : w.spent with
      | true => simpa [meter, spent, data] using sound.meters way
      | false => simpa [meter, data] using (sound.meters way).start
  rows := sound.rows
  flushed := sound.flushed

theorem Sound.reboot (sound : w.Sound) : Sound { w with
    boot := w.boot + 1, table := none, lock := none, ram := none, procs := [], spent := false } where
  meters way := (sound.meters way).hide.abandon.rebase rfl (.inl rfl) _ _
  rows data stored := sound.rows data (.inr (by simpa using stored))
  flushed := by simp

theorem Sound.next (sound : w.Sound) (proc : Nat) (ok : Bool) (cmds : List Cmd) :
    (w.next proc ok cmds).Sound := by
  match cmds with
  | [] => exact sound
  | .history job :: rest =>
    simp only [World.next]
    split
    · exact (sound.lock (some (proc, .locked job)) rfl (by simp)).procs _
    · exact sound.procs _
  | .deleteTable :: rest =>
    cases ok with
    | true =>
      exact {
        meters := fun way => (sound.meters way).hide
        rows := sound.rows
        flushed := sound.flushed }
    | false => exact sound.procs _

theorem Sound.reset (sound : w.Sound) (proc : Nat) :
    Sound { w with
      ram := some (w.data.reset w.now w.boot)
      spent := w.table.any (· ≠ .zero)
      lock := some (proc, .flushes (w.data.reset w.now w.boot)) } where
  meters way := by
    have shown : (if w.table.any (· ≠ .zero) then none else w.table.map (·.get way)) = none ∨
        (if w.table.any (· ≠ .zero) then none else w.table.map (·.get way)) = some 0 := by
      cases w.table with
      | none => exact .inl rfl
      | some counters =>
        by_cases zero : counters = .zero
        · exact .inr (by simp [zero])
        · exact .inl (by simp [zero])
    have eq : meter { w with
        ram := some (w.data.reset w.now w.boot)
        spent := w.table.any (· ≠ .zero)
        lock := some (proc, .flushes (w.data.reset w.now w.boot)) } way =
      { w.meter way with
        same := true
        base := 0
        counter := if w.table.any (· ≠ .zero) then none else w.table.map (·.get way)
        inFlight := none } := by
      simp [meter, inFlight, data, Data.reset, Data.same]
    rw [eq]
    rcases shown with gone | zero
    · rw [gone]
      exact (sound.meters way).hide.abandon.rebase rfl (.inl rfl) true 0
    · rw [zero]
      exact (sound.meters way).start.abandon.rebase rfl (.inr rfl) true 0
  rows data stored way := by
    rcases stored with ram | disk
    · cases ram
      exact Nat.le_trans (Data.total_reset _ _ _ _) (sound.rows_data way)
    · exact sound.rows data (.inr disk) way
  flushed _ _ eq := by
    cases eq
    rfl

theorem Sound.read (sound : w.Sound) (proc : Nat) (flush : Bool) {job : Job} {counters : Traffic}
    (lock : w.lock = some (proc, .locked job)) (table : w.table = some counters)
    (live : w.spent = false) :
    Sound { w with lock := some (proc, .sampled flush counters) } where
  meters way := by
    have idle : (w.meter way).inFlight = none := by simp [meter, lock, inFlight]
    have shown : (w.meter way).counter = some (counters.get way) := by simp [meter, table, live]
    exact (sound.meters way).read idle shown
  rows := sound.rows
  flushed := by simp

theorem Sound.record (sound : w.Sound) {proc : Nat} {flush : Bool} {read : Traffic}
    (lock : w.lock = some (proc, .sampled flush (some read))) (phase : Phase)
    (idle : inFlight (some (proc, phase)) = none)
    (flushes : ∀ data, phase = .flushes data → data = w.data.sample w.now w.boot flush read) :
    Sound { w with
      ram := some (w.data.sample w.now w.boot flush read)
      recorded := w.recorded.add (w.data.growth w.boot read)
      lock := some (proc, phase) } where
  meters way := by
    have flight : (w.meter way).inFlight = some (read.get way) := by simp [meter, lock, inFlight]
    have recorded := (sound.meters way).record flight
    simpa [meter, idle, data, Data.growth_get, Data.sample, Data.same] using recorded
  rows data stored way := by
    have before := sound.rows_data way
    rw [Traffic.add_get]
    rcases stored with ram | disk
    · cases ram
      have grown := Data.total_sample w.now w.boot flush read w.data way
      omega
    · have := sound.rows data (.inr disk) way
      omega
  flushed _ data eq := by
    cases eq
    exact congrArg some (flushes data rfl).symm

theorem Sound.flush (sound : w.Sound) {proc : Nat} {data : Data}
    (lock : w.lock = some (proc, .flushes data)) (failed : Bool) :
    Sound { w with disk := some data, lock := some (proc, .unlocks failed) } := by
  have ram := sound.flushed proc data lock
  have unlocked := sound.lock (some (proc, .unlocks failed)) rfl (by simp)
  refine ⟨fun way => ?_, fun stored there way => ?_, unlocked.flushed⟩
  · simpa [meter, World.data, ram] using unlocked.meters way
  · rcases there with there | there
    · exact sound.rows stored (.inl there) way
    · cases there
      exact sound.rows data (.inl ram) way

theorem Sound.held (sound : w.Sound) {proc : Nat} {phase : Phase} (lock : w.lock = some (proc, phase))
    (ok : Bool) (live : w.ReadsLive (.goes proc ok)) : (w.held proc ok phase).Sound := by
  simp only [ReadsLive, reads, lock] at live
  match phase with
  | .locked .reset =>
    cases ok with
    | true => exact sound.reset proc
    | false => exact sound.lock _ rfl (by simp)
  | .locked (.sample flush) =>
    cases ok with
    | false => exact sound.lock _ rfl (by simp)
    | true =>
      simp only [World.held]
      cases read : (if w.accounting then w.table else none) with
      | none => exact sound.lock _ rfl (by simp)
      | some counters =>
        obtain ⟨accounting, table⟩ := Option.ite_none_right_eq_some.mp read
        exact sound.read proc flush lock table (live (by simpa using accounting))
  | .sampled flush none => exact sound.lock _ rfl (by simp)
  | .sampled flush (some read) =>
    cases ok with
    | false => exact sound.lock _ rfl (by simp)
    | true =>
      simp only [World.held, if_true]
      split
      · exact sound.record lock _ rfl (by simp)
      · exact sound.record lock _ rfl (by simp)
  | .flushes data =>
    cases ok with
    | true => exact sound.flush lock false
    | false => exact sound.lock _ rfl (by simp)
  | .unlocks failed => exact (sound.lock none rfl (by simp)).procs _

theorem Sound.goes (sound : w.Sound) (proc : Nat) (ok : Bool) (live : w.ReadsLive (.goes proc ok)) :
    (w.goes proc ok).Sound := by
  rw [World.goes]
  split
  case h_1 holder phase lock =>
    split
    case isTrue same => exact sound.held (same ▸ lock) ok live
    case isFalse => exact sound.next proc ok _
  case h_2 => exact sound.next proc ok _

theorem Sound.step (sound : w.Sound) {event : Event} (live : w.ReadsLive event)
    (next : w.step event = some w') : w'.Sound := by
  cases event with
  | tick seconds =>
    cases next
    exact ⟨sound.meters, sound.rows, sound.flushed⟩
  | grow bytes =>
    simp only [World.step] at next
    split at next
    case h_1 counters table =>
      cases next
      exact sound.grow table bytes
    case h_2 =>
      cases next
      exact sound
  | create =>
    cases next
    exact sound.create
  | setAccounting on =>
    cases next
    exact ⟨sound.meters, sound.rows, sound.flushed⟩
  | spawn script =>
    cases next
    exact sound.procs _
  | goes proc ok =>
    cases next
    exact sound.goes proc ok live
  | reboot =>
    cases next
    exact sound.reboot

/-- If no sample reads counters whose baseline was reset before the table was deleted, no byte
    is counted twice. -/
theorem history_counts_once (events : List Event) (live : Each step ReadsLive {} events) :
    Always step Honest {} events := by
  have always : Always step Sound {} events :=
    always_of_kept (fun _ _ _ sound live next => sound.step live next) initial_sound live
  exact always.mono fun _ sound => sound.honest

instance (w : World) : DecidablePred w.ReadsLive := fun event =>
  inferInstanceAs (Decidable (w.reads event → w.spent = false))

def stopAndStart : List Event :=
  [.create, .grow ⟨100, 50⟩, .spawn (stopRules true), .spawn monitor] ++
    List.replicate 10 (.goes 0 true) ++ [.create, .grow ⟨7, 3⟩] ++ List.replicate 4 (.goes 1 true)

theorem history_counts_once_stop :
    (run step {} stopAndStart).map (fun w => (w.recorded, w.counted)) = some (⟨107, 53⟩, ⟨107, 53⟩) ∧
      Always step Honest {} stopAndStart :=
  ⟨by decide, history_counts_once stopAndStart (by decide)⟩

def sampleInStop : List Event :=
  [.create, .grow ⟨100, 50⟩, .spawn (stopRules true), .spawn monitor] ++
    List.replicate 9 (.goes 0 true) ++ List.replicate 4 (.goes 1 true) ++ [.goes 0 true]

theorem sample_in_stop_counts_twice :
    (run step {} sampleInStop).map (fun w => (w.recorded, w.counted)) = some (⟨200, 100⟩, ⟨100, 50⟩) ∧
      ¬ Always step Honest {} sampleInStop := by
  have last : (run step {} sampleInStop).map (fun w => (w.recorded, w.counted)) =
      some (⟨200, 100⟩, ⟨100, 50⟩) := by decide
  refine ⟨last, fun always => ?_⟩
  obtain ⟨w, reached, eq⟩ := Option.map_eq_some_iff.mp last
  obtain ⟨recorded, counted⟩ := Prod.mk.inj eq
  have honest := (always.last reached).recorded .up
  rw [recorded, counted] at honest
  revert honest
  decide

end World

end Gozarbin.Router.History
