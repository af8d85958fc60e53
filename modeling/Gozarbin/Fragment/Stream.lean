import Gozarbin.Fragment.Range
import Gozarbin.Lib.Runs

/-! # Fragmenting the first writes

Until something is read `FragmentingStream` offers the socket only the first bytes of what it is
given, and waits between the pieces. The first piece can be made to end in the middle of the
server name. What the socket does with an offer is up to it.
-/

namespace Gozarbin.Fragment

open List Runs
open Masque (WordSize)

structure FragmentConfig where
  enabled : Bool
  sizeMin : Nat
  sizeMax : Nat
  delayMinMs : Nat
  delayMaxMs : Nat
  sniSplit : Bool
  deriving DecidableEq

namespace FragmentConfig

def pickChunkLen (cfg : FragmentConfig) (remaining draw : Nat) : Nat :=
  let hi := min (max cfg.sizeMax 1) remaining
  let lo := min (max cfg.sizeMin 1) hi
  if lo ≥ hi then hi else lo + draw % (hi - lo + 1)

def pickDelay (cfg : FragmentConfig) (draw : Nat) : Nat :=
  if cfg.delayMaxMs = 0 then 0
  else if cfg.delayMaxMs ≤ cfg.delayMinMs then cfg.delayMinMs
  else cfg.delayMinMs + draw % (cfg.delayMaxMs - cfg.delayMinMs + 1)

end FragmentConfig

/-- The answer to a write: `Ready(Ok(n))`, an error or `Pending`. -/
inductive Poll where
  | ready (n : Nat)
  | failed
  | pending
  deriving DecidableEq

def Poll.atMost (limit : Nat) : Poll → Poll
  | ready n => ready (min n limit)
  | failed => failed
  | pending => pending

inductive Sleep where
  | running
  | elapsed
  deriving DecidableEq

structure FragmentingStream where
  cfg : FragmentConfig
  fragmenting : Bool
  firstWrite : Bool
  pendingDelay : Option Sleep
  deriving DecidableEq

/-- One call of `poll_write`. -/
structure Call where
  buf : Bytes
  inner : Option (Bytes × Poll)
  result : Poll
  deriving DecidableEq

def Call.accepted (call : Call) : Bytes :=
  match call.inner with
  | some (piece, .ready n) => piece.take n
  | _ => []

def Call.reported (call : Call) : Bytes :=
  match call.result with
  | .ready n => call.buf.take n
  | _ => []

def middleOfName (word : WordSize) (buf : Bytes) : Machine (Option Nat) :=
  match sniHostRange word buf with
  | .ok (start, stop) => do
      let width ← sub stop start
      let split ← add word start (width / 2)
      return some split
  | .error .absent => .ok none
  | .error stop => .error stop

def sliceTo (buf : Bytes) (n : Nat) : Machine Bytes :=
  if n ≤ buf.length then .ok (buf.take n) else .error .panics

namespace FragmentingStream

def new (cfg : FragmentConfig) : FragmentingStream :=
  { cfg, fragmenting := cfg.enabled, firstWrite := true, pendingDelay := none }

def chunkLen (word : WordSize) (s : FragmentingStream) (buf : Bytes) (draw : Nat) : Machine Nat := do
  let targeted ← if s.firstWrite && s.cfg.sniSplit then middleOfName word buf else .ok none
  match targeted with
  | some split =>
    if split > 0 && split < buf.length then return split
    else return s.cfg.pickChunkLen buf.length draw
  | none => return s.cfg.pickChunkLen buf.length draw

def answered (s : FragmentingStream) (delay : Nat) : Poll → FragmentingStream
  | .ready n =>
    if n > 0 then
      { s with
        firstWrite := false
        pendingDelay := if s.cfg.pickDelay delay = 0 then s.pendingDelay else some .running }
    else s
  | .failed => s
  | .pending => s

def pollWrite (word : WordSize) (s : FragmentingStream) (buf : Bytes) (draw delay : Nat)
    (answer : Poll) : Machine (FragmentingStream × Call) :=
  if buf.isEmpty || !s.fragmenting then
    .ok (s, ⟨buf, some (buf, answer.atMost buf.length), answer.atMost buf.length⟩)
  else if s.pendingDelay = some .running then .ok (s, ⟨buf, none, .pending⟩)
  else do
    let s := { s with pendingDelay := none }
    let piece ← sliceTo buf (← s.chunkLen word buf draw)
    let result := answer.atMost piece.length
    return (s.answered delay result, ⟨buf, some (piece, result), result⟩)

def pollRead (s : FragmentingStream) : FragmentingStream := { s with fragmenting := false }

def expire (s : FragmentingStream) : FragmentingStream :=
  { s with pendingDelay := s.pendingDelay.map fun _ => .elapsed }

end FragmentingStream

inductive StreamEvent where
  | write (buf : Bytes) (draw delay : Nat) (answer : Poll)
  | read
  | flush
  | shutdown
  | expire
  deriving DecidableEq

/-- A stream and the writes it was asked for. -/
structure Session where
  stream : FragmentingStream
  calls : List Call
  deriving DecidableEq

namespace Session

def start (cfg : FragmentConfig) : Session := ⟨.new cfg, []⟩

def step (word : WordSize) (s : Session) : StreamEvent → Option Session
  | .write buf draw delay answer =>
    match s.stream.pollWrite word buf draw delay answer with
    | .ok (stream, call) => some ⟨stream, s.calls ++ [call]⟩
    | .error _ => none
  | .read => some { s with stream := s.stream.pollRead }
  | .flush => some s
  | .shutdown => some s
  | .expire => some { s with stream := s.stream.expire }

end Session

section
variable {word : WordSize} {s : FragmentingStream} {buf : Bytes} {draw delay : Nat} {answer : Poll}

theorem FragmentConfig.pickChunkLen_bounds (cfg : FragmentConfig) {remaining : Nat} (draw : Nat)
    (left : 0 < remaining) :
    0 < cfg.pickChunkLen remaining draw ∧
      cfg.pickChunkLen remaining draw ≤ min (max cfg.sizeMax 1) remaining := by
  unfold pickChunkLen
  dsimp only
  generalize least : min (max cfg.sizeMin 1) (min (max cfg.sizeMax 1) remaining) = lo
  generalize most : min (max cfg.sizeMax 1) remaining = hi at least
  split
  · omega
  · have within : draw % (hi - lo + 1) < hi - lo + 1 := Nat.mod_lt draw (Nat.succ_pos _)
    omega

theorem middleOfName_eq (word : WordSize) (buf : Bytes) :
    middleOfName word buf = .ok ((hostRange buf).map fun (start, stop) => start + (stop - start) / 2) := by
  rw [middleOfName, sniHostRange_eq]
  cases found : hostRange buf with
  | none => rfl
  | some place =>
    obtain ⟨s, e⟩ := place
    have inside := hostRange_inside found
    have width : sub e s = .ok (e - s) := if_pos (by omega)
    rw [Machine.ofOption, Option.map_some]
    simp only [width]
    exact add_bind (by omega)

namespace FragmentingStream

def cut (s : FragmentingStream) (buf : Bytes) : Option Nat :=
  if s.firstWrite && s.cfg.sniSplit then (hostRange buf).map fun (start, stop) => start + (stop - start) / 2 else none

def pieceLen (s : FragmentingStream) (buf : Bytes) (draw : Nat) : Nat :=
  match s.cut buf with
  | some split =>
    if split > 0 && split < buf.length then split else s.cfg.pickChunkLen buf.length draw
  | none => s.cfg.pickChunkLen buf.length draw

theorem chunkLen_eq (word : WordSize) (s : FragmentingStream) (buf : Bytes) (draw : Nat) :
    s.chunkLen word buf draw = .ok (s.pieceLen buf draw) := by
  rw [chunkLen, middleOfName_eq, pieceLen, cut]
  split
  · cases (hostRange buf).map fun (start, stop) => start + (stop - start) / 2 with
    | none => rfl
    | some middle =>
      exact (apply_ite Except.ok _ _ _).symm
  · rfl

theorem pieceLen_bounds (given : buf ≠ []) (draw : Nat) :
    0 < s.pieceLen buf draw ∧ s.pieceLen buf draw ≤ buf.length := by
  have picked := s.cfg.pickChunkLen_bounds draw (length_pos_iff.mpr given)
  unfold pieceLen
  split
  · split
    next inside => simp at inside; omega
    next => omega
  · omega

theorem pollWrite_direct (direct : buf = [] ∨ s.fragmenting = false) :
    s.pollWrite word buf draw delay answer =
      .ok (s, ⟨buf, some (buf, answer.atMost buf.length), answer.atMost buf.length⟩) := by
  rw [pollWrite, if_pos]
  simpa using direct

theorem pollWrite_waiting (given : buf ≠ []) (on : s.fragmenting = true)
    (waiting : s.pendingDelay = some .running) :
    s.pollWrite word buf draw delay answer = .ok (s, ⟨buf, none, .pending⟩) := by
  rw [pollWrite, if_neg (by simp [given, on]), if_pos waiting]

theorem pollWrite_piece (given : buf ≠ []) (on : s.fragmenting = true)
    (ready : s.pendingDelay ≠ some .running) :
    s.pollWrite word buf draw delay answer =
      .ok (answered { s with pendingDelay := none } delay (answer.atMost (s.pieceLen buf draw)),
        ⟨buf, some (buf.take (s.pieceLen buf draw), answer.atMost (s.pieceLen buf draw)),
          answer.atMost (s.pieceLen buf draw)⟩) := by
  have bounds := pieceLen_bounds (s := s) given draw
  have same : pieceLen { s with pendingDelay := none } buf draw = s.pieceLen buf draw := rfl
  rw [pollWrite, if_neg (by simp [given, on]), if_neg ready]
  simp only [chunkLen_eq, same]
  have slice : sliceTo buf (s.pieceLen buf draw) = .ok (buf.take (s.pieceLen buf draw)) :=
    if_pos bounds.2
  have length : (buf.take (s.pieceLen buf draw)).length = s.pieceLen buf draw :=
    length_take_of_le bounds.2
  simp only [bind, Except.bind, slice, length]
  rfl

end FragmentingStream

structure Call.Faithful (call : Call) : Prop where
  bytes : call.accepted = call.reported
  offered : ∀ piece result, call.inner = some (piece, result) →
    piece <+: call.buf ∧ (call.buf ≠ [] → piece ≠ [])
  zero : call.result = .ready 0 → ∃ piece, call.inner = some (piece, .ready 0)

theorem faithful_take {n : Nat} (pos : buf ≠ [] → 0 < n) (answer : Poll) :
    Call.Faithful ⟨buf, some (buf.take n, answer.atMost n), answer.atMost n⟩ where
  bytes := by
    cases answer with
    | ready k =>
      have least : min (min k n) n = min k n := by omega
      simp only [Call.accepted, Call.reported, Poll.atMost, take_take, least]
    | failed => rfl
    | pending => rfl
  offered := by
    rintro piece result same
    cases same
    refine ⟨ take_prefix n buf, fun given empty => ?_⟩
    have positive := pos given
    simp [given] at empty
    omega
  zero := fun nothing => ⟨_, by rw [← nothing]⟩

theorem pollWrite_faithful (word : WordSize) (s : FragmentingStream) (buf : Bytes) (draw delay : Nat)
    (answer : Poll) :
    ∃ s' call, s.pollWrite word buf draw delay answer = .ok (s', call) ∧ call.buf = buf ∧
      call.Faithful := by
  by_cases direct : buf = [] ∨ s.fragmenting = false
  · refine ⟨_, _, s.pollWrite_direct direct, rfl, ?_⟩
    have whole : Call.Faithful ⟨buf, some (buf.take buf.length, answer.atMost buf.length),
        answer.atMost buf.length⟩ := faithful_take length_pos_iff.mpr answer
    rwa [take_length] at whole
  obtain ⟨given, on⟩ := not_or.mp direct
  rw [Bool.not_eq_false] at on
  by_cases waiting : s.pendingDelay = some .running
  · refine ⟨_, _, s.pollWrite_waiting given on waiting, rfl, rfl, ?_, ?_⟩
    · rintro piece result same
      cases same
    · rintro same
      cases same
  · refine ⟨_, _, s.pollWrite_piece given on waiting, rfl, ?_⟩
    exact faithful_take (fun given => (s.pieceLen_bounds given draw).1) answer

end

def Session.Faithful (s : Session) : Prop := ∀ call ∈ s.calls, call.Faithful

def StreamEvent.buffer? : StreamEvent → Option Bytes
  | .write buf _ _ _ => some buf
  | _ => none

theorem Session.step_faithful (word : WordSize) (s : Session) (e : StreamEvent) (so_far : s.Faithful) :
    ∃ s', s.step word e = some s' ∧ s'.Faithful ∧
      s'.calls.map Call.buf = s.calls.map Call.buf ++ e.buffer?.toList := by
  have same := (append_nil (s.calls.map Call.buf)).symm
  cases e with
  | write buf draw delay answer =>
    obtain ⟨stream, call, wrote, rfl, faithful⟩ :=
      pollWrite_faithful word s.stream buf draw delay answer
    refine ⟨⟨stream, s.calls ++ [call]⟩, by rw [step, wrote], ?_, map_append⟩
    intro call' member
    rcases mem_append.mp member with old | new
    · exact so_far call' old
    · rwa [mem_singleton.mp new]
  | read => exact ⟨_, rfl, so_far, same⟩
  | flush => exact ⟨_, rfl, so_far, same⟩
  | shutdown => exact ⟨_, rfl, so_far, same⟩
  | expire => exact ⟨_, rfl, so_far, same⟩

theorem Session.run_faithful (word : WordSize) {s : Session} (so_far : s.Faithful)
    (events : List StreamEvent) :
    ∃ s', run (Session.step word) s events = some s' ∧ s'.Faithful ∧
      s'.calls.map Call.buf = s.calls.map Call.buf ++ events.filterMap StreamEvent.buffer? := by
  induction events generalizing s with
  | nil => exact ⟨s, rfl, so_far, (append_nil _).symm⟩
  | cons e events ih =>
    obtain ⟨s', next, faithful, first⟩ := step_faithful word s e so_far
    obtain ⟨last, reached, holds, rest⟩ := ih faithful
    rw [first, append_assoc] at rest
    refine ⟨last, by rw [run_cons, next]; exact reached, holds, rest.trans ?_⟩
    cases e <;> rfl

/-- Whatever the inner stream takes, it has taken the bytes that were reported, in pieces of
    what was given. -/
theorem fragmenting_keeps_bytes (word : WordSize) (cfg : FragmentConfig) (events : List StreamEvent) :
    ∃ s, run (Session.step word) (.start cfg) events = some s ∧
      s.calls.map Call.buf = events.filterMap StreamEvent.buffer? ∧
      s.calls.flatMap Call.accepted = s.calls.flatMap Call.reported ∧
      ∀ call ∈ s.calls,
        (∀ piece result, call.inner = some (piece, result) →
          piece <+: call.buf ∧ (call.buf ≠ [] → piece ≠ [])) ∧
        (call.result = .ready 0 → ∃ piece, call.inner = some (piece, .ready 0)) := by
  have nothing : (Session.start cfg).Faithful := by simp [Session.Faithful, Session.start]
  obtain ⟨s, reached, faithful, buffers⟩ := Session.run_faithful word nothing events
  refine ⟨s, reached, buffers, ?_, fun call member => ?_⟩
  · exact flatMap_congr fun call member => (faithful call member).bytes
  · exact ⟨(faithful call member).offered, (faithful call member).zero⟩

end Gozarbin.Fragment
