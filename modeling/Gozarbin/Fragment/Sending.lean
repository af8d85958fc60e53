import Gozarbin.Fragment.Stream

/-! # Writing a ClientHello through a fragmenting stream

A writer offers a buffer to the stream until all of it is written, each time from where the last
write stopped. The first piece ends in the middle of the server name, but the inner stream may
take less, and only the first write looks for the name.
-/

namespace Gozarbin.Fragment

open Runs
open Masque (WordSize)

inductive SendEvent where
  | write (draw delay : Nat) (answer : Poll)
  | flush
  | expire
  deriving DecidableEq

structure Sending where
  stream : FragmentingStream
  written : Nat
  firstTaken : Option Nat
  pieces : List (Nat × Nat)
  deriving DecidableEq

def Poll.amount : Poll → Nat
  | ready n => n
  | failed => 0
  | pending => 0

namespace Sending

def start (cfg : FragmentConfig) : Sending := ⟨.new cfg, 0, none, []⟩

def called (s : Sending) (stream : FragmentingStream) (call : Call) : Sending where
  stream := stream
  written := s.written + call.result.amount
  firstTaken := s.firstTaken.or (if call.result.amount > 0 then some call.result.amount else none)
  pieces :=
    match call.inner with
    | some (piece, _) => s.pieces ++ [(s.written, s.written + piece.length)]
    | none => s.pieces

def step (word : WordSize) (buf : Bytes) (s : Sending) : SendEvent → Option Sending
  | .write draw delay answer =>
    if s.written < buf.length then
      match s.stream.pollWrite word (buf.drop s.written) draw delay answer with
      | .ok (stream, call) => some (s.called stream call)
      | .error _ => none
    else some s
  | .flush => some s
  | .expire => some { s with stream := s.stream.expire }

end Sending

/-- The piece has all of the bytes between the two places. -/
def Contains (piece : Nat × Nat) (start stop : Nat) : Prop := piece.1 ≤ start ∧ stop ≤ piece.2

instance (piece : Nat × Nat) (start stop : Nat) : Decidable (Contains piece start stop) :=
  inferInstanceAs (Decidable (_ ∧ _))

section
variable {word : WordSize} {cfg : FragmentConfig} {buf : Bytes} {start stop n : Nat} {s : Sending}

theorem FragmentingStream.answered_eq (s : FragmentingStream) (delay : Nat) (answer : Poll) :
    (s.answered delay answer).cfg = s.cfg ∧
      (s.answered delay answer).fragmenting = s.fragmenting ∧
      (s.answered delay answer).firstWrite = (s.firstWrite && answer.amount = 0) := by
  cases answer with
  | ready n => cases n <;> simp [answered, Poll.amount]
  | failed => simp [answered, Poll.amount]
  | pending => simp [answered, Poll.amount]

theorem pieceLen_first {stream : FragmentingStream} (first : stream.firstWrite = true)
    (split : stream.cfg.sniSplit = true) (found : hostRange buf = some (start, stop))
    (wide : start + 2 ≤ stop) (draw : Nat) :
    stream.pieceLen buf draw = start + (stop - start) / 2 := by
  have inside := hostRange_inside found
  have cut : stream.cut buf = some (start + (stop - start) / 2) := by
    rw [FragmentingStream.cut, first, split, found]
    rfl
  rw [FragmentingStream.pieceLen, cut]
  refine if_pos ?_
  simp only [Bool.and_eq_true, decide_eq_true_eq]
  omega

theorem pieceLen_later {stream : FragmentingStream} (later : stream.firstWrite = false) (draw : Nat) :
    stream.pieceLen buf draw = stream.cfg.pickChunkLen buf.length draw := by
  have cut : stream.cut buf = none := by
    rw [FragmentingStream.cut, later]
    rfl
  rw [FragmentingStream.pieceLen, cut]

def Sending.offered (s : Sending) (len delay : Nat) (result : Poll) : Sending where
  stream := FragmentingStream.answered { s.stream with pendingDelay := none } delay result
  written := s.written + result.amount
  firstTaken := s.firstTaken.or (if result.amount > 0 then some result.amount else none)
  pieces := s.pieces ++ [(s.written, s.written + len)]

@[simp] theorem Sending.offered_cfg (s : Sending) (len delay : Nat) (result : Poll) :
    (s.offered len delay result).stream.cfg = s.stream.cfg :=
  (FragmentingStream.answered_eq _ _ _).1

@[simp] theorem Sending.offered_fragmenting (s : Sending) (len delay : Nat) (result : Poll) :
    (s.offered len delay result).stream.fragmenting = s.stream.fragmenting :=
  (FragmentingStream.answered_eq _ _ _).2.1

@[simp] theorem Sending.offered_firstWrite (s : Sending) (len delay : Nat) (result : Poll) :
    (s.offered len delay result).stream.firstWrite = (s.stream.firstWrite && result.amount = 0) :=
  (FragmentingStream.answered_eq _ _ _).2.2

@[simp] theorem Sending.offered_written (s : Sending) (len delay : Nat) (result : Poll) :
    (s.offered len delay result).written = s.written + result.amount := rfl

@[simp] theorem Sending.offered_pieces (s : Sending) (len delay : Nat) (result : Poll) :
    (s.offered len delay result).pieces = s.pieces ++ [(s.written, s.written + len)] := rfl

theorem Sending.offered_taken {n : Nat} (taken : s.firstTaken = some n) (len delay : Nat)
    (result : Poll) : (s.offered len delay result).firstTaken = some n := by
  rw [offered, taken, Option.some_or]

theorem Sending.offered_first (none_taken : s.firstTaken = none) (len delay : Nat) (result : Poll) :
    (s.offered len delay result).firstTaken =
      if result.amount > 0 then some result.amount else none := by
  rw [offered, none_taken, Option.none_or]

theorem Sending.step_piece (left : s.written < buf.length) (on : s.stream.fragmenting = true)
    (ready : s.stream.pendingDelay ≠ some .running) (draw delay : Nat) (answer : Poll) :
    s.step word buf (.write draw delay answer) =
      some (s.offered (s.stream.pieceLen (buf.drop s.written) draw) delay
        (answer.atMost (s.stream.pieceLen (buf.drop s.written) draw))) := by
  have given : buf.drop s.written ≠ [] := by simpa using left
  have bounds := s.stream.pieceLen_bounds given draw
  rw [step, if_pos left, s.stream.pollWrite_piece given on ready]
  simp only [called, offered, List.length_take_of_le bounds.2]

theorem Sending.step_waiting (on : s.stream.fragmenting = true)
    (waiting : s.stream.pendingDelay = some .running) (draw delay : Nat) (answer : Poll) :
    s.step word buf (.write draw delay answer) = some s := by
  rw [step]
  split
  next left =>
    have given : buf.drop s.written ≠ [] := by simpa using left
    rw [s.stream.pollWrite_waiting given on waiting]
    simp [called, Poll.amount]
  next => rfl

structure Cutting (cfg : FragmentConfig) (stop : Nat) (s : Sending) : Prop where
  configured : s.stream.cfg = cfg
  on : s.stream.fragmenting = true
  phase : (s.stream.firstWrite = true ∧ s.written = 0 ∧ s.firstTaken = none) ∨
    (s.stream.firstWrite = false ∧ ∃ n, s.firstTaken = some n ∧ n ≤ s.written)
  pieces : ∀ piece ∈ s.pieces, piece.2 < stop ∨
    ∃ n, s.firstTaken = some n ∧ n ≤ piece.1 ∧ piece.2 ≤ piece.1 + max cfg.sizeMax 1

theorem Cutting.initial (cfg : FragmentConfig) (stop : Nat) (on : cfg.enabled = true) :
    Cutting cfg stop (.start cfg) where
  configured := rfl
  on := on
  phase := .inl ⟨rfl, rfl, rfl⟩
  pieces := by simp [Sending.start]

theorem Cutting.piece (cutting : Cutting cfg stop s) (split : cfg.sniSplit = true)
    (found : hostRange buf = some (start, stop)) (wide : start + 2 ≤ stop)
    (left : s.written < buf.length) (draw : Nat) :
    s.written + s.stream.pieceLen (buf.drop s.written) draw < stop ∨
      ∃ n, s.firstTaken = some n ∧ n ≤ s.written ∧
        s.stream.pieceLen (buf.drop s.written) draw ≤ max cfg.sizeMax 1 := by
  obtain ⟨first, nothing, -⟩ | ⟨later, n, taken, before⟩ := cutting.phase
  · rw [← cutting.configured] at split
    rw [nothing, List.drop_zero, pieceLen_first first split found wide]
    omega
  · have some_left : 0 < (buf.drop s.written).length := by
      rw [List.length_drop]
      omega
    have bounds := s.stream.cfg.pickChunkLen_bounds draw some_left
    rw [cutting.configured] at bounds
    rw [pieceLen_later later, cutting.configured]
    exact .inr ⟨n, taken, before, by omega⟩

theorem Cutting.offered (cutting : Cutting cfg stop s) {len delay : Nat} {result : Poll}
    (reach : s.written + len < stop ∨
      ∃ n, s.firstTaken = some n ∧ n ≤ s.written ∧ len ≤ max cfg.sizeMax 1) :
    Cutting cfg stop (s.offered len delay result) where
  configured := by simp [cutting.configured]
  on := by simp [cutting.on]
  phase := by
    obtain ⟨first, nothing, none_taken⟩ | ⟨later, n, taken, before⟩ := cutting.phase
    · rw [Sending.offered_first none_taken]
      by_cases zero : result.amount = 0
      · exact .inl (by simp [first, nothing, zero])
      · exact .inr (by simp [zero, Nat.pos_of_ne_zero zero])
    · refine .inr ⟨by simp [later], n, Sending.offered_taken taken len delay result, ?_⟩
      exact Nat.le_add_right_of_le before
  pieces := by
    intro piece member
    rcases List.mem_append.mp member with old | new
    · obtain before | ⟨n, taken, bounds⟩ := cutting.pieces piece old
      · exact .inl before
      · exact .inr ⟨n, Sending.offered_taken taken len delay result, bounds⟩
    · rw [List.mem_singleton.mp new]
      obtain before | ⟨n, taken, after, short⟩ := reach
      · exact .inl before
      · exact .inr ⟨n, Sending.offered_taken taken len delay result, after,
          Nat.add_le_add_left short _⟩

theorem Cutting.step (word : WordSize) (cutting : Cutting cfg stop s) (split : cfg.sniSplit = true)
    (found : hostRange buf = some (start, stop)) (wide : start + 2 ≤ stop) (e : SendEvent) :
    ∃ s', s.step word buf e = some s' ∧ Cutting cfg stop s' := by
  cases e with
  | flush => exact ⟨s, rfl, cutting⟩
  | expire => exact ⟨_, rfl, cutting.configured, cutting.on, cutting.phase, cutting.pieces⟩
  | write draw delay answer =>
    by_cases waiting : s.stream.pendingDelay = some .running
    · exact ⟨s, Sending.step_waiting cutting.on waiting draw delay answer, cutting⟩
    by_cases left : s.written < buf.length
    · refine ⟨_, Sending.step_piece left cutting.on waiting draw delay answer, cutting.offered ?_⟩
      exact cutting.piece split found wide left draw
    · exact ⟨s, if_neg left, cutting⟩

theorem Cutting.hides (cutting : Cutting cfg stop s) (only : ∀ m ∈ s.firstTaken, m = n)
    (reach : start < n ∨ max cfg.sizeMax 1 < stop - start) {piece : Nat × Nat}
    (member : piece ∈ s.pieces) : ¬ Contains piece start stop := by
  rintro ⟨starts, ends⟩
  obtain before | ⟨m, taken, after, short⟩ := cutting.pieces piece member
  · omega
  · have same := only m taken
    omega

structure Past (cfg : FragmentConfig) (n w : Nat) (s : Sending) : Prop where
  configured : s.stream.cfg = cfg
  on : s.stream.fragmenting = true
  later : s.stream.firstWrite = false
  written : s.written = w
  taken : s.firstTaken = some n

theorem Past.write {w : Nat} (past : Past cfg n w s) (left : w < buf.length)
    (ready : s.stream.pendingDelay ≠ some .running) (draw : Nat) (answer : Poll) :
    ∃ s', s.step word buf (.write draw 0 answer) = some s' ∧
      Past cfg n (w + (answer.atMost (cfg.pickChunkLen (buf.length - w) draw)).amount) s' ∧
      (w, w + cfg.pickChunkLen (buf.length - w) draw) ∈ s'.pieces := by
  obtain ⟨rfl, on, later, rfl, taken⟩ := past
  have len : s.stream.pieceLen (buf.drop s.written) draw =
      s.stream.cfg.pickChunkLen (buf.length - s.written) draw := by
    rw [pieceLen_later later, List.length_drop]
  refine ⟨_, Sending.step_piece left on ready draw 0 answer, ?_, ?_⟩
  · exact ⟨by simp, by simp [on], by simp [later], by simp [len], Sending.offered_taken taken ..⟩
  · simp [len]

theorem Past.run_write {w : Nat} (word : WordSize) (past : Past cfg n w s) (left : w < buf.length)
    (draw : Nat) (answer : Poll) :
    ∃ s', run (Sending.step word buf) s [.expire, .write draw 0 answer] = some s' ∧
      Past cfg n (w + (answer.atMost (cfg.pickChunkLen (buf.length - w) draw)).amount) s' ∧
      (w, w + cfg.pickChunkLen (buf.length - w) draw) ∈ s'.pieces := by
  have elapsed : s.stream.expire.pendingDelay ≠ some .running := by
    rw [FragmentingStream.expire]
    cases s.stream.pendingDelay <;> simp
  have past' : Past cfg n w { s with stream := s.stream.expire } :=
    ⟨past.configured, past.on, past.later, past.written, past.taken⟩
  obtain ⟨s', next, rest⟩ := past'.write left elapsed draw answer
  refine ⟨s', ?_, rest⟩
  rw [run_cons, Sending.step, Option.bind_some, run_cons, next]
  rfl

theorem Past.run_until {w : Nat} (word : WordSize) (past : Past cfg n w s) (ahead : w ≤ start)
    (inside : start < buf.length) :
    ∃ events s', run (Sending.step word buf) s events = some s' ∧ Past cfg n start s' := by
  induction gap : start - w generalizing w s with
  | zero =>
    obtain rfl : w = start := by omega
    exact ⟨[], s, rfl, past⟩
  | succ k ih =>
    have left : w < buf.length := by omega
    obtain ⟨s₁, first, past₁, -⟩ := past.run_write word left 0 (.ready 1)
    have bounds := cfg.pickChunkLen_bounds 0 (Nat.sub_pos_of_lt left)
    have one : ((Poll.ready 1).atMost (cfg.pickChunkLen (buf.length - w) 0)).amount = 1 := by
      rw [Poll.atMost, Poll.amount]
      omega
    obtain ⟨events, s₂, later, past₂⟩ := ih past₁ (by omega) (by omega)
    refine ⟨[.expire, .write 0 0 (.ready 1)] ++ events, s₂, ?_, past₂⟩
    rw [run_append, first]
    exact later

theorem FragmentConfig.pickChunkLen_most (cfg : FragmentConfig) (remaining : Nat) :
    ∃ draw, cfg.pickChunkLen remaining draw = min (max cfg.sizeMax 1) remaining := by
  unfold pickChunkLen
  dsimp only
  generalize most : min (max cfg.sizeMax 1) remaining = hi
  generalize least : min (max cfg.sizeMin 1) hi = lo
  refine ⟨hi - lo, ?_⟩
  split
  · rfl
  · rw [Nat.mod_eq_of_lt (Nat.lt_succ_self _)]
    omega

theorem Past.first (word : WordSize) (on : cfg.enabled = true) (split : cfg.sniSplit = true)
    (found : hostRange buf = some (start, stop)) (wide : start + 2 ≤ stop) (some_taken : 0 < n)
    (short : n ≤ start) :
    ∃ s, Sending.step word buf (.start cfg) (.write 0 0 (.ready n)) = some s ∧ Past cfg n n s := by
  have inside := hostRange_inside found
  have left : (Sending.start cfg).written < buf.length := by
    show 0 < buf.length
    omega
  have ready : (Sending.start cfg).stream.pendingDelay ≠ some .running := by
    simp [Sending.start, FragmentingStream.new]
  have len : (Sending.start cfg).stream.pieceLen (buf.drop (Sending.start cfg).written) 0 =
      start + (stop - start) / 2 := pieceLen_first rfl split found wide 0
  have amount : ((Poll.ready n).atMost (start + (stop - start) / 2)).amount = n := by
    rw [Poll.atMost, Poll.amount]
    omega
  refine ⟨_, Sending.step_piece left on ready 0 0 (.ready n), ?_⟩
  rw [len]
  refine ⟨Sending.offered_cfg .., (Sending.offered_fragmenting ..).trans on, ?_, ?_, ?_⟩
  · simp [amount, Nat.ne_of_gt some_taken]
  · rw [Sending.offered_written, amount]
    exact Nat.zero_add n
  · rw [Sending.offered_first rfl, amount, if_pos some_taken]

theorem exists_leak (word : WordSize) (on : cfg.enabled = true) (split : cfg.sniSplit = true)
    (found : hostRange buf = some (start, stop)) (wide : start + 2 ≤ stop) (some_taken : 0 < n)
    (short : n ≤ start) (large : stop - start ≤ max cfg.sizeMax 1) :
    ∃ events s, run (Sending.step word buf) (.start cfg) events = some s ∧
      s.firstTaken = some n ∧ ∃ piece ∈ s.pieces, Contains piece start stop := by
  have inside := hostRange_inside found
  have left : start < buf.length := by omega
  obtain ⟨s₁, first, past₁⟩ := Past.first word on split found wide some_taken short
  obtain ⟨events, s₂, on_the_way, past₂⟩ := past₁.run_until word short left
  obtain ⟨draw, most⟩ := cfg.pickChunkLen_most (buf.length - start)
  obtain ⟨s₃, last, past₃, member⟩ := past₂.run_write word left draw .pending
  refine ⟨.write 0 0 (.ready n) :: (events ++ [.expire, .write draw 0 .pending]), s₃, ?_, past₃.taken,
    _, member, Nat.le_refl _, ?_⟩
  · rw [run_cons, first, Option.bind_some, run_append, on_the_way, Option.bind_some, last]
  · rw [most]
    omega

/-- No run offers the name in one piece precisely if what the inner stream takes first reaches
    into the name or the sizes are smaller. -/
theorem name_hidden_iff (on : cfg.enabled = true) (split : cfg.sniSplit = true)
    (found : sniHostRange word buf = .ok (start, stop)) (wide : 2 ≤ stop - start)
    (some_taken : 0 < n) :
    (∀ events s, run (Sending.step word buf) (.start cfg) events = some s →
        (∀ m ∈ s.firstTaken, m = n) → ∀ piece ∈ s.pieces, ¬ Contains piece start stop) ↔
      start < n ∨ max cfg.sizeMax 1 < stop - start := by
  rw [sniHostRange_eq, Machine.ofOption_eq_ok] at found
  have wide' : start + 2 ≤ stop := by omega
  constructor
  · intro hidden
    by_contra reach
    obtain ⟨events, s, reached, taken, piece, member, contains⟩ :=
      exists_leak word on split found wide' some_taken (by omega) (by omega)
    refine hidden events s reached ?_ piece member contains
    rw [taken]
    rintro m ⟨⟩
    rfl
  · intro reach events s reached only piece member
    obtain ⟨s', reached', cutting⟩ := exists_run
      (fun s e cutting _ => Cutting.step word cutting split found wide' e)
      (Cutting.initial cfg stop on) events (.of_forall fun _ _ => trivial)
    obtain rfl : s = s' := Option.some.inj (reached.symm.trans reached')
    exact cutting.hides only reach member

def defaultSplit : FragmentConfig := ⟨true, 8, 16, 2, 10, true⟩

theorem name_hidden_when_taken :
    sniHostRange .bits64 oneNameHello.encode = .ok (61, 71) ∧
      ∀ events s, run (Sending.step .bits64 oneNameHello.encode) (.start defaultSplit) events = some s →
        (∀ m ∈ s.firstTaken, m = 66) → ∀ piece ∈ s.pieces, ¬ Contains piece 61 71 :=
  have found : sniHostRange .bits64 oneNameHello.encode = .ok (61, 71) := by decide
  ⟨found, (name_hidden_iff rfl rfl found (by decide) (by decide)).mpr (.inl (by decide))⟩

theorem name_in_one_piece :
    sniHostRange .bits64 oneNameHello.encode = .ok (61, 71) ∧
      ∃ s, run (Sending.step .bits64 oneNameHello.encode) (.start defaultSplit)
          [.write 0 0 (.ready 60), .expire, .write 3 0 (.ready 11)] = some s ∧
        (60, 71) ∈ s.pieces ∧ Contains (60, 71) 61 71 := by
  decide

end

end Gozarbin.Fragment
