import Mathlib.Algebra.GroupWithZero.Nat
import Gozarbin.Netstack.Service

/-! # What one pass does to one connection

`Carries a b` says that between two states of a connection no byte appeared, vanished or changed
place. Every stage of a pass satisfies it. The loop that feeds the application has an exact
criterion for emptying the receive buffer (`Drains`).
-/

namespace Gozarbin.Netstack

open List

abbrev Conn := TcpState × TcpSocket

def Conn.download (c : Conn) : Bytes := c.1.toApp.sent.flatten ++ c.2.rx

def Conn.upload (c : Conn) : Bytes := c.2.tx ++ c.1.pending

structure Conn.Sound (c : Conn) : Prop where
  settled : c.1.established = true → c.2.phase ≠ .listen ∧ c.2.phase ≠ .synSent
  handed : c.1.fromStackRx = !c.1.established
  answered : c.1.connectResp.isSome = !c.1.established

theorem Conn.Sound.transfer {a b : Conn} (sound : a.Sound)
    (established : b.1.established = a.1.established)
    (fromStackRx : b.1.fromStackRx = a.1.fromStackRx)
    (connectResp : b.1.connectResp.isSome = a.1.connectResp.isSome)
    (phase : b.2.phase = a.2.phase ∨ b.2.phase ≠ .listen ∧ b.2.phase ≠ .synSent) : b.Sound where
  settled done := by
    rcases phase with same | settled
    · rw [same]
      exact sound.settled (established.symm.trans done)
    · exact settled
  handed := by rw [fromStackRx, established, sound.handed]
  answered := by rw [connectResp, established, sound.answered]

structure Carries (a b : Conn) : Prop where
  handle : b.1.handle = a.1.handle
  halfClosed : b.1.halfClosed = a.1.halfClosed
  pending : b.1.pending.length ≤ a.1.pending.length
  upload : b.upload = a.upload
  download : b.download = a.download
  received : b.2.received = a.2.received
  rxFin : b.2.rxFin = a.2.rxFin
  sound : a.Sound → b.Sound

theorem Carries.refl (a : Conn) : Carries a a :=
  ⟨rfl, rfl, Nat.le_refl _, rfl, rfl, rfl, rfl, fun sound => sound⟩

theorem Carries.trans {a b c : Conn} (first : Carries a b) (second : Carries b c) :
    Carries a c :=
  ⟨second.handle.trans first.handle, second.halfClosed.trans first.halfClosed,
    second.pending.trans first.pending, second.upload.trans first.upload,
    second.download.trans first.download, second.received.trans first.received,
    second.rxFin.trans first.rxFin, second.sound ∘ first.sound⟩

theorem close_carries (st : TcpState) (socket : TcpSocket) :
    Carries (st, socket) (st, socket.close) :=
  ⟨rfl, rfl, Nat.le_refl _, by simp [Conn.upload], by simp [Conn.download], by simp, by simp,
    fun sound => sound.transfer rfl rfl rfl (.inr (TcpSocket.close_settled _))⟩

theorem markConnected_carries (id : Nat) (st : TcpState) (socket : TcpSocket) :
    Carries (st, socket) ((markConnected id socket.phase st).1, socket) := by
  unfold markConnected
  split
  next connected =>
    have settled : socket.phase ≠ .listen ∧ socket.phase ≠ .synSent := by
      simp only [Bool.and_eq_true, Bool.or_eq_true, decide_eq_true_eq] at connected
      rcases connected.2 with phase | phase <;> simp [phase]
    split
    · split <;>
        exact ⟨rfl, rfl, Nat.le_refl _, rfl, rfl, rfl, rfl, fun _ => ⟨fun _ => settled, rfl, rfl⟩⟩
    · split <;>
        exact ⟨rfl, rfl, Nat.le_refl _, rfl, rfl, rfl, rfl, fun _ => ⟨fun _ => settled, rfl, rfl⟩⟩
  next => exact .refl _

def appPresent (st : TcpState) : Bool :=
  st.toApp.alive && st.connectResp.all fun resp => !resp.requesterGone

section markConnected
variable {id : Nat} {phase : TcpPhase} {st : TcpState}

theorem markConnected_pending : (markConnected id phase st).1.pending = st.pending := by
  unfold markConnected
  split
  · split <;> rfl
  · rfl

theorem markConnected_established :
    (markConnected id phase st).1.established =
      (st.established || phase = .established || phase = .closeWait) := by
  unfold markConnected
  cases done : st.established with
  | true => simp [done]
  | false =>
    split
    next connected =>
      split <;> exact connected.symm
    next idle => rw [done]; simpa using idle

theorem markConnected_alive {socket : TcpSocket} (sound : Conn.Sound (st, socket))
    (connected : (markConnected id socket.phase st).1.established = true) :
    (markConnected id socket.phase st).1.toApp.alive = appPresent st := by
  have answered := sound.answered
  have handed := sound.handed
  cases done : st.established with
  | true =>
    simp only [done, Bool.not_true, Option.isSome_eq_false_iff, Option.isNone_iff_eq_none]
      at answered
    simp [markConnected, appPresent, done, answered]
  | false =>
    rw [markConnected_established, done, Bool.false_or] at connected
    simp only [done] at answered handed
    obtain ⟨resp, waiting⟩ := Option.isSome_iff_exists.mp answered
    simp only [markConnected, done, connected, Bool.not_false, waiting,
      handed, appPresent, Option.all_some]
    cases resp.requesterGone <;> simp

theorem markConnected_effects {effect : Effect}
    (member : effect ∈ (markConnected id phase st).2) :
    ∃ resp, effect = .replyTcp resp (.ok id) := by
  unfold markConnected at member
  split at member
  · split at member
    · exact ⟨_, by simpa using member⟩
    · simp at member
  · simp at member

end markConnected

theorem pushPending_carries (io : PassIo) (st : TcpState) (socket : TcpSocket) :
    Carries (st, socket) (pushPending io st socket) := by
  unfold pushPending TcpSocket.sendSlice
  split
  · split
    · exact .refl _
    · split
      next sent after accepted =>
        split at accepted
        · cases accepted
          refine ⟨rfl, rfl, by simp, ?_, rfl, rfl, rfl,
            fun sound => sound.transfer rfl rfl rfl (.inl rfl)⟩
          simp [Conn.upload]
        · cases accepted
      next => exact .refl _
  · exact .refl _

section pushPending
variable (io : PassIo) (st : TcpState) (socket : TcpSocket)

theorem pushPending_eq :
    ∃ n, pushPending io st socket =
      ({ st with pending := st.pending.drop n }, { socket with tx := socket.tx ++ st.pending.take n }) := by
  unfold pushPending TcpSocket.sendSlice
  split
  · split
    · exact ⟨0, by simp⟩
    · split
      next sent after accepted =>
        split at accepted
        · cases accepted
          exact ⟨_, rfl⟩
        · cases accepted
      next => exact ⟨0, by simp⟩
  · exact ⟨0, by simp⟩

theorem pushPending_of_maySend (sending : socket.maySend = true) :
    pushPending io st socket =
      ({ st with pending := st.pending.drop io.room },
        { socket with tx := socket.tx ++ st.pending.take io.room }) := by
  unfold pushPending TcpSocket.sendSlice TcpSocket.canSend
  simp only [sending, Bool.true_and, decide_eq_true_eq, if_true]
  split
  · split
    next empty =>
      have none := isEmpty_iff.mp empty
      simp only [none, drop_nil, take_nil, append_nil]
      rw [← none]
    next =>
      rcases Nat.le_total io.room st.pending.length with short | long
      · simp
      · simp [Nat.min_eq_right long, drop_of_length_le long, take_of_length_le long]
  next closed =>
    have none : io.room = 0 := by omega
    simp [none]

end pushPending

theorem halfClose_carries (id : Nat) (st : TcpState) (socket : TcpSocket) :
    Carries (st, socket) (st, (halfClose id st socket).1) := by
  unfold halfClose closeSocket
  split
  · exact close_carries st socket
  · exact .refl _

section drain
variable {cut : Nat → Nat}

/-- `n` bytes go out in at most `slots` nonempty chunks of the lengths `cut 0, cut 1, …`. -/
def Drains (cut : Nat → Nat) (slots n : Nat) : Prop :=
  ∃ m ≤ slots, (∀ k < m, 0 < cut k) ∧ n ≤ ((List.range m).map cut).sum

instance (slots n : Nat) : Decidable (Drains cut slots n) :=
  inferInstanceAs (Decidable (∃ m ≤ slots, _))

theorem drains_zero (slots : Nat) : Drains cut slots 0 := ⟨0, Nat.zero_le _, by simp, by simp⟩

theorem not_drains_no_slots {n : Nat} (some_left : 0 < n) : ¬ Drains cut 0 n := by
  rintro ⟨m, none, -, enough⟩
  obtain rfl := Nat.le_zero.mp none
  simp at enough
  omega

theorem drains_succ {slots n : Nat} (some_left : 0 < n) :
    Drains cut (slots + 1) n ↔ 0 < cut 0 ∧ Drains (fun k => cut (k + 1)) slots (n - cut 0) := by
  constructor
  · rintro ⟨m, few, nonempty, enough⟩
    cases m with
    | zero => simp at enough; omega
    | succ m =>
      refine ⟨nonempty 0 (by omega), m, by omega, fun k small => nonempty (k + 1) (by omega), ?_⟩
      rw [range_succ_eq_map, map_cons, sum_cons, map_map] at enough
      have sums : ((List.range m).map (cut ∘ Nat.succ)).sum =
          ((List.range m).map fun k => cut (k + 1)).sum := rfl
      omega
  · rintro ⟨first, m, few, nonempty, enough⟩
    refine ⟨m + 1, by omega, ?_, ?_⟩
    · intro k small
      cases k with
      | zero => exact first
      | succ k => exact nonempty k (by omega)
    · rw [range_succ_eq_map, map_cons, sum_cons, map_map]
      have sums : ((List.range m).map (cut ∘ Nat.succ)).sum =
          ((List.range m).map fun k => cut (k + 1)).sum := rfl
      omega

variable (cut) (fuel delivered : Nat) (toApp : Chan Bytes) (socket : TcpSocket)

theorem drainToApp_reserved {permit : toApp.Permit} (reserved : toApp.tryReserve = .ok permit) :
    drainToApp cut (fuel + 1) delivered toApp socket =
      if socket.rx = [] ∨ cut delivered = 0 then ⟨toApp, socket, .done⟩
      else drainToApp cut fuel (delivered + 1)
        (toApp.send permit (socket.rx.take (cut delivered)))
        { socket with rx := socket.rx.drop (cut delivered) } := by
  rw [drainToApp, reserved]
  by_cases dry : socket.rx = []
  · simp [TcpSocket.canRecv, dry]
  · by_cases none : cut delivered = 0
    · simp [TcpSocket.recv, none]
    · simp [TcpSocket.canRecv, TcpSocket.recv, dry, none]

theorem drainToApp_refused {refusal : TrySendError} (refused : toApp.tryReserve = .error refusal) :
    drainToApp cut (fuel + 1) delivered toApp socket =
      ⟨toApp, socket, if refusal = .full then .backpressured else .appGone⟩ := by
  rw [drainToApp, refused]
  cases refusal <;> rfl

theorem drainToApp_socket :
    ∃ rx, (drainToApp cut fuel delivered toApp socket).socket = { socket with rx } := by
  induction fuel generalizing delivered toApp socket with
  | zero => exact ⟨socket.rx, rfl⟩
  | succ fuel ih =>
    cases reserve : toApp.tryReserve with
    | error refusal => exact ⟨socket.rx, by rw [drainToApp_refused _ _ _ _ _ reserve]⟩
    | ok permit =>
      rw [drainToApp_reserved _ _ _ _ _ reserve]
      split
      · exact ⟨socket.rx, rfl⟩
      · exact ih _ _ _

theorem drainToApp_alive :
    (drainToApp cut fuel delivered toApp socket).toApp.alive = toApp.alive := by
  induction fuel generalizing delivered toApp socket with
  | zero => rfl
  | succ fuel ih =>
    cases reserve : toApp.tryReserve with
    | error refusal => rw [drainToApp_refused _ _ _ _ _ reserve]
    | ok permit =>
      rw [drainToApp_reserved _ _ _ _ _ reserve]
      split
      · rfl
      · exact ih _ _ _

theorem drainToApp_conserves :
    (drainToApp cut fuel delivered toApp socket).toApp.sent.flatten ++
        (drainToApp cut fuel delivered toApp socket).socket.rx =
      toApp.sent.flatten ++ socket.rx := by
  induction fuel generalizing delivered toApp socket with
  | zero => rfl
  | succ fuel ih =>
    cases reserve : toApp.tryReserve with
    | error refusal => rw [drainToApp_refused _ _ _ _ _ reserve]
    | ok permit =>
      rw [drainToApp_reserved _ _ _ _ _ reserve]
      split
      · rfl
      · rw [ih]
        simp

theorem drainToApp_empties (alive : toApp.alive = true) :
    (drainToApp cut fuel delivered toApp socket).socket.rx = [] ↔
      Drains (fun k => cut (delivered + k)) (min toApp.free fuel) socket.rx.length := by
  induction fuel generalizing delivered toApp socket with
  | zero =>
    by_cases dry : socket.rx = []
    · simp [drainToApp, dry, drains_zero]
    · have some_left := length_pos_iff.mpr dry
      simpa [drainToApp, dry] using not_drains_no_slots some_left
  | succ fuel ih =>
    cases reserve : toApp.tryReserve with
    | error refusal =>
      have full : refusal = .full := by
        cases refusal with
        | full => rfl
        | closed => rw [Chan.tryReserve_closed reserve] at alive; cases alive
      subst full
      rw [drainToApp_refused _ _ _ _ _ reserve, (Chan.tryReserve_full reserve).2, Nat.zero_min]
      by_cases dry : socket.rx = []
      · simp [dry, drains_zero]
      · simpa [dry] using not_drains_no_slots (length_pos_iff.mpr dry)
    | ok permit =>
      rw [drainToApp_reserved _ _ _ _ _ reserve]
      by_cases dry : socket.rx = []
      · simp [dry, drains_zero]
      obtain ⟨slots, slots_eq⟩ : ∃ slots, min toApp.free (fuel + 1) = slots + 1 :=
        ⟨min toApp.free (fuel + 1) - 1, by have := permit.room; omega⟩
      rw [slots_eq, drains_succ (length_pos_iff.mpr dry)]
      by_cases none : cut delivered = 0
      · simp [dry, none]
      rw [if_neg (by simp [dry, none]), ih _ (toApp.send permit _) _ alive, Chan.send_free,
        length_drop]
      -- The loop goes on with one slot, one chunk and `cut delivered` bytes less.
      have fewer : min (toApp.free - 1) fuel = slots := by omega
      have shifted : (fun k => cut (delivered + 1 + k)) = fun k => cut (delivered + (k + 1)) := by
        funext k
        rw [Nat.add_assoc, Nat.add_comm 1 k]
      simp only [fewer, shifted, Nat.add_zero, Nat.pos_of_ne_zero none, true_and]

theorem drainToApp_appGone (some_fuel : 0 < fuel) :
    (drainToApp cut fuel delivered toApp socket).why = .appGone ↔ toApp.alive = false := by
  induction fuel generalizing delivered toApp socket with
  | zero => omega
  | succ fuel ih =>
    cases reserve : toApp.tryReserve with
    | error refusal =>
      rw [drainToApp_refused _ _ _ _ _ reserve]
      cases refusal with
      | full => simp [(Chan.tryReserve_full reserve).1]
      | closed => simp [Chan.tryReserve_closed reserve]
    | ok permit =>
      have alive := permit.alive
      rw [drainToApp_reserved _ _ _ _ _ reserve]
      split
      · simp [alive]
      · cases fuel with
        | zero => simp [drainToApp, alive]
        | succ fuel => exact ih _ _ _ (Nat.succ_pos _)

end drain

section moveBytes
variable (io : PassIo) (id : Nat) (st : TcpState) (socket : TcpSocket)

theorem moveBytes_carries : Carries (st, socket) (moveBytes io id st socket).1 := by
  let pushed := pushPending io st socket
  let closed := (halfClose id pushed.1 pushed.2).1
  have drains : Carries (pushed.1, closed) (moveBytes io id st socket).1 := by
    obtain ⟨rx, same⟩ := drainToApp_socket io.cut maxRecvChunks 0 pushed.1.toApp closed
    have tx := congrArg TcpSocket.tx same
    have received := congrArg TcpSocket.received same
    have rxFin := congrArg TcpSocket.rxFin same
    have phase := congrArg TcpSocket.phase same
    exact ⟨rfl, rfl, Nat.le_refl _, congrArg (· ++ pushed.1.pending) tx,
      drainToApp_conserves _ _ _ _ _, received, rxFin,
      fun sound => sound.transfer rfl rfl rfl (.inl phase)⟩
  exact (pushPending_carries io st socket).trans ((halfClose_carries id pushed.1 pushed.2).trans drains)

theorem moveBytes_entry :
    ∃ pending toApp, (moveBytes io id st socket).1.1 = { st with pending, toApp } ∧
      pending = (pushPending io st socket).1.pending ∧ toApp.alive = st.toApp.alive := by
  obtain ⟨n, pushed⟩ := pushPending_eq io st socket
  refine ⟨_, (moveBytes io id st socket).1.1.toApp, ?_, rfl, ?_⟩
  · simp only [moveBytes, pushed]
  · simp only [moveBytes, pushed]
    exact drainToApp_alive _ _ _ _ _

theorem moveBytes_established :
    (moveBytes io id st socket).1.1.established = st.established := by
  obtain ⟨pending, toApp, entry, -⟩ := moveBytes_entry io id st socket
  rw [entry]

theorem moveBytes_socket :
    ∃ rx, (moveBytes io id st socket).1.2 =
      { (halfClose id (pushPending io st socket).1 (pushPending io st socket).2).1 with rx } :=
  drainToApp_socket _ _ _ _ _

theorem moveBytes_closing :
    (moveBytes io id st socket).2.1 =
      if st.halfClosed = true ∧ (pushPending io st socket).1.pending = [] then
        [.close id [] (pushPending io st socket).2.tx st.toApp.alive]
      else [] := by
  obtain ⟨n, pushed⟩ := pushPending_eq io st socket
  simp only [moveBytes, halfClose, closeSocket, pushed]
  by_cases closing : st.halfClosed = true ∧ st.pending.drop n = []
  · simp [closing]
  · rw [if_neg closing, if_neg (by simpa using closing)]

theorem moveBytes_phase :
    (moveBytes io id st socket).1.2.phase =
      if st.halfClosed = true ∧ (pushPending io st socket).1.pending = [] then socket.phase.afterClose
      else socket.phase := by
  obtain ⟨n, pushed⟩ := pushPending_eq io st socket
  obtain ⟨rx, moved⟩ := moveBytes_socket io id st socket
  rw [moved]
  simp only [halfClose, pushed]
  by_cases closing : st.halfClosed = true ∧ st.pending.drop n = []
  · rw [if_pos closing, if_pos (by simpa using closing)]
    rfl
  · rw [if_neg closing, if_neg (by simpa using closing)]

theorem moveBytes_tx :
    (moveBytes io id st socket).1.2.tx = (pushPending io st socket).2.tx := by
  obtain ⟨rx, moved⟩ := moveBytes_socket io id st socket
  rw [moved]
  simp only [halfClose, closeSocket]
  split <;> simp

theorem moveBytes_broken :
    (moveBytes io id st socket).1.2.broken = socket.broken := by
  obtain ⟨n, pushed⟩ := pushPending_eq io st socket
  obtain ⟨rx, moved⟩ := moveBytes_socket io id st socket
  rw [moved]
  simp only [halfClose, closeSocket, pushed]
  split <;> simp

theorem moveBytes_appGone :
    (moveBytes io id st socket).2.2 = .appGone ↔ st.toApp.alive = false := by
  obtain ⟨n, pushed⟩ := pushPending_eq io st socket
  simp only [moveBytes, pushed]
  exact drainToApp_appGone _ _ _ _ _ (by decide)

theorem moveBytes_empties (alive : st.toApp.alive = true) :
    (moveBytes io id st socket).1.2.rx = [] ↔
      Drains io.cut (min st.toApp.free maxRecvChunks) socket.rx.length := by
  obtain ⟨n, pushed⟩ := pushPending_eq io st socket
  have unread : (halfClose id (pushPending io st socket).1 (pushPending io st socket).2).1.rx =
      socket.rx := by
    simp only [halfClose, closeSocket, pushed]
    split <;> simp
  have loop := drainToApp_empties io.cut maxRecvChunks 0 (pushPending io st socket).1.toApp
    (halfClose id (pushPending io st socket).1 (pushPending io st socket).2).1
    (by simpa only [pushed] using alive)
  rw [unread] at loop
  simpa only [moveBytes, pushed, Nat.zero_add] using loop

end moveBytes

section finish
variable (cfg : Config) (now id : Nat) (st : TcpState) (socket : TcpSocket)
  (effects : List Effect) (busy : Bool)

def TcpPhase.over (phase : TcpPhase) : Bool := phase = .closed || phase = .timeWait

theorem finish_over (ended : socket.phase.over = true) (established : st.established = true) :
    ∃ pending, finish id st socket effects busy =
      ⟨none, effects ++ [.removeTcp id { st with pending } socket], busy⟩ := by
  simp only [TcpPhase.over, Bool.or_eq_true, decide_eq_true_eq] at ended
  rcases ended with ended | ended
  · refine ⟨st.pending, ?_⟩
    simp [finish, ended]
    rw [← established]
  · refine ⟨[], ?_⟩
    simp [finish, ended, established]

theorem finish_on (on : socket.phase.over = false) :
    finish id st socket effects busy =
      if socket.phase = .closeWait then
        ⟨some (st, socket.close),
          effects ++ [.close id st.pending socket.tx st.toApp.alive], busy⟩
      else ⟨some (st, socket), effects, busy⟩ := by
  simp only [TcpPhase.over, Bool.or_eq_false_iff, decide_eq_false_iff_not] at on
  unfold finish closeSocket
  by_cases peer : socket.phase = .closeWait
  · simp [peer]
  · simp [peer, on.1, on.2]

variable {id st socket effects busy}

theorem finish_carries {c : Conn} (established : st.established = true)
    (kept : (finish id st socket effects busy).entry = some c) : Carries (st, socket) c := by
  cases ended : socket.phase.over with
  | true =>
    obtain ⟨pending, removed⟩ := finish_over id st socket effects busy ended established
    rw [removed] at kept
    cases kept
  | false =>
    rw [finish_on _ _ _ _ _ ended] at kept
    split at kept
    · cases kept
      exact close_carries st socket
    · cases kept
      exact .refl _

variable {cfg now}

theorem serviceOrphan_carries {c : Conn} (established : st.established = true)
    (kept : (serviceOrphan cfg now id st socket effects).entry = some c) :
    Carries (st, socket) c := by
  have noted : ∀ since, Carries (st, socket) ({ st with orphanedAt := since }, socket) := fun _ =>
    ⟨rfl, rfl, Nat.le_refl _, rfl, rfl, rfl, rfl, fun sound => sound.transfer rfl rfl rfl (.inl rfl)⟩
  simp only [serviceOrphan] at kept
  split at kept
  · cases kept
    split
    · exact ⟨rfl, rfl, Nat.le_refl _, rfl, rfl, rfl, rfl,
        fun sound => sound.transfer rfl rfl rfl (.inl rfl)⟩
    · exact ⟨rfl, rfl, Nat.le_refl _, rfl, rfl, rfl, rfl,
        fun sound => sound.transfer rfl rfl rfl (.inr (by simp [TcpSocket.abort]))⟩
  · exact (noted _).trans ((close_carries _ _).trans (finish_carries (by exact established) kept))

end finish

section serviceEntry
variable {cfg : Config} {now : Nat} {io : PassIo} {id : Nat} {st : TcpState} {socket : TcpSocket}

theorem serviceConn_connecting
    (connecting : (markConnected id socket.phase st).1.established = false) :
    serviceConn cfg now io id st socket = ⟨some (st, socket), [], false⟩ ∨
      ∃ reason, serviceConn cfg now io id st socket =
        ⟨none, failConnect st reason ++ [.removeTcp id st socket], false⟩ := by
  have unmarked : markConnected id socket.phase st = (st, []) := by
    rw [markConnected_established] at connecting
    simp only [Bool.or_eq_false_iff] at connecting
    simp [markConnected, connecting]
  rw [unmarked] at connecting
  simp only [serviceConn, unmarked]
  rw [if_neg (by simpa using connecting)]
  split
  · exact .inr ⟨_, rfl⟩
  · split
    · exact .inr ⟨_, rfl⟩
    · exact .inl rfl

theorem serviceEntry_outcome {motive : Served → Prop}
    (aborted : st.aborted = true → motive ⟨none, [.removeTcp id st socket], false⟩)
    (waiting : st.aborted = false → (markConnected id socket.phase st).1.established = false →
      motive ⟨some (st, socket), [], false⟩)
    (failed : st.aborted = false → (markConnected id socket.phase st).1.established = false →
      ∀ reason, motive ⟨none, failConnect st reason ++ [.removeTcp id st socket], false⟩)
    (orphan : st.aborted = false → (markConnected id socket.phase st).1.established = true →
      (markConnected id socket.phase st).1.toApp.alive = false →
      motive (serviceOrphan cfg now id
        (moveBytes io id (markConnected id socket.phase st).1 socket).1.1
        (moveBytes io id (markConnected id socket.phase st).1 socket).1.2
        ((markConnected id socket.phase st).2 ++
          (moveBytes io id (markConnected id socket.phase st).1 socket).2.1)))
    (present : st.aborted = false → (markConnected id socket.phase st).1.established = true →
      (markConnected id socket.phase st).1.toApp.alive = true → ∀ busy,
      motive (finish id (moveBytes io id (markConnected id socket.phase st).1 socket).1.1
        (moveBytes io id (markConnected id socket.phase st).1 socket).1.2
        ((markConnected id socket.phase st).2 ++
          (moveBytes io id (markConnected id socket.phase st).1 socket).2.1) busy)) :
    motive (serviceEntry cfg now io id st socket) := by
  unfold serviceEntry
  cases gone : st.aborted with
  | true => exact aborted gone
  | false =>
    rw [if_neg (by decide)]
    cases established : (markConnected id socket.phase st).1.established with
    | false =>
      rcases serviceConn_connecting established with same | ⟨reason, removed⟩
      · rw [same]
        exact waiting gone established
      · rw [removed]
        exact failed gone established reason
    | true =>
      simp only [serviceConn]
      rw [if_pos established]
      have appGone := moveBytes_appGone io id (markConnected id socket.phase st).1 socket
      simp only [serviceEstablished]
      split
      next why => exact orphan gone established (appGone.mp why)
      next why =>
        exact present gone established (by simpa [why] using appGone) true
      next why =>
        exact present gone established (by simpa [why] using appGone) false

theorem serviceEntry_carries {c : Conn} :
    (serviceEntry cfg now io id st socket).entry = some c → Carries (st, socket) c := by
  have moved : Carries (st, socket)
      (moveBytes io id (markConnected id socket.phase st).1 socket).1 :=
    (markConnected_carries id st socket).trans (moveBytes_carries _ _ _ _)
  refine serviceEntry_outcome (motive := fun served => served.entry = some c → _)
    ?aborted ?waiting ?failed ?orphan ?present
  case aborted => exact fun _ kept => by cases kept
  case waiting =>
    intro _ _ kept
    cases kept
    exact .refl _
  case failed => exact fun _ _ _ kept => by cases kept
  case orphan =>
    intro _ established _ kept
    exact moved.trans (serviceOrphan_carries ((moveBytes_established _ _ _ _).trans established) kept)
  case present =>
    intro _ established _ _ kept
    exact moved.trans (finish_carries ((moveBytes_established _ _ _ _).trans established) kept)

end serviceEntry

section closes
variable {cfg : Config} {now : Nat} {io : PassIo} {id : Nat} {st : TcpState} {socket : TcpSocket}
  {effects : List Effect} {busy : Bool} {i : Nat} {pending accepted : Bytes}

theorem finish_closes (established : st.established = true) :
    .close i pending accepted true ∈ (finish id st socket effects busy).effects ↔
      .close i pending accepted true ∈ effects ∨
        socket.phase = .closeWait ∧ st.toApp.alive = true ∧
          i = id ∧ pending = st.pending ∧ accepted = socket.tx := by
  cases ended : socket.phase.over with
  | true =>
    obtain ⟨left, removed⟩ := finish_over id st socket effects busy ended established
    have elsewhere : socket.phase ≠ .closeWait := fun same => by simp [same, TcpPhase.over] at ended
    simp [removed, elsewhere]
  | false =>
    rw [finish_on _ _ _ _ _ ended]
    by_cases peer : socket.phase = .closeWait
    · simp only [peer, if_true, mem_append, mem_singleton, Effect.close.injEq]
      tauto
    · simp [peer]

theorem serviceOrphan_closes (established : st.established = true) (gone : st.toApp.alive = false) :
    .close i pending accepted true ∈ (serviceOrphan cfg now id st socket effects).effects ↔
      .close i pending accepted true ∈ effects := by
  simp only [serviceOrphan]
  split
  · rfl
  · rw [finish_closes (by exact established)]
    simp [closeSocket, gone]

theorem moveBytes_finish_closes (established : st.established = true)
    (alive : st.toApp.alive = true) :
    .close i pending accepted true ∈
        (finish id (moveBytes io id st socket).1.1 (moveBytes io id st socket).1.2
          (effects ++ (moveBytes io id st socket).2.1) busy).effects ↔
      .close i pending accepted true ∈ effects ∨
        (st.halfClosed = true ∧ (pushPending io st socket).1.pending = [] ∨
            socket.phase = .closeWait) ∧
          i = id ∧ pending = (pushPending io st socket).1.pending ∧
          accepted = (pushPending io st socket).2.tx := by
  obtain ⟨left, toApp, entry, left_eq, alive_eq⟩ := moveBytes_entry io id st socket
  rw [finish_closes (by rw [entry]; exact established), moveBytes_tx, moveBytes_phase,
    moveBytes_closing, entry, mem_append]
  by_cases app : st.halfClosed = true ∧ (pushPending io st socket).1.pending = []
  · have moved_on : socket.phase.afterClose ≠ .closeWait := by cases socket.phase <;> decide
    simp [app, alive, moved_on]
  · simp [app, alive_eq, alive, left_eq]

theorem serviceEntry_closes :
    .close i pending accepted true ∈ (serviceEntry cfg now io id st socket).effects ↔
      st.aborted = false ∧ (markConnected id socket.phase st).1.established = true ∧
        (markConnected id socket.phase st).1.toApp.alive = true ∧
        (st.halfClosed = true ∧
            (pushPending io (markConnected id socket.phase st).1 socket).1.pending = [] ∨
          socket.phase = .closeWait) ∧
        i = id ∧ pending = (pushPending io (markConnected id socket.phase st).1 socket).1.pending ∧
        accepted = (pushPending io (markConnected id socket.phase st).1 socket).2.tx := by
  have half : (markConnected id socket.phase st).1.halfClosed = st.halfClosed :=
    (markConnected_carries id st socket).halfClosed
  have replies : .close i pending accepted true ∉ (markConnected id socket.phase st).2 := by
    intro member
    obtain ⟨resp, same⟩ := markConnected_effects member
    cases same
  refine serviceEntry_outcome (motive := fun served => _ ∈ served.effects ↔ _)
    ?aborted ?waiting ?failed ?orphan ?present
  case aborted => simp_all
  case waiting => simp_all
  case failed =>
    intro _ connecting reason
    have answered : .close i pending accepted true ∉ failConnect st reason := by
      unfold failConnect
      split <;> simp
    simp [connecting, answered]
  case orphan =>
    intro _ established gone
    obtain ⟨left, toApp, entry, -, alive_eq⟩ :=
      moveBytes_entry io id (markConnected id socket.phase st).1 socket
    rw [serviceOrphan_closes (by rw [entry]; exact established)
      (by rw [entry]; exact alive_eq.trans gone), moveBytes_closing]
    simp only [mem_append, replies]
    split <;> simp [gone]
  case present =>
    intro aborted established alive busy
    rw [moveBytes_finish_closes established alive, half]
    simp [replies, aborted, established, alive]

end closes

section removes
variable {cfg : Config} {now : Nat} {io : PassIo} {id : Nat} {st : TcpState} {socket : TcpSocket}
  {effects : List Effect} {busy : Bool} {i : Nat} {last : TcpState} {lastSocket : TcpSocket}

theorem finish_removes (established : st.established = true) :
    .removeTcp i last lastSocket ∈ (finish id st socket effects busy).effects →
      .removeTcp i last lastSocket ∈ effects ∨
        socket.phase.over = true ∧ i = id ∧ (∃ pending, last = { st with pending }) ∧
          lastSocket = socket := by
  cases ended : socket.phase.over with
  | true =>
    obtain ⟨pending, removed⟩ := finish_over id st socket effects busy ended established
    rw [removed]
    simp only [mem_append, mem_singleton, true_and]
    rintro (member | ⟨rfl, rfl, rfl⟩)
    · exact .inl member
    · exact .inr ⟨rfl, ⟨pending, rfl⟩, rfl⟩
  | false =>
    rw [finish_on _ _ _ _ _ ended]
    split <;> simp

theorem serviceOrphan_removes (established : st.established = true)
    (gone : st.toApp.alive = false) :
    .removeTcp i last lastSocket ∈ (serviceOrphan cfg now id st socket effects).effects →
      .removeTcp i last lastSocket ∈ effects ∨ last.toApp.alive = false := by
  simp only [serviceOrphan]
  split
  · exact .inl
  · intro member
    rcases finish_removes (by exact established) member with earlier | ⟨-, -, ⟨pending, rfl⟩, -⟩
    · exact .inl (by simpa [closeSocket] using earlier)
    · exact .inr gone

theorem TcpPhase.over_afterClose {phase : TcpPhase}
    (settled : phase ≠ .listen ∧ phase ≠ .synSent) : phase.afterClose.over = phase.over := by
  cases phase <;> simp_all [TcpPhase.afterClose, TcpPhase.over]

theorem moveBytes_over (sound : Conn.Sound (st, socket)) (established : st.established = true) :
    (moveBytes io id st socket).1.2.phase.over = socket.phase.over := by
  rw [moveBytes_phase]
  split
  · exact TcpPhase.over_afterClose (sound.settled established)
  · rfl

variable (id st) in
theorem markConnected_of_over (ended : socket.phase.over = true) :
    markConnected id socket.phase st = (st, []) := by
  simp only [TcpPhase.over, Bool.or_eq_true, decide_eq_true_eq] at ended
  rcases ended with phase | phase <;> simp [markConnected, phase]

theorem serviceEntry_removes (sound : Conn.Sound (st, socket))
    (member : .removeTcp i last lastSocket ∈ (serviceEntry cfg now io id st socket).effects)
    (established : last.established = true) (orderly : last.aborted = false)
    (alive : last.toApp.alive = true) :
    i = id ∧ st.established = true ∧ st.aborted = false ∧ st.toApp.alive = true ∧
      socket.phase.over = true ∧ last.toApp = (moveBytes io id st socket).1.1.toApp ∧
      lastSocket = (moveBytes io id st socket).1.2 := by
  have marked := (markConnected_carries id st socket).sound sound
  have replies : .removeTcp i last lastSocket ∉ (markConnected id socket.phase st).2 := by
    intro reply
    obtain ⟨resp, same⟩ := markConnected_effects reply
    cases same
  have closing : .removeTcp i last lastSocket ∉
      (moveBytes io id (markConnected id socket.phase st).1 socket).2.1 := by
    rw [moveBytes_closing]
    split <;> simp
  have entry := moveBytes_entry io id (markConnected id socket.phase st).1 socket
  revert member
  refine serviceEntry_outcome (motive := fun served => _ ∈ served.effects → _)
    ?aborted ?waiting ?failed ?orphan ?present
  case aborted =>
    intro aborted member
    simp only [mem_singleton, Effect.removeTcp.injEq] at member
    rw [member.2.1, aborted] at orderly
    cases orderly
  case waiting => intro _ _ member; cases member
  case failed =>
    intro _ connecting reason member
    have answered : .removeTcp i last lastSocket ∉ failConnect st reason := by
      unfold failConnect
      split <;> simp
    simp only [mem_append, answered, false_or, mem_singleton,
      Effect.removeTcp.injEq] at member
    rw [markConnected_established, ← member.2.1, established] at connecting
    cases connecting
  case orphan =>
    intro _ marked_established gone member
    obtain ⟨pending, toApp, entry, -, alive_eq⟩ := entry
    rcases serviceOrphan_removes (by rw [entry]; exact marked_established)
      (by rw [entry]; exact alive_eq.trans gone) member with earlier | dead
    · exact absurd earlier (by simp [replies, closing])
    · rw [alive] at dead
      cases dead
  case present =>
    intro aborted marked_established marked_alive busy member
    obtain ⟨pending, toApp, entry, -, -⟩ := entry
    rcases finish_removes (by rw [entry]; exact marked_established) member with
      earlier | ⟨ended, here, ⟨left, rfl⟩, rfl⟩
    · exact absurd earlier (by simp [replies, closing])
    · rw [moveBytes_over marked marked_established] at ended
      have same := markConnected_of_over id st ended
      rw [same] at marked_established marked_alive ⊢
      exact ⟨here, marked_established, aborted, marked_alive, ended, rfl, rfl⟩

variable (cfg now io id) in
theorem serviceEntry_removes_over (sound : Conn.Sound (st, socket))
    (established : st.established = true) (orderly : st.aborted = false)
    (alive : st.toApp.alive = true) (ended : socket.phase.over = true) :
    ∃ last, .removeTcp id last (moveBytes io id st socket).1.2 ∈
        (serviceEntry cfg now io id st socket).effects ∧
      last.established = true ∧ last.aborted = false ∧
      last.toApp = (moveBytes io id st socket).1.1.toApp := by
  have same := markConnected_of_over id st ended
  obtain ⟨left, toApp, entry, -, -⟩ := moveBytes_entry io id st socket
  refine serviceEntry_outcome (motive := fun served => ∃ last,
    .removeTcp id last (moveBytes io id st socket).1.2 ∈ served.effects ∧
      last.established = true ∧ last.aborted = false ∧
      last.toApp = (moveBytes io id st socket).1.1.toApp)
    ?aborted ?waiting ?failed ?orphan ?present
  case aborted => simp [orderly]
  case waiting => simp [same, established]
  case failed => simp [same, established]
  case orphan => simp [same, alive]
  case present =>
    intro _ _ _ busy
    rw [same]
    obtain ⟨pending, removed⟩ := finish_over id (moveBytes io id st socket).1.1
      (moveBytes io id st socket).1.2 ([] ++ (moveBytes io id st socket).2.1) busy
      (by rw [moveBytes_over sound established, ended])
      ((moveBytes_established _ _ _ _).trans established)
    rw [removed]
    refine ⟨_, mem_append_right _ (mem_singleton_self _), ?_, ?_, rfl⟩
    · rw [entry]
      exact established
    · rw [entry]
      exact orderly

end removes

end Gozarbin.Netstack
