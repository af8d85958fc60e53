import Gozarbin.Netstack.Invariant

/-! # The upload of a connection

Bytes go from the application through `data_in_rx`, `deferred` and `pending` into the send
buffer of the socket. On the way none is lost, doubled or reordered (`UploadConserved`). Closing
the socket is safe precisely when a pass that sees the peer's FIN can empty `pending`.
-/

namespace Gozarbin.Netstack

open List Runs

/-- The bytes of every live connection are, in order, in its send buffer, in `pending` or
    deferred; `pending` keeps its limit, at most one message is deferred, and none sent before
    its `TcpClose` once a connection is half-closed. -/
def UploadConserved (cfg : Config) (w : World) : Prop :=
  w.deferred.length ≤ 1 ∧
    ∀ id st, w.stack.tcpConns.lookup id = some st →
      ∃ socket, w.stack.sockets.get? st.handle = some (.tcp socket) ∧
        socket.tx ++ st.pending ++ payloads id w.deferred = payloads id w.taken ∧
        st.pending.length ≤ maxTcpPending cfg ∧
        (st.halfClosed = true → payloads id (beforeClose id w.taken) <+: socket.tx ++ st.pending)

theorem World.Inv.uploadConserved {cfg : Config} {w : World} (inv : w.Inv cfg) :
    UploadConserved cfg w := by
  refine ⟨inv.short, fun id st found => ?_⟩
  obtain ⟨socket, present⟩ := inv.owned.tcp?_of_lookup found
  have good := inv.conns present
  exact ⟨socket, (NetStack.tcp?_eq_some.mp present).2, good.bytes, good.bounded, good.closed⟩

/-- Upload order and conservation, in every state of every run; and no run panics. -/
theorem upload_conserved (cfg : Config) (iface : Iface) {events : List Event}
    (valid : Each (step cfg) Enabled (World.initial iface) events) :
    Always (step cfg) (UploadConserved cfg) (World.initial iface) events ∧
      (run (step cfg) (World.initial iface) events).isSome = true := by
  have inv := World.initial_inv cfg iface
  exact ⟨(inv.always valid).mono fun _ inv => inv.uploadConserved, inv.run_isSome valid⟩

theorem step_dataIn_long {cfg : Config} {w : World} {id : Nat} {st : TcpState} {data : Bytes}
    (idle : w.deferred = []) (found : w.stack.tcpConns.lookup id = some st)
    (empty : st.pending = []) (long : maxTcpPending cfg < data.length) :
    step cfg w (.dataIn (.tcp id data)) = some { w with
      stack := w.stack.modifyTcp id fun st =>
        { st with pending := data.take (maxTcpPending cfg) }
      deferred := [.tcp id (data.drop (maxTcpPending cfg))]
      taken := w.taken ++ [.tcp id data] } := by
  have room : ¬ 0 ≥ maxTcpPending cfg := by simp [maxTcpPending]
  simp [step, tryHandleData, NetStack.modifyTcp, idle, found, empty, room, long.not_ge]

def smallBuffers : Config := { lowTier with tcpRxBuf := 32 * 1024 }

def opening : List Event :=
  [.command 0 (.openTcp ⟨.v4 ⟨0x08080808#32⟩, 443⟩ ⟨0, false⟩ (.ok ())),
    .command 0 (.openTcp ⟨.v4 ⟨0x08080808#32⟩, 80⟩ ⟨1, false⟩ (.ok ()))]

def opened : World :=
  { World.initial localIface with
    stack := (handleCmd smallBuffers 0 (handleCmd smallBuffers 0 (.initial localIface)
      (.openTcp ⟨.v4 ⟨0x08080808#32⟩, 443⟩ ⟨0, false⟩ (.ok ()))).1
      (.openTcp ⟨.v4 ⟨0x08080808#32⟩, 80⟩ ⟨1, false⟩ (.ok ()))).1 }

def longMessage : Bytes := List.replicate 65536 1 ++ [2, 3]

def filled : World :=
  { opened with
    stack := opened.stack.modifyTcp 1 fun st => { st with pending := List.replicate 65536 1 }
    deferred := [.tcp 1 [2, 3]]
    taken := [.tcp 1 longMessage] }

theorem step_opened : step smallBuffers opened (.dataIn (.tcp 1 longMessage)) = some filled := by
  have long : longMessage.length = 65538 := by
    rw [longMessage, length_append, length_replicate]; rfl
  have first : longMessage.take 65536 = List.replicate 65536 1 :=
    take_left' length_replicate
  have rest : longMessage.drop 65536 = [2, 3] := drop_left' length_replicate
  have limit : maxTcpPending smallBuffers = 65536 := by decide +kernel
  rw [step_dataIn_long rfl rfl rfl (by rw [long, limit]; decide), limit, first, rest]
  rfl

theorem run_filled :
    run (step smallBuffers) (World.initial localIface) (opening ++ [.dataIn (.tcp 1 longMessage)]) =
      some filled := by
  have before : run (step smallBuffers) (World.initial localIface) opening = some opened := rfl
  rw [run_append, before, Option.bind_some, run_cons, step_opened]
  rfl

def retrying : List Event :=
  [.poll [.tcp 0 .synAck],
    .serviceTcp [2, 1] 5 fun _ => ⟨2, fun _ => 4⟩,
    .retryDeferred,
    .dataIn (.tcp 2 [9]),
    .dataIn (.tcpClose 1)]

def uploadRun : List Event := opening ++ [.dataIn (.tcp 1 longMessage)] ++ retrying

theorem uploadRun_conserved :
    (run (step smallBuffers) (World.initial localIface) (uploadRun.take 3)).map World.deferred =
        some [.tcp 1 [2, 3]] ∧
      Always (step smallBuffers) (UploadConserved smallBuffers) (World.initial localIface) uploadRun ∧
      (run (step smallBuffers) (World.initial localIface) uploadRun).isSome = true := by
  have before : Each (step smallBuffers) Enabled (World.initial localIface) opening := by
    decide +kernel
  have message : Each (step smallBuffers) Enabled opened [.dataIn (.tcp 1 longMessage)] :=
    ⟨by decide +kernel, fun _ _ => trivial⟩
  have after : Each (step smallBuffers) Enabled filled retrying := by decide +kernel
  exact ⟨congrArg (Option.map World.deferred) run_filled, upload_conserved smallBuffers localIface
    ((before.append rfl message).append run_filled after)⟩

/-- Whenever `close()` was called under an application that was still there, nothing was
    pending, and all that was handed over before its `TcpClose` had reached the send buffer. -/
def UploadKept (w : World) : Prop :=
  ∀ id pending accepted, .close id pending accepted true ∈ w.log →
    pending = [] ∧ payloads id (beforeClose id w.taken) <+: accepted

/-- A pass that meets a peer's FIN finds room for all that is pending, with nothing deferred
    behind it, and once a socket is closed its application hands over no more. -/
def UploadSafe (w : World) : Event → Prop
  | .serviceTcp _ _ io =>
    ∀ id st socket, w.stack.tcp? id = some (st, socket) →
      st.aborted = false → appPresent st = true → socket.phase = .closeWait →
        st.pending.length ≤ (io id).room ∧
          (st.halfClosed = true ∨ payloads id w.deferred = [])
  | .dataIn message =>
    ∀ id pending accepted, .close id pending accepted true ∈ w.log →
      w.deferred = [] → .tcpClose id ∉ w.taken → message.payload id = []
  | _ => True

def Effect.OnClose (P : Nat → Bytes → Bytes → Prop) : Effect → Prop
  | .close id pending accepted true => P id pending accepted
  | _ => True

instance {P : Nat → Bytes → Bytes → Prop} [∀ id pending accepted, Decidable (P id pending accepted)] :
    DecidablePred (Effect.OnClose P)
  | .close id pending accepted true => inferInstanceAs (Decidable (P id pending accepted))
  | .close _ _ _ false | .replyTcp _ _ | .replyUdp _ _ | .removeTcp _ _ _ => .isTrue trivial

theorem forall_close_iff {P : Nat → Bytes → Bytes → Prop} {log : List Effect} :
    (∀ effect ∈ log, effect.OnClose P) ↔
      ∀ id pending accepted, .close id pending accepted true ∈ log → P id pending accepted := by
  constructor
  · intro all id pending accepted member
    exact all _ member
  · intro all effect member
    unfold Effect.OnClose
    split
    · exact all _ _ _ member
    · trivial

instance (w : World) : Decidable (UploadKept w) :=
  decidable_of_iff _ forall_close_iff

instance (w : World) : (e : Event) → Decidable (UploadSafe w e)
  | .serviceTcp _ _ io =>
    decidable_of_iff (∀ id ∈ w.stack.tcpConns.keys, ∀ c ∈ w.stack.tcp? id,
      c.1.aborted = false → appPresent c.1 = true → c.2.phase = .closeWait →
        c.1.pending.length ≤ (io id).room ∧
          (c.1.halfClosed = true ∨ payloads id w.deferred = [])) <| by
      constructor
      · exact fun all id st socket present =>
          all id (NetStack.mem_keys_of_tcp? present) (st, socket) present
      · exact fun all id _ c present => all id c.1 c.2 present
  | .dataIn message => decidable_of_iff (∀ effect ∈ w.log, effect.OnClose fun id _ _ =>
    w.deferred = [] → .tcpClose id ∉ w.taken → message.payload id = []) forall_close_iff
  | .poll _ | .serviceUdp _ | .retryDeferred | .command _ _ | .appTake _ | .appDrop _
  | .requesterDrop _ | .udpTake _ | .udpDrop _ => .isTrue trivial

/-- What a closed socket had accepted was handed over. -/
def ClosedTaken (w : World) : Prop :=
  ∀ id pending accepted, .close id pending accepted true ∈ w.log →
    accepted <+: payloads id w.taken

section serviceTcp
variable {cfg : Config} {deferred taken : List DataIn} {id : Nat} {c : Conn}

theorem pushPending_closeWait (io : PassIo) (peer : c.2.phase = .closeWait) :
    pushPending io (markConnected id c.2.phase c.1).1 c.2 =
      ({ (markConnected id c.2.phase c.1).1 with pending := c.1.pending.drop io.room },
        { c.2 with tx := c.2.tx ++ c.1.pending.take io.room }) := by
  rw [pushPending_of_maySend _ _ _ (by simp [TcpSocket.maySend, peer]), markConnected_pending]

theorem pushPending_upload (io : PassIo) (id : Nat) (c : Conn) :
    (pushPending io (markConnected id c.2.phase c.1).1 c.2).2.tx ++
      (pushPending io (markConnected id c.2.phase c.1).1 c.2).1.pending = c.upload :=
  ((markConnected_carries id c.1 c.2).trans (pushPending_carries io _ c.2)).upload

theorem Conn.Good.prefix_accepted (good : c.Good cfg deferred taken id) (io : PassIo) :
    (pushPending io (markConnected id c.2.phase c.1).1 c.2).2.tx <+: payloads id taken := by
  rw [← good.bytes, ← pushPending_upload io id c, append_assoc]
  exact prefix_append _ _

theorem Conn.Good.prefix_handed (good : c.Good cfg deferred taken id)
    (all : c.1.halfClosed = true ∨ payloads id deferred = []) :
    payloads id (beforeClose id taken) <+: c.upload := by
  rcases all with half | nothing
  · exact good.closed half
  · have bytes := good.bytes
    rw [nothing, append_nil] at bytes
    obtain ⟨rest, split⟩ := prefix_beforeClose id taken
    exact ⟨payloads id rest, by rw [← payloads_append, split, bytes]⟩

theorem Conn.Good.peer_closed_iff (good : c.Good cfg deferred taken id) (io : PassIo)
    (peer : c.2.phase = .closeWait) :
    ((pushPending io (markConnected id c.2.phase c.1).1 c.2).1.pending = [] ∧
        payloads id (beforeClose id taken) <+:
          (pushPending io (markConnected id c.2.phase c.1).1 c.2).2.tx) ↔
      c.1.pending.length ≤ io.room ∧ (c.1.halfClosed = true ∨ payloads id deferred = []) := by
  rw [pushPending_closeWait io peer]
  simp only [drop_eq_nil_iff]
  refine and_congr_right fun room => ?_
  rw [take_of_length_le room]
  constructor
  · intro handed
    by_cases half : c.1.halfClosed = true
    · exact .inl half
    · refine .inr (length_eq_zero_iff.mp ?_)
      rw [beforeClose_open (good.halfClosed.not.mp half), ← good.bytes] at handed
      have lengths := handed.length_le
      simp only [Conn.upload, length_append] at lengths
      omega
  · exact good.prefix_handed

theorem Conn.Good.served_closes_iff (good : c.Good cfg deferred taken id) (now : Nat)
    (io : Nat → PassIo) :
    (∀ i pending accepted, .close i pending accepted true ∈ servedEffects cfg now io id c →
        pending = [] ∧ payloads i (beforeClose i taken) <+: accepted) ↔
      (c.1.aborted = false → appPresent c.1 = true → c.2.phase = .closeWait →
        c.1.pending.length ≤ (io id).room ∧
          (c.1.halfClosed = true ∨ payloads id deferred = [])) := by
  constructor
  · intro harmless aborted present peer
    have connected : (markConnected id c.2.phase c.1).1.established = true := by
      rw [markConnected_established]
      simp [peer]
    rw [← good.peer_closed_iff (io id) peer]
    refine harmless id _ _ (serviceEntry_closes.mpr ⟨aborted, connected, ?_, .inr peer, rfl, rfl, rfl⟩)
    rw [markConnected_alive good.sound connected, present]
  · intro safe i pending accepted member
    obtain ⟨aborted, connected, alive, why, rfl, rfl, rfl⟩ := serviceEntry_closes.mp member
    rw [markConnected_alive good.sound connected] at alive
    rcases why with ⟨half, empty⟩ | peer
    · refine ⟨empty, ?_⟩
      have pushed := pushPending_upload (io i) i c
      rw [empty, append_nil] at pushed
      rw [pushed]
      exact good.closed half
    · rw [good.peer_closed_iff (io i) peer]
      exact safe aborted alive peer

end serviceTcp

variable {cfg : Config} {w w' : World} {e : Event}

theorem ClosedTaken.kept (inv : w.Inv cfg) (closed : ClosedTaken w)
    (steps : World.Steps cfg w e w') : ClosedTaken w' := by
  intro id pending accepted member
  rw [steps.taken, payloads_append]
  refine List.IsPrefix.trans ?_ (prefix_append _ _)
  rcases (steps.log _).mp member with old | new
  · exact closed id pending accepted old
  · cases e with
    | serviceTcp ids now io =>
      obtain ⟨i, c, present, member⟩ := new
      obtain ⟨-, -, -, -, rfl, -, rfl⟩ := serviceEntry_closes.mp member
      exact (inv.conns present).prefix_accepted (io id)
    | _ => cases new.isReply (by simp)

theorem handed_iff {id : Nat} {taken : List DataIn} {message : DataIn} {accepted : Bytes}
    (kept : payloads id (beforeClose id taken) <+: accepted)
    (closed : accepted <+: payloads id taken) :
    payloads id (beforeClose id (taken ++ [message])) <+: accepted ↔
      (.tcpClose id ∉ taken → message.payload id = []) := by
  by_cases before : .tcpClose id ∈ taken
  · simp [beforeClose_closed before, kept, before]
  · simp only [before, not_false_eq_true, true_implies]
    rw [beforeClose_open before] at kept
    have all : accepted = payloads id taken :=
      closed.eq_of_length_le kept.length_le
    by_cases here : message = .tcpClose id
    · rw [here, beforeClose_closing before]
      simp [kept, DataIn.payload]
    · rw [beforeClose_open (by simp [before, Ne.symm here]), payloads_append, all]
      constructor
      · intro handed
        have lengths := handed.length_le
        simp only [length_append, payloads_cons] at lengths
        exact length_eq_zero_iff.mp (by omega)
      · intro nothing
        simp [nothing]

theorem uploadKept_iff (inv : w.Inv cfg) (closed : ClosedTaken w)
    (steps : World.Steps cfg w e w') (kept : UploadKept w) : UploadKept w' ↔ UploadSafe w e := by
  have quiet : (∀ ids now io, e ≠ .serviceTcp ids now io) → ∀ id pending accepted,
      .close id pending accepted true ∈ w'.log ↔ .close id pending accepted true ∈ w.log := by
    intro other id pending accepted
    rw [steps.log]
    refine or_iff_left fun does => ?_
    cases does.isReply other
  have unchanged : (∀ ids now io, e ≠ .serviceTcp ids now io) → w.takes e = [] → UploadKept w' := by
    intro other none id pending accepted member
    rw [steps.taken, none, append_nil]
    exact kept id pending accepted ((quiet other _ _ _).mp member)
  cases e with
  | serviceTcp ids now io =>
    have taken : w'.taken = w.taken := by simpa [World.takes] using steps.taken
    constructor
    · intro after id st socket present
      refine ((inv.conns present).served_closes_iff now io).mp fun i pending accepted member => ?_
      rw [← taken]
      exact after i pending accepted ((steps.log _).mpr (.inr ⟨id, _, present, member⟩))
    · intro safe id pending accepted member
      rw [taken]
      rcases (steps.log _).mp member with old | ⟨i, c, present, new⟩
      · exact kept id pending accepted old
      · exact ((inv.conns present).served_closes_iff now io).mpr (safe i c.1 c.2 present) _ _ _ new
  | dataIn message =>
    by_cases idle : w.deferred = []
    · have taken : w'.taken = w.taken ++ [message] := by
        simpa [World.takes, idle] using steps.taken
      simp only [UploadKept, UploadSafe, quiet (by simp), taken, idle]
      refine forall_congr' fun id => forall_congr' fun pending => forall_congr' fun accepted =>
        forall_congr' fun member => ?_
      obtain ⟨empty, handed⟩ := kept id pending accepted member
      rw [← handed_iff handed (closed id pending accepted member)]
      simp [empty]
    · simp only [UploadSafe, idle, false_implies, implies_true, iff_true]
      exact unchanged (by simp) (by simp [World.takes, idle])
  | _ => exact iff_of_true (unchanged (by simp) rfl) trivial

/-- The upload of a run is kept in every state precisely if every step is safe. -/
theorem upload_kept_iff_safe (cfg : Config) (iface : Iface) {events : List Event}
    (valid : Each (step cfg) Enabled (World.initial iface) events) :
    Always (step cfg) UploadKept (World.initial iface) events ↔
      Each (step cfg) UploadSafe (World.initial iface) events := by
  refine always_iff_each (I := fun w => w.Inv cfg ∧ ClosedTaken w) ?kept ?proceeds ?exact_step
    ⟨World.initial_inv cfg iface, by simp [ClosedTaken, World.initial]⟩
    (by simp [UploadKept, World.initial]) valid
  case kept =>
    intro w e w' both enabled next
    obtain ⟨inv, closed⟩ := both
    have steps := inv.kept enabled next
    exact ⟨steps.inv, closed.kept inv steps⟩
  case proceeds =>
    intro w e both enabled
    obtain ⟨w', next, -⟩ := both.1.proceeds enabled
    exact ⟨w', next⟩
  case exact_step =>
    intro w e w' both enabled next kept
    obtain ⟨inv, closed⟩ := both
    exact uploadKept_iff inv closed (inv.kept enabled next) kept

def finRun (room : Nat) : List Event :=
  [.command 0 (.openTcp ⟨.v4 ⟨0x08080808#32⟩, 443⟩ ⟨0, false⟩ (.ok ())),
    .poll [.tcp 0 .synAck],
    .serviceTcp [1] 5 fun _ => ⟨room, fun _ => 4⟩,
    .dataIn (.tcp 1 [1, 2, 3, 4, 5, 6]),
    .serviceTcp [1] 6 fun _ => ⟨room, fun _ => 4⟩,
    .poll [.tcp 0 .fin],
    .serviceTcp [1] 7 fun _ => ⟨room - 6, fun _ => 4⟩]

theorem finRun_kept : Each (step lowTier) UploadSafe (World.initial localIface) (finRun 8) ∧
    Always (step lowTier) UploadKept (World.initial localIface) (finRun 8) :=
  have safe : Each (step lowTier) UploadSafe (World.initial localIface) (finRun 8) := by
    decide +kernel
  ⟨safe, (upload_kept_iff_safe lowTier localIface (by decide +kernel)).mpr safe⟩

theorem finRun_loses :
    Each (step lowTier) Enabled (World.initial localIface) (finRun 4) ∧
      ¬ Always (step lowTier) UploadKept (World.initial localIface) (finRun 4) := by
  decide +kernel

end Gozarbin.Netstack
