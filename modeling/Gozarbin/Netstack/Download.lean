import Gozarbin.Netstack.Invariant

/-! # The download of a connection

Bytes go from the receive buffer of the socket through a bounded channel to the application.
When a connection is removed, what is still in the receive buffer goes with it. So the download
is intact precisely if, at each orderly end of a connection, the last pass finds room for all
that is left.
-/

namespace Gozarbin.Netstack

open Runs

/-- An established connection closed in order by its peer, under an application that is still
    there. -/
def ClosedInOrder (st : TcpState) (socket : TcpSocket) : Prop :=
  st.established = true ∧ st.aborted = false ∧ st.toApp.alive = true ∧
    socket.rxFin = true ∧ socket.broken = false

instance (st : TcpState) (socket : TcpSocket) : Decidable (ClosedInOrder st socket) :=
  inferInstanceAs (Decidable (_ ∧ _))

/-- A connection closed in order was removed with its receive buffer empty, and its application
    had been sent all that was received, in order. -/
def DownloadIntact (w : World) : Prop :=
  ∀ id st socket, .removeTcp id st socket ∈ w.log → ClosedInOrder st socket →
    socket.rx = [] ∧ st.toApp.sent.flatten = socket.received

/-- A pass that finds a connection closed in order can hand over all that is in its receive
    buffer: there are free slots, and the limit of chunks of a pass does not cut it short. -/
def RoomAtClose (w : World) : Event → Prop
  | .serviceTcp _ _ io =>
    ∀ id st socket, w.stack.tcp? id = some (st, socket) → ClosedInOrder st socket →
      socket.phase.over = true →
        Drains (io id).cut (min st.toApp.free maxRecvChunks) socket.rx.length
  | _ => True

section serviceTcp
variable {cfg : Config} {deferred taken : List DataIn} {id : Nat} {c : Conn}

theorem Conn.Good.moved_iff (good : c.Good cfg deferred taken id) (io : PassIo) :
    ((moveBytes io id c.1 c.2).1.2.rx = [] ∧
        (moveBytes io id c.1 c.2).1.1.toApp.sent.flatten = (moveBytes io id c.1 c.2).1.2.received) ↔
      (moveBytes io id c.1 c.2).1.2.rx = [] := by
  refine and_iff_left_of_imp fun empty => ?_
  have carries := moveBytes_carries io id c.1 c.2
  have download := carries.download.trans (good.download.trans carries.received.symm)
  simpa only [Conn.download, empty, List.append_nil] using download

theorem Conn.Good.served_removes_iff (good : c.Good cfg deferred taken id) (now : Nat)
    (io : Nat → PassIo) :
    (∀ i last lastSocket, .removeTcp i last lastSocket ∈ servedEffects cfg now io id c →
        ClosedInOrder last lastSocket →
          lastSocket.rx = [] ∧ last.toApp.sent.flatten = lastSocket.received) ↔
      (ClosedInOrder c.1 c.2 → c.2.phase.over = true →
        Drains (io id).cut (min c.1.toApp.free maxRecvChunks) c.2.rx.length) := by
  have rxFin := (moveBytes_carries (io id) id c.1 c.2).rxFin
  have broken := moveBytes_broken (io id) id c.1 c.2
  constructor
  · rintro intact ⟨established, orderly, alive, fin, unbroken⟩ ended
    obtain ⟨last, member, last_established, last_orderly, toApp⟩ :=
      serviceEntry_removes_over cfg now (io id) id good.sound established orderly alive ended
    obtain ⟨pending, app, entry, -, app_alive⟩ := moveBytes_entry (io id) id c.1 c.2
    have still : last.toApp.alive = true := by
      rw [toApp, entry]
      exact app_alive.trans alive
    have sent := intact id last _ member
      ⟨last_established, last_orderly, still, rxFin.trans fin, broken.trans unbroken⟩
    exact (moveBytes_empties _ _ _ _ alive).mp sent.1
  · intro room i last lastSocket member inOrder
    obtain ⟨established, orderly, alive, fin, unbroken⟩ := inOrder
    obtain ⟨rfl, established, orderly, alive, ended, toApp, socket⟩ :=
      serviceEntry_removes good.sound member established orderly alive
    rw [toApp, socket, good.moved_iff, moveBytes_empties _ _ _ _ alive]
    rw [socket] at fin unbroken
    exact room ⟨established, orderly, alive, rxFin.symm.trans fin, broken.symm.trans unbroken⟩ ended

end serviceTcp

variable {cfg : Config} {w w' : World} {e : Event}

theorem downloadIntact_iff (inv : w.Inv cfg) (steps : World.Steps cfg w e w')
    (intact : DownloadIntact w) : DownloadIntact w' ↔ RoomAtClose w e := by
  have unchanged : (∀ ids now io, e ≠ .serviceTcp ids now io) → DownloadIntact w' := by
    intro other id st socket member
    rcases (steps.log _).mp member with old | new
    · exact intact id st socket old
    · cases new.isReply other
  cases e with
  | serviceTcp ids now io =>
    constructor
    · intro after id st socket present
      refine ((inv.conns present).served_removes_iff now io).mp fun i last lastSocket member => ?_
      exact after i last lastSocket ((steps.log _).mpr (.inr ⟨id, _, present, member⟩))
    · intro room id st socket member
      rcases (steps.log _).mp member with old | ⟨i, c, present, new⟩
      · exact intact id st socket old
      · exact ((inv.conns present).served_removes_iff now io).mpr (room i c.1 c.2 present) _ _ _ new
  | _ => exact iff_of_true (unchanged (by simp)) trivial

/-- The download of a run is intact in every state precisely if there is room at
    each close. -/
theorem download_intact_iff_room (cfg : Config) (iface : Iface) {events : List Event}
    (valid : Each (step cfg) Enabled (World.initial iface) events) :
    Always (step cfg) DownloadIntact (World.initial iface) events ↔
      Each (step cfg) RoomAtClose (World.initial iface) events := by
  refine always_iff_each (I := World.Inv cfg) ?kept ?proceeds ?exact_step
    (World.initial_inv cfg iface) (by simp [DownloadIntact, World.initial]) valid
  case kept => exact fun w e w' inv enabled next => (inv.kept enabled next).inv
  case proceeds =>
    intro w e inv enabled
    obtain ⟨w', next, -⟩ := inv.proceeds enabled
    exact ⟨w', next⟩
  case exact_step =>
    exact fun w e w' inv enabled next intact => downloadIntact_iff inv (inv.kept enabled next) intact

def Effect.OnRemoval (P : TcpState → TcpSocket → Prop) : Effect → Prop
  | .removeTcp _ st socket => P st socket
  | _ => True

instance {P : TcpState → TcpSocket → Prop} [∀ st socket, Decidable (P st socket)] :
    DecidablePred (Effect.OnRemoval P)
  | .removeTcp _ st socket => inferInstanceAs (Decidable (P st socket))
  | .close _ _ _ _ | .replyTcp _ _ | .replyUdp _ _ => .isTrue trivial

instance (w : World) : Decidable (DownloadIntact w) :=
  decidable_of_iff (∀ effect ∈ w.log, effect.OnRemoval fun st socket => ClosedInOrder st socket →
    socket.rx = [] ∧ st.toApp.sent.flatten = socket.received) <| by
    constructor
    · exact fun all id st socket member => all _ member
    · intro all effect member
      cases effect with
      | removeTcp id st socket => exact all id st socket member
      | _ => trivial

instance (w : World) : (e : Event) → Decidable (RoomAtClose w e)
  | .serviceTcp _ _ io =>
    decidable_of_iff (∀ id ∈ w.stack.tcpConns.keys, ∀ c ∈ w.stack.tcp? id,
      ClosedInOrder c.1 c.2 → c.2.phase.over = true →
        Drains (io id).cut (min c.1.toApp.free maxRecvChunks) c.2.rx.length) <| by
      constructor
      · exact fun all id st socket present =>
          all id (NetStack.mem_keys_of_tcp? present) (st, socket) present
      · exact fun all id _ c present => all id c.1 c.2 present
  | .poll _ | .serviceUdp _ | .retryDeferred | .command _ _ | .dataIn _ | .appTake _ | .appDrop _
  | .requesterDrop _ | .udpTake _ | .udpDrop _ => .isTrue trivial

def pass : Event := .serviceTcp [1] 5 fun _ => ⟨1024, fun _ => 1024⟩

def closingRun (app : List Event) : List Event :=
  [.command 0 (.openTcp ⟨.v4 ⟨0x08080808#32⟩, 443⟩ ⟨0, false⟩ (.ok ())),
      .poll [.tcp 0 .synAck], pass] ++
    (List.range 129).flatMap (fun n => [.poll [.tcp 0 (.payload [n.toUInt8])], pass]) ++
    [.poll [.tcp 0 .fin], pass] ++ app ++ [.poll [.tcp 0 .finAck], pass]

theorem closingRun_intact :
    Each (step lowTier) RoomAtClose (World.initial localIface) (closingRun [.appTake 1]) ∧
      Always (step lowTier) DownloadIntact (World.initial localIface) (closingRun [.appTake 1]) :=
  have room : Each (step lowTier) RoomAtClose (World.initial localIface)
      (closingRun [.appTake 1]) := by decide +kernel
  ⟨room, (download_intact_iff_room lowTier localIface (by decide +kernel)).mpr room⟩

theorem closingRun_loses :
    Each (step lowTier) Enabled (World.initial localIface) (closingRun []) ∧
      ¬ Always (step lowTier) DownloadIntact (World.initial localIface) (closingRun []) := by
  decide +kernel

end Gozarbin.Netstack
