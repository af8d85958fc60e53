import Mathlib.Data.List.TakeWhile
import Gozarbin.Netstack.Moves

/-! # What holds in every state of every run

`Conn.Good` collects what is always true of one connection: its downloaded bytes are the
received ones, and its uploaded bytes, with what is deferred, are those its application handed
over. One lemma per kind of step keeps it, and with it no step panics.
-/

namespace Gozarbin.Netstack

open List

def beforeClose (id : Nat) (taken : List DataIn) : List DataIn :=
  taken.takeWhile fun message => message ≠ .tcpClose id

section beforeClose
variable {id : Nat} {taken : List DataIn} {message : DataIn}

theorem beforeClose_open (open_ : .tcpClose id ∉ taken) : beforeClose id taken = taken := by
  refine takeWhile_eq_self_iff.mpr fun message member => ?_
  rw [decide_eq_true_eq]
  rintro rfl
  exact open_ member

theorem beforeClose_closed (closed : .tcpClose id ∈ taken) :
    beforeClose id (taken ++ [message]) = beforeClose id taken := by
  induction taken with
  | nil => cases closed
  | cons first rest ih =>
    by_cases here : first = .tcpClose id
    · simp [beforeClose, here]
    · have later : .tcpClose id ∈ rest := by simpa [Ne.symm here] using closed
      simpa [beforeClose, here] using ih later

theorem beforeClose_closing (open_ : .tcpClose id ∉ taken) :
    beforeClose id (taken ++ [.tcpClose id]) = taken := by
  have all := beforeClose_open open_
  unfold beforeClose at all ⊢
  rw [takeWhile_append, all]
  simp

variable (id taken) in
theorem prefix_beforeClose : beforeClose id taken <+: taken := takeWhile_prefix _

end beforeClose

structure Conn.Good (cfg : Config) (deferred taken : List DataIn) (id : Nat) (c : Conn) : Prop where
  sound : c.Sound
  download : c.download = c.2.received
  bytes : c.upload ++ payloads id deferred = payloads id taken
  bounded : c.1.pending.length ≤ maxTcpPending cfg
  halfClosed : c.1.halfClosed = true ↔ .tcpClose id ∈ taken
  closed : c.1.halfClosed = true → payloads id (beforeClose id taken) <+: c.upload

namespace Fed
variable {cfg : Config} {id : Nat} {before after : List DataIn} {c c' : Conn}

theorem sound (fed : Fed cfg id before after c c') (sound : c.Sound) : c'.Sound := by
  obtain ⟨pending, halfClosed, entry⟩ := fed.entry
  refine sound.transfer (by rw [entry]) (by rw [entry]) (by rw [entry]) (.inl ?_)
  rw [fed.socket]

theorem download (fed : Fed cfg id before after c c') (all : c.download = c.2.received) :
    c'.download = c'.2.received := by
  obtain ⟨pending, halfClosed, entry⟩ := fed.entry
  unfold Conn.download at all ⊢
  rw [fed.socket, entry]
  exact all

theorem upload (fed : Fed cfg id before after c c') : c.upload <+: c'.upload := by
  unfold Conn.upload
  rw [fed.socket]
  exact (prefix_append_right_inj _).mpr fed.pending

end Fed

namespace Conn.Good
variable {cfg : Config} {deferred taken : List DataIn} {id : Nat} {c c' : Conn}

theorem carries (good : c.Good cfg deferred taken id) (carries : Carries c c') :
    c'.Good cfg deferred taken id where
  sound := carries.sound good.sound
  download := by rw [carries.download, carries.received, good.download]
  bytes := by rw [carries.upload, good.bytes]
  bounded := carries.pending.trans good.bounded
  halfClosed := by rw [carries.halfClosed, good.halfClosed]
  closed half := by
    rw [carries.upload]
    exact good.closed (carries.halfClosed.symm.trans half)

theorem opened {now handle : Nat} {resp : OpenTcpResp} {localPort : UInt16} {dst : SocketAddr}
    (unknown : ∀ message ∈ deferred ++ taken, message.id ≠ id) :
    Conn.Good cfg deferred taken id
      (newTcpState cfg now handle resp, .connecting localPort dst) := by
  have nothing : ∀ messages, (∀ message ∈ messages, message.id ≠ id) → payloads id messages = [] := by
    intro messages others
    refine flatMap_eq_nil_iff.mpr fun message member => ?_
    have other := others message member
    cases message <;> simp_all [DataIn.payload, DataIn.id]
  have unclosed : .tcpClose id ∉ taken := fun member =>
    unknown _ (mem_append_right _ member) rfl
  refine ⟨⟨by simp [newTcpState], rfl, rfl⟩, rfl, ?_, Nat.zero_le _, ?_, by simp [newTcpState]⟩
  · rw [nothing deferred fun m member => unknown m (mem_append_left _ member),
      nothing taken fun m member => unknown m (mem_append_right _ member)]
    rfl
  · simp [newTcpState, unclosed]

theorem entry {st' : TcpState} (good : c.Good cfg deferred taken id)
    (same : ∃ toApp connectResp, st' = { c.1 with toApp, connectResp } ∧
      toApp.sent = c.1.toApp.sent ∧ connectResp.isSome = c.1.connectResp.isSome) :
    Conn.Good cfg deferred taken id (st', c.2) := by
  obtain ⟨toApp, connectResp, rfl, sent, answered⟩ := same
  refine ⟨good.sound.transfer rfl rfl answered (.inl rfl), ?_, good.bytes, good.bounded,
    good.halfClosed, good.closed⟩
  have download := good.download
  simp only [Conn.download, sent] at download ⊢
  exact download

theorem poll (good : c.Good cfg deferred taken id) (items : List PollItem) :
    (items.foldl PollItem.onConn c).Good cfg deferred taken id := by
  induction items generalizing c with
  | nil => exact good
  | cons item items ih =>
    refine ih ?_
    cases item with
    | udp handle source data => exact good
    | tcp handle segment =>
      simp only [PollItem.onConn]
      split
      · obtain ⟨bytes, buffered, recorded⟩ := c.2.receive_conserves segment
        refine ⟨good.sound.transfer rfl rfl rfl (c.2.receive_settled segment), ?_, ?_,
          good.bounded, good.halfClosed, ?_⟩
        · have download := good.download
          simp only [Conn.download, buffered, recorded] at download ⊢
          rw [← download, append_assoc]
        · simpa [Conn.upload] using good.bytes
        · simpa [Conn.upload] using good.closed
      · exact good

theorem retried {rest : List DataIn} (good : c.Good cfg deferred taken id)
    (fed : Fed cfg id deferred rest c c') (tcp : ∀ d ∈ deferred, d.isTcp = true) :
    c'.Good cfg rest taken id := by
  have half : c'.1.halfClosed = c.1.halfClosed := by
    rw [fed.halfClosed]
    simp [not_mem_of_isTcp tcp id]
  refine ⟨fed.sound good.sound, fed.download good.download, fed.bytes.trans good.bytes,
    fed.bounded good.bounded, by rw [half, good.halfClosed], fun closed => ?_⟩
  exact (good.closed (half.symm.trans closed)).trans fed.upload

theorem took {back : List DataIn} {message : DataIn} (good : c.Good cfg [] taken id)
    (fed : Fed cfg id [message] back c c') : c'.Good cfg back (taken ++ [message]) id := by
  have all : c.upload = payloads id taken := by simpa using good.bytes
  have heard : c'.1.halfClosed = true ↔ .tcpClose id ∈ taken ++ [message] := by
    rw [fed.halfClosed]
    simp [good.halfClosed]
  refine ⟨fed.sound good.sound, fed.download good.download, ?_, fed.bounded good.bounded, heard,
    fun closed => ?_⟩
  · rw [fed.bytes, all, payloads_append]
  · by_cases before : .tcpClose id ∈ taken
    · rw [beforeClose_closed before]
      exact (good.closed (good.halfClosed.mpr before)).trans fed.upload
    · have now : message = .tcpClose id := by simpa [before, eq_comm] using heard.mp closed
      rw [now, beforeClose_closing before, ← all]
      exact fed.upload

end Conn.Good

structure World.Inv (cfg : Config) (w : World) : Prop where
  owned : w.stack.Owned
  tcp : ∀ d ∈ w.deferred, d.isTcp = true
  short : w.deferred.length ≤ 1
  known : ∀ message ∈ w.deferred ++ w.taken, message.id < w.stack.nextId
  conns : ∀ {id} {c : Conn}, w.stack.tcp? id = some c → c.Good cfg w.deferred w.taken id

theorem World.initial_inv (cfg : Config) (iface : Iface) : (World.initial iface).Inv cfg where
  owned := NetStack.initial_owned iface
  tcp := by simp [World.initial]
  short := by simp [World.initial]
  known := by simp [World.initial]
  conns found := by cases found

namespace World
variable {cfg : Config} {w : World}

def takes (w : World) : Event → List DataIn
  | .dataIn message => if w.deferred.isEmpty then [message] else []
  | _ => []

/-- The effects of a step. -/
def Does (cfg : Config) (w : World) : Event → Effect → Prop
  | .serviceTcp _ now io, effect =>
    ∃ id c, w.stack.tcp? id = some c ∧ effect ∈ servedEffects cfg now io id c
  | .command now cmd, effect => effect ∈ (handleCmd cfg now w.stack cmd).2
  | _, _ => False

theorem Does.isReply {e : Event} {effect : Effect} (does : w.Does cfg e effect)
    (other : ∀ ids now io, e ≠ .serviceTcp ids now io) : effect.isReply = true := by
  cases e with
  | serviceTcp ids now io => exact absurd rfl (other ids now io)
  | command now cmd =>
    cases cmd with
    | setAddrs v4 v6 => cases does
    | openTcp dst resp connect =>
      cases connect with
      | error e => cases mem_singleton.mp does; rfl
      | ok => cases does
    | openUdp resp bind =>
      cases bind with
      | error e => cases mem_singleton.mp does; rfl
      | ok => cases mem_singleton.mp does; rfl
  | _ => cases does

/-- What a step from `w` to `w'` comes to. -/
structure Steps (cfg : Config) (w : World) (e : Event) (w' : World) : Prop where
  inv : w'.Inv cfg
  taken : w'.taken = w.taken ++ w.takes e
  log : ∀ effect, effect ∈ w'.log ↔ effect ∈ w.log ∨ w.Does cfg e effect

theorem Inv.moves {t : NetStack} {f : Nat → Conn → Option Conn} (inv : w.Inv cfg)
    (moves : NetStack.Moves f w.stack t) (log : List Effect)
    (good : ∀ id c c', c.Good cfg w.deferred w.taken id → f id c = some c' →
      c'.Good cfg w.deferred w.taken id) : World.Inv cfg { w with stack := t, log } where
  owned := moves.owned
  tcp := inv.tcp
  short := inv.short
  known := by
    rw [moves.nextId]
    exact inv.known
  conns {id c'} found := by
    rw [moves.tcp] at found
    obtain ⟨c, present, made⟩ := Option.bind_eq_some_iff.mp found
    exact good id c c' (inv.conns present) made

theorem Inv.modifyTcp {f : TcpState → TcpState} (inv : w.Inv cfg) (id : Nat)
    (app : ∀ st, ∃ toApp connectResp, f st = { st with toApp, connectResp } ∧
      toApp.sent = st.toApp.sent ∧ connectResp.isSome = st.connectResp.isSome) :
    World.Inv cfg { w with stack := w.stack.modifyTcp id f } := by
  refine inv.moves (NetStack.modifyTcp_moves inv.owned fun st => ?_) w.log ?_
  · obtain ⟨toApp, connectResp, same, -⟩ := app st
    rw [same]
  · intro i c c' good made
    split at made
    · cases made
      exact good.entry (app c.1)
    · cases made
      exact good

theorem Inv.command (inv : w.Inv cfg) (now : Nat) (cmd : Cmd) (log : List Effect) :
    World.Inv cfg { w with stack := (handleCmd cfg now w.stack cmd).1, log } := by
  obtain ⟨owned, later, conns⟩ := handleCmd_conns cfg now inv.owned cmd
  refine ⟨owned, inv.tcp, inv.short, fun m member => (inv.known m member).trans_le later, ?_⟩
  intro id c found
  rcases conns id c found with old | ⟨rfl, handle, resp, localPort, dst, rfl⟩
  · exact inv.conns old
  · exact .opened fun message member => (inv.known message member).ne

theorem Inv.retry (inv : w.Inv cfg) :
    ∃ t rest, retryDeferred cfg w.stack w.deferred = some (t, rest) ∧
      World.Inv cfg { w with stack := t, deferred := rest } := by
  obtain ⟨t, rest, f, retried, moved, shorter, rest_tcp, fed⟩ :=
    retryDeferred_moves cfg inv.owned inv.tcp
  refine ⟨t, rest, retried, moved.owned, fun d member => (rest_tcp d member).1,
    shorter.trans inv.short, ?_, ?_⟩
  · intro message member
    rw [moved.nextId]
    rcases mem_append.mp member with left | taken
    · obtain ⟨-, d, known, same⟩ := rest_tcp message left
      rw [same]
      exact inv.known d (mem_append_left _ known)
    · exact inv.known message (mem_append_right _ taken)
  · intro id c' found
    rw [moved.tcp] at found
    obtain ⟨c, present, made⟩ := Option.bind_eq_some_iff.mp found
    cases made
    exact (inv.conns present).retried (fed id c present) inv.tcp

theorem Inv.took (inv : w.Inv cfg) {message : DataIn} (idle : w.deferred = [])
    (known : message.id < w.stack.nextId) :
    ∃ t back, tryHandleData cfg w.stack message = some (t, back) ∧
      World.Inv cfg { w with
        stack := t, deferred := w.deferred ++ back.toList, taken := w.taken ++ [message] } := by
  obtain ⟨t, back, handled, moved, back_tcp, fits⟩ := tryHandleData_moves cfg inv.owned message
  refine ⟨t, back, handled, moved.owned, ?_, ?_, ?_, ?_⟩
  · intro d member
    rw [idle] at member
    exact (back_tcp d (by simpa using member)).1
  · rw [idle]
    cases back <;> simp
  · intro m member
    simp only [idle, nil_append, mem_append, Option.mem_toList, mem_singleton]
      at member
    rw [moved.nextId]
    rcases member with left | taken | rfl
    · rw [(back_tcp m left).2]
      exact known
    · exact inv.known m (mem_append_right _ taken)
    · exact known
  · intro id c' found
    rw [moved.tcp] at found
    obtain ⟨c, present, made⟩ := Option.bind_eq_some_iff.mp found
    cases made
    have good := inv.conns present
    rw [idle] at good
    simp only [idle]
    exact good.took (message.onConn_fed c (fits id c present))

theorem Inv.proceeds (inv : w.Inv cfg) {e : Event} (enabled : Enabled w e) :
    ∃ w', step cfg w e = some w' ∧ Steps cfg w e w' := by
  cases e with
  | poll items =>
    refine ⟨_, rfl, ?_, by simp [takes], by simp [Does]⟩
    refine inv.moves (poll_moves inv.owned items) w.log fun id c c' good made => ?_
    cases made
    exact good.poll items
  | serviceTcp ids now io =>
    obtain ⟨t, effects, busy, served, moved, does⟩ :=
      serviceTcp_all cfg now inv.owned io enabled.1 enabled.2
    refine ⟨{ w with stack := t, log := w.log ++ effects }, by simp [step, served], ?_,
      by simp [takes], by simp [Does, does]⟩
    exact inv.moves moved _ fun id c c' good made => good.carries (serviceEntry_carries made)
  | serviceUdp ids =>
    obtain ⟨t, busy, served, moved⟩ := serviceUdp_moves inv.owned ids
    refine ⟨{ w with stack := t }, by simp [step, served], ?_, by simp [takes],
      by simp [Does]⟩
    exact inv.moves moved w.log fun id c c' good made => by cases made; exact good
  | retryDeferred =>
    obtain ⟨t, rest, retried, after⟩ := inv.retry
    exact ⟨{ w with stack := t, deferred := rest }, by simp [step, retried], after,
      by simp [takes], by simp [Does]⟩
  | command now cmd =>
    exact ⟨_, rfl, inv.command now cmd _, by simp [takes], fun _ => mem_append⟩
  | dataIn message =>
    by_cases idle : w.deferred = []
    · obtain ⟨t, back, handled, after⟩ := inv.took idle enabled
      exact ⟨_, by simp only [step, idle, handled]; rfl, by simpa only [idle] using after,
        by simp [takes, idle], by simp [Does]⟩
    · exact ⟨w, by simp [step, idle], inv, by simp [takes, idle], by simp [Does]⟩
  | appTake id =>
    refine ⟨_, rfl, inv.modifyTcp id fun st => ?_, by simp [takes], by simp [Does]⟩
    split
    · exact ⟨_, _, rfl, rfl, rfl⟩
    · exact ⟨_, st.connectResp, rfl, by simp, rfl⟩
  | appDrop id =>
    refine ⟨_, rfl, inv.modifyTcp id fun st => ?_, by simp [takes], by simp [Does]⟩
    split
    · exact ⟨_, _, rfl, rfl, rfl⟩
    · exact ⟨_, st.connectResp, rfl, rfl, rfl⟩
  | requesterDrop id =>
    refine ⟨_, rfl, inv.modifyTcp id fun st => ?_, by simp [takes], by simp [Does]⟩
    exact ⟨st.toApp, _, rfl, rfl, by simp⟩
  | udpTake id | udpDrop id =>
    refine ⟨_, rfl, ?_, by simp [takes], by simp [Does]⟩
    exact inv.moves (NetStack.modifyUdp_moves inv.owned) w.log
      fun id c c' good made => by cases made; exact good

theorem Inv.kept {e : Event} {w' : World} (inv : w.Inv cfg) (enabled : Enabled w e)
    (next : step cfg w e = some w') : Steps cfg w e w' := by
  obtain ⟨w'', next', steps⟩ := inv.proceeds enabled
  cases next.symm.trans next'
  exact steps

variable {events : List Event}

theorem Inv.always (inv : w.Inv cfg) (valid : Runs.Each (step cfg) Enabled w events) :
    Runs.Always (step cfg) (Inv cfg) w events :=
  Runs.always_of_kept (fun _ _ _ inv enabled next => (inv.kept enabled next).inv) inv valid

theorem Inv.run_isSome (inv : w.Inv cfg) (valid : Runs.Each (step cfg) Enabled w events) :
    (Runs.run (step cfg) w events).isSome = true := by
  obtain ⟨_, reached, -⟩ := Runs.exists_run (I := Inv cfg) (fun _ _ inv enabled => by
    obtain ⟨w', next, steps⟩ := inv.proceeds enabled
    exact ⟨w', next, steps.inv⟩) inv events valid
  rw [reached, Option.isSome_some]

end World

end Gozarbin.Netstack
