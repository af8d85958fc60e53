import Gozarbin.Masque.Inbound

/-! # The sending end of a tunnel over HTTP/2

A task takes packets off the outbound queue and writes them to the request stream, as many at a
time as are queued, up to a limit. Probes come already framed, on a queue that is served first.
Other tasks fill both queues while it runs, so each message it takes is a step. What it has
written is what it took (`Written`), it takes all there is (`Serving.exists_idle`), and that is
what the other tasks sent (`sent_run`).
-/

namespace Gozarbin.Masque

open List Framing Runs

def h2SendBatchBytes : Nat := 32 * 1024

def encodeDatagramCapsule (ipPacket : Bytes) : Option Bytes :=
  encodeCapsule capsuleDatagram ipPacket

def appendDatagramCapsule (out ipPacket : Bytes) : Option Bytes :=
  appendCapsule out capsuleDatagram ipPacket

inductive SenderMsg where
  | capsule (framed : Bytes)
  | finish
  deriving DecidableEq

inductive SenderPhase where
  | waiting
  | filling
  | finished
  | failed
  deriving DecidableEq

structure Pump where
  outbound : Chan Bytes
  outboundClosed : Bool
  control : Chan SenderMsg
  controlClosed : Bool
  batch : Bytes
  phase : SenderPhase
  frames : List Bytes

inductive PumpEvent where
  | packet (packet : Bytes)
  | probe (packet : Bytes)
  | finish
  | outboundGone
  | controlGone
  | poll (accepted : Bool)
  deriving DecidableEq

/-- What holds of the packet that is queued. -/
def PumpEvent.All (Q : Bytes → Prop) : PumpEvent → Prop
  | .packet bytes => Q bytes
  | .probe bytes => Q bytes
  | _ => True

instance (Q : Bytes → Prop) [DecidablePred Q] : DecidablePred (PumpEvent.All Q)
  | .packet bytes => inferInstanceAs (Decidable (Q bytes))
  | .probe bytes => inferInstanceAs (Decidable (Q bytes))
  | .finish => inferInstanceAs (Decidable True)
  | .outboundGone => inferInstanceAs (Decidable True)
  | .controlGone => inferInstanceAs (Decidable True)
  | .poll _ => inferInstanceAs (Decidable True)

def PumpEvent.packet? : PumpEvent → Option Bytes
  | .packet bytes => some bytes
  | _ => none

def PumpEvent.probe? : PumpEvent → Option Bytes
  | .probe bytes => some bytes
  | _ => none

def probeMsg (packet : Bytes) : SenderMsg := .capsule (wire capsuleDatagram packet)

def PumpEvent.message? : PumpEvent → Option SenderMsg
  | .probe bytes => some (probeMsg bytes)
  | .finish => some .finish
  | _ => none

def packetsOf (events : List PumpEvent) : List Bytes := events.filterMap PumpEvent.packet?

def probesOf (events : List PumpEvent) : List Bytes := events.filterMap PumpEvent.probe?

def messagesOf (events : List PumpEvent) : List SenderMsg := events.filterMap PumpEvent.message?

/-- Nobody tells the task to stop, the stream takes what it writes, and the packets can be framed. -/
def PumpEvent.Working : PumpEvent → Prop
  | .packet bytes | .probe bytes => bytes.length < 2 ^ 62
  | .poll accepted => accepted = true
  | _ => False

instance : DecidablePred PumpEvent.Working
  | .packet bytes | .probe bytes => inferInstanceAs (Decidable (bytes.length < 2 ^ 62))
  | .poll accepted => inferInstanceAs (Decidable (accepted = true))
  | .finish | .outboundGone | .controlGone => inferInstanceAs (Decidable False)

namespace Pump

def initial (outbound control : Nat) : Pump :=
  ⟨.new outbound, false, .new control, false, [], .waiting, []⟩

def stop (p : Pump) (phase : SenderPhase) : Pump :=
  { p with outbound := p.outbound.dropReceiver, control := p.control.dropReceiver, phase }

def sendCapsule (p : Pump) (data : Bytes) (accepted : Bool) : Pump :=
  if data.length = 0 then { p with phase := .waiting }
  else if accepted then { p with phase := .waiting, frames := p.frames ++ [data] }
  else p.stop .failed

def take (p : Pump) (packet : Bytes) : Option Pump :=
  (appendDatagramCapsule p.batch packet).map fun batch =>
    { p with outbound := p.outbound.recv, batch, phase := .filling }

def poll (p : Pump) (accepted : Bool) : Option Pump :=
  match p.phase with
  | .waiting =>
    match p.control.front with
    | some (.capsule framed) =>
      some (({ p with control := p.control.recv }).sendCapsule framed accepted)
    | some .finish => some (p.stop .finished)
    | none =>
      if p.controlClosed then some (p.stop .finished)
      else
        match p.outbound.front with
        | some packet => p.take packet
        | none => if p.outboundClosed then some (p.stop .finished) else some p
  | .filling =>
    match p.outbound.front with
    | some packet =>
      if p.batch.length < h2SendBatchBytes then p.take packet
      else some (({ p with batch := [] }).sendCapsule p.batch accepted)
    | none => some (({ p with batch := [] }).sendCapsule p.batch accepted)
  | .finished => some p
  | .failed => some p

def step (p : Pump) : PumpEvent → Option Pump
  | .packet packet => some { p with outbound := p.outbound.offer packet }
  | .probe packet =>
    (encodeDatagramCapsule packet).map fun framed =>
      { p with control := p.control.offer (.capsule framed) }
  | .finish => some { p with control := p.control.offer .finish }
  | .outboundGone => some { p with outboundClosed := true }
  | .controlGone => some { p with controlClosed := true }
  | .poll accepted => p.poll accepted

/-- The queue a packet was taken from. -/
inductive Source where
  | outbound
  | control
  deriving DecidableEq

def ofSource (source : Source) (written : List (Source × Bytes)) : List Bytes :=
  (written.filter fun x => x.1 = source).map Prod.snd

structure Written (Q : Bytes → Prop) (p : Pump) (written : List (Source × Bytes)) : Prop where
  packets : ∀ x ∈ written, x.2.length < 2 ^ 62 ∧ Q x.2
  bytes : p.frames.flatten ++ p.batch = written.flatMap fun x => wire capsuleDatagram x.2
  outbound : ofSource .outbound written = p.outbound.received
  control : (ofSource .control written).map probeMsg = p.control.received
  queued : ∀ packet ∈ p.outbound.sent, Q packet
  probes : ∀ m ∈ p.control.sent, m ≠ .finish →
    ∃ packet, packet.length < 2 ^ 62 ∧ Q packet ∧ m = probeMsg packet
  empty : p.phase = .waiting → p.batch = []

variable {Q : Bytes → Prop} {p p' : Pump} {written : List (Source × Bytes)}

@[simp] theorem ofSource_append (source : Source) (left right : List (Source × Bytes)) :
    ofSource source (left ++ right) = ofSource source left ++ ofSource source right := by
  simp [ofSource]

theorem initial_written (outbound control : Nat) : Written Q (initial outbound control) [] where
  packets := by simp
  bytes := rfl
  outbound := rfl
  control := rfl
  queued := by simp [initial]
  probes := by simp [initial]
  empty := fun _ => rfl

theorem Written.stop (inv : Written Q p written) (phase : SenderPhase) (apart : phase ≠ .waiting) :
    Written Q (p.stop phase) written where
  packets := inv.packets
  bytes := inv.bytes
  outbound := inv.outbound
  control := inv.control
  queued := inv.queued
  probes := inv.probes
  empty := fun waiting => absurd waiting apart

variable {packet : Bytes}

theorem Written.take (inv : Written Q p written)
    (waits : p.outbound.front = some packet) (taken : p.take packet = some p') :
    Written Q p' (written ++ [(.outbound, packet)]) := by
  obtain ⟨batch, appended, rfl⟩ := Option.map_eq_some_iff.mp taken
  rw [appendDatagramCapsule, appendCapsule_eq_map] at appended
  obtain ⟨framed, encoded, rfl⟩ := Option.map_eq_some_iff.mp appended
  obtain ⟨-, short, rfl⟩ := encodeCapsule_eq_some.mp encoded
  constructor
  case packets =>
    have queued := inv.queued packet (mem_of_getElem? waits)
    exact forall_mem_append.mpr ⟨inv.packets, by simpa using ⟨short, queued⟩⟩
  case bytes => simp [← inv.bytes]
  case outbound =>
    rw [ofSource_append, inv.outbound]
    exact (Chan.received_recv waits).symm
  case control => simpa [ofSource] using inv.control
  case queued =>
    intro other member
    rw [Chan.recv_sent] at member
    exact inv.queued other member
  case probes => exact inv.probes
  case empty => rintro ⟨⟩

theorem Written.sendCapsule {data : Bytes}
    (inv : Written Q { p with batch := data, phase := .filling } written) (empty : p.batch = [])
    (accepted : Bool) :
    (p.sendCapsule data accepted).phase = .failed ∨
      Written Q (p.sendCapsule data accepted) written := by
  have bytes : p.frames.flatten ++ data = _ := inv.bytes
  unfold Pump.sendCapsule
  split
  next none =>
    rw [length_eq_zero_iff.mp none] at bytes
    exact .inr ⟨inv.packets, by rw [← bytes, empty], inv.outbound, inv.control, inv.queued,
      inv.probes, fun _ => empty⟩
  next =>
    cases accepted with
    | false => exact .inl rfl
    | true =>
      refine .inr ⟨inv.packets, ?_, inv.outbound, inv.control, inv.queued, inv.probes,
        fun _ => empty⟩
      simp [empty, ← bytes]

variable {accepted : Bool}

theorem poll_cases (polled : p.poll accepted = some p') :
    (∃ framed, p.phase = .waiting ∧ p.control.front = some (.capsule framed) ∧
      p' = ({ p with control := p.control.recv }).sendCapsule framed accepted) ∨
    p' = p.stop .finished ∨
    (∃ packet, p.outbound.front = some packet ∧ p.take packet = some p') ∨
    (p.phase = .filling ∧ p' = ({ p with batch := [] }).sendCapsule p.batch accepted) ∨
    p' = p := by
  unfold Pump.poll at polled
  split at polled
  next phase =>
    split at polled
    next framed first => exact .inl ⟨framed, phase, first, (Option.some.inj polled).symm⟩
    next => exact .inr (.inl (Option.some.inj polled).symm)
    next =>
      split at polled
      next => exact .inr (.inl (Option.some.inj polled).symm)
      next =>
        split at polled
        next packet waits => exact .inr (.inr (.inl ⟨packet, waits, polled⟩))
        next =>
          split at polled
          next => exact .inr (.inl (Option.some.inj polled).symm)
          next => exact .inr (.inr (.inr (.inr (Option.some.inj polled).symm)))
  next phase =>
    split at polled
    next packet waits =>
      split at polled
      next => exact .inr (.inr (.inl ⟨packet, waits, polled⟩))
      next => exact .inr (.inr (.inr (.inl ⟨phase, (Option.some.inj polled).symm⟩)))
    next => exact .inr (.inr (.inr (.inl ⟨phase, (Option.some.inj polled).symm⟩)))
  next => exact .inr (.inr (.inr (.inr (Option.some.inj polled).symm)))
  next => exact .inr (.inr (.inr (.inr (Option.some.inj polled).symm)))

theorem Written.probe (inv : Written Q p written) {framed : Bytes} (waiting : p.phase = .waiting)
    (waits : p.control.front = some (.capsule framed)) :
    ∃ packet, Written Q { p with control := p.control.recv, batch := framed, phase := .filling }
      (written ++ [(.control, packet)]) := by
  obtain ⟨packet, short, holds, message⟩ := inv.probes _ (mem_of_getElem? waits) (by simp)
  obtain rfl : framed = wire capsuleDatagram packet := SenderMsg.capsule.inj message
  refine ⟨packet, ?_⟩
  constructor
  case packets => exact forall_mem_append.mpr ⟨inv.packets, by simpa using ⟨short, holds⟩⟩
  case bytes =>
    have bytes := inv.bytes
    rw [inv.empty waiting, append_nil] at bytes
    simp [bytes]
  case outbound => simpa [ofSource] using inv.outbound
  case control =>
    rw [ofSource_append, map_append, inv.control]
    exact (Chan.received_recv waits).symm
  case queued => exact inv.queued
  case probes =>
    intro m member
    rw [Chan.recv_sent] at member
    exact inv.probes m member
  case empty => rintro ⟨⟩

theorem Written.poll (inv : Written Q p written)
    (polled : p.poll accepted = some p') :
    p'.phase = .failed ∨ ∃ written', Written Q p' written' := by
  rcases poll_cases polled with ⟨framed, waiting, waits, rfl⟩ | rfl | ⟨packet, waits, taken⟩ |
    ⟨filling, rfl⟩ | rfl
  · obtain ⟨packet, batched⟩ := inv.probe waiting waits
    exact (Written.sendCapsule (p := { p with control := p.control.recv }) batched
      (inv.empty waiting) accepted).imp_right fun sent => ⟨_, sent⟩
  · exact .inr ⟨written, inv.stop .finished (by decide)⟩
  · exact .inr ⟨_, inv.take waits taken⟩
  · have batched : Written Q { p with batch := p.batch, phase := .filling } written := by
      rw [← filling]
      exact inv
    exact (Written.sendCapsule (p := { p with batch := [] }) batched rfl accepted).imp_right
      fun sent => ⟨_, sent⟩
  · exact .inr ⟨written, inv⟩

variable {e : PumpEvent}

theorem Written.step (inv : Written Q p written) (all : e.All Q)
    (next : p.step e = some p') :
    p'.phase = .failed ∨ ∃ written', Written Q p' written' := by
  cases e with
  | packet packet =>
    cases next
    refine .inr ⟨written, { inv with outbound := by simpa using inv.outbound, queued := ?_ }⟩
    intro other member
    rcases Chan.mem_offer member with old | rfl
    · exact inv.queued other old
    · exact all
  | probe packet =>
    obtain ⟨framed, encoded, rfl⟩ := Option.map_eq_some_iff.mp next
    obtain ⟨-, short, rfl⟩ := encodeCapsule_eq_some.mp encoded
    refine .inr ⟨written, { inv with control := by simpa using inv.control, probes := ?_ }⟩
    intro m member other
    rcases Chan.mem_offer member with old | rfl
    · exact inv.probes m old other
    · exact ⟨packet, short, all, rfl⟩
  | finish =>
    cases next
    refine .inr ⟨written, { inv with control := by simpa using inv.control, probes := ?_ }⟩
    intro m member other
    rcases Chan.mem_offer member with old | rfl
    · exact inv.probes m old other
    · exact absurd rfl other
  | outboundGone =>
    cases next
    exact .inr ⟨written, { inv with }⟩
  | controlGone =>
    cases next
    exact .inr ⟨written, { inv with }⟩
  | poll accepted => exact inv.poll next

theorem failed_step (failed : p.phase = .failed) (next : p.step e = some p') :
    p'.phase = .failed := by
  cases e with
  | packet | finish | outboundGone | controlGone =>
    cases next
    exact failed
  | probe packet =>
    obtain ⟨framed, -, rfl⟩ := Option.map_eq_some_iff.mp next
    exact failed
  | poll accepted =>
    simp only [Pump.step, Pump.poll, failed] at next
    cases next
    exact failed

variable {events : List PumpEvent}

theorem exists_written {outbound control : Nat}
    (all : ∀ e ∈ events, e.All Q) (ran : run step (initial outbound control) events = some p) :
    p.phase = .failed ∨ ∃ written, Written Q p written := by
  refine (always_of_kept (I := fun p => p.phase = .failed ∨ ∃ written, Written Q p written) ?kept
    (.inr ⟨[], initial_written outbound control⟩) (Each.of_forall_mem all)).last ran
  rintro p e p' (failed | ⟨written, inv⟩) all next
  · exact .inl (failed_step failed next)
  · exact inv.step all next

theorem ofSource_outbound_of_none (none : ofSource .control written = []) :
    written.map Prod.snd = ofSource .outbound written := by
  have all : ∀ x ∈ written, x.1 = .outbound := by
    intro x member
    cases source : x.1 with
    | outbound => rfl
    | control =>
      have kept : x.2 ∈ ofSource .control written :=
        mem_map_of_mem (mem_filter.mpr ⟨member, by simp [source]⟩)
      rw [none] at kept
      cases kept
  rw [ofSource, filter_eq_self.mpr fun x member => by simp [all x member]]

theorem Written.received {word : WordSize} {capacity : Nat} {addrs : Option (Chan AssignedAddr)}
    {receives : List IntakeEvent}
    (inv : Written (fun p => IsIpPacket p ∧ p.length < 2 ^ word.bits) p written)
    (waiting : p.phase = .waiting)
    (roomy : Each (Intake.step word) (Intake.Roomy word) (.initial capacity addrs) receives)
    (arrived : (Intake.chunks receives).flatten = p.frames.flatten) :
    ∃ s', run (Intake.step word) (.initial capacity addrs) receives = some s' ∧
      s'.inbound.sent = written.map Prod.snd ∧ s'.capsules = .new := by
  have bytes : (Intake.chunks receives).flatten =
      (written.map Prod.snd).flatMap fun p => wire capsuleDatagram (id p) := by
    rw [arrived, flatMap_map, ← append_nil p.frames.flatten, ← inv.empty waiting]
    exact inv.bytes
  have packets : ∀ p ∈ written.map Prod.snd,
      p.length < 2 ^ 62 ∧ IsIpPacket p ∧ p.length < 2 ^ word.bits := by
    rw [forall_mem_map]
    exact inv.packets
  exact Intake.run_datagrams id capacity addrs (fun p member => strip_bare (packets p member).2.1)
    (fun p member => ⟨(packets p member).1, (packets p member).2.2⟩) roomy bytes

/-- The queue has room for what the event puts on it. -/
def Roomy (p : Pump) : PumpEvent → Prop
  | .packet _ => p.outbound.alive = true ∧ 0 < p.outbound.free
  | .probe _ | .finish => p.control.alive = true ∧ 0 < p.control.free
  | _ => True

instance (p : Pump) : DecidablePred p.Roomy
  | .packet _ | .probe _ | .finish => inferInstanceAs (Decidable (_ ∧ _))
  | .outboundGone | .controlGone | .poll _ => inferInstanceAs (Decidable True)

theorem sendCapsule_sent (p : Pump) (data : Bytes) (accepted : Bool) :
    (p.sendCapsule data accepted).outbound.sent = p.outbound.sent ∧
      (p.sendCapsule data accepted).control.sent = p.control.sent := by
  unfold sendCapsule
  split
  · exact ⟨rfl, rfl⟩
  · cases accepted <;> exact ⟨rfl, rfl⟩

theorem sent_poll (polled : p.poll accepted = some p') :
    p'.outbound.sent = p.outbound.sent ∧ p'.control.sent = p.control.sent := by
  rcases poll_cases polled with ⟨framed, -, -, rfl⟩ | rfl | ⟨packet, -, taken⟩ | ⟨-, rfl⟩ | rfl
  · simp [sendCapsule_sent]
  · exact ⟨rfl, rfl⟩
  · obtain ⟨batch, -, rfl⟩ := Option.map_eq_some_iff.mp taken
    exact ⟨Chan.recv_sent _, rfl⟩
  · exact sendCapsule_sent _ _ _
  · exact ⟨rfl, rfl⟩

theorem sent_step (room : p.Roomy e) (next : p.step e = some p') :
    p'.outbound.sent = p.outbound.sent ++ e.packet?.toList ∧
      p'.control.sent = p.control.sent ++ e.message?.toList ∧
      ∀ packet ∈ e.probe?, packet.length < 2 ^ 62 := by
  have nothing : ∀ packet ∈ (none : Option Bytes), packet.length < 2 ^ 62 := by simp
  cases e with
  | packet packet =>
    cases next
    exact ⟨Chan.offer_sent ⟨room.1, room.2⟩ packet, (append_nil _).symm, nothing⟩
  | probe packet =>
    obtain ⟨framed, encoded, rfl⟩ := Option.map_eq_some_iff.mp next
    obtain ⟨-, short, rfl⟩ := encodeCapsule_eq_some.mp encoded
    refine ⟨(append_nil _).symm, Chan.offer_sent ⟨room.1, room.2⟩ _, ?_⟩
    rintro other ⟨⟩
    exact short
  | finish =>
    cases next
    exact ⟨(append_nil _).symm, Chan.offer_sent ⟨room.1, room.2⟩ _, nothing⟩
  | outboundGone | controlGone =>
    cases next
    exact ⟨(append_nil _).symm, (append_nil _).symm, nothing⟩
  | poll accepted =>
    obtain ⟨outbound, control⟩ := sent_poll next
    rw [outbound, control]
    exact ⟨(append_nil _).symm, (append_nil _).symm, nothing⟩

theorem sent_run (room : Each step Roomy p events)
    (ran : run step p events = some p') :
    p'.outbound.sent = p.outbound.sent ++ packetsOf events ∧
      p'.control.sent = p.control.sent ++ messagesOf events ∧
      ∀ packet ∈ probesOf events, packet.length < 2 ^ 62 := by
  induction events generalizing p with
  | nil =>
    cases ran
    exact ⟨(append_nil _).symm, (append_nil _).symm, forall_mem_nil _⟩
  | cons e events ih =>
    obtain ⟨q, next, ran⟩ := Option.bind_eq_some_iff.mp ran
    obtain ⟨outbound, control, later⟩ := ih (room.2 q next) ran
    obtain ⟨outbound', control', here⟩ := sent_step room.1 next
    rw [outbound, outbound', control, control', append_assoc, append_assoc]
    refine ⟨by cases e <;> rfl, by cases e <;> rfl, ?_⟩
    cases e with
    | probe packet => exact forall_mem_cons.mpr ⟨here packet rfl, later⟩
    | packet | finish | outboundGone | controlGone | poll => exact later

theorem sent_polls {n : Nat} (ran : run step p (List.replicate n (.poll true)) = some p') :
    p'.outbound.sent = p.outbound.sent ∧ p'.control.sent = p.control.sent := by
  induction n generalizing p with
  | zero =>
    cases ran
    exact ⟨rfl, rfl⟩
  | succ n ih =>
    obtain ⟨q, next, ran⟩ := Option.bind_eq_some_iff.mp ran
    obtain ⟨outbound, control⟩ := sent_poll next
    rw [← outbound, ← control]
    exact ih ran

theorem probeMsg_injective {other : Bytes} (short : packet.length < 2 ^ 62)
    (short' : other.length < 2 ^ 62) (same : probeMsg packet = probeMsg other) : packet = other := by
  have read (p : Bytes) (short : p.length < 2 ^ 62) :
      readCapsule id (wire capsuleDatagram p ++ []) = some ((capsuleDatagram, p), []) :=
    readCapsule_wire (by decide) short rfl []
  have wired : wire capsuleDatagram packet = wire capsuleDatagram other := SenderMsg.capsule.inj same
  have reads := (read packet short).symm.trans ((congrArg (readCapsule id <| · ++ []) wired).trans
    (read other short'))
  simpa using reads

theorem probesOf_eq {probes : List Bytes}
    (short : ∀ packet ∈ probes, packet.length < 2 ^ 62)
    (short' : ∀ packet ∈ probesOf events, packet.length < 2 ^ 62)
    (sent : probes.map probeMsg = messagesOf events) : probes = probesOf events := by
  induction events generalizing probes with
  | nil => exact map_eq_nil_iff.mp sent
  | cons e events ih =>
    cases e with
    | packet | outboundGone | controlGone | poll => exact ih short short' sent
    | finish =>
      cases probes with
      | nil => cases sent
      | cons packet probes => cases (List.cons.inj sent).1
    | probe other =>
      cases probes with
      | nil => cases sent
      | cons packet probes =>
        obtain ⟨first, rest⟩ := List.cons.inj sent
        obtain ⟨here, later⟩ := forall_mem_cons.mp short
        obtain ⟨here', later'⟩ := forall_mem_cons.mp (short' : ∀ p ∈ other :: _, _)
        rw [probeMsg_injective here here' first, ih later later' rest]
        rfl

structure Serving (p : Pump) : Prop where
  phase : p.phase = .waiting ∨ p.phase = .filling
  controlOpen : p.controlClosed = false
  outboundOpen : p.outboundClosed = false
  short : ∀ packet ∈ p.outbound.sent, packet.length < 2 ^ 62
  unfinished : .finish ∉ p.control.sent

/-- Both queues are empty, and so is the batch. -/
def Idle (p : Pump) : Prop :=
  p.phase = .waiting ∧ p.outbound.taken = p.outbound.sent.length ∧
    p.control.taken = p.control.sent.length

instance (p : Pump) : Decidable p.Idle := inferInstanceAs (Decidable (_ ∧ _ ∧ _))

def pollsLeft (p : Pump) : Nat :=
  2 * p.outbound.unread + p.control.unread + if p.phase = .filling then 1 else 0

theorem take_eq (short : packet.length < 2 ^ 62) :
    p.take packet = some { p with
      outbound := p.outbound.recv, batch := p.batch ++ wire capsuleDatagram packet
      phase := .filling } := by
  rw [take, appendDatagramCapsule, appendCapsule_eq _ (by decide) short]
  rfl

theorem sendCapsule_accepted (p : Pump) (data : Bytes) :
    ∃ frames, p.sendCapsule data true = { p with phase := .waiting, frames } := by
  unfold sendCapsule
  split
  · exact ⟨p.frames, rfl⟩
  · exact ⟨p.frames ++ [data], rfl⟩

namespace Serving

theorem initial (outbound control : Nat) : Serving (initial outbound control) :=
  ⟨.inl rfl, rfl, rfl, by simp [Pump.initial], by simp [Pump.initial]⟩

theorem take (serving : p.Serving) (waits : p.outbound.front = some packet) :
    ∃ p', p.take packet = some p' ∧ p'.Serving ∧ p'.pollsLeft < p.pollsLeft := by
  refine ⟨_, take_eq (serving.short packet (mem_of_getElem? waits)),
    { serving with phase := .inr rfl, short := by simpa using serving.short }, ?_⟩
  have fewer := Chan.unread_recv waits
  simp only [pollsLeft, if_true]
  omega

theorem sendBatch (serving : p.Serving) (filling : p.phase = .filling) :
    (({ p with batch := [] }).sendCapsule p.batch true).Serving ∧
      (({ p with batch := [] }).sendCapsule p.batch true).pollsLeft < p.pollsLeft := by
  obtain ⟨frames, sent⟩ := sendCapsule_accepted { p with batch := [] } p.batch
  rw [sent]
  exact ⟨{ serving with phase := .inl rfl }, by simp [pollsLeft, filling]⟩

theorem sendProbe (serving : p.Serving) {framed : Bytes}
    (waits : p.control.front = some (.capsule framed)) :
    (({ p with control := p.control.recv }).sendCapsule framed true).Serving ∧
      (({ p with control := p.control.recv }).sendCapsule framed true).pollsLeft < p.pollsLeft := by
  obtain ⟨frames, sent⟩ := sendCapsule_accepted { p with control := p.control.recv } framed
  rw [sent]
  refine ⟨{ serving with phase := .inl rfl, unfinished := by simpa using serving.unfinished }, ?_⟩
  have fewer := Chan.unread_recv waits
  simp only [pollsLeft, reduceCtorEq, if_false]
  omega

theorem poll (serving : p.Serving) :
    p.Idle ∨ ∃ p', p.step (.poll true) = some p' ∧ p'.Serving ∧ p'.pollsLeft < p.pollsLeft := by
  simp only [step]
  rcases serving.phase with waiting | filling
  · cases first : p.control.front with
    | some m =>
      cases m with
      | capsule framed =>
        exact .inr ⟨_, by simp [Pump.poll, waiting, first], serving.sendProbe first⟩
      | finish => exact absurd (mem_of_getElem? first) serving.unfinished
    | none =>
      cases next : p.outbound.front with
      | some packet =>
        obtain ⟨p', taken, after⟩ := serving.take next
        exact .inr ⟨p', by simp [Pump.poll, waiting, first, serving.controlOpen, next, taken], after⟩
      | none => exact .inl ⟨waiting, Chan.taken_of_front next, Chan.taken_of_front first⟩
  · cases next : p.outbound.front with
    | some packet =>
      by_cases room : p.batch.length < h2SendBatchBytes
      · obtain ⟨p', taken, after⟩ := serving.take next
        exact .inr ⟨p', by simp [Pump.poll, filling, next, room, taken], after⟩
      · exact .inr ⟨_, by simp [Pump.poll, filling, next, room], serving.sendBatch filling⟩
    | none => exact .inr ⟨_, by simp [Pump.poll, filling, next], serving.sendBatch filling⟩

theorem poll_of_idle (serving : p.Serving) (idle : p.Idle) : p.step (.poll true) = some p := by
  have empty : ∀ {α : Type} (c : Chan α), c.taken = c.sent.length → c.front = none :=
    fun c all => List.getElem?_eq_none_iff.mpr all.ge
  simp [step, Pump.poll, idle.1, empty _ idle.2.1, empty _ idle.2.2, serving.controlOpen,
    serving.outboundOpen]

theorem step (serving : p.Serving) (working : e.Working) :
    ∃ p', p.step e = some p' ∧ p'.Serving := by
  cases e with
  | packet packet =>
    refine ⟨_, rfl, { serving with short := ?_ }⟩
    intro other member
    rcases Chan.mem_offer member with old | rfl
    · exact serving.short other old
    · exact working
  | probe packet =>
    refine ⟨{ p with control := p.control.offer (probeMsg packet) }, ?_,
      { serving with unfinished := ?_ }⟩
    · rw [Pump.step, encodeDatagramCapsule, encodeCapsule_eq_some.mpr ⟨by decide, working, rfl⟩]
      rfl
    · intro member
      rcases Chan.mem_offer member with old | new
      · exact serving.unfinished old
      · cases new
  | poll accepted =>
    obtain rfl : accepted = true := working
    rcases serving.poll with idle | ⟨p', next, after, -⟩
    · exact ⟨p, serving.poll_of_idle idle, serving⟩
    · exact ⟨p', next, after⟩
  | finish | outboundGone | controlGone => exact working.elim

theorem run (serving : p.Serving) (working : ∀ e ∈ events, e.Working) :
    ∃ p', run Pump.step p events = some p' ∧ p'.Serving :=
  exists_run (fun _ _ serving working => serving.step working) serving events
    (Each.of_forall_mem working)

theorem exists_idle (serving : p.Serving) :
    ∃ n p', Runs.run Pump.step p (List.replicate n (.poll true)) = some p' ∧ p'.Serving ∧ p'.Idle :=
  exists_run_replicate pollsLeft (fun _ serving => serving.poll) serving

end Serving

/-- However its frames are cut, a receiving end with room delivers the packets and the probes of
    the events, each queue in its order, unchanged. -/
def Delivers (pump : Pump) (word : WordSize) (capacity : Nat) (addrs : Option (Chan AssignedAddr))
    (sends : List PumpEvent) : Prop :=
  ∀ receives, Each (Intake.step word) (Intake.Roomy word) (.initial capacity addrs) receives →
    (Intake.chunks receives).flatten = pump.frames.flatten →
    ∃ written s', Runs.run (Intake.step word) (.initial capacity addrs) receives = some s' ∧
      s'.inbound.sent = written.map Prod.snd ∧ s'.capsules = .new ∧
      ofSource .outbound written = packetsOf sends ∧ ofSource .control written = probesOf sends ∧
      (probesOf sends = [] → s'.inbound.sent = packetsOf sends)

theorem delivers_of_idle {word : WordSize} {outbound control : Nat} {sends : List PumpEvent}
    (all : ∀ e ∈ events, e.All fun p => IsIpPacket p ∧ p.length < 2 ^ word.bits)
    (ran : run step (initial outbound control) events = some p) (idle : p.Idle)
    (packets : p.outbound.sent = packetsOf sends) (messages : p.control.sent = messagesOf sends)
    (short : ∀ packet ∈ probesOf sends, packet.length < 2 ^ 62) (capacity : Nat)
    (addrs : Option (Chan AssignedAddr)) : p.Delivers word capacity addrs sends := by
  intro receives roomy arrived
  rcases exists_written all ran with failed | ⟨written, inv⟩
  · rw [idle.1] at failed
    cases failed
  obtain ⟨s', received, delivered, left⟩ := inv.received idle.1 roomy arrived
  have fromOutbound := (inv.outbound.trans (Chan.received_eq_sent idle.2.1)).trans packets
  have fromControl := (inv.control.trans (Chan.received_eq_sent idle.2.2)).trans messages
  have probes : ofSource .control written = probesOf sends := by
    refine probesOf_eq (fun packet member => ?_) short fromControl
    obtain ⟨x, kept, rfl⟩ := mem_map.mp member
    exact (inv.packets x (mem_of_mem_filter kept)).1
  refine ⟨written, s', received, delivered, left, fromOutbound, probes, fun none => ?_⟩
  rw [delivered, ofSource_outbound_of_none (probes.trans none), fromOutbound]

end Pump

/-- Packets and probes that are queued are taken, in whatever batches, and delivered, in
    whatever chunks they arrive, in order and unchanged, also with a context id of zero in
    front. -/
theorem tunnel_delivers (word : WordSize) (outbound control capacity : Nat)
    (addrs : Option (Chan AssignedAddr)) (sends : List PumpEvent)
    (packets : ∀ e ∈ sends, e.All fun p => IsIpPacket p ∧ p.length < 2 ^ word.bits)
    (room : Each Pump.step Pump.Roomy (.initial outbound control) sends) :
    ((∀ e ∈ sends, e.Working) → ∃ polls pump,
      run Pump.step (.initial outbound control) (sends ++ List.replicate polls (.poll true)) =
          some pump ∧
        pump.Idle ∧ pump.Delivers word capacity addrs sends) ∧
    (∀ pump, run Pump.step (.initial outbound control) sends = some pump → pump.Idle →
      pump.Delivers word capacity addrs sends) ∧
    ∀ (framed : List Bytes) (receives : List IntakeEvent),
      (∀ p ∈ framed, IsIpPacket p ∧ p.length + 1 < 2 ^ word.bits) →
      encodeAll (framed.map fun p => (capsuleDatagram, 0 :: p)) =
        some (Intake.chunks receives).flatten →
      Each (Intake.step word) (Intake.Roomy word) (.initial capacity addrs) receives →
      ∃ s', run (Intake.step word) (.initial capacity addrs) receives = some s' ∧
        s'.inbound.sent = framed ∧ s'.capsules = .new := by
  refine ⟨fun working => ?_, fun pump ran idle => ?_, fun framed receives ip arrived roomy =>
    Intake.run_with_context capacity addrs ip arrived roomy⟩
  · obtain ⟨p, ran, serving⟩ := (Pump.Serving.initial outbound control).run working
    obtain ⟨polls, pump, polled, -, idle⟩ := serving.exists_idle
    obtain ⟨queued, told, short⟩ := Pump.sent_run room ran
    obtain ⟨outbound_same, control_same⟩ := Pump.sent_polls polled
    have all_ran : run Pump.step (.initial outbound control)
        (sends ++ List.replicate polls (.poll true)) = some pump := by
      rw [run_append, ran]
      exact polled
    refine ⟨polls, pump, all_ran, idle, Pump.delivers_of_idle (fun e member => ?_) all_ran idle
      (outbound_same.trans queued) (control_same.trans told) short capacity addrs⟩
    rcases mem_append.mp member with sent | poll
    · exact packets e sent
    · rw [eq_of_mem_replicate poll]
      trivial
  · obtain ⟨queued, told, short⟩ := Pump.sent_run room ran
    exact Pump.delivers_of_idle packets ran idle queued told short capacity addrs

def ipv4Packet : Bytes := 0x45 :: List.replicate 19 0

def ipv6Packet : Bytes := 0x60 :: List.replicate 39 0

def batchedSends : List PumpEvent :=
  [.packet ipv6Packet, .probe ipv4Packet, .poll true, .poll true, .packet ipv4Packet, .poll true,
    .poll true]

def batchedPump : Pump :=
  (run Pump.step (.initial 4 4) batchedSends).get (by decide +kernel)

def batchedReceives : List IntakeEvent :=
  [.chunk (batchedPump.frames.flatten.take 30), .take, .chunk (batchedPump.frames.flatten.drop 30)]

theorem batchedReceives_delivered :
    (∃ polls pump, run Pump.step (.initial 4 4) (batchedSends ++ List.replicate polls (.poll true)) =
        some pump ∧
      pump.Idle ∧ pump.Delivers .bits32 4 none batchedSends) ∧
    ∃ written s', run (Intake.step .bits32) (.initial 4 none) batchedReceives = some s' ∧
      s'.inbound.sent = written.map Prod.snd ∧ s'.capsules = .new ∧
      Pump.ofSource .outbound written = [ipv6Packet, ipv4Packet] ∧
      Pump.ofSource .control written = [ipv4Packet] ∧
      (probesOf batchedSends = [] → s'.inbound.sent = [ipv6Packet, ipv4Packet]) := by
  have delivers := tunnel_delivers .bits32 4 4 4 none batchedSends (by decide +kernel)
    (by decide +kernel)
  exact ⟨delivers.1 (by decide +kernel), delivers.2.1 batchedPump (Option.some_get _).symm
    (by decide +kernel) batchedReceives (by decide +kernel) (by decide +kernel)⟩

end Gozarbin.Masque
