import Gozarbin.Netstack.Moves

/-! # Every `open_tcp` is answered once

The caller of `open_tcp` waits on a oneshot, kept in the entry of the connection until it is
answered. A pass lets an entry wait, fails it, connects it, or serves a connection that was
answered before (`Conn.Answer`). So the answers sent and the answers owed add up to the opens,
in every state of every run.
-/

namespace Gozarbin.Netstack

open List

def Effect.answers (token : Nat) : Effect → Bool
  | .replyTcp resp _ => resp.token = token
  | _ => false

def Effect.hands (id : Nat) : Effect → Bool
  | .replyTcp _ (.ok i) | .replyUdp _ (.ok i) => i = id
  | _ => false

def replies (token : Nat) (log : List Effect) : Nat := log.countP (Effect.answers token)

def Event.opensTcp (token : Nat) : Event → Bool
  | .command _ (.openTcp _ resp _) => resp.token = token
  | _ => false

def opens (token : Nat) (events : List Event) : Nat := events.countP (Event.opensTcp token)

def Conn.owes (token : Nat) (c : Conn) : Bool := c.1.connectResp.any fun resp => resp.token = token

def NetStack.waiting (s : NetStack) (token : Nat) : Nat :=
  (List.range s.nextId).countP fun id => (s.tcp? id).any (Conn.owes token)

section counts
variable (token : Nat)

@[simp] theorem replies_nil : replies token [] = 0 := rfl

@[simp] theorem replies_singleton (effect : Effect) :
    replies token [effect] = (effect.answers token).toNat := by
  cases answers : effect.answers token <;> simp [replies, answers]

@[simp] theorem replies_append (left right : List Effect) :
    replies token (left ++ right) = replies token left + replies token right :=
  countP_append

theorem replies_filter (log : List Effect) :
    replies token (log.filter Effect.isReply) = replies token log := by
  unfold replies
  rw [countP_filter]
  congr 1
  funext effect
  cases effect <;> simp [Effect.answers, Effect.isReply]

theorem countP_range_change {p q : Nat → Bool} {n id : Nat} (inside : id < n)
    (off : ∀ i, i ≠ id → p i = q i) :
    (List.range n).countP p + (q id).toNat = (List.range n).countP q + (p id).toNat := by
  induction n with
  | zero => cases inside
  | succ n ih =>
    simp only [range_succ, countP_append, countP_singleton]
    by_cases last : id = n
    · subst last
      have same : (List.range id).countP p = (List.range id).countP q :=
        countP_congr fun i member => by rw [off i (mem_range.mp member).ne]
      rw [same]
      cases p id <;> cases q id <;> simp
    · have below := ih (by omega)
      rw [off n (Ne.symm last)]
      omega

end counts

/-- A connection as every pass finds it. -/
structure Conn.Orderly (c : Conn) : Prop where
  sound : c.Sound
  aborted : c.1.aborted = true → c.1.established = true

theorem Conn.Orderly.idle {c : Conn} {resp : OpenTcpResp} (orderly : c.Orderly)
    (owed : c.1.connectResp = some resp) : c.1.established = false := by
  have answered := orderly.sound.answered
  simpa [owed] using answered

theorem Conn.Orderly.paid {c : Conn} (orderly : c.Orderly) (up : c.1.established = true) :
    c.1.connectResp = none := by
  simpa [up] using orderly.sound.answered

inductive Conn.Answer (id : Nat) (c : Conn) (served : Served) : Prop
  | waits (idle : c.1.established = false) (same : served.entry = some c)
      (sent : served.effects.filter Effect.isReply = [])
  | fails (resp : OpenTcpResp) (reason : String) (owed : c.1.connectResp = some resp)
      (gone : served.entry = none)
      (sent : served.effects.filter Effect.isReply = [.replyTcp resp (.error reason)])
  | connects (resp : OpenTcpResp) (owed : c.1.connectResp = some resp)
      (phase : c.2.phase = .established ∨ c.2.phase = .closeWait)
      (up : ∀ c' ∈ served.entry, c'.1.established = true)
      (sent : served.effects.filter Effect.isReply = [.replyTcp resp (.ok id)])
  | up (answered : c.1.connectResp = none) (up : ∀ c' ∈ served.entry, c'.1.established = true)
      (sent : served.effects.filter Effect.isReply = [])

section pass
variable {cfg : Config} {now : Nat} {io : PassIo} {id : Nat} {st : TcpState} {socket : TcpSocket}
  {effects : List Effect} {busy : Bool} {c : Conn}

theorem finish_isReply :
    (finish id st socket effects busy).effects.filter Effect.isReply =
      effects.filter Effect.isReply := by
  have closing : (if socket.phase = .closeWait then closeSocket id st socket
      else (socket, [])).2.filter Effect.isReply = [] := by
    split <;> rfl
  simp only [finish]
  split <;> split <;> simp [closing, Effect.isReply]

theorem finish_established (established : st.established = true)
    (kept : (finish id st socket effects busy).entry = some c) : c.1.established = true := by
  cases ended : socket.phase.over with
  | true =>
    obtain ⟨pending, removed⟩ := finish_over id st socket effects busy ended established
    rw [removed] at kept
    cases kept
  | false =>
    rw [finish_on _ _ _ _ _ ended] at kept
    split at kept <;> cases kept <;> exact established

theorem serviceOrphan_isReply :
    (serviceOrphan cfg now id st socket effects).effects.filter Effect.isReply =
      effects.filter Effect.isReply := by
  simp only [serviceOrphan]
  split
  · rfl
  · rw [finish_isReply]
    simp [closeSocket, Effect.isReply]

theorem serviceOrphan_established (established : st.established = true)
    (kept : (serviceOrphan cfg now id st socket effects).entry = some c) :
    c.1.established = true := by
  simp only [serviceOrphan] at kept
  split at kept
  · cases kept
    exact established
  · exact finish_established (by exact established) kept

theorem moveBytes_isReply :
    (moveBytes io id st socket).2.1.filter Effect.isReply = [] := by
  rw [moveBytes_closing]
  split <;> rfl

theorem markConnected_answer (sound : Conn.Sound (st, socket))
    (connected : (markConnected id socket.phase st).1.established = true) :
    st.connectResp = none ∧ (markConnected id socket.phase st).2 = [] ∨
      ∃ resp, st.connectResp = some resp ∧
        (socket.phase = .established ∨ socket.phase = .closeWait) ∧
        (markConnected id socket.phase st).2 = [.replyTcp resp (.ok id)] := by
  have answered := sound.answered
  have handed := sound.handed
  cases done : st.established with
  | true =>
    have none : st.connectResp = none := by simpa [done] using answered
    exact .inl ⟨none, by simp [markConnected, done]⟩
  | false =>
    rw [markConnected_established, done, Bool.false_or] at connected
    simp only [done] at answered handed
    obtain ⟨resp, owed⟩ := Option.isSome_iff_exists.mp answered
    refine .inr ⟨resp, owed, by simpa using connected, ?_⟩
    simp [markConnected, done, connected, owed, handed]

theorem Conn.Answer.of_connected {served : Served} (sound : Conn.Sound (st, socket))
    (connected : (markConnected id socket.phase st).1.established = true)
    (up : ∀ c' ∈ served.entry, c'.1.established = true)
    (sent : served.effects.filter Effect.isReply =
      (markConnected id socket.phase st).2.filter Effect.isReply) :
    Conn.Answer id (st, socket) served := by
  rcases markConnected_answer sound connected with ⟨answered, none⟩ | ⟨resp, owed, phase, one⟩
  · exact .up answered up (by rw [sent, none]; rfl)
  · exact .connects resp owed phase up (by rw [sent, one]; rfl)

theorem serviceEntry_answer (orderly : Conn.Orderly (st, socket)) :
    Conn.Answer id (st, socket) (serviceEntry cfg now io id st socket) := by
  have sound := orderly.sound
  apply serviceEntry_outcome (motive := Conn.Answer id (st, socket))
  case aborted =>
    intro gone
    have established : st.established = true := orderly.aborted gone
    have none : st.connectResp = none := by simpa [established] using sound.answered
    exact .up none (by simp) rfl
  case waiting =>
    intro _ idle
    rw [markConnected_established] at idle
    simp only [Bool.or_eq_false_iff] at idle
    exact .waits idle.1.1 rfl rfl
  case failed =>
    intro _ idle reason
    rw [markConnected_established] at idle
    simp only [Bool.or_eq_false_iff] at idle
    have answered := sound.answered
    simp only [idle.1.1] at answered
    obtain ⟨resp, owed⟩ := Option.isSome_iff_exists.mp answered
    exact .fails resp reason owed rfl (by rw [failConnect, owed]; rfl)
  case orphan =>
    intro _ connected _
    apply Conn.Answer.of_connected sound connected
    · intro c' kept
      exact serviceOrphan_established ((moveBytes_established _ _ _ _).trans connected) kept
    · rw [serviceOrphan_isReply, filter_append, moveBytes_isReply, append_nil]
  case present =>
    intro _ connected _ busy
    apply Conn.Answer.of_connected sound connected
    · intro c' kept
      exact finish_established ((moveBytes_established _ _ _ _).trans connected) kept
    · rw [finish_isReply, filter_append, moveBytes_isReply, append_nil]

end pass

theorem serviceEntry_orderly {cfg : Config} {now : Nat} {io : PassIo} {id : Nat} {c c' : Conn}
    (orderly : c.Orderly) (kept : (serviceEntry cfg now io id c.1 c.2).entry = some c') :
    c'.Orderly := by
  refine ⟨(serviceEntry_carries kept).sound orderly.sound, ?_⟩
  have answer : Conn.Answer id c (serviceEntry cfg now io id c.1 c.2) := serviceEntry_answer orderly
  cases answer with
  | waits idle same sent =>
    cases same.symm.trans kept
    exact orderly.aborted
  | fails resp reason owed gone sent => cases gone.symm.trans kept
  | connects resp owed phase up sent => exact fun _ => up c' kept
  | up answered up sent => exact fun _ => up c' kept

section answer
variable {id : Nat} {c : Conn} {served : Served}

theorem Conn.Answer.count (answer : Conn.Answer id c served)
    (orderly : ∀ c' ∈ served.entry, Conn.Orderly c') (token : Nat) :
    replies token served.effects + (served.entry.any (Conn.owes token)).toNat =
      (c.owes token).toNat := by
  have paid : (∀ c' ∈ served.entry, c'.1.established = true) →
      served.entry.any (Conn.owes token) = false := by
    intro up
    cases kept : served.entry with
    | none => rfl
    | some c' => simp [Conn.owes, (orderly c' kept).paid (up c' kept)]
  rw [← replies_filter]
  cases answer with
  | waits idle same sent => simp [sent, same]
  | fails resp reason owed gone sent =>
    simp [sent, gone, Effect.answers, Conn.owes, owed]
  | connects resp owed phase up sent =>
    simp [sent, paid up, Effect.answers, Conn.owes, owed]
  | up answered up sent => simp [sent, paid up, Conn.owes, answered]

theorem Conn.Answer.owed {resp : OpenTcpResp} (answer : Conn.Answer id c served)
    (owes : c.1.connectResp = some resp) :
    served.entry = some c ∨ ∃ reply, .replyTcp resp reply ∈ served.effects := by
  have sent_mem : ∀ {effect}, effect ∈ served.effects.filter Effect.isReply →
      effect ∈ served.effects := fun member => (mem_filter.mp member).1
  cases answer with
  | waits idle same sent => exact .inl same
  | fails resp' reason owed gone sent =>
    cases owed.symm.trans owes
    exact .inr ⟨_, sent_mem (sent ▸ mem_singleton_self _)⟩
  | connects resp' owed phase up sent =>
    cases owed.symm.trans owes
    exact .inr ⟨_, sent_mem (sent ▸ mem_singleton_self _)⟩
  | up answered up sent => cases answered.symm.trans owes

theorem Conn.Answer.reply {effect : Effect} (answer : Conn.Answer id c served)
    (member : effect ∈ served.effects) (reply : effect.isReply = true) :
    ∃ resp, c.1.connectResp = some resp ∧ ((∃ reason, effect = .replyTcp resp (.error reason)) ∨
      effect = .replyTcp resp (.ok id) ∧ (c.2.phase = .established ∨ c.2.phase = .closeWait) ∧
        ∀ c' ∈ served.entry, c'.1.established = true) := by
  have kept := mem_filter.mpr ⟨member, reply⟩
  cases answer with
  | waits idle same sent => rw [sent] at kept; cases kept
  | fails resp reason owed gone sent =>
    rw [sent, mem_singleton] at kept
    exact ⟨resp, owed, .inl ⟨reason, kept⟩⟩
  | connects resp owed phase up sent =>
    rw [sent, mem_singleton] at kept
    exact ⟨resp, owed, .inr ⟨kept, phase, up⟩⟩
  | up answered up sent => rw [sent] at kept; cases kept

theorem Conn.Answer.kept {c' : Conn} (answer : Conn.Answer id c served)
    (kept : served.entry = some c') (down : c'.1.established = false) : c' = c := by
  cases answer with
  | waits idle same sent => exact Option.some.inj (kept.symm.trans same)
  | fails resp reason owed gone sent => cases gone.symm.trans kept
  | connects resp owed phase up sent =>
    rw [up c' kept] at down
    cases down
  | up answered up sent =>
    rw [up c' kept] at down
    cases down

end answer

namespace NetStack

structure Serves (effects : List Effect) (s t : NetStack) : Prop where
  owned : t.Owned
  nextId : t.nextId = s.nextId
  orderly : ∀ {id} {c : Conn}, t.tcp? id = some c → c.Orderly
  count : ∀ token, replies token effects + t.waiting token = s.waiting token
  owed : ∀ {id c resp}, s.tcp? id = some c → c.1.connectResp = some resp →
    t.tcp? id = some c ∨ ∃ answer, .replyTcp resp answer ∈ effects
  truly : ∀ {resp id}, .replyTcp resp (.ok id) ∈ effects → ∃ c, s.tcp? id = some c ∧
    c.1.connectResp = some resp ∧ (c.2.phase = .established ∨ c.2.phase = .closeWait) ∧
    ∀ c', t.tcp? id = some c' → c'.1.established = true
  kept : ∀ {id c}, t.tcp? id = some c → c.1.established = false → s.tcp? id = some c
  tcpOnly : ∀ {resp answer}, .replyUdp resp answer ∉ effects

variable {s t u : NetStack} {effects effects' : List Effect}

theorem Serves.refl (owned : s.Owned) (orderly : ∀ {id} {c : Conn}, s.tcp? id = some c → c.Orderly) :
    Serves [] s s where
  owned := owned
  nextId := rfl
  orderly := orderly
  count _ := by simp
  owed found _ := .inl found
  truly := by simp
  kept found _ := found
  tcpOnly := by simp

theorem Serves.trans (first : Serves effects s t) (second : Serves effects' t u) :
    Serves (effects ++ effects') s u where
  owned := second.owned
  nextId := second.nextId.trans first.nextId
  orderly := second.orderly
  count token := by
    rw [replies_append, Nat.add_assoc, second.count, first.count]
  owed found owes := by
    rcases first.owed found owes with found | ⟨answer, sent⟩
    · rcases second.owed found owes with found | ⟨answer, sent⟩
      · exact .inl found
      · exact .inr ⟨answer, mem_append_right _ sent⟩
    · exact .inr ⟨answer, mem_append_left _ sent⟩
  truly sent := by
    rcases mem_append.mp sent with sent | sent
    · obtain ⟨c, found, owes, phase, up⟩ := first.truly sent
      refine ⟨c, found, owes, phase, fun c' there => ?_⟩
      -- one that is not up now was not up after the first part either
      by_contra down
      exact down (up c' (second.kept there (by simpa using down)))
    · obtain ⟨c, found, owes, phase, up⟩ := second.truly sent
      exact ⟨c, first.kept found ((first.orderly found).idle owes), owes, phase, up⟩
  kept there down := first.kept (second.kept there down) down
  tcpOnly sent := by
    rcases mem_append.mp sent with sent | sent
    · exact first.tcpOnly sent
    · exact second.tcpOnly sent

theorem waiting_change {id : Nat} {entry : Option Conn} (nextId : t.nextId = s.nextId)
    (inside : id < s.nextId) (here : t.tcp? id = entry) (off : ∀ i, i ≠ id → t.tcp? i = s.tcp? i)
    (token : Nat) :
    t.waiting token + ((s.tcp? id).any (Conn.owes token)).toNat =
      s.waiting token + (entry.any (Conn.owes token)).toNat := by
  have change := countP_range_change (p := fun i => (t.tcp? i).any (Conn.owes token))
    (q := fun i => (s.tcp? i).any (Conn.owes token)) inside fun i apart => by rw [off i apart]
  simp only [here] at change
  rw [waiting, nextId]
  exact change

theorem Serves.of_answer {id : Nat} {c : Conn} {served : Served} (owned : t.Owned)
    (nextId : t.nextId = s.nextId) (orderly : ∀ {id} {c : Conn}, t.tcp? id = some c → c.Orderly)
    (inside : id < s.nextId) (found : s.tcp? id = some c) (here : t.tcp? id = served.entry)
    (off : ∀ i, i ≠ id → t.tcp? i = s.tcp? i) (answer : Conn.Answer id c served) :
    Serves served.effects s t where
  owned := owned
  nextId := nextId
  orderly := orderly
  count token := by
    have change := waiting_change nextId inside here off token
    have paid := answer.count (fun c' kept => orderly (here.trans kept)) token
    rw [found, Option.any_some] at change
    omega
  owed {i c' resp} present owes := by
    by_cases same : i = id
    · subst same
      cases found.symm.trans present
      rw [here]
      exact answer.owed owes
    · exact .inl ((off i same).trans present)
  truly {resp i} sent := by
    obtain ⟨resp', owes, ⟨reason, error⟩ | ⟨ok, phase, up⟩⟩ := answer.reply sent rfl
    · cases error
    · cases ok
      exact ⟨c, found, owes, phase, fun c' there => up c' (here.symm.trans there)⟩
  kept {i c'} there down := by
    by_cases same : i = id
    · subst same
      rw [answer.kept (here.symm.trans there) down]
      exact found
    · exact (off i same).symm.trans there
  tcpOnly sent := by
    obtain ⟨resp', owes, ⟨reason, error⟩ | ⟨ok, -⟩⟩ := answer.reply sent rfl
    · cases error
    · cases ok

end NetStack

open NetStack

section
variable {cfg : Config} {s : NetStack}

theorem serviceId_serves (cfg : Config) (now : Nat) (owned : s.Owned)
    (orderly : ∀ {id} {c : Conn}, s.tcp? id = some c → c.Orderly) (io : Nat → PassIo) (id : Nat) :
    ∃ t effects busy, serviceId cfg now (io id) s id = some (t, effects, busy) ∧
      Serves effects s t := by
  obtain ⟨t, effects, busy, done, moved, -⟩ := serviceId_moves cfg now owned io id
  refine ⟨t, effects, busy, done, ?_⟩
  cases found : s.tcp? id with
  | none =>
    have absent := (tcp?_eq_none owned).mp found
    simp only [serviceId, absent] at done
    obtain ⟨rfl, rfl, -⟩ := done
    exact .refl owned orderly
  | some c =>
    obtain ⟨entry, there⟩ := tcp?_eq_some.mp found
    have sent : effects = (serviceEntry cfg now (io id) id c.1 c.2).effects := by
      simp only [serviceId, entry, there] at done
      split at done <;> cases done <;> rfl
    have here : t.tcp? id = (serviceEntry cfg now (io id) id c.1 c.2).entry := by
      rw [moved.tcp, found]
      simp [servedEntry]
    have off : ∀ i, i ≠ id → t.tcp? i = s.tcp? i := by
      intro i apart
      rw [moved.tcp]
      simp [apart]
    have orderly' : ∀ {i} {c' : Conn}, t.tcp? i = some c' → c'.Orderly := by
      intro i c' present
      by_cases same : i = id
      · subst same
        exact serviceEntry_orderly (orderly found) (here.symm.trans present)
      · exact orderly ((off i same).symm.trans present)
    rw [sent]
    exact .of_answer moved.owned moved.nextId orderly' (owned.below (owns_of_tcp? found)) found
      here off (serviceEntry_answer (orderly found))

theorem serviceTcp_serves (cfg : Config) (now : Nat) (owned : s.Owned)
    (orderly : ∀ {id} {c : Conn}, s.tcp? id = some c → c.Orderly) (io : Nat → PassIo)
    (ids : List Nat) :
    ∃ t effects busy, serviceTcp cfg now io s ids = some (t, effects, busy) ∧
      Serves effects s t := by
  apply serviceTcp_loop (R := Serves)
    (I := fun s : NetStack => s.Owned ∧ ∀ {id} {c : Conn}, s.tcp? id = some c → c.Orderly)
    (fun both => .refl both.1 both.2) .trans ?body ⟨owned, orderly⟩ ids
  intro s both id
  obtain ⟨t, effects, busy, served, serves⟩ := serviceId_serves cfg now both.1 both.2 io id
  exact ⟨t, effects, busy, served, ⟨serves.owned, serves.orderly⟩, serves⟩

end

/-- From `a` to `b` nothing was answered. -/
structure Conn.Alike (a b : Conn) : Prop where
  established : b.1.established = a.1.established
  fromStackRx : b.1.fromStackRx = a.1.fromStackRx
  token : b.1.connectResp.map OpenTcpResp.token = a.1.connectResp.map OpenTcpResp.token
  aborted : b.1.aborted = a.1.aborted
  phase : b.2.phase = a.2.phase ∨ b.2.phase ≠ .listen ∧ b.2.phase ≠ .synSent

namespace Conn.Alike
variable {a b c : Conn}

theorem refl (a : Conn) : Alike a a := ⟨rfl, rfl, rfl, rfl, .inl rfl⟩

theorem trans (first : Alike a b) (second : Alike b c) : Alike a c where
  established := second.established.trans first.established
  fromStackRx := second.fromStackRx.trans first.fromStackRx
  token := second.token.trans first.token
  aborted := second.aborted.trans first.aborted
  phase := by
    rcases second.phase with same | settled
    · rw [same]
      exact first.phase
    · exact .inr settled

theorem orderly (alike : Alike a b) (orderly : a.Orderly) : b.Orderly where
  sound := by
    apply orderly.sound.transfer alike.established alike.fromStackRx _ alike.phase
    rw [← Option.isSome_map (f := OpenTcpResp.token), alike.token, Option.isSome_map]
  aborted := by
    rw [alike.aborted, alike.established]
    exact orderly.aborted

theorem owes_eq (alike : Alike a b) (token : Nat) : b.owes token = a.owes token := by
  have owes : ∀ c : Conn,
      c.owes token = (c.1.connectResp.map OpenTcpResp.token).any (· = token) := by
    intro c
    cases owed : c.1.connectResp <;> simp [Conn.owes, owed]
  rw [owes, owes, alike.token]

theorem poll (c : Conn) (items : List PollItem) : Alike c (items.foldl PollItem.onConn c) := by
  induction items generalizing c with
  | nil => exact refl c
  | cons item items ih =>
    refine trans ?_ (ih (item.onConn c))
    cases item with
    | udp handle source data => exact refl c
    | tcp handle segment =>
      simp only [PollItem.onConn]
      split
      · exact ⟨rfl, rfl, rfl, rfl, c.2.receive_settled segment⟩
      · exact refl c

theorem dataIn (cfg : Config) (message : DataIn) (id : Nat) (c : Conn) :
    Alike c (message.onConn cfg id c) := by
  cases message <;> simp only [DataIn.onConn]
  case tcp => split <;> exact ⟨rfl, rfl, rfl, rfl, .inl rfl⟩
  case tcpClose => split <;> exact ⟨rfl, rfl, rfl, rfl, .inl rfl⟩
  case udp => exact refl c
  case udpClose => exact refl c

end Conn.Alike

namespace NetStack

structure Quiet (s t : NetStack) : Prop where
  owned : t.Owned
  nextId : t.nextId = s.nextId
  absent : ∀ {id}, s.tcp? id = none → t.tcp? id = none
  present : ∀ {id c}, s.tcp? id = some c → ∃ c', t.tcp? id = some c' ∧ Conn.Alike c c'

variable {s t u : NetStack}

theorem Quiet.refl (owned : s.Owned) : s.Quiet s :=
  ⟨owned, rfl, fun none => none, fun found => ⟨_, found, .refl _⟩⟩

theorem Quiet.trans (first : s.Quiet t) (second : t.Quiet u) : s.Quiet u where
  owned := second.owned
  nextId := second.nextId.trans first.nextId
  absent none := second.absent (first.absent none)
  present found := by
    obtain ⟨c', found, alike⟩ := first.present found
    obtain ⟨c'', found, alike'⟩ := second.present found
    exact ⟨c'', found, alike.trans alike'⟩

theorem Moves.quiet {f : Nat → Conn → Option Conn} (moves : Moves f s t)
    (alike : ∀ id c, ∃ c', f id c = some c' ∧ Conn.Alike c c') : s.Quiet t where
  owned := moves.owned
  nextId := moves.nextId
  absent none := by rw [moves.tcp, none]; rfl
  present {id c} found := by
    obtain ⟨c', made, alike⟩ := alike id c
    exact ⟨c', by rw [moves.tcp, found]; exact made, alike⟩

theorem Quiet.found {id : Nat} {c' : Conn} (quiet : s.Quiet t) (found : t.tcp? id = some c') :
    ∃ c, s.tcp? id = some c ∧ Conn.Alike c c' := by
  cases before : s.tcp? id with
  | none => cases (quiet.absent before).symm.trans found
  | some c =>
    obtain ⟨c'', found', alike⟩ := quiet.present before
    cases found.symm.trans found'
    exact ⟨c, rfl, alike⟩

theorem Quiet.waiting (quiet : s.Quiet t) (token : Nat) : t.waiting token = s.waiting token := by
  unfold NetStack.waiting
  rw [quiet.nextId]
  refine countP_congr fun id _ => ?_
  cases before : s.tcp? id with
  | none => rw [quiet.absent before]
  | some c =>
    obtain ⟨c', found, alike⟩ := quiet.present before
    rw [found, Option.any_some, Option.any_some, alike.owes_eq]

theorem modifyTcp_quiet {f : TcpState → TcpState} {id : Nat} (owned : s.Owned)
    (keeps : ∀ st, (f st).handle = st.handle)
    (alike : ∀ st socket, Conn.Alike (st, socket) (f st, socket)) : s.Quiet (s.modifyTcp id f) := by
  apply (modifyTcp_moves owned keeps).quiet
  intro i c
  split
  · exact ⟨_, rfl, alike c.1 c.2⟩
  · exact ⟨_, rfl, .refl c⟩

end NetStack

theorem retryDeferred_quiet (cfg : Config) {s : NetStack} (owned : s.Owned)
    (messages : List DataIn) :
    ∃ t rest, retryDeferred cfg s messages = some (t, rest) ∧ s.Quiet t := by
  apply retryDeferred_loop (I := NetStack.Owned) .refl .trans ?body owned messages
  intro s owned d
  obtain ⟨t, back, handled, moved, -⟩ := tryHandleData_moves cfg owned d
  have quiet := moved.quiet fun id c => ⟨_, rfl, .dataIn cfg d id c⟩
  exact ⟨t, back, handled, quiet.owned, quiet⟩

namespace World

/-- Connection `id` is not established and owes its answer on `token`. -/
def Owes (w : World) (id token : Nat) : Prop :=
  ∃ c, w.stack.tcp? id = some c ∧ c.1.established = false ∧
    c.1.connectResp.map OpenTcpResp.token = some token

/-- The oneshot `token` was answered. -/
def Answered (w : World) (token : Nat) : Prop :=
  ∃ gone answer, .replyTcp ⟨token, gone⟩ answer ∈ w.log

structure Answering (w : World) : Prop where
  owned : w.stack.Owned
  orderly : ∀ {id} {c : Conn}, w.stack.tcp? id = some c → c.Orderly
  held : ∀ {effect id}, effect ∈ w.log → effect.hands id = true →
    id < w.stack.nextId ∧ ∀ c, w.stack.tcp? id = some c → c.1.established = true

/-- What a step comes to. -/
structure Answers (w : World) (e : Event) (w' : World) : Prop where
  inv : w'.Answering
  sent : ∃ effects, w'.log = w.log ++ effects ∧ ∀ resp id, .replyTcp resp (.ok id) ∈ effects →
    ∃ ids now io c, e = .serviceTcp ids now io ∧ w.stack.tcp? id = some c ∧
      c.1.connectResp = some resp ∧ (c.2.phase = .established ∨ c.2.phase = .closeWait)
  count : ∀ token, replies token w'.log + w'.stack.waiting token =
    replies token w.log + w.stack.waiting token + opens token [e]
  owed : ∀ {id token}, w.Owes id token → w'.Owes id token ∨ w'.Answered token

variable {w w' : World} {e : Event}

theorem initial_answering (iface : Iface) : (initial iface).Answering where
  owned := initial_owned iface
  orderly found := by cases found
  held sent := by cases sent

theorem Answers.of_quiet (inv : w.Answering) (quiet : w.stack.Quiet w'.stack)
    (log : w'.log = w.log) (other : ∀ token, e.opensTcp token = false) : Answers w e w' where
  inv := {
    owned := quiet.owned
    orderly := fun found => by
      obtain ⟨c, before, alike⟩ := quiet.found found
      exact alike.orderly (inv.orderly before)
    held := fun sent hands => by
      rw [log] at sent
      obtain ⟨small, up⟩ := inv.held sent hands
      refine ⟨quiet.nextId ▸ small, fun c' found => ?_⟩
      obtain ⟨c, before, alike⟩ := quiet.found found
      rw [alike.established]
      exact up c before }
  sent := ⟨[], by simp [log], by simp⟩
  count token := by simp [log, quiet.waiting, opens, other]
  owed owes := by
    obtain ⟨c, found, down, token⟩ := owes
    obtain ⟨c', found', alike⟩ := quiet.present found
    exact .inl ⟨c', found', alike.established.trans down, alike.token.trans token⟩

theorem Answers.of_serves {ids : List Nat} {now : Nat} {io : Nat → PassIo} {t : NetStack}
    {effects : List Effect} (inv : w.Answering) (serves : NetStack.Serves effects w.stack t) :
    Answers w (.serviceTcp ids now io) { w with stack := t, log := w.log ++ effects } where
  inv := {
    owned := serves.owned
    orderly := serves.orderly
    held := fun {effect id} sent hands => by
      rw [serves.nextId]
      rcases mem_append.mp sent with before | now
      · obtain ⟨small, up⟩ := inv.held before hands
        refine ⟨small, fun c found => ?_⟩
        by_contra down
        exact down (up c (serves.kept found (by simpa using down)))
      · cases effect with
        | replyTcp resp answer =>
          cases answer with
          | error reason => cases hands
          | ok i =>
            obtain rfl : i = id := by simpa [Effect.hands] using hands
            obtain ⟨c, found, -, -, up⟩ := serves.truly now
            exact ⟨inv.owned.below (NetStack.owns_of_tcp? found), up⟩
        | replyUdp resp answer => exact absurd now serves.tcpOnly
        | close => cases hands
        | removeTcp => cases hands }
  sent := by
    refine ⟨effects, rfl, fun resp id sent => ?_⟩
    obtain ⟨c, found, owes, phase, -⟩ := serves.truly sent
    exact ⟨ids, now, io, c, rfl, found, owes, phase⟩
  count token := by
    have paid := serves.count token
    simp only [replies_append, opens, Event.opensTcp, countP_singleton]
    simp only [Bool.false_eq_true, if_false]
    omega
  owed {id token} owes := by
    obtain ⟨c, found, down, asked⟩ := owes
    obtain ⟨resp, waiting, rfl⟩ := Option.map_eq_some_iff.mp asked
    rcases serves.owed found waiting with found | ⟨answer, sent⟩
    · exact .inl ⟨c, found, down, asked⟩
    · exact .inr ⟨resp.requesterGone, answer, mem_append_right _ sent⟩

theorem Answers.of_frame {t : NetStack} {effects : List Effect} (inv : w.Answering)
    (owned : t.Owned) (nextId : t.nextId = w.stack.nextId ∨ t.nextId = w.stack.nextId + 1)
    (frame : ∀ id, t.tcp? id = w.stack.tcp? id)
    (fresh : ∀ effect ∈ effects, ∀ id, effect.hands id = true →
      id < t.nextId ∧ w.stack.tcp? id = none)
    (errors : ∀ resp id, .replyTcp resp (.ok id) ∉ effects)
    (count : ∀ token, replies token effects = opens token [e]) :
    Answers w e { w with stack := t, log := w.log ++ effects } where
  inv := {
    owned := owned
    orderly := fun found => inv.orderly ((frame _).symm.trans found)
    held := fun {effect id} sent hands => by
      simp only [frame]
      rcases mem_append.mp sent with before | now
      · obtain ⟨small, up⟩ := inv.held before hands
        exact ⟨by omega, up⟩
      · obtain ⟨small, none⟩ := fresh effect now id hands
        exact ⟨small, by simp [none]⟩ }
  sent := ⟨effects, rfl, fun resp id sent => absurd sent (errors resp id)⟩
  count token := by
    have waiting : t.waiting token = w.stack.waiting token := by
      simp only [NetStack.waiting, frame]
      rcases nextId with same | next
      · rw [same]
      · rw [next, range_succ, countP_append]
        simp [inv.owned.tcp?_nextId]
    simp only [replies_append, count]
    omega
  owed owes := by
    obtain ⟨c, found, rest⟩ := owes
    exact .inl ⟨c, (frame _).trans found, rest⟩

theorem Answers.of_openTcp (cfg : Config) (now : Nat) (dst : SocketAddr) (resp : OpenTcpResp)
    (inv : w.Answering) :
    Answers w (.command now (.openTcp dst resp (.ok ())))
      { w with stack := (handleCmd cfg now w.stack (.openTcp dst resp (.ok ()))).1 } where
  inv := {
    owned := openTcp_owned cfg now inv.owned dst resp
    orderly := fun {id c} found => by
      rw [openTcp_tcp? cfg now inv.owned] at found
      split at found
      · cases found
        exact ⟨⟨by simp [newTcpState], rfl, rfl⟩, by simp [newTcpState]⟩
      · exact inv.orderly found
    held := fun {effect id} sent hands => by
      obtain ⟨small, up⟩ := inv.held sent hands
      refine ⟨Nat.lt_succ_of_lt small, fun c found => ?_⟩
      rw [openTcp_tcp? cfg now inv.owned, if_neg small.ne] at found
      exact up c found }
  sent := ⟨[], by simp, by simp⟩
  count token := by
    have waiting : (handleCmd cfg now w.stack (.openTcp dst resp (.ok ()))).1.waiting token =
        w.stack.waiting token + if resp.token = token then 1 else 0 := by
      have next : (handleCmd cfg now w.stack (.openTcp dst resp (.ok ()))).1.nextId =
          w.stack.nextId + 1 := rfl
      simp only [NetStack.waiting, next, range_succ, countP_append,
        openTcp_tcp? cfg now inv.owned]
      congr 1
      · refine countP_congr fun id member => ?_
        rw [if_neg (mem_range.mp member).ne]
      · simp [Conn.owes, newTcpState]
    simp [opens, Event.opensTcp]
    omega
  owed {id token} owes := by
    obtain ⟨c, found, rest⟩ := owes
    have old : id ≠ w.stack.nextId := by
      rintro rfl
      cases inv.owned.tcp?_nextId.symm.trans found
    refine .inl ⟨c, ?_, rest⟩
    rw [openTcp_tcp? cfg now inv.owned, if_neg old]
    exact found

theorem Answering.command (cfg : Config) (inv : w.Answering) (now : Nat) (cmd : Cmd) :
    Answers w (.command now cmd) { w with
      stack := (handleCmd cfg now w.stack cmd).1
      log := w.log ++ (handleCmd cfg now w.stack cmd).2 } := by
  have owned := (handleCmd_conns cfg now inv.owned cmd).1
  cases cmd with
  | setAddrs v4 v6 =>
    exact .of_frame inv owned (.inl rfl) (fun _ => rfl) (by simp [handleCmd])
      (by simp [handleCmd]) (fun _ => rfl)
  | openTcp dst resp connect =>
    cases connect with
    | error e =>
      refine .of_frame inv owned (.inl rfl) (fun _ => rfl) ?_ (by simp [handleCmd]) ?_
      · simp [handleCmd, Effect.hands]
      · intro token
        simp [handleCmd, replies, opens, Effect.answers, Event.opensTcp]
    | ok => simpa [handleCmd] using Answers.of_openTcp cfg now dst resp inv
  | openUdp resp bind =>
    cases bind with
    | error e =>
      exact .of_frame inv owned (.inl rfl) (fun _ => rfl) (by simp [handleCmd, Effect.hands])
        (by simp [handleCmd]) (fun _ => rfl)
    | ok =>
      refine .of_frame inv owned (.inr rfl) (openUdp_tcp? cfg now inv.owned resp) ?_
        (by simp [handleCmd]) (fun _ => rfl)
      intro effect sent id hands
      obtain rfl := mem_singleton.mp sent
      obtain rfl : w.stack.nextId = id := by simpa [Effect.hands] using hands
      exact ⟨Nat.lt_succ_self _, inv.owned.tcp?_nextId⟩

theorem Answering.proceeds (cfg : Config) (inv : w.Answering) (e : Event) :
    ∃ w', step cfg w e = some w' ∧ Answers w e w' := by
  cases e with
  | poll items =>
    refine ⟨_, rfl, .of_quiet inv ?_ rfl fun _ => rfl⟩
    exact (poll_moves inv.owned items).quiet fun _ c => ⟨_, rfl, .poll c items⟩
  | serviceTcp ids now io =>
    obtain ⟨t, effects, busy, served, serves⟩ :=
      serviceTcp_serves cfg now inv.owned inv.orderly io ids
    exact ⟨_, by simp only [step, served]; rfl, .of_serves inv serves⟩
  | serviceUdp ids =>
    obtain ⟨t, busy, served, moved⟩ := serviceUdp_moves inv.owned ids
    refine ⟨{ w with stack := t }, by simp [step, served], .of_quiet inv ?_ rfl fun _ => rfl⟩
    exact moved.quiet fun _ c => ⟨_, rfl, .refl c⟩
  | retryDeferred =>
    obtain ⟨t, rest, retried, quiet⟩ := retryDeferred_quiet cfg inv.owned w.deferred
    exact ⟨{ w with stack := t, deferred := rest }, by simp [step, retried],
      .of_quiet inv quiet rfl fun _ => rfl⟩
  | command now cmd => exact ⟨_, rfl, inv.command cfg now cmd⟩
  | dataIn message =>
    by_cases idle : w.deferred = []
    · obtain ⟨t, back, handled, moved, -⟩ := tryHandleData_moves cfg inv.owned message
      refine ⟨{ w with
        stack := t, deferred := w.deferred ++ back.toList, taken := w.taken ++ [message] },
        by simp [step, idle, handled], .of_quiet inv ?_ rfl fun _ => rfl⟩
      exact moved.quiet fun id c => ⟨_, rfl, .dataIn cfg message id c⟩
    · exact ⟨w, by simp [step, idle], .of_quiet inv (.refl inv.owned) rfl fun _ => rfl⟩
  | appTake id | appDrop id =>
    refine ⟨_, rfl, .of_quiet inv (NetStack.modifyTcp_quiet inv.owned ?_ ?_) rfl fun _ => rfl⟩
    · intro st
      split <;> rfl
    · intro st socket
      split <;> exact ⟨rfl, rfl, rfl, rfl, .inl rfl⟩
  | requesterDrop id =>
    refine ⟨_, rfl, .of_quiet inv (NetStack.modifyTcp_quiet inv.owned ?_ ?_) rfl fun _ => rfl⟩
    · intro st
      rfl
    · intro st socket
      exact ⟨rfl, rfl, by simp [Function.comp_def], rfl, .inl rfl⟩
  | udpTake id | udpDrop id =>
    refine ⟨_, rfl, .of_quiet inv ?_ rfl fun _ => rfl⟩
    exact (NetStack.modifyUdp_moves inv.owned).quiet fun _ c => ⟨_, rfl, .refl c⟩

theorem Answering.kept {cfg : Config} (inv : w.Answering) (next : step cfg w e = some w') :
    Answers w e w' := by
  obtain ⟨w'', next', answers⟩ := inv.proceeds cfg e
  cases next.symm.trans next'
  exact answers

theorem Answers.settling {id token : Nat} (answers : Answers w e w')
    (before : w.Owes id token ∨ w.Answered token) : w'.Owes id token ∨ w'.Answered token := by
  rcases before with owes | ⟨gone, answer, sent⟩
  · exact answers.owed owes
  · obtain ⟨effects, log, -⟩ := answers.sent
    exact .inr ⟨gone, answer, log ▸ mem_append_left _ sent⟩

theorem Answering.run (cfg : Config) (inv : w.Answering) (events : List Event) :
    ∃ w', Runs.run (step cfg) w events = some w' ∧ w'.Answering ∧
      (∀ token, replies token w'.log + w'.stack.waiting token =
        replies token w.log + w.stack.waiting token + opens token events) ∧
      ∀ {id token}, w.Owes id token ∨ w.Answered token → w'.Owes id token ∨ w'.Answered token := by
  induction events generalizing w with
  | nil => exact ⟨w, rfl, inv, fun _ => rfl, fun before => before⟩
  | cons e events ih =>
    obtain ⟨w₁, next, answers⟩ := inv.proceeds cfg e
    obtain ⟨w₂, reached, inv₂, count, settling⟩ := ih answers.inv
    refine ⟨w₂, by rw [Runs.run_cons, next]; exact reached, inv₂, fun token => ?_,
      fun before => settling (answers.settling before)⟩
    have together : opens token (e :: events) = opens token [e] + opens token events := by
      rw [opens, ← singleton_append, countP_append]
      rfl
    rw [count, answers.count, together, Nat.add_assoc]

end World

/-- `Ok(conn)` is sent in a service pass only, for a connection whose handshake is done, on the
    oneshot it was opened with. -/
def OkWhenConnected (cfg : Config) (w : World) (e : Event) : Prop :=
  ∀ w' effects, step cfg w e = some w' → w'.log = w.log ++ effects →
    ∀ resp id, .replyTcp resp (.ok id) ∈ effects →
      ∃ ids now io c, e = .serviceTcp ids now io ∧ w.stack.tcp? id = some c ∧
        c.1.connectResp = some resp ∧ (c.2.phase = .established ∨ c.2.phase = .closeWait)

/-- What the answers of a run that led to `w` come to. -/
structure OpensAnswered (cfg : Config) (iface : Iface) (events : List Event) (w : World) :
    Prop where
  once : ∀ token, replies token w.log + w.stack.waiting token = opens token events
  answered : ∀ before now dst resp after w₀,
    events = before ++ .command now (.openTcp dst resp (.ok ())) :: after →
    Runs.run (step cfg) (World.initial iface) before = some w₀ →
      w.Owes w₀.stack.nextId resp.token ∨ w.Answered resp.token
  established : ∀ id c, w.stack.tcp? id = some c → c.1.established = true →
    c.1.connectResp = none ∧ c.1.fromStackRx = false
  connecting : ∀ id c, w.stack.tcp? id = some c → c.1.established = false →
    ∀ effect ∈ w.log, effect.hands id = false

theorem tcp_opens_answered (cfg : Config) (iface : Iface) (events : List Event) :
    Runs.Each (step cfg) (OkWhenConnected cfg) (World.initial iface) events ∧
      ∃ w, Runs.run (step cfg) (World.initial iface) events = some w ∧
        OpensAnswered cfg iface events w := by
  have start := World.initial_answering iface
  constructor
  · apply Runs.each_of_kept (fun _ _ _ inv next => (World.Answering.kept inv next).inv) _ start
    intro w e inv w' effects next log resp id sent
    obtain ⟨effects', log', truly⟩ := (inv.kept next).sent
    obtain rfl := append_cancel_left (log.symm.trans log')
    exact truly resp id sent
  · obtain ⟨w, reached, inv, count, -⟩ := start.run cfg events
    refine ⟨w, reached, fun token => ?_, ?answered, fun id c found up => ?_,
      fun id c found down effect sent => ?_⟩
    case answered =>
      rintro before now dst resp after w₀ rfl reached₀
      obtain ⟨w₀', first, inv₀, -⟩ := start.run cfg before
      cases reached₀.symm.trans first
      have opened := inv₀.command cfg now (.openTcp dst resp (.ok ()))
      obtain ⟨w', last, -, -, settling⟩ := opened.inv.run cfg after
      rw [Runs.run_append, reached₀, Option.bind_some, Runs.run_cons] at reached
      cases (show some w = some w' from reached.symm.trans last)
      have found := (openTcp_tcp? cfg now inv₀.owned dst resp _).trans (if_pos rfl)
      exact settling (.inl ⟨_, found, rfl, rfl⟩)
    · rw [count]
      simp [World.initial, NetStack.initial, NetStack.waiting, NetStack.tcp?]
    · exact ⟨(inv.orderly found).paid up, by simpa [up] using (inv.orderly found).sound.handed⟩
    · by_contra hands
      rw [(inv.held sent (by simpa using hands)).2 c found] at down
      cases down

end Gozarbin.Netstack
