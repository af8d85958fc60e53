import Gozarbin.Lib.Distinct
import Gozarbin.Lib.Document
import Gozarbin.Net.SocketAddress

/-! # The gateways that were used last

Each connection is saved in a file: the gateway, and a ring of the gateways before it, which are
tried first next time. The ring is kept for one carrier. A save reads what the file holds, moves
the gateway to the front of the ring, and writes the file anew.
-/

namespace Gozarbin.LastConn

open List AddrText Distinct Document Text

def recentCap : Nat := 8

structure LastConnection where
  peer : Text
  profile : Text
  carrier : Text
  recent : List Text

/-- A call of `save`. `failed` is what a write that fails leaves of the file. -/
structure Save where
  peer : Text
  profile : Text
  carrier : Text
  failed : Option (Option Bytes) := none

def Save.stored (call : Save) (recent : List Text) : LastConnection where
  peer := call.peer
  profile := call.profile
  carrier := call.carrier
  recent := recent

section
variable (format : Format LastConnection)

def load (file : Option Bytes) : Option LastConnection := do
  let text ← fromUtf8 (← file)
  (format.read text).toOption

def pushAll (peer : Text) : (recent : List Text) → List Text → List Text
  | recent, [] => recent
  | recent, entry :: rest =>
    if entry ≠ peer ∧ recent.length < recentCap then pushAll peer (recent ++ [entry]) rest
    else pushAll peer recent rest

def carriedOver (file : Option Bytes) (carrier : Text) : List Text :=
  let previous := load format file
  ((previous.filter fun c => c.carrier.isEmpty || c.carrier = carrier).map LastConnection.recent).getD []

def save (file : Option Bytes) (call : Save) : Option Bytes :=
  let recent := pushAll call.peer [call.peer] (carriedOver format file call.carrier)
  match format.write (call.stored recent) with
  | .ok text => call.failed.getD (some (toUtf8 text))
  | .error _ => file

end

def collect : (seen : List SocketAddress) → List Text → List SocketAddress
  | _, [] => []
  | seen, raw :: rest =>
    match parseSocketAddr raw with
    | some address =>
      if address ∈ seen then collect seen rest else address :: collect (address :: seen) rest
    | none => collect seen rest

def usablePeers (cached : LastConnection) (carrier : Text) : List SocketAddress :=
  if !cached.carrier.isEmpty && cached.carrier ≠ carrier then []
  else collect [] (cached.peer :: cached.recent)

def since (carrier : Text) (calls : List Save) : List Save :=
  calls.reverse.takeWhile (·.carrier = carrier)

def history (carrier : Text) (calls : List Save) : List Text :=
  distinctBy id [] ((since carrier calls).map Save.peer)

/-- As all callers make it, and the file is written. -/
structure Save.Proper (call : Save) : Prop where
  carried : call.carrier ≠ []
  wrote : call.failed = none

section
variable {format : Format LastConnection} {calls : List Save} {call : Save} {file : Option Bytes}

theorem history_same :
    history call.carrier (calls ++ [call]) =
      call.peer :: (history call.carrier calls).filter (· ≠ call.peer) := by
  rw [history, since, reverse_concat, takeWhile_cons_of_pos (by simp), map_cons,
    distinct_cons]
  rfl

theorem history_other {carrier : Text} (other : call.carrier ≠ carrier) :
    history carrier (calls ++ [call]) = [] := by
  rw [history, since, reverse_concat, takeWhile_cons_of_neg (by simpa using other)]
  rfl

theorem pushAll_eq {peer : Text} {recent : List Text} (entries : List Text)
    (room : recent.length ≤ recentCap) :
    pushAll peer recent entries = (recent ++ entries.filter (· ≠ peer)).take recentCap := by
  induction entries generalizing recent with
  | nil => simp [pushAll, take_of_length_le room]
  | cons entry rest ih =>
    rw [pushAll]
    by_cases same : entry = peer
    · rw [if_neg (fun ⟨other, _⟩ => other same), ih room, filter_cons_of_neg (by simpa using same)]
    · rw [filter_cons_of_pos (by simpa using same)]
      rcases Nat.lt_or_eq_of_le room with free | full
      · rw [if_pos ⟨same, free⟩, ih (by simpa using Nat.succ_le_of_lt free), append_assoc,
          singleton_append]
      · rw [if_neg (fun ⟨_, free⟩ => Nat.ne_of_lt free full), ih room,
          take_append_of_le_length full.ge, take_append_of_le_length full.ge]

theorem pushAll_history (calls : List Save) (call : Save) :
    pushAll call.peer [call.peer] ((history call.carrier calls).take recentCap) =
      (history call.carrier (calls ++ [call])).take recentCap := by
  rw [pushAll_eq _ (by simp [recentCap]), history_same, singleton_append, recentCap,
    take_succ_cons, take_succ_cons]
  exact congrArg (call.peer :: ·) (take_filter_take nodup_distinct 7)

theorem load_save (total : format.Total) (proper : call.Proper) (file : Option Bytes) :
    load format (save format file call) =
      some (call.stored (pushAll call.peer [call.peer] (carriedOver format file call.carrier))) := by
  obtain ⟨text, wrote⟩ :=
    total (call.stored (pushAll call.peer [call.peer] (carriedOver format file call.carrier)))
  have read : fromUtf8 (toUtf8 text) = some text := fromUtf8_eq_some.mpr rfl
  simp [load, save, wrote, proper.wrote, read, format.reads_back wrote, Except.toOption]

def after (format : Format LastConnection) (calls : List Save) : Option Bytes :=
  calls.foldl (save format) none

theorem after_concat : after format (calls ++ [call]) = save format (after format calls) call :=
  foldl_concat ..

theorem carriedOver_after (total : format.Total) (proper : ∀ call ∈ calls, call.Proper) (carrier : Text) :
    carriedOver format (after format calls) carrier = (history carrier calls).take recentCap := by
  induction calls using List.reverseRecOn generalizing carrier with
  | nil => rfl
  | append_singleton calls call ih =>
    obtain ⟨earlier, now⟩ := forall_mem_append.mp proper
    have proper' : call.Proper := now call mem_cons_self
    have stored := load_save total proper' (after format calls)
    rw [ih earlier, pushAll_history] at stored
    rw [carriedOver, after_concat, stored]
    by_cases same : call.carrier = carrier
    · simp [Option.filter, Save.stored, same]
    · simp [Option.filter, Save.stored, same, history_other same, proper'.carried]

theorem collect_eq (seen : List SocketAddress) (raws : List Text) :
    collect seen raws = distinctBy id seen (raws.filterMap parseSocketAddr) := by
  induction raws generalizing seen with
  | nil => rfl
  | cons raw rest ih =>
    rw [collect]
    cases parsed : parseSocketAddr raw with
    | none => rw [filterMap_cons_none parsed, ih]
    | some address =>
      rw [filterMap_cons_some parsed]
      by_cases old : address ∈ seen
      · rw [distinct_old old]
        simp [old, ih]
      · rw [distinct_new old]
        simp [old, ih]

theorem collect_peer (peer : Text) (rest : List Text) :
    collect [] (peer :: peer :: rest) = distinctBy id [] ((peer :: rest).filterMap parseSocketAddr) := by
  rw [collect_eq]
  cases parsed : parseSocketAddr peer with
  | none => simp [filterMap_cons_none parsed]
  | some address =>
    simp only [filterMap_cons_some parsed]
    rw [distinct_new not_mem_nil, distinct_old mem_cons_self, distinct_new not_mem_nil]

end

/-- What is stored after calls that end with `last`. -/
structure IsHistory (calls : List Save) (last : Save) (conn : LastConnection) : Prop where
  peer : conn.peer = last.peer
  recent : conn.recent = (history last.carrier (calls ++ [last])).take recentCap
  usable : usablePeers conn last.carrier = distinctBy id [] (conn.recent.filterMap parseSocketAddr)
  others : ∀ carrier, carrier ≠ last.carrier → usablePeers conn carrier = []

theorem ring_is_history (format : Format LastConnection) (total : format.Total) (calls : List Save)
    (last : Save) (proper : ∀ call ∈ calls ++ [last], call.Proper) :
    ∃ conn, load format (after format (calls ++ [last])) = some conn ∧ IsHistory calls last conn := by
  obtain ⟨earlier, now⟩ := forall_mem_append.mp proper
  have proper' : last.Proper := now last mem_cons_self
  have stored := load_save total proper' (after format calls)
  rw [carriedOver_after total earlier, pushAll_history] at stored
  rw [after_concat]
  refine ⟨_, stored, rfl, rfl, ?_, fun carrier other => ?_⟩
  · have starts : ∃ rest, (history last.carrier (calls ++ [last])).take recentCap = last.peer :: rest := by
      rw [history_same]
      exact ⟨_, rfl⟩
    obtain ⟨rest, starts⟩ := starts
    simp [usablePeers, Save.stored, starts, collect_peer]
  · simp [usablePeers, Save.stored, proper'.carried, Ne.symm other]

def listed : Format LastConnection :=
  texts.via (fun conn => conn.peer :: conn.profile :: conn.carrier :: conn.recent)
    (fun
      | peer :: profile :: carrier :: recent => .ok { peer, profile, carrier, recent }
      | _ => .error "missing field")
    fun _ => rfl

theorem ring_is_history_again :
    let first : Save := ⟨"1.1.1.1:443".toList, "gfw".toList, "masque-h3".toList, none⟩
    let second : Save := ⟨"1.0.0.1:443".toList, "gfw".toList, "masque-h3".toList, none⟩
    ∃ conn, load listed (after listed [first, second, first]) = some conn ∧
      IsHistory [first, second] first conn ∧ conn.recent = [first.peer, second.peer] := by
  intro first second
  have proper : ∀ call ∈ [first, second] ++ [first], call.Proper := by
    simp [first, second, Save.Proper.mk]
  obtain ⟨conn, loads, same⟩ := ring_is_history listed (texts_total.via _) [first, second] first proper
  exact ⟨conn, loads, same, same.recent⟩

end Gozarbin.LastConn
