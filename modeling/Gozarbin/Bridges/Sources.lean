import Gozarbin.Bridges.Plan

/-! # Where bridges come from

Tor's bridge database is asked for bridges by country and for those built into its browser, and its
directory for running relays, which serve as plain bridges. How much of each is asked for is a
setting.
-/

namespace Gozarbin.Bridges

open List AddrText Distinct Grouping Std Text

def torDesignatedPorts : List UInt16 := [9001, 9030, 9040, 9050, 9051, 9150]

def webPorts : List UInt16 := [80, 443]

def relaysDefault : Nat := 40

inductive Relays where
  | off
  | also (count : Nat)
  | only (count : Nat)
  deriving DecidableEq

def relayPolicy (setting : Option Text) : Relays :=
  let spec := toAsciiLowercase (trim (setting.getD []))
  if ["off".toList, "no".toList, "0".toList, "false".toList, "none".toList].elem spec then .off
  else if ["".toList, "auto".toList, "on".toList, "yes".toList, "true".toList].elem spec then
    .also relaysDefault
  else if ["only".toList, "relays".toList].elem spec then .only relaysDefault
  else
    match parseUnsigned (2 ^ 64) ((strip "only:".toList spec).getD spec) with
    | some count =>
      if 0 < count then
        let count := min count 400
        if spec.startsWith "only".toList then .only count else .also count
      else .also relaysDefault
    | none => .also relaysDefault

def relayPortsAreOpen (setting : Option Text) : Bool :=
  setting.any fun value => ["any".toList, "all".toList].elem (toAsciiLowercase (trim value))

def relayLine (fingerprint address : Text) (webOnly : Bool) : Option Text := do
  let parsed ← parseSocketAddr address
  if torDesignatedPorts.elem parsed.port then none
  else if webOnly && !webPorts.elem parsed.port then none
  else
    let id := toAsciiUppercase (trim fingerprint)
    if byteLength id ≠ 40 || !id.all (fun c => (digit? 16 c).isSome) then none
    else some (address ++ ' ' :: id)

/-- A relay as the directory lists it. -/
structure OnionooRelay where
  fingerprint : Option Text
  orAddresses : Option (List Text)

def swap (lines : List Text) (i j : Nat) : List Text :=
  match lines[i]?, lines[j]? with
  | some a, some b => (lines.set i b).set j a
  | _, _ => lines

def shuffle (draw : Nat → Nat) (lines : List Text) : List Text :=
  (List.range' 1 (lines.length - 1)).reverse.foldl
    (fun lines place => swap lines place (draw place % (place + 1))) lines

def fromRelays (ports : Option Text) (reply : Option (List OnionooRelay)) (draw : Nat → Nat) (want : Nat) :
    Option (List Text) := do
  let webOnly := !relayPortsAreOpen ports
  let relays ← reply
  let lines := relays.flatMap fun relay =>
    match relay.fingerprint with
    | none => []
    | some fingerprint =>
      (relay.orAddresses.getD []).filterMap fun address => relayLine fingerprint address webOnly
  if lines.isEmpty then none else some ((shuffle draw lines).take want)

/-- What bridges of some kind are recommended for a country. -/
structure MoatSetting where
  kind : Text
  bridgeStrings : List Text

def takeGroups : (grouped : TreeMap Text (List Text)) → List Text → List Text × TreeMap Text (List Text)
  | grouped, [] => ([], grouped)
  | grouped, kind :: kinds =>
    match grouped[kind]? with
    | none => takeGroups grouped kinds
    | some found =>
      let (lines, rest) := takeGroups (grouped.erase kind) kinds
      (found ++ lines, rest)

def fromSettings (reply : Option (List MoatSetting)) : Option (List Text) := do
  let settings := (← reply).filter fun setting => !setting.bridgeStrings.isEmpty
  let grouped : TreeMap Text (List Text) := settings.foldl (fun grouped setting =>
    grouped.insert setting.kind (grouped.getD setting.kind [] ++ setting.bridgeStrings)) ∅
  if grouped.isEmpty then none else some (takeGroups grouped (settings.map (·.kind))).1

def ordered (grouped : TreeMap Text (List Text)) : List Text :=
  let (lines, rest) := takeGroups grouped preference
  lines ++ rest.toList.flatMap (·.2)

def fromBuiltin (reply : Option (TreeMap Text (List Text))) : Option (List Text) := do
  let lines := ordered (← reply)
  if lines.isEmpty then none else some lines

def dedup (lines : List Text) : List Text :=
  distinctBy id [] ((lines.map trim).filter fun line => !line.isEmpty)

variable {line : Text} {lines : List Text}

theorem mem_dedup :
    line ∈ dedup lines ↔ line ≠ [] ∧ ∃ raw ∈ lines, trim raw = line := by
  rw [dedup, mem_distinct, and_iff_left not_mem_nil, mem_filter, mem_map, and_comm]
  simp

/-- An address and a fingerprint. -/
structure IsRelayLine (line : Text) : Prop where
  trimmed : trim line = line
  nonempty : line ≠ []
  unset : '=' ∉ line

theorem isRelayLine_of_chars {address id : Text} (address_nonempty : address ≠ []) (id_nonempty : id ≠ [])
    (address_chars : ∀ c ∈ address, IsSocketChar c) (id_chars : ∀ c ∈ id, IsSocketChar c) :
    IsRelayLine (address ++ ' ' :: id) := by
  have trimmed : Trimmed (address ++ ' ' :: id) := by
    constructor
    · intro c first
      rw [List.head?_append_of_ne_nil _ address_nonempty] at first
      exact (address_chars c (mem_of_head? first)).not_blank
    · intro c last
      rw [append_cons, List.getLast?_append_of_ne_nil _ id_nonempty] at last
      exact (id_chars c (mem_of_getLast? last)).not_blank
  refine ⟨trimmed.trim_eq, by simp, fun mem => ?_⟩
  have other {c : Char} (char : IsSocketChar c) : c ≠ '=' := char.ne (by decide) (by decide)
  rcases mem_append.mp mem with inside | behind
  · exact other (address_chars _ inside) rfl
  · rcases mem_cons.mp behind with blank | inside
    · exact absurd blank (by decide)
    · exact other (id_chars _ inside) rfl

theorem isRelayLine_of_relayLine {fingerprint address : Text} {webOnly : Bool}
    (made : relayLine fingerprint address webOnly = some line) : IsRelayLine line := by
  obtain ⟨parsed, parses, made⟩ := Option.bind_eq_some_iff.mp made
  simp only at made
  split_ifs at made with tor web invalid
  obtain rfl := Option.some.inj made
  have nonempty : address ≠ [] := by
    rintro rfl
    cases parses
  simp only [Bool.or_eq_true, Bool.not_eq_true', not_or, Bool.not_eq_false] at invalid
  obtain ⟨long, hex⟩ := invalid
  refine isRelayLine_of_chars nonempty ?_ (socket_of_parse parses).1 fun c mem => ?_
  · intro empty
    rw [empty] at long
    exact absurd long (by decide)
  · exact .inl (.inl (all_eq_true.mp hex c mem))

theorem mem_swap {i j : Nat} (mem : line ∈ swap lines i j) :
    line ∈ lines := by
  unfold swap at mem
  split at mem
  · next a b here there =>
      rcases mem_or_eq_of_mem_set mem with mem | rfl
      · rcases mem_or_eq_of_mem_set mem with mem | rfl
        · exact mem
        · exact mem_of_getElem? there
      · exact mem_of_getElem? here
  · exact mem

theorem mem_shuffle {draw : Nat → Nat} (mem : line ∈ shuffle draw lines) :
    line ∈ lines := by
  unfold shuffle at mem
  generalize (List.range' 1 (lines.length - 1)).reverse = places at mem
  induction places generalizing lines with
  | nil => exact mem
  | cons place places ih => exact mem_swap (ih mem)

theorem isRelayLine_of_fromRelays {ports : Option Text} {reply : Option (List OnionooRelay)}
    {draw : Nat → Nat} {want : Nat}
    (made : fromRelays ports reply draw want = some lines) :
    ∀ line ∈ lines, IsRelayLine line := by
  intro line mem
  obtain ⟨relays, -, made⟩ := Option.bind_eq_some_iff.mp made
  simp only at made
  split_ifs at made
  obtain rfl := Option.some.inj made
  obtain ⟨relay, -, listed⟩ := mem_flatMap.mp (mem_shuffle (mem_of_mem_take mem))
  cases named : relay.fingerprint with
  | none => simp [named] at listed
  | some fingerprint =>
    rw [named] at listed
    obtain ⟨address, -, made⟩ := mem_filterMap.mp listed
    exact isRelayLine_of_relayLine made

end Gozarbin.Bridges
