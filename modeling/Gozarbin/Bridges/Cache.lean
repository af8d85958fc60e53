import Gozarbin.Bridges.Sources
import Gozarbin.Lib.Document

/-! # The cache of bridges

What was fetched is kept in a file for some hours, and longer if nothing can be fetched. Bridges of
the database and relays are kept together, and the file does not say under which setting it was
written: with relays switched off, relays of an earlier call come out of it.
-/

namespace Gozarbin.Bridges

open List Document Std Text

def cacheMaxAge : Nat := 6 * 60 * 60

def embedded : List Text :=
  ["snowflake 192.0.2.3:80 2B280B23E1107BB62ABFC40DDCC8824814F80A72 ".toList ++
      "fingerprint=2B280B23E1107BB62ABFC40DDCC8824814F80A72 url=https://1098762253.rsc.cdn77.org/ ".toList ++
      "fronts=app.datapacket.com,www.datapacket.com ".toList ++
      "ice=stun:stun.epygi.com:3478,stun:stun.uls.co.za:3478,stun:stun.voipgate.com:3478,".toList ++
      "stun:stun.mixvoip.com:3478,stun:stun.telnyx.com:3478,stun:stun.hot-chilli.net:3478,".toList ++
      "stun:stun.fitauto.ru:3478,stun:stun.m-online.net:3478".toList ++
      " utls-imitate=hellorandomizedalpn".toList,
    "snowflake 192.0.2.4:80 8838024498816A039FCBBAB14E6F40A0843051FA ".toList ++
      "fingerprint=8838024498816A039FCBBAB14E6F40A0843051FA url=https://1098762253.rsc.cdn77.org/ ".toList ++
      "fronts=app.datapacket.com,www.datapacket.com ".toList ++
      "ice=stun:stun.epygi.com:3478,stun:stun.uls.co.za:3478,stun:stun.voipgate.com:3478,".toList ++
      "stun:stun.mixvoip.com:3478,stun:stun.telnyx.com:3478,stun:stun.hot-chilli.net:3478,".toList ++
      "stun:stun.fitauto.ru:3478,stun:stun.m-online.net:3478".toList ++
      " utls-imitate=hellorandomizedalpn".toList,
    "obfs4 146.57.248.225:22 10A6CD36A537FCE513A322361547444B393989F0 ".toList ++
      "cert=K1gDtDAIcUfeLqbstggjIw2rtgIKqdIhUlHp82XRqNSq/mtAjp1BIC9vHKJ2FAEpGssTPw".toList ++
      " iat-mode=0".toList,
    "obfs4 209.148.46.65:443 74FAD13168806246602538555B5521A0383A1875 ".toList ++
      "cert=ssH+9rP8dG2NLDN2XuFw63hIO/9MNNinLmxQDpVa+7kTOa9/m+tGWT1SmSYpQ9uTBGa6Hw".toList ++
      " iat-mode=0".toList,
    "obfs4 45.145.95.6:27015 C5B7CD6946FF10C5B3E89691A7D3F2C122D2117C ".toList ++
      "cert=TD7PbUO0/0k6xYHMPW3vJxICfkMZNdkRrb63Zhl5j9dW3iRGiCx0A7mPhe5T2EDzQ35+Zw".toList ++
      " iat-mode=0".toList,
    "obfs4 212.83.43.74:443 39562501228A4D5E27FCA4C0C81A01EE23AE3EE4 ".toList ++
      "cert=PBwr+S8JTVZo6MPdHnkTwXJPILWADLqfMGoVvhZClMq/Urndyd42BwX9YFJHZnBB3H0XCw".toList ++
      " iat-mode=1".toList,
    "obfs4 51.222.13.177:80 5EDAC3B810E12B01F6FD8050D2FD3E277B289A08 ".toList ++
      "cert=2uplIpLQ0q9+0qMFrK5pkaYRDOe460LL9WHBvatgkuRr/SL31wBOEupaMMJ6koRE6Ld0ew".toList ++
      " iat-mode=0".toList,
    "obfs4 37.218.245.14:38224 D9A82D2F9C2F65A18407B1D2B764F130847F8B5D ".toList ++
      "cert=bjRaMrr1BRiAW8IE9U5z27fQaYgOhX1UCmOpg2pFpoMvo6ZgQMzLsaTzzQNTlm7hNcb+Sg".toList ++
      " iat-mode=0".toList,
    "obfs4 212.83.43.95:443 BFE712113A72899AD685764B211FACD30FF52C31 ".toList ++
      "cert=ayq0XzCwhpdysn5o0EyDUbmSOx3X/oTEbzDMvczHOdBJKlvIdHHLJGkZARtT4dcBFArPPg".toList ++
      " iat-mode=1".toList,
    "meek_lite 192.0.2.20:80 url=https://1603026938.rsc.cdn77.org front=www.phpmyadmin.net".toList ++
      " utls=HelloRandomizedALPN".toList]

structure Cached where
  fetched : Nat
  country : Text
  lines : List Text

/-- A call of `fetch`, with all it reads: variables, the file, the clock, answers and numbers
    drawn. -/
structure Call where
  relays : Option Text := none
  relayPorts : Option Text := none
  readable : Bool := true
  looked : Nat
  client : Bool := true
  country : Option Text := none
  settings : Option (List MoatSetting) := none
  builtin : Option (TreeMap Text (List Text)) := none
  onionoo : Option (List OnionooRelay) := none
  draw : Nat → Nat := id
  written : Nat
  writable : Bool := true

namespace Call

def bridgedb (call : Call) : List Text :=
  match relayPolicy call.relays with
  | .only _ => []
  | _ => (fromSettings call.settings).getD [] ++ (fromBuiltin call.builtin).getD []

def relayLines (call : Call) : Option (List Text) :=
  match relayPolicy call.relays with
  | .off => none
  | .also want => fromRelays call.relayPorts call.onionoo call.draw want
  | .only want => fromRelays call.relayPorts call.onionoo call.draw want

def lines (call : Call) : List Text := dedup (call.bridgedb ++ call.relayLines.getD [])

def source (call : Call) : Text :=
  match call.relayLines with
  | some _ =>
    if call.bridgedb.isEmpty then "onionoo relays".toList else "bridgedb and onionoo relays".toList
  | none =>
    match relayPolicy call.relays with
    | .only _ => "onionoo relays".toList
    | _ => "bridgedb".toList

def stored (call : Call) : Cached where
  fetched := call.written
  country := match relayPolicy call.relays with
    | .only _ => []
    | _ => call.country.getD []
  lines := call.lines

end Call

section
variable (format : Format Cached)

def readCache (file : Option Bytes) : Option Cached := do
  let text ← fromUtf8 (← file)
  let cached ← (format.read text).toOption
  if cached.lines.isEmpty then none else some cached

def writeCache (file : Option Bytes) (call : Call) : Option Bytes :=
  match format.write call.stored with
  | .error _ => file
  | .ok body => if call.writable then some (toUtf8 body) else file

def fallback : Option Cached → List Text × Text
  | some stale => (stale.lines, "stale cache".toList)
  | none => (embedded, "built in".toList)

def isFresh (call : Call) (cached : Cached) : Bool := call.looked - cached.fetched < cacheMaxAge

def fetch (file : Option Bytes) (call : Call) : (List Text × Text) × Option Bytes :=
  let cached := if call.readable then readCache format file else none
  match cached.filter (isFresh call) with
  | some fresh => ((fresh.lines, "cache".toList), file)
  | none =>
    if !call.client then (fallback cached, file)
    else if call.lines.isEmpty then (fallback cached, file)
    else ((call.lines, call.source), writeCache format file call)

/-- The directory with the file, and which of the calls wrote it. -/
structure Dir where
  file : Option Bytes
  writer : Option Call := none

/-- A call, with the directory as it finds it. -/
structure Visit where
  dir : Dir
  call : Call

namespace Visit

def cached (v : Visit) : Option Cached := if v.call.readable then readCache format v.dir.file else none

def asks (v : Visit) : Bool := !(v.cached format).any (isFresh v.call) && v.call.client

def answer (v : Visit) : List Text := (fetch format v.dir.file v.call).1.1

def gets (v : Visit) : Bool := v.asks format && !v.call.lines.isEmpty

def produced (v : Visit) : List Text := if v.asks format then v.call.relayLines.getD [] else []

def writes (v : Visit) : Bool :=
  v.gets format && v.call.writable && (format.write v.call.stored).isOk

def after (v : Visit) : Dir where
  file := (fetch format v.dir.file v.call).2
  writer := if v.writes format then some v.call else v.dir.writer

def origin (v : Visit) : Option Call :=
  if v.gets format then some v.call
  else if (v.cached format).isSome then v.dir.writer
  else none

def inherited (v : Visit) : Option (List Text) :=
  if v.gets format || v.dir.writer.isSome then none else (v.cached format).map Cached.lines

end Visit

def visits : Dir → List Call → List Visit
  | _, [] => []
  | dir, call :: calls => ⟨dir, call⟩ :: visits (Visit.after format ⟨dir, call⟩) calls

/-- With relays switched off no relay is in an answer. -/
def Respected (all : List Visit) : Prop :=
  ∀ pre v post, all = pre ++ v :: post → relayPolicy v.call.relays = .off →
    ∀ line ∈ v.answer format, ∀ u ∈ pre ++ [v], line ∉ u.produced format

end

section
variable {format : Format Cached} {dir : Dir} {v : Visit}

def Dir.Sound (format : Format Cached) (dir : Dir) : Prop :=
  ∀ cached w, readCache format dir.file = some cached → dir.writer = some w → cached.lines = w.lines

theorem fetch_spec (v : Visit) :
    v.answer format =
      (if v.gets format then v.call.lines else ((v.cached format).map Cached.lines).getD embedded) ∧
      (v.after format).file =
        if v.gets format then writeCache format v.dir.file v.call else v.dir.file := by
  have read : (if v.call.readable then readCache format v.dir.file else none) = v.cached format := rfl
  rw [Visit.answer, Visit.after, fetch, read, Visit.gets, Visit.asks]
  cases v.cached format with
  | none => cases v.call.client <;> cases v.call.lines.isEmpty <;> simp [fallback]
  | some cached =>
    cases fresh : isFresh v.call cached with
    | true => simp [Option.filter, fresh]
    | false =>
      cases v.call.client <;> cases v.call.lines.isEmpty <;> simp [Option.filter, fallback, fresh]

theorem readCache_written {call : Call} {body : Text} {cached : Cached}
    (wrote : format.write call.stored = .ok body)
    (read : readCache format (some (toUtf8 body)) = some cached) : cached.lines = call.lines := by
  have text : fromUtf8 (toUtf8 body) = some body := fromUtf8_eq_some.mpr rfl
  have record : (format.read body).toOption = some call.stored := by rw [format.reads_back wrote]; rfl
  have whole : readCache format (some (toUtf8 body)) =
      if call.stored.lines.isEmpty then none else some call.stored := by
    rw [readCache, Option.bind_eq_bind, Option.bind_some, text, Option.bind_eq_bind, Option.bind_some,
      record]
    rfl
  rw [whole, Option.ite_none_left_eq_some] at read
  rw [← Option.some.inj read.2]
  rfl

theorem Visit.after_eq (idle : v.writes format = false) : v.after format = v.dir := by
  have file : (v.after format).file = v.dir.file := by
    rw [(fetch_spec v).2]
    split
    · next got =>
        rw [Visit.writes, got, Bool.true_and] at idle
        rw [writeCache]
        cases wrote : format.write v.call.stored with
        | error message => rfl
        | ok body =>
          have locked : v.call.writable = false := by simpa [wrote, Except.toBool] using idle
          simp [locked]
    · rfl
  have writer : (v.after format).writer = v.dir.writer := by
    rw [Visit.after, idle, if_neg Bool.false_ne_true]
  calc v.after format = ⟨(v.after format).file, (v.after format).writer⟩ := rfl
    _ = v.dir := by rw [file, writer]

theorem Visit.sound_after (sound : v.dir.Sound format) : (v.after format).Sound format := by
  cases writes : v.writes format with
  | false =>
    rw [Visit.after_eq writes]
    exact sound
  | true =>
    have writer : (v.after format).writer = some v.call := by rw [Visit.after, writes, if_pos rfl]
    simp only [Visit.writes, Bool.and_eq_true] at writes
    obtain ⟨⟨got, writable⟩, wrote⟩ := writes
    intro cached w read by_w
    obtain rfl := Option.some.inj (writer.symm.trans by_w)
    rw [(fetch_spec v).2, if_pos got, writeCache] at read
    cases written : format.write v.call.stored with
    | error message =>
      rw [written] at wrote
      cases wrote
    | ok body =>
      rw [written] at read
      simp only [if_pos writable] at read
      exact readCache_written written read

theorem Visit.answer_eq (sound : v.dir.Sound format) :
    v.answer format = ((v.origin format).map Call.lines).getD ((v.inherited format).getD embedded) := by
  rw [(fetch_spec v).1, Visit.origin, Visit.inherited]
  cases v.gets format with
  | true => rfl
  | false =>
    cases found : v.cached format with
    | none => cases v.dir.writer <;> rfl
    | some cached =>
      cases wrote : v.dir.writer with
      | none => rfl
      | some w =>
        have same := sound cached w (Option.ite_none_right_eq_some.mp found).2 wrote
        simp [same]

theorem Visit.inherited_eq_none {w : Call} (source : v.origin format = some w) :
    v.inherited format = none := by
  rw [Visit.origin] at source
  rw [Visit.inherited]
  cases got : v.gets format with
  | true => rfl
  | false =>
    rw [got, if_neg Bool.false_ne_true, Option.ite_none_right_eq_some] at source
    simp [source.2]

theorem sound_of_visits {calls : List Call} {pre post : List Visit} (sound : dir.Sound format)
    (split : visits format dir calls = pre ++ v :: post) :
    v.dir.Sound format ∧ ∀ w ∈ v.dir.writer,
      dir.writer = some w ∨ ∃ u ∈ pre, u.call = w ∧ u.asks format = true := by
  induction pre generalizing dir calls with
  | nil =>
    cases calls with
    | nil => cases split
    | cons call calls =>
      cases split
      exact ⟨sound, fun w mem => .inl mem⟩
  | cons u pre ih =>
    cases calls with
    | nil => cases split
    | cons call calls =>
      obtain ⟨rfl, rest⟩ := List.cons.inj split
      obtain ⟨sound', earlier⟩ := ih (Visit.sound_after sound) rest
      refine ⟨sound', fun w mem => ?_⟩
      rcases earlier w mem with first | ⟨u, member, same, asked⟩
      · rw [Visit.after] at first
        split at first
        · next wrote =>
            have asked : Visit.asks format ⟨dir, call⟩ = true := by
              simp only [Visit.writes, Visit.gets, Bool.and_eq_true] at wrote
              exact wrote.1.1.1
            exact .inr ⟨_, mem_cons_self, Option.some.inj first, asked⟩
        · exact .inl first
      · exact .inr ⟨u, mem_cons_of_mem _ member, same, asked⟩

theorem Call.isRelayLine {call : Call} {line : Text} (mem : line ∈ call.relayLines.getD []) :
    IsRelayLine line := by
  cases made : call.relayLines with
  | none => simp [made] at mem
  | some lines =>
    rw [made] at mem
    rw [Call.relayLines] at made
    split at made
    · cases made
    · exact isRelayLine_of_fromRelays made line mem
    · exact isRelayLine_of_fromRelays made line mem

theorem isRelayLine_of_produced {line : Text} (mem : line ∈ v.produced format) : IsRelayLine line := by
  rw [Visit.produced] at mem
  split at mem
  · exact Call.isRelayLine mem
  · cases mem

theorem not_mem_embedded {line : Text} (relay : IsRelayLine line) : line ∉ embedded := by
  -- every line that is built in ends with a parameter of its transport
  have set : ∀ line ∈ embedded, '=' ∈ line := by
    repeat' refine forall_mem_cons.mpr ⟨mem_append_right _ (by decide), ?_⟩
    exact fun _ mem => by cases mem
  exact fun mem => relay.unset (set line mem)

theorem Call.mem_lines {call : Call} {line : Text} : line ∈ call.lines ↔
    line ≠ [] ∧ ((∃ raw ∈ call.bridgedb, trim raw = line) ∨ line ∈ call.relayLines.getD []) := by
  rw [Call.lines, mem_dedup]
  refine and_congr_right fun _ => ⟨?_, ?_⟩
  · rintro ⟨raw, mem, same⟩
    rcases mem_append.mp mem with database | relay
    · exact .inl ⟨raw, database, same⟩
    · exact .inr (same ▸ (Call.isRelayLine relay).trimmed.symm ▸ relay)
  · rintro (⟨raw, mem, same⟩ | mem)
    · exact ⟨raw, mem_append_left _ mem, same⟩
    · exact ⟨line, mem_append_right _ mem, (Call.isRelayLine mem).trimmed⟩

theorem sound_unwritten {file : Option Bytes} : Dir.Sound format { file } :=
  fun _ _ _ wrote => by cases wrote

theorem exists_of_origin {file : Option Bytes} {calls : List Call} {pre post : List Visit} {w : Call}
    (split : visits format { file } calls = pre ++ v :: post) (from_w : w ∈ v.origin format) :
    ∃ u ∈ pre ++ [v], u.call = w ∧ u.asks format = true := by
  rw [Visit.origin] at from_w
  split at from_w
  · next got =>
      cases from_w
      exact ⟨v, by simp, rfl, (Bool.and_eq_true_iff.mp got).1⟩
  · split at from_w
    · rcases (sound_of_visits sound_unwritten split).2 w from_w with first | ⟨u, member, same, asked⟩
      · cases first
      · exact ⟨u, mem_append_left _ member, same, asked⟩
    · cases from_w

theorem lines_free_iff {all : List Visit} {u₀ : Visit} (member : u₀ ∈ all)
    (made₀ : u₀.produced format = u₀.call.relayLines.getD []) :
    (∀ line ∈ u₀.call.lines, ∀ u ∈ all, line ∉ u.produced format) ↔
      u₀.call.relayLines.getD [] = [] ∧
        ∀ line ∈ u₀.call.bridgedb, ∀ u ∈ all, trim line ∉ u.produced format := by
  constructor
  · intro free
    constructor
    · refine eq_nil_iff_forall_not_mem.mpr fun line mem => ?_
      have answered := Call.mem_lines.mpr ⟨(Call.isRelayLine mem).nonempty, .inr mem⟩
      exact free line answered u₀ member (made₀ ▸ mem)
    · intro line mem u member made
      have answered := Call.mem_lines.mpr
        ⟨(isRelayLine_of_produced made).nonempty, .inl ⟨line, mem, rfl⟩⟩
      exact free (trim line) answered u member made
  · rintro ⟨none, apart⟩ line mem u member
    rcases (Call.mem_lines.mp mem).2 with ⟨raw, database, rfl⟩ | relay
    · exact apart raw database u member
    · rw [none] at relay
      cases relay

end

/-- With relays switched off none is answered precisely if what is answered was fetched without
    relays, and neither the database nor a file from before lists one. -/
theorem relay_policy_respected_iff (format : Format Cached) (file : Option Bytes) (calls : List Call) :
    Respected format (visits format { file } calls) ↔
      ∀ pre v post, visits format { file } calls = pre ++ v :: post → relayPolicy v.call.relays = .off →
        (∀ w ∈ v.origin format, w.relayLines.getD [] = [] ∧
          ∀ line ∈ w.bridgedb, ∀ u ∈ pre ++ [v], trim line ∉ u.produced format) ∧
        ∀ lines ∈ v.inherited format, ∀ line ∈ lines, ∀ u ∈ pre ++ [v], line ∉ u.produced format := by
  refine forall_congr' fun pre => forall_congr' fun v => forall_congr' fun post =>
    forall_congr' fun split => forall_congr' fun _ => ?_
  rw [v.answer_eq (sound_of_visits sound_unwritten split).1]
  cases source : v.origin format with
  | none =>
    rw [and_iff_right fun w mem => by cases mem]
    cases old : v.inherited format with
    | none =>
      refine iff_of_true (fun line mem u _ made => ?_) fun lines mem => by cases mem
      exact not_mem_embedded (isRelayLine_of_produced made) mem
    | some lines => simp
  | some w =>
    rw [v.inherited_eq_none source, and_iff_left fun lines mem => by cases mem]
    obtain ⟨u₀, member₀, rfl, asked⟩ := exists_of_origin split source
    have made₀ : u₀.produced format = u₀.call.relayLines.getD [] := by rw [Visit.produced, if_pos asked]
    simp only [Option.map_some, Option.getD_some, Option.mem_some_iff, forall_eq']
    exact lines_free_iff member₀ made₀

def marked : Format Cached :=
  texts.via (fun cached => List.replicate cached.fetched '|' :: cached.country :: cached.lines)
    (fun
      | marks :: country :: lines => .ok ⟨marks.length, country, lines⟩
      | _ => .error "not a cache")
    (fun cached => by simp)

theorem relay_out_of_cache :
    let relay : OnionooRelay := ⟨some (List.replicate 40 'A'), some ["192.0.2.7:443".toList]⟩
    let calls : List Call := [{ looked := 0, written := 0, onionoo := some [relay] },
      { relays := some "off".toList, looked := 60, written := 60 }]
    let line := "192.0.2.7:443 AAAAAAAAAAAAAAAAAAAAAAAAAAAAAAAAAAAAAAAA".toList
    calls.map (relayPolicy ·.relays) = [.also 40, .off] ∧
      (visits marked { file := none } calls).map (Visit.produced marked) = [[line], []] ∧
      (visits marked { file := none } calls).map (Visit.answer marked) = [[line], [line]] ∧
      ¬ Respected marked (visits marked { file := none } calls) := by
  intro relay calls line
  have produced : (visits marked { file := none } calls).map (Visit.produced marked) = [[line], []] := by
    decide +kernel
  have answers : (visits marked { file := none } calls).map (Visit.answer marked) = [[line], [line]] := by
    decide +kernel
  refine ⟨by decide, produced, answers, fun respected => ?_⟩
  obtain ⟨first, -⟩ := List.cons.inj produced
  obtain ⟨-, rest⟩ := List.cons.inj answers
  obtain ⟨second, -⟩ := List.cons.inj rest
  refine respected [_] _ [] rfl (by decide) line ?_ _ mem_cons_self ?_
  · exact second.symm ▸ mem_singleton_self line
  · exact first.symm ▸ mem_singleton_self line

end Gozarbin.Bridges
