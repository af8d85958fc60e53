import Gozarbin.Dns.EchDns

/-! # The resolver setting, written and read

A setting that was read holds only texts that are read as themselves, and neither of them has
an `@` in it. So the text that is written splits where it was joined, and is read as the
setting it was written for.
-/

namespace Gozarbin.Dns

open List Text AddrText

section
variable {std : AddrDisplay} {text value scheme rest : Text}

theorem isDomainByte_ascii {b : UInt8} (domain : isDomainByte b = true) : b < 0x80 := by
  simp only [isDomainByte, Bool.or_eq_true, Bool.and_eq_true, decide_eq_true_eq, beq_iff_eq,
    UInt8.le_iff_toNat_le, ← UInt8.toNat_inj, UInt8.reduceToNat] at domain
  have small : b.toNat < 128 := by omega
  exact small

theorem isDomainByte_char : ∀ n < 128, isDomainByte (.ofNat n) = true →
    isWhitespace (.ofNat n) = false ∧ Char.ofNat n ≠ '@' ∧ Char.ofNat n ≠ '[' := by decide

theorem domain_char (valid : validDomain value = true) :
    ∀ c ∈ value, isWhitespace c = false ∧ c ≠ '@' ∧ c ≠ '[' := by
  intro c member
  have dot : c = '.' → isWhitespace c = false ∧ c ≠ '@' ∧ c ≠ '[' := by
    rintro rfl
    decide
  simp only [validDomain, Bool.and_eq_true, all_eq_true] at valid
  obtain ⟨-, labels⟩ := valid
  have inside : c = '.' ∨ c ∈ (stripEnd ['.'] value).getD value := by
    cases stripped : stripEnd ['.'] value with
    | none => exact .inr member
    | some front =>
      rw [stripEnd_eq_some stripped, mem_append, mem_singleton] at member
      exact member.symm
  rcases inside with same | inside
  · exact dot same
  rcases mem_splitAt inside with same | ⟨piece, listed, here⟩
  · exact dot same
  obtain ⟨-, bytes⟩ := labels _ (mem_map_of_mem listed)
  have own : ∀ b ∈ String.utf8EncodeChar c, isDomainByte b = true :=
    fun b encoded => bytes b (mem_flatMap.mpr ⟨c, here, encoded⟩)
  have ascii : c.toNat < 128 := ascii_of_utf8EncodeChar fun b encoded => isDomainByte_ascii (own b encoded)
  rw [utf8EncodeChar_ascii ascii, forall_mem_singleton] at own
  simpa using isDomainByte_char c.toNat ascii own

theorem bare_of_not_mem (opening : '[' ∉ value) : bare value = value := by
  have plain : strip ['['] value = none := strip_of_head? fun first => opening (mem_of_head? first)
  rw [bare, plain]
  rfl

structure Settled (std : AddrDisplay) (slot : Slot) (value : Text) : Prop where
  check : slot.check std value = .ok value
  visible : ∀ c ∈ value, isWhitespace c = false
  sign : '@' ∉ value

theorem Settled.of_domain {slot : Slot} (check : slot.check std value = .ok value)
    (valid : validDomain value = true) : Settled std slot value where
  check := check
  visible c member := (domain_char valid c member).1
  sign member := (domain_char valid '@' member).2.1 rfl

theorem settled_ip (std : AddrDisplay) (ip : IpAddr) : Settled std .address (std.ip ip) := by
  have chars := chars_of_parse (std.parse_ip ip)
  have plain : bare (std.ip ip) = std.ip ip :=
    bare_of_not_mem fun member => (chars '[' member).ne (by decide) (by decide) (by decide) rfl
  refine ⟨?_, fun c member => (chars c member).not_blank, fun member =>
    (chars '@' member).ne (by decide) (by decide) (by decide) rfl⟩
  rw [Slot.check, hostAddress, plain, std.parse_ip]

theorem settled_of_check {slot : Slot} {setting : Text} (checked : slot.check std setting = .ok value) :
    Settled std slot value := by
  have whole := checked
  cases slot with
  | address =>
    rw [Slot.check] at checked
    split at checked
    next v found =>
      cases checked
      rw [hostAddress] at found
      split at found
      next ip _ =>
        cases found
        exact settled_ip std ip
      next =>
        rw [Option.ite_none_right_eq_some, Option.some.injEq] at found
        obtain ⟨valid, rfl⟩ := found
        exact .of_domain whole valid
    next => cases checked
  | sni =>
    rw [Slot.check] at checked
    split at checked
    next fine =>
      cases checked
      exact .of_domain whole (Bool.and_eq_true_iff.mp fine).2
    next => cases checked

variable {e e' : DohEndpoint} {slot other : Slot} {piece p q : Text} {pieces : List Text}

theorem DohEndpoint.get_set (e : DohEndpoint) (slot : Slot) (v : Text) :
    (e.set slot v).get slot = some v := by
  cases slot <;> rfl

theorem DohEndpoint.get_set_ne (differ : slot ≠ other) (e : DohEndpoint) (v : Text) :
    (e.set slot v).get other = e.get other := by
  cases slot <;> cases other <;> first | rfl | exact absurd rfl differ

theorem DohEndpoint.set_comm (differ : slot ≠ other) (e : DohEndpoint) (v w : Text) :
    (e.set slot v).set other w = (e.set other w).set slot v := by
  cases slot <;> cases other <;> first | rfl | exact absurd rfl differ

theorem DohEndpoint.url_set (e : DohEndpoint) (slot : Slot) (v : Text) : (e.set slot v).url = e.url := by
  cases slot <;> rfl

theorem assign_eq_some : assign std e piece = some e' ↔
    ∃ slot setting v, naming piece = some (slot, setting) ∧ e.get slot = none ∧
      slot.check std setting = .ok v ∧ e' = e.set slot v := by
  simp only [assign, Option.bind_eq_some_iff, Option.ite_none_left_eq_some, Option.map_eq_some_iff,
    Bool.not_eq_true, Option.isSome_eq_false_iff, Option.isNone_iff_eq_none, Prod.exists]
  constructor
  · rintro ⟨slot, setting, named, free, v, checked, rfl⟩
    cases check : slot.check std setting with
    | error => simp [check, Except.toOption] at checked
    | ok w =>
      rw [check] at checked
      cases checked
      exact ⟨slot, setting, _, named, free, check, rfl⟩
  · rintro ⟨slot, setting, v, named, free, checked, rfl⟩
    exact ⟨slot, setting, named, free, v, by rw [checked]; rfl, rfl⟩

theorem isSome_get_of_assign (assigned : assign std e piece = some e') (set_ : (e.get slot).isSome) :
    (e'.get slot).isSome := by
  obtain ⟨other, setting, v, -, free, -, rfl⟩ := assign_eq_some.mp assigned
  by_cases same : other = slot
  · subst same
    simp [free] at set_
  · rwa [DohEndpoint.get_set_ne same]

theorem isSome_get_of_foldlM (read : pieces.foldlM (assign std) e = some e') (set_ : (e.get slot).isSome) :
    (e'.get slot).isSome := by
  induction pieces generalizing e with
  | nil =>
    cases read
    exact set_
  | cons piece pieces ih =>
    obtain ⟨mid, assigned, later⟩ := Option.bind_eq_some_iff.mp read
    exact ih later (isSome_get_of_assign assigned set_)

/-- The piece names the setting. -/
def Names (slot : Slot) (piece : Text) : Prop := ∃ setting, naming piece = some (slot, setting)

theorem get_of_assign (assigned : assign std e piece = some e') (names : Names slot piece) :
    e.get slot = none ∧ (e'.get slot).isSome := by
  obtain ⟨other, setting, v, named, free, -, rfl⟩ := assign_eq_some.mp assigned
  obtain ⟨setting', names⟩ := names
  cases named.symm.trans names
  exact ⟨free, by simp [DohEndpoint.get_set]⟩

theorem foldlM_twice (names : Names slot p) (names' : Names slot q) (before middle after : List Text) :
    (before ++ p :: middle ++ q :: after).foldlM (assign std) e = none := by
  rw [Option.eq_none_iff_forall_ne_some]
  intro e' read
  simp only [foldlM_append] at read
  obtain ⟨mid, read, later⟩ := Option.bind_eq_some_iff.mp read
  obtain ⟨first, -, read⟩ := Option.bind_eq_some_iff.mp read
  obtain ⟨second, assigned, read⟩ := Option.bind_eq_some_iff.mp read
  obtain ⟨third, assigned', -⟩ := Option.bind_eq_some_iff.mp later
  have set_ := isSome_get_of_foldlM read (get_of_assign assigned names).2
  rw [(get_of_assign assigned' names').1] at set_
  cases set_

theorem assign_swap {mid : DohEndpoint} (first : assign std e p = some mid)
    (second : assign std mid q = some e') :
    ∃ mid', assign std e q = some mid' ∧ assign std mid' p = some e' := by
  obtain ⟨slot, setting, v, named, free, checked, rfl⟩ := assign_eq_some.mp first
  obtain ⟨other, setting', w, named', free', checked', rfl⟩ := assign_eq_some.mp second
  have differ : slot ≠ other := by
    rintro rfl
    rw [DohEndpoint.get_set] at free'
    cases free'
  rw [DohEndpoint.get_set_ne differ] at free'
  refine ⟨e.set other w, assign_eq_some.mpr ⟨_, _, _, named', free', checked', rfl⟩,
    assign_eq_some.mpr ⟨_, _, _, named, ?_, checked, DohEndpoint.set_comm differ e v w⟩⟩
  rwa [DohEndpoint.get_set_ne differ.symm]

theorem foldlM_swap (read : [p, q].foldlM (assign std) e = some e') :
    [q, p].foldlM (assign std) e = some e' := by
  simp only [foldlM_cons] at read ⊢
  obtain ⟨mid, first, later⟩ := Option.bind_eq_some_iff.mp read
  obtain ⟨last, second, done⟩ := Option.bind_eq_some_iff.mp later
  cases done
  obtain ⟨mid', first', second'⟩ := assign_swap first second
  rw [first']
  dsimp only [Option.bind_eq_bind, Option.bind_some]
  rw [second']
  rfl

theorem settled_of_foldlM (read : pieces.foldlM (assign std) e = some e')
    (settled : ∀ slot v, e.get slot = some v → Settled std slot v) :
    e'.url = e.url ∧ ∀ slot v, e'.get slot = some v → Settled std slot v := by
  induction pieces generalizing e with
  | nil =>
    cases read
    exact ⟨rfl, settled⟩
  | cons piece pieces ih =>
    obtain ⟨mid, assigned, later⟩ := Option.bind_eq_some_iff.mp read
    obtain ⟨slot, setting, v, -, -, checked, rfl⟩ := assign_eq_some.mp assigned
    rw [← DohEndpoint.url_set e slot v]
    refine ih later fun other w found => ?_
    by_cases same : slot = other
    · subst same
      rw [DohEndpoint.get_set] at found
      cases found
      exact settled_of_check checked
    · rw [DohEndpoint.get_set_ne same] at found
      exact settled other w found

def Slot.name : Slot → Text
  | .address => "address".toList
  | .sni => "sni".toList

def Slot.write (slot : Slot) (v : Text) : Text := slot.name ++ '=' :: v

def DohEndpoint.settings (e : DohEndpoint) : List Text :=
  (e.address.map (Slot.write .address)).toList ++ (e.sni.map (Slot.write .sni)).toList

theorem toText_https (e : DohEndpoint) :
    (EchDns.https e).toText std = ['@'].intercalate (e.url :: e.settings) := by
  have joined (first : Text) (more : List Text) :
      ['@'].intercalate (first :: more) = first ++ more.flatMap ('@' :: ·) := by
    induction more generalizing first with
    | nil => simp
    | cons next more ih => rw [intercalate_cons_cons, ih, flatMap_cons, append_assoc]; rfl
  rw [joined, DohEndpoint.settings, flatMap_append, EchDns.toText, append_assoc]
  congr 2
  · cases e.address with
    | none => rfl
    | some a => exact (append_nil _).symm
  · cases e.sni with
    | none => rfl
    | some s => exact (append_nil _).symm

variable {v : Text}

theorem naming_write (settled : Settled std slot v) :
    naming (slot.write v) = some (slot, v) := by
  have sign : '=' ∉ slot.name := by cases slot <;> decide
  have named : slotOf (trim slot.name) = some slot := by cases slot <;> decide
  rw [naming, Slot.write, splitOnce_append sign]
  dsimp only [Option.bind_some]
  rw [named, (Trimmed.of_visible settled.visible).trim_eq]
  rfl

theorem assign_write (settled : Settled std slot v) (free : e.get slot = none) :
    assign std e (slot.write v) = some (e.set slot v) :=
  assign_eq_some.mpr ⟨_, _, _, naming_write settled, free, settled.check, rfl⟩

theorem foldlM_settings (settled : ∀ slot v, e.get slot = some v → Settled std slot v) :
    e.settings.foldlM (assign std) ⟨e.url, none, none⟩ = some e := by
  have address : (e.address.map (Slot.write .address)).toList.foldlM (assign std) ⟨e.url, none, none⟩ =
      some ⟨e.url, e.address, none⟩ := by
    cases set_ : e.address with
    | none => rfl
    | some a =>
      rw [Option.map_some, Option.toList_some, foldlM_cons,
        assign_write (settled .address a set_) rfl]
      rfl
  have sni : (e.sni.map (Slot.write .sni)).toList.foldlM (assign std) ⟨e.url, e.address, none⟩ =
      some e := by
    cases set_ : e.sni with
    | none => exact congrArg (fun sni => some (⟨e.url, e.address, sni⟩ : DohEndpoint)) set_.symm
    | some s =>
      rw [Option.map_some, Option.toList_some, foldlM_cons, assign_write (settled .sni s set_) rfl]
      rw [DohEndpoint.set, ← set_]
      rfl
  rw [DohEndpoint.settings, foldlM_append, address]
  exact sni

theorem sign_write (settled : Settled std slot v) : '@' ∉ slot.write v := by
  have name : '@' ∉ slot.name := by cases slot <;> decide
  simp [Slot.write, name, settled.sign]

theorem mem_settings (member : piece ∈ e.settings) :
    ∃ slot v, e.get slot = some v ∧ piece = slot.write v := by
  rw [DohEndpoint.settings, mem_append] at member
  rcases member with member | member
  · obtain ⟨v, set_, rfl⟩ := Option.map_eq_some_iff.mp (Option.mem_toList.mp member)
    exact ⟨.address, v, set_, rfl⟩
  · obtain ⟨v, set_, rfl⟩ := Option.map_eq_some_iff.mp (Option.mem_toList.mp member)
    exact ⟨.sni, v, set_, rfl⟩

theorem parse_toText_https (read : EchDns.parse std text = .ok (.https e)) :
    EchDns.parse std ((EchDns.https e).toText std) = .ok (.https e) := by
  obtain ⟨url, settings, pieces, host, set_⟩ := parse_eq_https.mp read
  obtain ⟨same, settled⟩ := settled_of_foldlM set_ (by rintro (_ | _) v found <;> cases found)
  obtain ⟨first, more, split⟩ := exists_cons_of_ne_nil (splitAt_ne_nil '@' text)
  rw [split] at pieces
  obtain ⟨rfl, -⟩ := List.cons.inj pieces
  have trimmed : trim e.url = e.url := by rw [same, trim_trim]
  have sign : '@' ∉ e.url := by
    rw [same]
    have clean : '@' ∉ first := not_mem_of_mem_splitAt (split ▸ mem_cons_self ..)
    obtain ⟨front, back, whole, -⟩ := trim_spec first
    intro member
    rw [whole] at clean
    simp [member] at clean
  have clean : ∀ piece ∈ e.url :: e.settings, '@' ∉ piece := by
    intro piece member
    rcases mem_cons.mp member with rfl | later
    · exact sign
    · obtain ⟨slot, v, set_, rfl⟩ := mem_settings later
      exact sign_write (settled slot v set_)
  rw [parse_eq_https, toText_https, splitAt_intercalate clean (by simp), map_cons, trimmed]
  refine ⟨e.url, _, rfl, by rwa [same], ?_⟩
  rw [foldlM_assign_trim]
  exact foldlM_settings settled

variable {a : SocketAddress}

theorem socketAddress_spec {port : UInt16} (read : socketAddress text port = some a) :
    '@' ∉ text ∧ a.flowinfo = 0 := by
  unfold socketAddress at read
  split at read
  next parsed =>
    cases read
    obtain ⟨chars, flow⟩ := socket_of_parse parsed
    exact ⟨fun member => (chars '@' member).ne (by decide) (by decide) rfl, flow⟩
  next =>
    split at read
    next parsed =>
      cases read
      have chars := chars_of_parse parsed
      exact ⟨fun member => (chars '@' member).ne (by decide) (by decide) (by decide) rfl, by simp⟩
    next =>
      simp only [Option.bind_eq_bind, Option.bind_eq_some_iff] at read
      obtain ⟨inner, opening, inner', closing, ip, parsed, done⟩ := read
      cases done
      have chars := chars_of_parseIpv6Addr parsed
      rw [strip_eq_some opening, stripEnd_eq_some closing]
      have inside : '@' ∉ inner' :=
        fun member => (chars '@' member).ne (by decide) (by decide) (by decide) rfl
      simp [inside]

theorem stripScheme_of_head {c d : Char} {value scheme : Text} (other : c.toLower ≠ d.toLower) :
    stripScheme (c :: value) (d :: scheme) = none := by
  rw [Option.eq_none_iff_forall_ne_some]
  intro rest stripped
  obtain ⟨head, split, same⟩ := stripScheme_eq_some.mp stripped
  have lower := beq_iff_eq.mp same
  cases head with
  | nil => cases lower
  | cons b head =>
    obtain ⟨rfl, -⟩ := List.cons.inj split
    exact other (List.cons.inj lower).1

theorem serverAddress_eq_ok {wrap : SocketAddress → EchDns} {found : EchDns}
    (read : serverAddress value rest wrap = .ok found) :
    '@' ∉ rest ∧ ∃ a, a.flowinfo = 0 ∧ found = wrap a := by
  unfold serverAddress at read
  split at read
  next a parsed =>
    cases read
    obtain ⟨sign, flow⟩ := socketAddress_spec parsed
    exact ⟨fun member => sign (mem_trimEndMatches member (by decide)), a, flow, rfl⟩
  next => cases read

theorem serverAddress_socket (value : Text) (wrap : SocketAddress → EchDns)
    (flow : a.flowinfo = 0) :
    serverAddress value (std.socket a) wrap = .ok (wrap a) := by
  have parsed := std.parse_socket a flow
  obtain ⟨chars, -⟩ := socket_of_parse parsed
  have slash : '/' ∉ std.socket a := fun member => (chars '/' member).ne (by decide) (by decide) rfl
  rw [serverAddress, trimEndMatches_of_not_mem slash, socketAddress, parsed]

theorem sign_of_stripScheme (clean : '@' ∉ scheme.map Char.toLower)
    (stripped : stripScheme (trim text) scheme = some rest)
    (sign : '@' ∉ rest) : '@' ∉ text := by
  obtain ⟨head, split, same⟩ := stripScheme_eq_some.mp stripped
  obtain ⟨front, back, whole, blank, blank', -⟩ := trim_spec text
  have outside : ∀ {part : Text}, Blank part → '@' ∉ part := fun blank member =>
    absurd (blank '@' member) (by decide)
  have inside : '@' ∉ head := by
    intro member
    have lower := mem_map_of_mem (f := Char.toLower) member
    rw [beq_iff_eq.mp same] at lower
    exact clean lower
  rw [whole, split]
  simp [outside blank, inside, sign, outside blank']

theorem parse_server {found : EchDns} (read : EchDns.parse std text = .ok found)
    (server : ∀ e, found ≠ .https e) :
    '@' ∉ text ∧ ∃ a, a.flowinfo = 0 ∧ (found = .udp a ∨ found = .tcp a) := by
  rw [EchDns.parse] at read
  split at read
  next =>
    cases endpoint : DohEndpoint.parse std (trim text) with
    | error => rw [endpoint] at read; cases read
    | ok e =>
      rw [endpoint] at read
      cases read
      exact absurd rfl (server e)
  next =>
    split at read
    next rest stripped =>
      obtain ⟨sign, a, flow, same⟩ := serverAddress_eq_ok read
      exact ⟨sign_of_stripScheme (by decide) stripped sign, a, flow, .inl same⟩
    next =>
      split at read
      next rest stripped =>
        obtain ⟨sign, a, flow, same⟩ := serverAddress_eq_ok read
        exact ⟨sign_of_stripScheme (by decide) stripped sign, a, flow, .inr same⟩
      next => cases read

theorem trim_server (flow : a.flowinfo = 0)
    (visible : ∀ c ∈ scheme, isWhitespace c = false) :
    trim (scheme ++ std.socket a) = scheme ++ std.socket a := by
  obtain ⟨chars, -⟩ := socket_of_parse (std.parse_socket a flow)
  refine (Trimmed.of_visible fun c member => ?_).trim_eq
  exact (mem_append.mp member).elim (visible c) fun socket => (chars c socket).not_blank

theorem stripScheme_append (scheme rest : Text) : stripScheme (scheme ++ rest) scheme = some rest :=
  stripScheme_eq_some.mpr ⟨scheme, rfl, beq_self_eq_true _⟩

theorem parse_toText_server (flow : a.flowinfo = 0) :
    EchDns.parse std ((EchDns.udp a).toText std) = .ok (.udp a) ∧
      EchDns.parse std ((EchDns.tcp a).toText std) = .ok (.tcp a) := by
  have udp_visible : ∀ c ∈ udp, isWhitespace c = false := forall_iff_forall_mem.mp (by decide)
  have tcp_visible : ∀ c ∈ tcp, isWhitespace c = false := forall_iff_forall_mem.mp (by decide)
  have udp_https : stripScheme (udp ++ std.socket a) https = none := stripScheme_of_head (by decide)
  have tcp_https : stripScheme (tcp ++ std.socket a) https = none := stripScheme_of_head (by decide)
  have tcp_udp : stripScheme (tcp ++ std.socket a) udp = none := stripScheme_of_head (by decide)
  constructor
  · rw [EchDns.parse, EchDns.toText, trim_server flow udp_visible, udp_https, stripScheme_append]
    exact serverAddress_socket _ _ flow
  · rw [EchDns.parse, EchDns.toText, trim_server flow tcp_visible, tcp_https, tcp_udp, stripScheme_append]
    exact serverAddress_socket _ _ flow

theorem parse_swap {url : Text} (clean : ∀ piece ∈ [url, p, q], '@' ∉ piece)
    (read : EchDns.parse std (['@'].intercalate [url, p, q]) = .ok (.https e)) :
    EchDns.parse std (['@'].intercalate [url, q, p]) = .ok (.https e) := by
  have clean' : ∀ piece ∈ [url, q, p], '@' ∉ piece := fun piece member => clean piece (by
    simp only [mem_cons, not_mem_nil, or_false] at member ⊢
    tauto)
  rw [parse_eq_https, splitAt_intercalate clean (by simp)] at read
  rw [parse_eq_https, splitAt_intercalate clean' (by simp)]
  obtain ⟨first, settings, same, host, set_⟩ := read
  cases same
  exact ⟨_, _, rfl, host, foldlM_swap set_⟩

theorem parse_twice {url : Text} {before middle after : List Text} (names : Names slot p)
    (names' : Names slot q)
    (clean : ∀ piece ∈ url :: (before ++ p :: middle ++ q :: after), '@' ∉ piece) (found : EchDns) :
    EchDns.parse std (['@'].intercalate (url :: (before ++ p :: middle ++ q :: after))) ≠ .ok found := by
  intro read
  have twice : (before ++ p :: middle ++ q :: after).foldlM (assign std) ⟨trim url, none, none⟩ = none :=
    foldlM_twice names names' before middle after
  generalize settings : before ++ p :: middle ++ q :: after = pieces at *
  cases found with
  | https e =>
    rw [parse_eq_https, splitAt_intercalate clean (by simp)] at read
    obtain ⟨first, more, same, -, set_⟩ := read
    cases same
    rw [foldlM_assign_trim, twice] at set_
    cases set_
  | udp a | tcp a =>
    obtain ⟨sign, -⟩ := parse_server read (fun _ no => by cases no)
    cases pieces with
    | nil => simp at settings
    | cons next pieces =>
      simp at sign

end

/-- What was read is read again from how it is written; the settings behind a URL come in either
    order, and neither twice. -/
theorem echDns_written_and_read (std : AddrDisplay) :
    (∀ text e, EchDns.parse std text = .ok e → EchDns.parse std (e.toText std) = .ok e) ∧
      (∀ url p q e, (∀ piece ∈ [url, p, q], '@' ∉ piece) →
        (EchDns.parse std (['@'].intercalate [url, p, q]) = .ok (.https e) ↔
          EchDns.parse std (['@'].intercalate [url, q, p]) = .ok (.https e))) ∧
      ∀ slot url before p middle q after,
        (∀ piece ∈ url :: (before ++ p :: middle ++ q :: after), '@' ∉ piece) →
        Names slot p → Names slot q →
        ∀ e, EchDns.parse std
          (['@'].intercalate (url :: (before ++ p :: middle ++ q :: after))) ≠ .ok e := by
  refine ⟨fun text e read => ?_, fun url p q e clean => ⟨parse_swap clean, parse_swap ?_⟩,
    fun slot url before p middle q after clean names names' => parse_twice names names' clean⟩
  · cases e with
    | https e => exact parse_toText_https read
    | udp a =>
      obtain ⟨-, b, flow, same⟩ := parse_server read (fun _ no => by cases no)
      obtain rfl : a = b := by simpa using same
      exact (parse_toText_server flow).1
    | tcp a =>
      obtain ⟨-, b, flow, same⟩ := parse_server read (fun _ no => by cases no)
      obtain rfl : a = b := by simpa using same
      exact (parse_toText_server flow).2
  · intro piece member
    refine clean piece ?_
    simp only [mem_cons, not_mem_nil, or_false] at member ⊢
    tauto

theorem echDns_written_and_read_fronted :
    let url := "https://dns.example/dns-query".toList
    let pieces := [url, "address=[2001:db8::1]".toList, "sni=front.example".toList]
    let e := EchDns.https ⟨url, some "2001:0db8:0000:0000:0000:0000:0000:0001".toList,
        some "front.example".toList⟩
    EchDns.parse longDisplay (['@'].intercalate pieces) = .ok e ∧
      EchDns.parse longDisplay (e.toText longDisplay) = .ok e ∧
      EchDns.parse longDisplay
          (['@'].intercalate [url, "sni=front.example".toList, "address=[2001:db8::1]".toList]) = .ok e ∧
      EchDns.parse longDisplay (['@'].intercalate (pieces ++ ["sni=dns.example".toList])) ≠ .ok e := by
  intro url pieces e
  obtain ⟨again, order, twice⟩ := echDns_written_and_read longDisplay
  have clean : ∀ piece ∈ pieces, '@' ∉ piece := by decide
  have read : EchDns.parse longDisplay (['@'].intercalate pieces) = .ok e := by decide +kernel
  exact ⟨read, again _ _ read, (order _ _ _ _ clean).mp read,
    twice .sni url ["address=[2001:db8::1]".toList] _ [] _ [] (by decide) ⟨_, rfl⟩ ⟨_, rfl⟩ e⟩

end Gozarbin.Dns
