import Gozarbin.Dns.Ech
import Gozarbin.Lib.Utf8Valid
import Gozarbin.Net.AddrDisplay

/-! # The resolver setting

Where the key for an encrypted hello is asked for is one text: a `udp://` or `tcp://` address,
or an `https://` URL that may be followed by `@address=` and `@sni=`. `EchDns::parse` reads it
and `Display` writes it.
-/

namespace Gozarbin.Dns

open List Text AddrText

def takeBytes : (n : Nat) → Text → Option (Text × Text)
  | 0, rest => some ([], rest)
  | _ + 1, [] => none
  | n + 1, c :: rest =>
    if c.utf8Size ≤ n + 1 then
      (takeBytes (n + 1 - c.utf8Size) rest).map fun (head, rest) => (c :: head, rest)
    else none

def stripScheme (value scheme : Text) : Option Text :=
  match takeBytes (byteLength scheme) value with
  | none => none
  | some (head, rest) => if eqIgnoreAsciiCase head scheme then some rest else none

def https : Text := "https://".toList
def udp : Text := "udp://".toList
def tcp : Text := "tcp://".toList

def socketAddress (text : Text) (defaultPort : UInt16) : Option SocketAddress :=
  match parseSocketAddr text with
  | some address => some address
  | none =>
    match parseIpAddr text with
    | some ip => some (.new ip defaultPort)
    | none => do
        let inner ← stripEnd [']'] (← strip ['['] text)
        let ip ← parseIpv6Addr inner
        return .new (.v6 ip) defaultPort

def bare (value : Text) : Text := ((strip ['['] value).bind (stripEnd [']'])).getD value

def hostAddress (std : AddrDisplay) (value : Text) : Option Text :=
  match parseIpAddr (bare value) with
  | some ip => some (std.ip ip)
  | none => if validDomain value then some value else none

/-- A DNS-over-HTTPS endpoint. -/
structure DohEndpoint where
  url : Text
  address : Option Text
  sni : Option Text
  deriving DecidableEq

inductive EchDns where
  | udp (address : SocketAddress)
  | tcp (address : SocketAddress)
  | https (endpoint : DohEndpoint)
  deriving DecidableEq

/-- What can be set behind the URL. -/
inductive Slot where
  | address
  | sni
  deriving DecidableEq

def DohEndpoint.get (e : DohEndpoint) : Slot → Option Text
  | .address => e.address
  | .sni => e.sni

def DohEndpoint.set (e : DohEndpoint) : Slot → Text → DohEndpoint
  | .address, value => { e with address := some value }
  | .sni, value => { e with sni := some value }

def slotOf (name : Text) : Option Slot :=
  if name.map Char.toLower = "address".toList then some .address
  else if name.map Char.toLower = "sni".toList then some .sni
  else none

def Slot.check (std : AddrDisplay) : Slot → (setting : Text) → Except Text Text
  | .address, setting =>
    match hostAddress std setting with
    | some value => .ok value
    | none => .error ("@address=".toList ++ setting ++
        " is no IP address or domain name; the port is the URL's".toList)
  | .sni, setting =>
    if (parseIpAddr (bare setting)).isNone && validDomain setting then .ok setting
    else .error ("@sni=".toList ++ setting ++ " is no domain name".toList)

def neither (piece value : Text) : Text :=
  '@' :: piece ++ " in ".toList ++ value ++ " is neither @address= nor @sni=".toList

def readSettings (std : AddrDisplay) (value : Text) : DohEndpoint → List Text → Except Text DohEndpoint
  | endpoint, [] => .ok endpoint
  | endpoint, piece :: pieces =>
    match splitOnce ['='] piece with
    | none => .error (neither piece value)
    | some (name, setting) =>
      match slotOf (trim name) with
      | none => .error (neither piece value)
      | some slot =>
        let checked := slot.check std (trim setting)
        if (endpoint.get slot).isSome then
          .error (value ++ " names @".toList ++ trim name ++ " twice".toList)
        else
          match checked with
          | .error why => .error why
          | .ok setting => readSettings std value (endpoint.set slot setting) pieces

def hostOf (url : Text) : Text :=
  ((stripScheme url https).map fun rest => rest.takeWhile fun c => c ≠ '/' ∧ c ≠ '?' ∧ c ≠ '#').getD []

def DohEndpoint.parse (std : AddrDisplay) (value : Text) : Except Text DohEndpoint :=
  let pieces := splitAt '@' value
  let url := trim (pieces.headD [])
  if (hostOf url).isEmpty then .error (value ++ " names no host".toList)
  else readSettings std value ⟨url, none, none⟩ pieces.tail

def serverAddress (value rest : Text) (wrap : SocketAddress → EchDns) : Except Text EchDns :=
  match socketAddress (trimEndMatches '/' rest) 53 with
  | some address => .ok (wrap address)
  | none => .error (value ++ " names no IP address".toList)

def EchDns.parse (std : AddrDisplay) (value : Text) : Except Text EchDns :=
  let value := trim value
  if (stripScheme value Dns.https).isSome then (DohEndpoint.parse std value).map .https
  else
    match stripScheme value Dns.udp with
    | some rest => serverAddress value rest .udp
    | none =>
      match stripScheme value Dns.tcp with
      | some rest => serverAddress value rest .tcp
      | none => .error (value ++ " is no udp://, tcp:// or https:// address".toList)

def EchDns.toText (std : AddrDisplay) : EchDns → Text
  | .udp a => Dns.udp ++ std.socket a
  | .tcp a => Dns.tcp ++ std.socket a
  | .https e =>
    e.url ++ (e.address.map ("@address=".toList ++ ·)).getD [] ++
      (e.sni.map ("@sni=".toList ++ ·)).getD []

section
variable {std : AddrDisplay} {text value scheme rest : Text}

theorem utf8Size_toLower (c : Char) : c.toLower.utf8Size = c.utf8Size := by
  unfold Char.toLower
  split
  next upper =>
    have small : c.val ≤ 127 := UInt32.le_trans upper.2 (by decide)
    have small' : c.val + 32 ≤ 127 := by
      have bound := UInt32.le_iff_toNat_le.mp upper.2
      rw [UInt32.le_iff_toNat_le, UInt32.toNat_add]
      simp at bound ⊢
      omega
    rw [Char.utf8Size_eq_one_iff.mpr small, Char.utf8Size_eq_one_iff]
    exact small'
  next => rfl

theorem byteLength_of_eqIgnoreAsciiCase {a b : Text} (same : eqIgnoreAsciiCase a b = true) :
    byteLength a = byteLength b := by
  have lower (t : Text) : byteLength (t.map Char.toLower) = byteLength t := by
    induction t with
    | nil => rfl
    | cons c t ih => simpa [byteLength, utf8Size_toLower] using ih
  rw [← lower a, ← lower b, beq_iff_eq.mp same]

theorem takeBytes_append (head rest : Text) :
    takeBytes (byteLength head) (head ++ rest) = some (head, rest) := by
  induction head with
  | nil => simp [byteLength, takeBytes]
  | cons c head ih =>
    have pos := c.utf8Size_pos
    have length : byteLength (c :: head) = c.utf8Size + byteLength head := rfl
    obtain ⟨n, sum⟩ := Nat.exists_eq_add_one_of_ne_zero (by omega : c.utf8Size + byteLength head ≠ 0)
    rw [length, sum, cons_append, takeBytes, ← sum, if_pos (Nat.le_add_right ..),
      Nat.add_sub_cancel_left, ih]
    rfl

theorem eq_of_takeBytes {n : Nat} {head : Text} (taken : takeBytes n text = some (head, rest)) :
    text = head ++ rest := by
  induction text generalizing n head with
  | nil =>
    cases n with
    | zero =>
      cases taken
      rfl
    | succ n => cases taken
  | cons c text ih =>
    cases n with
    | zero =>
      cases taken
      rfl
    | succ n =>
      rw [takeBytes, Option.ite_none_right_eq_some] at taken
      obtain ⟨⟨head', rest'⟩, more, same⟩ := Option.map_eq_some_iff.mp taken.2
      cases same
      rw [ih more]
      rfl

theorem stripScheme_eq_some : stripScheme value scheme = some rest ↔
    ∃ head, value = head ++ rest ∧ eqIgnoreAsciiCase head scheme = true := by
  constructor
  · intro stripped
    unfold stripScheme at stripped
    split at stripped
    next => cases stripped
    next head rest' taken =>
      rw [Option.ite_none_right_eq_some, Option.some.injEq] at stripped
      obtain ⟨same, rfl⟩ := stripped
      exact ⟨head, eq_of_takeBytes taken, same⟩
  · rintro ⟨head, rfl, same⟩
    rw [stripScheme, ← byteLength_of_eqIgnoreAsciiCase same, takeBytes_append]
    exact if_pos same

def naming (piece : Text) : Option (Slot × Text) :=
  (splitOnce ['='] piece).bind fun (name, setting) =>
    (slotOf (trim name)).map fun slot => (slot, trim setting)

def assign (std : AddrDisplay) (e : DohEndpoint) (piece : Text) : Option DohEndpoint :=
  (naming piece).bind fun (slot, setting) =>
    if (e.get slot).isSome then none else (slot.check std setting).toOption.map (e.set slot)

theorem readSettings_eq_ok {e e' : DohEndpoint} {pieces : List Text} :
    readSettings std value e pieces = .ok e' ↔ pieces.foldlM (assign std) e = some e' := by
  induction pieces generalizing e with
  | nil => simp [readSettings]
  | cons piece pieces ih =>
    rw [readSettings, foldlM_cons, assign, naming]
    cases splitOnce ['='] piece with
    | none => simp
    | some pair =>
      obtain ⟨name, setting⟩ := pair
      dsimp only [Option.bind_some]
      cases slotOf (trim name) with
      | none => simp
      | some slot =>
        dsimp only [Option.map_some, Option.bind_some]
        split
        · simp
        · cases slot.check std (trim setting) with
          | error why => simp [Except.toOption]
          | ok v => simpa [Except.toOption] using ih

theorem naming_trim (piece : Text) : naming (trim piece) = naming piece := by
  obtain ⟨front, back, same, blank, blank', -⟩ := trim_spec piece
  have clean : ∀ {part : Text}, Blank part → '=' ∉ part := fun blank member =>
    absurd (blank '=' member) (by decide)
  by_cases sign : '=' ∈ trim piece
  · obtain ⟨name, setting, split, first⟩ := eq_append_cons_of_mem sign
    have whole : piece = (front ++ name) ++ '=' :: (setting ++ back) := by
      rw [split] at same
      simpa using same
    have first' : '=' ∉ front ++ name := by simp [clean blank, first]
    rw [split]
    conv_rhs => rw [whole]
    rw [naming, naming, splitOnce_append first, splitOnce_append first']
    dsimp only [Option.bind_some]
    rw [trim_blank_append blank, trim_append_blank blank']
  · have sign' : '=' ∉ piece := by
      rw [same]
      simp [clean blank, sign, clean blank']
    rw [naming, naming, splitOnce_of_not_mem sign, splitOnce_of_not_mem sign']

theorem foldlM_assign_trim (e : DohEndpoint) (pieces : List Text) :
    (pieces.map trim).foldlM (assign std) e = pieces.foldlM (assign std) e := by
  induction pieces generalizing e with
  | nil => rfl
  | cons piece pieces ih =>
    simp only [map_cons, foldlM_cons, assign, naming_trim, ih]

def Describes (std : AddrDisplay) (pieces : List Text) (e : DohEndpoint) : Prop :=
  ∃ url settings, pieces = url :: settings ∧ hostOf url ≠ [] ∧
    settings.foldlM (assign std) ⟨url, none, none⟩ = some e

theorem DohEndpoint.parse_eq_ok {e : DohEndpoint} :
    DohEndpoint.parse std value = .ok e ↔ Describes std ((splitAt '@' value).map trim) e := by
  obtain ⟨first, pieces, split⟩ := exists_cons_of_ne_nil (splitAt_ne_nil '@' value)
  have described : Describes std ((splitAt '@' value).map trim) e ↔
      hostOf (trim first) ≠ [] ∧
        (pieces.map trim).foldlM (assign std) ⟨trim first, none, none⟩ = some e := by
    rw [split, Describes]
    constructor
    · rintro ⟨url, settings, same, host⟩
      cases same
      exact host
    · exact fun host => ⟨_, _, rfl, host⟩
  rw [described, foldlM_assign_trim, ← @readSettings_eq_ok std value, DohEndpoint.parse, split]
  by_cases host : hostOf (trim first) = []
  · simp [host]
  · simp [host]

theorem prefix_of_splitAt {first : Text} {pieces : List Text} (trimmed : Trimmed text)
    (split : splitAt '@' text = first :: pieces) : trim first <+: text := by
  obtain ⟨front, back, same, blank, -⟩ := trim_spec first
  have starts : first <+: text := by
    rw [← intercalate_splitAt '@' text, split]
    cases pieces with
    | nil => simp
    | cons next pieces =>
      exact prefix_append ..
  cases front with
  | nil => exact List.IsPrefix.trans ⟨back, same.symm⟩ starts
  | cons c front =>
    obtain ⟨more, rfl⟩ := starts
    have visible := trimmed.first c (by rw [same]; rfl)
    rw [blank c (mem_cons_self ..)] at visible
    cases visible

theorem strip_of_hostOf {url : Text} (host : hostOf url ≠ []) : (stripScheme url https).isSome := by
  rw [hostOf] at host
  cases stripped : stripScheme url https with
  | none => simp [stripped] at host
  | some rest => rfl

theorem stripScheme_of_start {url : Text} (starts : url <+: text)
    (stripped : (stripScheme url scheme).isSome) :
    (stripScheme text scheme).isSome := by
  obtain ⟨more, rfl⟩ := starts
  obtain ⟨rest, stripped⟩ := Option.isSome_iff_exists.mp stripped
  obtain ⟨head, rfl, same⟩ := stripScheme_eq_some.mp stripped
  rw [stripScheme_eq_some.mpr ⟨head, append_assoc .., same⟩]
  rfl

theorem serverAddress_ne_https {e : DohEndpoint} {wrap : SocketAddress → EchDns}
    (plain : ∀ a, wrap a ≠ .https e) :
    serverAddress value rest wrap ≠ .ok (.https e) := by
  intro read
  unfold serverAddress at read
  split at read
  next a _ => exact plain a (Except.ok.inj read)
  next => cases read

theorem parse_eq_https {e : DohEndpoint} :
    EchDns.parse std value = .ok (.https e) ↔ Describes std ((splitAt '@' value).map trim) e := by
  rw [← map_trim_splitAt_trim (by decide), EchDns.parse]
  split
  next =>
    rw [← DohEndpoint.parse_eq_ok]
    cases DohEndpoint.parse std (trim value) <;> simp [Except.map]
  next other =>
    refine iff_of_false (fun read => ?_) (fun describes => ?_)
    · split at read
      · exact serverAddress_ne_https (fun _ no => by cases no) read
      · split at read
        · exact serverAddress_ne_https (fun _ no => by cases no) read
        · cases read
    · obtain ⟨first, pieces, split⟩ := exists_cons_of_ne_nil (splitAt_ne_nil '@' (trim value))
      rw [split] at describes
      obtain ⟨url, settings, same, host, -⟩ := describes
      cases same
      exact other (stripScheme_of_start (prefix_of_splitAt (trimmed_trim value) split)
        (strip_of_hostOf host))

end

end Gozarbin.Dns
