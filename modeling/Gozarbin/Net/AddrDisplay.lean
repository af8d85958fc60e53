import Gozarbin.Net.SocketAddress

/-! # Writing an address

What is known of the text the standard library writes for an address is that it is read as
that address again. The long form is such a text: an IPv4 address as four numbers, and an
IPv6 address as eight groups of four digits, with nothing left out.
-/

namespace Gozarbin.AddrText

open List Text

/-- `Display` of addresses. Flow information is not written. -/
structure AddrDisplay where
  ip : IpAddr → Text
  socket : SocketAddress → Text
  parse_ip (a : IpAddr) : parseIpAddr (ip a) = some a
  parse_socket (a : SocketAddress) (unlabelled : a.flowinfo = 0) : parseSocketAddr (socket a) = some a

section
variable {radix maxDigits bound count value n : Nat} {zeros : Bool} {digits text rest : Text} {c : Char}

def Stops (radix : Nat) (rest : Text) : Prop := ∀ d ∈ rest.head?, digit? radix d = none

theorem stops_nil (radix : Nat) : Stops radix [] := nofun

theorem stops_cons (none_ : digit? radix c = none) : Stops radix (c :: rest) := by
  intro d first
  cases first
  exact none_

theorem readDigits_numeral (all : ∀ d ∈ digits, (digit? radix d).isSome)
    (few : count + digits.length ≤ maxDigits)
    (stops : Stops radix rest) :
    readDigits radix maxDigits count value (digits ++ rest) =
      some (count + digits.length, numberFrom radix value digits, rest) := by
  induction digits generalizing count value with
  | nil =>
    cases rest with
    | nil => rfl
    | cons c rest =>
      have none_ := stops c rfl
      simp [readDigits, none_, numberFrom]
  | cons c digits ih =>
    obtain ⟨here, later⟩ := forall_mem_cons.mp all
    obtain ⟨d, digit⟩ := Option.isSome_iff_exists.mp here
    rw [length_cons] at few
    rw [cons_append, readDigits, digit]
    dsimp only
    rw [if_neg (by omega), ih later (by omega)]
    simp [numberFrom, digit, Nat.add_assoc, Nat.add_comm 1]

theorem readNumber_numeral (numeral : Numeral radix digits) (few : digits.length ≤ maxDigits)
    (small : numberFrom radix 0 digits < bound) (stops : Stops radix rest)
    (zero : zeros = true ∨ (digits.head? = some '0' → digits.length ≤ 1)) :
    readNumber radix maxDigits bound zeros (digits ++ rest) = some (numberFrom radix 0 digits, rest) := by
  have read : readDigits radix maxDigits 0 0 (digits ++ rest) = _ :=
    readDigits_numeral numeral.digits (by omega) stops
  have head : (digits ++ rest).head? = digits.head? := List.head?_append_of_ne_nil _ numeral.some_
  have some_ : 0 + digits.length ≠ 0 := by simpa using numeral.some_
  have plain : ¬ (!zeros && decide (digits.head? = some '0') && decide (0 + digits.length > 1)) = true := by
    rcases zero with rfl | short
    · simp
    · simp only [Bool.and_eq_true, decide_eq_true_eq, not_and]
      intro leading
      have := short leading.2
      omega
  rw [readNumber, read]
  dsimp only [Option.bind_eq_bind, Option.bind_some]
  rw [if_neg some_, head, if_neg plain, if_pos small]

theorem readNumber_few (read : readNumber radix maxDigits bound zeros text = some (n, rest)) :
    ∃ taken, text = taken ++ rest ∧ taken.length ≤ maxDigits := by
  have most : ∀ {text count value count' value'}, count ≤ maxDigits →
      readDigits radix maxDigits count value text = some (count', value', rest) → count' ≤ maxDigits := by
    intro text
    induction text with
    | nil =>
      intro count value count' value' few read
      cases read
      exact few
    | cons c text ih =>
      intro count value count' value' few read
      rw [readDigits] at read
      split at read
      next d _ =>
        rw [Option.ite_none_left_eq_some] at read
        exact ih (by omega) read.2
      next =>
        cases read
        exact few
  simp only [readNumber, Option.bind_eq_bind, Option.bind_eq_some_iff] at read
  obtain ⟨⟨count, value, rest'⟩, digits, accepted⟩ := read
  split_ifs at accepted
  cases accepted
  obtain ⟨taken, rfl, length, -⟩ := readDigits_takes digits
  have few := most (Nat.zero_le _) digits
  exact ⟨taken, rfl, by omega⟩

theorem length_decimal (small : n < 1000) : (decimal n).length ≤ 3 := by
  rcases Nat.lt_or_ge n 10 with one | large
  · simp [decimal_of_lt one]
  · rw [decimal_of_le large, length_append, length_singleton]
    rcases Nat.lt_or_ge (n / 10) 10 with one | large'
    · simp [decimal_of_lt one]
    · rw [decimal_of_le large', decimal_of_lt (by omega)]
      simp

theorem readNumber_octet (small : n < 256) (stops : Stops 10 rest) :
    readNumber 10 3 256 false (decimal n ++ rest) = some (n, rest) := by
  have number := numberFrom_decimal n
  refine (readNumber_numeral (numeral_decimal n) (length_decimal (by omega)) (by rwa [number]) stops
    (.inr length_of_head?_decimal)).trans ?_
  rw [number]

def dotted (a : Ipv4Addr) : Text :=
  decimal (a.octet 0) ++
    '.' :: (decimal (a.octet 1) ++ '.' :: (decimal (a.octet 2) ++ '.' :: decimal (a.octet 3)))

theorem new_octets (a : Ipv4Addr) : Ipv4Addr.new (a.octet 0) (a.octet 1) (a.octet 2) (a.octet 3) = a := by
  obtain ⟨bits⟩ := a
  simp only [Ipv4Addr.new, Ipv4Addr.octet, Ipv4Addr.mk.injEq]
  apply BitVec.eq_of_toNat_eq
  simp only [BitVec.toNat_append, BitVec.natCast_eq_ofNat, BitVec.toNat_ofNat]
  rw [← Nat.shiftLeft_add_eq_or_of_lt (by omega), ← Nat.shiftLeft_add_eq_or_of_lt (by omega),
    ← Nat.shiftLeft_add_eq_or_of_lt (by omega)]
  omega

theorem readIpv4Addr_dotted (a : Ipv4Addr) (stops : Stops 10 rest) :
    readIpv4Addr (dotted a ++ rest) = some (a, rest) := by
  have small (i : Nat) : a.octet i < 256 := Nat.mod_lt _ (by decide)
  have dot (more : Text) : Stops 10 ('.' :: more) := stops_cons (by decide)
  have later (i : Nat) (more : Text) : readOctet (i + 1) ('.' :: more) =
      readNumber 10 3 256 false more := rfl
  have first (more : Text) : readOctet 0 more = readNumber 10 3 256 false more := rfl
  have text : dotted a ++ rest = decimal (a.octet 0) ++ '.' :: (decimal (a.octet 1) ++ '.' ::
      (decimal (a.octet 2) ++ '.' :: (decimal (a.octet 3) ++ rest))) := by
    simp [dotted]
  simp only [readIpv4Addr, text, first, readNumber_octet (small 0) (dot _), Option.bind_eq_bind,
    Option.bind_some, later, readNumber_octet (small 1) (dot _),
    readNumber_octet (small 2) (dot _), readNumber_octet (small 3) stops]
  rw [new_octets]
  rfl

def hexGroup (n : Nat) : Text :=
  [Nat.digitChar (n / 4096 % 16), Nat.digitChar (n / 256 % 16), Nat.digitChar (n / 16 % 16),
    Nat.digitChar (n % 16)]

theorem digit?_hexChar : ∀ d < 16, digit? 16 (Nat.digitChar d) = some d := by decide

theorem digit?_mod (n : Nat) : digit? 16 (Nat.digitChar (n % 16)) = some (n % 16) :=
  digit?_hexChar _ (Nat.mod_lt _ (by decide))

theorem numeral_hexGroup (n : Nat) : Numeral 16 (hexGroup n) where
  digits := by simp [hexGroup, digit?_mod]
  some_ := by simp [hexGroup]

theorem readNumber_hexGroup (small : n < 65536) (stops : Stops 16 rest) :
    readNumber 16 4 65536 true (hexGroup n ++ rest) = some (n, rest) := by
  have number : numberFrom 16 0 (hexGroup n) = n := by
    simp only [numberFrom, hexGroup, foldl_cons, foldl_nil, digit?_mod, Option.getD_some]
    omega
  refine (readNumber_numeral (numeral_hexGroup n) (Nat.le_refl 4)
    (by rwa [number]) stops (.inl rfl)).trans ?_
  rw [number]

theorem readIpv4Addr_hexGroup (n : Nat) (rest : Text) : readIpv4Addr (hexGroup n ++ rest) = none := by
  rw [Option.eq_none_iff_forall_ne_some]
  rintro ⟨a, rest'⟩ read
  simp only [readIpv4Addr, Option.bind_eq_bind, Option.bind_eq_some_iff] at read
  obtain ⟨⟨first, text⟩, number, ⟨second, text'⟩, octet, -⟩ := read
  obtain ⟨taken, split, few⟩ := readNumber_few (number : readNumber 10 3 256 false _ = _)
  obtain ⟨mid, dot, -⟩ := Option.bind_eq_some_iff.mp (octet : (readGivenChar '.' text).bind _ = _)
  obtain rfl := readGivenChar_eq_some dot
  have inside : '.' ∈ hexGroup n := by
    have group : (hexGroup n ++ rest).take (hexGroup n).length = hexGroup n := take_left
    rw [← group, split, take_append]
    have left : (hexGroup n).length - taken.length = (3 - taken.length) + 1 := by
      change 4 - taken.length = _
      omega
    rw [left]
    simp
  exact (numeral_hexGroup n).not_mem (by decide) inside

def writeGroups : (i : Nat) → List Nat → Text
  | _, [] => []
  | i, g :: groups => (if i > 0 then [':'] else []) ++ (hexGroup g ++ writeGroups (i + 1) groups)

theorem readSeparator_written {α : Type} (inner : Reader α) (i : Nat) (text : Text) :
    readSeparator ':' i inner ((if i > 0 then [':'] else []) ++ text) = inner text := by
  rw [readSeparator]
  split <;> rfl

theorem readGroups_written {groups : List Nat} (i : Nat) (small : ∀ g ∈ groups, g < 65536)
    (stops : Stops 16 rest) :
    readGroups i groups.length (writeGroups i groups ++ rest) = (groups, false, rest) := by
  induction groups generalizing i with
  | nil => rfl
  | cons g groups ih =>
    obtain ⟨here, later⟩ := forall_mem_cons.mp small
    have behind : Stops 16 (writeGroups (i + 1) groups ++ rest) := by
      cases groups with
      | nil => exact stops
      | cons next groups => exact stops_cons (by decide)
    rw [writeGroups, append_assoc, append_assoc, length_cons, readGroups,
      readSeparator_written, readSeparator_written, readIpv4Addr_hexGroup, ite_self,
      readNumber_hexGroup here behind]
    dsimp only
    rw [ih (i + 1) later]

def groupsOf : (count n : Nat) → List Nat
  | 0, _ => []
  | count + 1, n => groupsOf count (n / 65536) ++ [n % 65536]

theorem length_groupsOf (count n : Nat) : (groupsOf count n).length = count := by
  induction count generalizing n with
  | zero => rfl
  | succ count ih => simp [groupsOf, ih]

theorem groupsOf_lt (count n : Nat) : ∀ g ∈ groupsOf count n, g < 65536 := by
  induction count generalizing n with
  | zero => simp [groupsOf]
  | succ count ih =>
    intro g member
    rcases mem_append.mp member with front | last
    · exact ih _ g front
    · rw [mem_singleton.mp last]
      exact Nat.mod_lt _ (by decide)

theorem foldl_groupsOf (count n : Nat) :
    (groupsOf count n).foldl (fun value group => value * 65536 + group) 0 = n % 65536 ^ count := by
  induction count generalizing n with
  | zero => simp [groupsOf, Nat.mod_one]
  | succ count ih =>
    rw [groupsOf, foldl_append, ih, foldl_cons, foldl_nil, Nat.pow_succ,
      Nat.mul_comm (65536 ^ count), Nat.mod_mul]
    omega

def longForm (a : Ipv6Addr) : Text := writeGroups 0 (groupsOf 8 a.bits.toNat)

theorem readIpv4Addr_longForm (a : Ipv6Addr) (rest : Text) : readIpv4Addr (longForm a ++ rest) = none := by
  obtain ⟨g, groups, digits⟩ := exists_cons_of_length_eq_add_one (length_groupsOf 8 a.bits.toNat)
  rw [longForm, digits, writeGroups, append_assoc, append_assoc]
  exact readIpv4Addr_hexGroup g _

theorem readIpv6Addr_longForm (a : Ipv6Addr) (stops : Stops 16 rest) :
    readIpv6Addr (longForm a ++ rest) = some (a, rest) := by
  have read := readGroups_written 0 (groupsOf_lt 8 a.bits.toNat) stops
  rw [length_groupsOf] at read
  have whole : ofGroups (groupsOf 8 a.bits.toNat) = a := by
    rw [ofGroups, foldl_groupsOf]
    obtain ⟨bits⟩ := a
    have bound := bits.isLt
    congr
    apply BitVec.eq_of_toNat_eq
    have pow : 65536 ^ 8 = 2 ^ 128 := by decide
    rw [BitVec.toNat_ofNat, pow, Nat.mod_mod]
    exact Nat.mod_eq_of_lt bound
  rw [readIpv6Addr, longForm, read]
  dsimp only
  rw [if_pos (length_groupsOf ..), whole]

theorem readMarked_decimal (mark : Char) (small : n < bound) (stops : Stops 10 rest) :
    readMarked mark bound (mark :: (decimal n ++ rest)) = some (n, rest) := by
  have number := numberFrom_decimal n
  have given : readGivenChar mark (mark :: (decimal n ++ rest)) = some (decimal n ++ rest) := if_pos rfl
  have fits : (decimal n).length ≤ (decimal n ++ rest).length := by simp
  rw [readMarked, given]
  refine (readNumber_numeral (numeral_decimal n) fits (by rwa [number]) stops (.inl rfl)).trans ?_
  rw [number]

theorem readPort_decimal (port : UInt16) : readPort (':' :: decimal port.toNat) = some (port, []) := by
  have read := readMarked_decimal ':' port.toNat_lt (stops_nil 10)
  rw [append_nil] at read
  rw [readPort, read]
  simp

def writeScope (scopeId : UInt32) : Text :=
  if scopeId = 0 then [] else '%' :: decimal scopeId.toNat

theorem readScopeId_written (scopeId : UInt32) (rest : Text) :
    (readScopeId (writeScope scopeId ++ ']' :: rest)).getD (0, writeScope scopeId ++ ']' :: rest) =
      (scopeId, ']' :: rest) := by
  rw [writeScope]
  split_ifs with none_
  · subst none_
    rfl
  · have stops : Stops 10 (']' :: rest) := stops_cons (by decide)
    rw [cons_append, readScopeId, readMarked_decimal '%' scopeId.toNat_lt stops]
    simp

def writeIp : IpAddr → Text
  | .v4 a => dotted a
  | .v6 a => longForm a

def writeSocket : SocketAddress → Text
  | .v4 ip port => dotted ip ++ ':' :: decimal port.toNat
  | .v6 ip port _ scopeId =>
    '[' :: (longForm ip ++ (writeScope scopeId ++ ']' :: ':' :: decimal port.toNat))

theorem parseIpAddr_written (a : IpAddr) : parseIpAddr (writeIp a) = some a := by
  cases a with
  | v4 a =>
    have read := readIpv4Addr_dotted a (stops_nil 10)
    rw [append_nil] at read
    rw [writeIp, parseIpAddr, readIpAddr, read]
  | v6 a =>
    have other := readIpv4Addr_longForm a []
    have read := readIpv6Addr_longForm a (stops_nil 16)
    rw [append_nil] at other read
    rw [writeIp, parseIpAddr, readIpAddr, other, read]
    rfl

theorem parseSocketAddr_written (a : SocketAddress) (unlabelled : a.flowinfo = 0) :
    parseSocketAddr (writeSocket a) = some a := by
  cases a with
  | v4 ip port =>
    have read : readSocketAddrV4 (writeSocket (.v4 ip port)) = some (.v4 ip port, []) := by
      have address : readIpv4Addr (dotted ip ++ ':' :: decimal port.toNat) = _ :=
        readIpv4Addr_dotted ip (stops_cons (by decide))
      rw [writeSocket, readSocketAddrV4, address]
      dsimp only [Option.bind_eq_bind, Option.bind_some]
      rw [readPort_decimal]
      rfl
    rw [parseSocketAddr, read]
    rfl
  | v6 ip port flowinfo scopeId =>
    obtain rfl : flowinfo = 0 := unlabelled
    have other : readSocketAddrV4 (writeSocket (.v6 ip port 0 scopeId)) = none := by
      rfl
    have read : readSocketAddrV6 (writeSocket (.v6 ip port 0 scopeId)) =
        some (.v6 ip port 0 scopeId, []) := by
      have stops : Stops 16 (writeScope scopeId ++ ']' :: ':' :: decimal port.toNat) := by
        rw [writeScope]
        split
        · exact stops_cons (by decide)
        · exact stops_cons (by decide)
      have given (c : Char) (text : Text) : readGivenChar c (c :: text) = some text := if_pos rfl
      rw [writeSocket, readSocketAddrV6, given]
      dsimp only [Option.bind_eq_bind, Option.bind_some]
      rw [readIpv6Addr_longForm ip stops]
      dsimp only [Option.bind_some]
      rw [readScopeId_written]
      rw [given]
      dsimp only [Option.bind_some]
      rw [readPort_decimal]
      rfl
    rw [parseSocketAddr, other, read]
    rfl

def longDisplay : AddrDisplay where
  ip := writeIp
  socket := writeSocket
  parse_ip := parseIpAddr_written
  parse_socket := parseSocketAddr_written

end

end Gozarbin.AddrText
