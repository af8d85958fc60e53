import Mathlib.Algebra.Group.Nat.Defs
import Gozarbin.Net.AddrChars

/-! # Socket addresses with a scope

`SocketAddr` of the standard library as a whole: beside its port an address of IPv6 has
flow information and a scope, and the text of one may name the scope. `parse::<SocketAddr>()`
reads such a text with the readers of addresses.
-/

namespace Gozarbin

inductive SocketAddress where
  | v4 (ip : Ipv4Addr) (port : UInt16)
  | v6 (ip : Ipv6Addr) (port : UInt16) (flowinfo scopeId : UInt32)
  deriving DecidableEq

namespace SocketAddress

def new (ip : IpAddr) (port : UInt16) : SocketAddress :=
  match ip with
  | .v4 address => .v4 address port
  | .v6 address => .v6 address port 0 0

def ip : SocketAddress → IpAddr
  | .v4 ip _ => .v4 ip
  | .v6 ip _ _ _ => .v6 ip

def port : SocketAddress → UInt16
  | .v4 _ port => port
  | .v6 _ port _ _ => port

def plain (a : SocketAddress) : SocketAddr := ⟨a.ip, a.port⟩

def unscoped (a : SocketAddress) : SocketAddress := .new a.ip a.port

@[simp] theorem ip_new (ip : IpAddr) (port : UInt16) : (new ip port).ip = ip := by
  cases ip <;> rfl

@[simp] theorem port_new (ip : IpAddr) (port : UInt16) : (new ip port).port = port := by
  cases ip <;> rfl

def flowinfo : SocketAddress → UInt32
  | .v4 _ _ => 0
  | .v6 _ _ flowinfo _ => flowinfo

@[simp] theorem flowinfo_new (ip : IpAddr) (port : UInt16) : (new ip port).flowinfo = 0 := by
  cases ip <;> rfl

end SocketAddress

namespace AddrText

def readMarked (mark : Char) (bound : Nat) : Reader Nat := fun text => do
  let text ← readGivenChar mark text
  readNumber 10 text.length bound true text

def readPort : Reader UInt16 := fun text =>
  (readMarked ':' 65536 text).map fun (port, rest) => (.ofNat port, rest)

def readScopeId : Reader UInt32 := fun text =>
  (readMarked '%' (2 ^ 32) text).map fun (scope, rest) => (.ofNat scope, rest)

def readSocketAddrV4 : Reader SocketAddress := fun text => do
  let (ip, text) ← readIpv4Addr text
  let (port, text) ← readPort text
  return (.v4 ip port, text)

def readSocketAddrV6 : Reader SocketAddress := fun text => do
  let text ← readGivenChar '[' text
  let (ip, text) ← readIpv6Addr text
  let (scopeId, text) := (readScopeId text).getD (0, text)
  let text ← readGivenChar ']' text
  let (port, text) ← readPort text
  return (.v6 ip port 0 scopeId, text)

def parseSocketAddr (text : Text) : Option SocketAddress :=
  match (readSocketAddrV4 text).or (readSocketAddrV6 text) with
  | some (a, []) => some a
  | _ => none

def parseIpv4Addr (text : Text) : Option Ipv4Addr :=
  match readIpv4Addr text with
  | some (ip, []) => some ip
  | _ => none

def parseIpv6Addr (text : Text) : Option Ipv6Addr :=
  match readIpv6Addr text with
  | some (ip, []) => some ip
  | _ => none

example : parseSocketAddr "[fe80::1%3]:53".toList =
    some (.v6 ⟨0xfe800000000000000000000000000001#128⟩ 53 0 3) := by
  decide

def IsSocketChar (c : Char) : Prop := IsAddrChar c ∨ c = '[' ∨ c = ']' ∨ c = '%'

section
variable {text mid rest : Text} {a : SocketAddress} {n bound : Nat} {mark : Char}

theorem readGivenChar_socket (char : IsSocketChar mark) (read : readGivenChar mark text = some rest) :
    Takes IsSocketChar text rest :=
  ⟨[mark], readGivenChar_eq_some read, by simpa using char⟩

theorem readMarked_socket (char : IsSocketChar mark) (read : readMarked mark bound text = some (n, rest)) :
    Takes IsSocketChar text rest := by
  obtain ⟨mid, first, second⟩ := Option.bind_eq_some_iff.mp read
  exact (readGivenChar_socket char first).trans ((readNumber_chars (.inl rfl) second).mono fun _ => .inl)

theorem readPort_socket {port : UInt16} (read : readPort text = some (port, rest)) :
    Takes IsSocketChar text rest := by
  obtain ⟨⟨n, rest'⟩, marked, same⟩ := Option.map_eq_some_iff.mp read
  cases same
  exact readMarked_socket (.inl (.inr (.inl rfl))) marked

theorem readSocketAddrV4_socket (read : readSocketAddrV4 text = some (a, rest)) :
    Takes IsSocketChar text rest ∧ a.flowinfo = 0 := by
  simp only [readSocketAddrV4, Option.bind_eq_bind, Option.bind_eq_some_iff] at read
  obtain ⟨⟨ip, text₁⟩, first, ⟨port, text₂⟩, second, done⟩ := read
  cases done
  exact ⟨((readIpv4Addr_chars first).mono fun _ => .inl).trans (readPort_socket second), rfl⟩

theorem readScopeId_socket (text : Text) :
    Takes IsSocketChar text ((readScopeId text).getD (0, text)).2 := by
  cases read : readScopeId text with
  | none => exact .refl text
  | some found =>
    obtain ⟨⟨n, rest⟩, marked, rfl⟩ := Option.map_eq_some_iff.mp read
    exact readMarked_socket (.inr (.inr (.inr rfl))) marked

theorem readSocketAddrV6_socket (read : readSocketAddrV6 text = some (a, rest)) :
    Takes IsSocketChar text rest ∧ a.flowinfo = 0 := by
  simp only [readSocketAddrV6, Option.bind_eq_bind, Option.bind_eq_some_iff] at read
  obtain ⟨text₁, first, ⟨ip, text₂⟩, second, text₃, third, ⟨port, text₄⟩, fourth, done⟩ := read
  cases done
  refine ⟨?_, rfl⟩
  exact (readGivenChar_socket (.inr (.inl rfl)) first).trans <|
    ((readIpv6Addr_chars second).mono fun _ => .inl).trans <| (readScopeId_socket text₂).trans <|
    (readGivenChar_socket (.inr (.inr (.inl rfl))) third).trans (readPort_socket fourth)

theorem socket_of_parse (parsed : parseSocketAddr text = some a) :
    (∀ c ∈ text, IsSocketChar c) ∧ a.flowinfo = 0 := by
  unfold parseSocketAddr at parsed
  split at parsed
  next a' read =>
    cases parsed
    rcases Option.or_eq_some_iff.mp read with v4 | ⟨-, v6⟩
    · exact ⟨(readSocketAddrV4_socket v4).1.chars, (readSocketAddrV4_socket v4).2⟩
    · exact ⟨(readSocketAddrV6_socket v6).1.chars, (readSocketAddrV6_socket v6).2⟩
  next => cases parsed

theorem chars_of_parseIpv6Addr {ip : Ipv6Addr} (parsed : parseIpv6Addr text = some ip) :
    ∀ c ∈ text, IsAddrChar c := by
  unfold parseIpv6Addr at parsed
  split at parsed
  next read => exact (readIpv6Addr_chars read).chars
  next => cases parsed

theorem IsSocketChar.ne {c d : Char} (char : IsSocketChar c) (digit : Text.digit? 16 d = none)
    (other : d ∉ [':', '.', '[', ']', '%']) : c ≠ d := by
  simp only [List.mem_cons, List.not_mem_nil, or_false, not_or] at other
  obtain ⟨colon, dot, opening, closing, percent⟩ := other
  rcases char with address | rfl | rfl | rfl
  · exact address.ne digit colon dot
  · exact Ne.symm opening
  · exact Ne.symm closing
  · exact Ne.symm percent

theorem IsSocketChar.not_blank {c : Char} (char : IsSocketChar c) : Text.isWhitespace c = false := by
  rcases char with address | rfl | rfl | rfl
  · exact address.not_blank
  all_goals decide

end

end AddrText

end Gozarbin
