import Mathlib.Data.List.Basic

/-! # Internet addresses

The address types of the standard library, as the numbers they are. An octet or
a segment is a field of that number, counted from the most significant end.
-/

namespace Gozarbin

abbrev Bytes := List UInt8

structure Ipv4Addr where
  bits : BitVec 32
  deriving DecidableEq

structure Ipv6Addr where
  bits : BitVec 128
  deriving DecidableEq

inductive IpAddr where
  | v4 (address : Ipv4Addr)
  | v6 (address : Ipv6Addr)
  deriving DecidableEq

structure SocketAddr where
  ip : IpAddr
  port : UInt16
  deriving DecidableEq

namespace Ipv4Addr

def new (a b c d : BitVec 8) : Ipv4Addr := ⟨a ++ b ++ c ++ d⟩

def octet (a : Ipv4Addr) (i : Nat) : Nat := (a.bits.toNat >>> (24 - 8 * i)) % 256

def localhost : Ipv4Addr := new 127 0 0 1

def isLoopback (a : Ipv4Addr) : Bool := a.octet 0 == 127

def isUnspecified (a : Ipv4Addr) : Bool := a.bits == 0

def isPrivate (a : Ipv4Addr) : Bool :=
  a.octet 0 == 10 || (a.octet 0 == 172 && 16 ≤ a.octet 1 && a.octet 1 ≤ 31) ||
    (a.octet 0 == 192 && a.octet 1 == 168)

def isLinkLocal (a : Ipv4Addr) : Bool := a.octet 0 == 169 && a.octet 1 == 254

def isBroadcast (a : Ipv4Addr) : Bool := a.bits == BitVec.allOnes 32

def isDocumentation (a : Ipv4Addr) : Bool :=
  (a.octet 0 == 192 && a.octet 1 == 0 && a.octet 2 == 2) ||
    (a.octet 0 == 198 && a.octet 1 == 51 && a.octet 2 == 100) ||
    (a.octet 0 == 203 && a.octet 1 == 0 && a.octet 2 == 113)

end Ipv4Addr

namespace Ipv6Addr

def segment (a : Ipv6Addr) (i : Nat) : Nat := (a.bits.toNat >>> (112 - 16 * i)) % 65536

def localhost : Ipv6Addr := ⟨1⟩

def isLoopback (a : Ipv6Addr) : Bool := a.bits == 1

def isUnspecified (a : Ipv6Addr) : Bool := a.bits == 0

def toIpv4Mapped (a : Ipv6Addr) : Option Ipv4Addr :=
  if a.bits >>> 32 = 0xffff#128 then some ⟨a.bits.truncate 32⟩ else none

end Ipv6Addr

namespace IpAddr

def isIpv4 : IpAddr → Bool
  | .v4 _ => true
  | .v6 _ => false

def isLoopback : IpAddr → Bool
  | .v4 a => a.isLoopback
  | .v6 a => a.isLoopback

def isUnspecified : IpAddr → Bool
  | .v4 a => a.isUnspecified
  | .v6 a => a.isUnspecified

end IpAddr

def isPrivate : IpAddr → Bool
  | .v4 a =>
    a.isPrivate || a.isLoopback || a.isLinkLocal || a.isBroadcast || a.isDocumentation ||
      a.isUnspecified || (a.octet 0 == 100 && 64 ≤ a.octet 1 && a.octet 1 < 128)
  | .v6 a =>
    a.isLoopback || a.isUnspecified || a.segment 0 &&& 0xfe00 == 0xfc00 ||
      a.segment 0 &&& 0xffc0 == 0xfe80

theorem isPrivate_of_isLoopback {ip : IpAddr} (loopback : ip.isLoopback = true) :
    isPrivate ip = true := by
  cases ip with
  | v4 a => simp_all [isPrivate, IpAddr.isLoopback]
  | v6 a => simp_all [isPrivate, IpAddr.isLoopback]

end Gozarbin
