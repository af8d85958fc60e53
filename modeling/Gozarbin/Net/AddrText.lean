import Gozarbin.Lib.Numerals
import Gozarbin.Net.Addr

/-! # Reading an address from text

`parse::<IpAddr>()` of the standard library. A reader takes what it reads off the
front of the text; one that fails takes nothing. The source works on bytes, and no
byte of a character beyond ASCII is ever accepted, so reading characters is the
same.
-/

namespace Gozarbin.AddrText

abbrev Reader (α : Type) := Text → Option (α × Text)

def readGivenChar (target : Char) : Text → Option Text
  | [] => none
  | c :: rest => if c = target then some rest else none

def readSeparator {α : Type} (sep : Char) (index : Nat) (inner : Reader α) : Reader α :=
  fun text => if index > 0 then (readGivenChar sep text).bind inner else inner text

def readDigits (radix maxDigits : Nat) : (count value : Nat) → Text → Option (Nat × Nat × Text)
  | count, value, [] => some (count, value, [])
  | count, value, c :: rest =>
    match Text.digit? radix c with
    | some d =>
      if count + 1 > maxDigits then none
      else readDigits radix maxDigits (count + 1) (value * radix + d) rest
    | none => some (count, value, c :: rest)

def readNumber (radix maxDigits bound : Nat) (allowZeroPrefix : Bool) : Reader Nat := fun text => do
  let (count, value, rest) ← readDigits radix maxDigits 0 0 text
  let hasLeadingZero := text.head? = some '0'
  if count = 0 then none
  else if !allowZeroPrefix && hasLeadingZero && count > 1 then none
  else if value < bound then some (value, rest) else none

def readOctet (index : Nat) : Reader Nat :=
  readSeparator '.' index (readNumber 10 3 256 false)

def readIpv4Addr : Reader Ipv4Addr := fun text => do
  let (a, text) ← readOctet 0 text
  let (b, text) ← readOctet 1 text
  let (c, text) ← readOctet 2 text
  let (d, text) ← readOctet 3 text
  return (.new a b c d, text)

def readGroups : (i left : Nat) → Text → List Nat × Bool × Text
  | _, 0, text => ([], false, text)
  | i, left + 1, text =>
    -- An embedded address takes two groups.
    match if left > 0 then readSeparator ':' i readIpv4Addr text else none with
    | some (v4, text) => ([v4.bits.toNat / 65536, v4.bits.toNat % 65536], true, text)
    | none =>
      match readSeparator ':' i (readNumber 16 4 65536 true) text with
      | some (group, text) =>
        let (groups, embedded, text) := readGroups (i + 1) left text
        (group :: groups, embedded, text)
      | none => ([], false, text)

def ofGroups (groups : List Nat) : Ipv6Addr :=
  ⟨BitVec.ofNat 128 (groups.foldl (fun value group => value * 65536 + group) 0)⟩

def readIpv6Addr : Reader Ipv6Addr := fun text =>
  let (head, embedded, text) := readGroups 0 8 text
  if head.length = 8 then some (ofGroups head, text)
  -- An embedded IPv4 address is not allowed before `::`.
  else if embedded then none
  else do
    let text ← readGivenChar ':' text
    let text ← readGivenChar ':' text
    -- The `::` stands for at least one group.
    let (tail, _, text) := readGroups 0 (8 - (head.length + 1)) text
    let zeros := List.replicate (8 - head.length - tail.length) 0
    return (ofGroups (head ++ zeros ++ tail), text)

def readIpAddr : Reader IpAddr := fun text =>
  match readIpv4Addr text with
  | some (address, rest) => some (.v4 address, rest)
  | none => (readIpv6Addr text).map fun (address, rest) => (.v6 address, rest)

def parseIpAddr (text : Text) : Option IpAddr :=
  match readIpAddr text with
  | some (ip, []) => some ip
  | _ => none

example : parseIpAddr "10.0.0.1".toList = some (.v4 ⟨0x0a000001#32⟩) := by decide
example : parseIpAddr "::ffff:1.2.3.4".toList = some (.v6 ⟨0xffff01020304#128⟩) := by decide
example : parseIpAddr "010.0.0.1".toList = none := by decide

section head
variable {c : Char} {rest : Text}

theorem readNumber_of_head {radix maxDigits bound : Nat} {zeros : Bool}
    (no_digit : Text.digit? radix c = none) :
    readNumber radix maxDigits bound zeros (c :: rest) = none := by
  simp [readNumber, readDigits, no_digit]

theorem readIpv4Addr_of_head (no_digit : Text.digit? 10 c = none) :
    readIpv4Addr (c :: rest) = none := by
  simp [readIpv4Addr, readOctet, readSeparator, readNumber_of_head no_digit]

theorem parseIpAddr_of_head (no_digit : Text.digit? 16 c = none) (no_colon : c ≠ ':') :
    parseIpAddr (c :: rest) = none := by
  have v4 : readIpv4Addr (c :: rest) = none := readIpv4Addr_of_head (Text.digit?_of_hex no_digit)
  have groups : readGroups 0 8 (c :: rest) = ([], false, c :: rest) := by
    simp [readGroups, readSeparator, v4, readNumber_of_head no_digit]
  have v6 : readIpv6Addr (c :: rest) = none := by
    simp [readIpv6Addr, groups, readGivenChar, no_colon]
  simp [parseIpAddr, readIpAddr, v4, v6]

end head

end Gozarbin.AddrText
