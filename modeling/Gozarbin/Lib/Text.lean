import Mathlib.Data.List.Infix

/-! # Text

A string is the list of its characters. The operations are those of the standard
library of the source language that the program reads names and heads with. What
a table of the Unicode database says about a character is a parameter (`Ucd`),
of which only its values on ASCII are fixed.
-/

namespace Gozarbin

abbrev Text := List Char

namespace Text

def eqIgnoreAsciiCase (a b : Text) : Bool := a.map Char.toLower == b.map Char.toLower

def startsWith (text start : Text) : Bool := start.isPrefixOf text

def endsWith (text suffix : Text) : Bool := suffix.isSuffixOf text

def contains (text needle : Text) : Bool := decide (needle <:+: text)

/-- The tables lowercasing reads. -/
structure Ucd where
  lower : Char → Text
  cased : Char → Bool
  caseIgnorable : Char → Bool
  lower_ascii : ∀ c, c.toNat < 128 → lower c = [c.toLower]

def Ucd.ascii : Ucd where
  lower c := [c.toLower]
  cased c := c.isAlpha
  caseIgnorable _ := false
  lower_ascii _ _ := rfl

def Ucd.ignorableThenCased (ucd : Ucd) (text : Text) : Bool :=
  match text.dropWhile ucd.caseIgnorable with
  | c :: _ => ucd.cased c
  | [] => false

def Ucd.lowerSigma (ucd : Ucd) (before after : Text) : Char :=
  if ucd.ignorableThenCased before && !ucd.ignorableThenCased after then 'ς' else 'σ'

def Ucd.lowerFrom (ucd : Ucd) : (before : Text) → Text → Text
  | _, [] => []
  | before, c :: rest =>
    (if c = 'Σ' then [ucd.lowerSigma before rest] else ucd.lower c) ++
      ucd.lowerFrom (c :: before) rest

def toLowercase (ucd : Ucd) (text : Text) : Text := ucd.lowerFrom [] text

def isWhitespace (c : Char) : Bool :=
  let n := c.toNat
  (9 ≤ n && n ≤ 13) || n == 0x20 || n == 0x85 || n == 0xa0 || n == 0x1680 ||
    (0x2000 ≤ n && n ≤ 0x200a) || n == 0x2028 || n == 0x2029 || n == 0x202f || n == 0x205f ||
    n == 0x3000

def splitWords : (word : Text) → Text → List Text
  | word, [] => if word.isEmpty then [] else [word.reverse]
  | word, c :: rest =>
    if isWhitespace c then
      if word.isEmpty then splitWords [] rest else word.reverse :: splitWords [] rest
    else splitWords (c :: word) rest

def splitWhitespace (text : Text) : List Text := splitWords [] text

def digit? (radix : Nat) (c : Char) : Option Nat :=
  let value :=
    if '0' ≤ c ∧ c ≤ '9' then some (c.toNat - 48)
    else if 'a' ≤ c ∧ c ≤ 'f' then some (c.toNat - 87)
    else if 'A' ≤ c ∧ c ≤ 'F' then some (c.toNat - 55)
    else none
  value.filter (· < radix)

def parseDigits (bound : Nat) : (acc : Nat) → Text → Option Nat
  | acc, [] => some acc
  | acc, c :: rest =>
    match digit? 10 c with
    | some d => if acc * 10 + d < bound then parseDigits bound (acc * 10 + d) rest else none
    | none => none

def parseUnsigned (bound : Nat) : Text → Option Nat
  | [] => none
  | '+' :: rest => if rest.isEmpty then none else parseDigits bound 0 rest
  | text => parseDigits bound 0 text

def before? (needle : Text) : Text → Option Text
  | [] => if needle.isEmpty then some [] else none
  | c :: rest =>
    if needle.isPrefixOf (c :: rest) then some [] else (before? needle rest).map (c :: ·)

def splitOnce (needle text : Text) : Option (Text × Text) :=
  (before? needle text).map fun start => (start, text.drop (start.length + needle.length))

def rsplitOnce (c : Char) (text : Text) : Option (Text × Text) :=
  (splitOnce [c] text.reverse).map fun (after, start) => (start.reverse, after.reverse)

def strip (start text : Text) : Option Text :=
  if text.startsWith start then some (text.drop start.length) else none

def trim (text : Text) : Text :=
  ((text.dropWhile isWhitespace).reverse.dropWhile isWhitespace).reverse

def stripEnd (suffix text : Text) : Option Text :=
  if text.endsWith suffix then some (text.take (text.length - suffix.length)) else none

def trimEndMatches (c : Char) (text : Text) : Text := (text.reverse.dropWhile (· = c)).reverse

def rfind (p : Char → Bool) (text : Text) : Option Nat :=
  (text.reverse.findIdx? p).map (text.length - 1 - ·)

def toAsciiUppercase (text : Text) : Text := text.map Char.toUpper

def toAsciiLowercase (text : Text) : Text := text.map Char.toLower

def splitFrom (c : Char) : (piece : Text) → Text → List Text
  | piece, [] => [piece.reverse]
  | piece, d :: rest =>
    if d = c then piece.reverse :: splitFrom c [] rest else splitFrom c (d :: piece) rest

def splitAt (c : Char) (text : Text) : List Text := splitFrom c [] text

def linesFrom : (line : Text) → Text → List Text
  | line, [] => if line.isEmpty then [] else [line.reverse]
  | '\r' :: line, '\n' :: rest => line.reverse :: linesFrom [] rest
  | line, '\n' :: rest => line.reverse :: linesFrom [] rest
  | line, c :: rest => linesFrom (c :: line) rest

def lines (text : Text) : List Text := linesFrom [] text

def firstLine (text : Text) : Text := (lines text).headD []

def byteLength (text : Text) : Nat := text.foldr (fun c n => c.utf8Size + n) 0

theorem rfind_eq_none {p : Char → Bool} {text : Text} (absent : ∀ c ∈ text, p c = false) :
    rfind p text = none := by
  simpa [rfind] using absent

theorem rfind_append {p : Char → Bool} {before after : Text} {c : Char} (found : p c = true)
    (last : ∀ d ∈ after, p d = false) : rfind p (before ++ c :: after) = some before.length := by
  have first : (before ++ c :: after).reverse.findIdx? p = some after.length := by
    rw [List.findIdx?_eq_some_iff_getElem]
    refine ⟨by simp, by simp [found], fun i earlier => ?_⟩
    simp [earlier, last]
  rw [rfind, first]
  simp

theorem rfind_cases (p : Char → Bool) (text : Text) :
    (∀ c ∈ text, p c = false) ∨
      ∃ before c after, text = before ++ c :: after ∧ p c = true ∧ ∀ d ∈ after, p d = false := by
  induction text with
  | nil => exact .inl (by simp)
  | cons c rest ih =>
    rcases ih with absent | ⟨before, d, after, split, found, last⟩
    · cases here : p c with
      | false => exact .inl (by simpa [here] using absent)
      | true => exact .inr ⟨[], c, rest, rfl, here, absent⟩
    · exact .inr ⟨c :: before, d, after, congrArg (c :: ·) split, found, last⟩

theorem rfind_append_absent {p : Char → Bool} {text rest : Text} (absent : ∀ c ∈ rest, p c = false) :
    rfind p (text ++ rest) = rfind p text := by
  rcases rfind_cases p text with none | ⟨before, c, after, rfl, found, last⟩
  · have absent' : ∀ c ∈ text ++ rest, p c = false := fun c mem =>
      (List.mem_append.mp mem).elim (none c) (absent c)
    rw [rfind_eq_none absent', rfind_eq_none none]
  · have last' : ∀ c ∈ after ++ rest, p c = false := fun c mem =>
      (List.mem_append.mp mem).elim (last c) (absent c)
    rw [List.append_assoc, List.cons_append, rfind_append found last', rfind_append found last]

def isContinuation (b : UInt8) : Bool := 0x80 ≤ b && b ≤ 0xbf

def isSecond (first b : UInt8) : Bool :=
  if first = 0xe0 then 0xa0 ≤ b && b ≤ 0xbf
  else if first = 0xed then 0x80 ≤ b && b ≤ 0x9f
  else if first = 0xf0 then 0x90 ≤ b && b ≤ 0xbf
  else if first = 0xf4 then 0x80 ≤ b && b ≤ 0x8f
  else isContinuation b

def continuations (first : UInt8) : Option Nat :=
  if first < 0x80 then some 0
  else if 0xc2 ≤ first && first ≤ 0xdf then some 1
  else if 0xe0 ≤ first && first ≤ 0xef then some 2
  else if 0xf0 ≤ first && first ≤ 0xf4 then some 3
  else none

def firstBits (first : UInt8) : Nat → Nat
  | 0 => first.toNat
  | 1 => first.toNat % 32
  | 2 => first.toNat % 16
  | _ => first.toNat % 8

def readContinuations : (n value : Nat) → List UInt8 → Char × List UInt8
  | 0, value, rest => (Char.ofNat value, rest)
  | n + 1, value, b :: rest =>
    if isContinuation b then readContinuations n (value * 64 + b.toNat % 64) rest
    else ('\uFFFD', b :: rest)
  | _ + 1, _, [] => ('\uFFFD', [])

def readChar (first : UInt8) (rest : List UInt8) : Char × List UInt8 :=
  match continuations first with
  | none => ('\uFFFD', rest)
  | some 0 => (Char.ofNat first.toNat, rest)
  | some (n + 1) =>
    match rest with
    | b :: rest' =>
      if isSecond first b then
        readContinuations n (firstBits first (n + 1) * 64 + b.toNat % 64) rest'
      else ('\uFFFD', rest)
    | [] => ('\uFFFD', [])

def lossy : (fuel : Nat) → List UInt8 → Text
  | fuel + 1, b :: rest => (readChar b rest).1 :: lossy fuel (readChar b rest).2
  | _, _ => []

def fromUtf8Lossy (bytes : List UInt8) : Text := lossy bytes.length bytes

def toUtf8 (text : Text) : List UInt8 := text.flatMap String.utf8EncodeChar

def fromUtf8 (bytes : List UInt8) : Option Text :=
  if toUtf8 (fromUtf8Lossy bytes) = bytes then some (fromUtf8Lossy bytes) else none

def ascii (text : String) : List UInt8 := text.toList.map fun c => c.toNat.toUInt8

example : fromUtf8Lossy [0x61, 0xe2, 0x82, 0xac, 0xff, 0xe2, 0x82, 0x62] = "a€��b".toList := by
  decide

end Text

end Gozarbin
