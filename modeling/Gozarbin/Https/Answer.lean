import Gozarbin.Account.ApiCall
import Gozarbin.Lib.Search
import Gozarbin.Lib.Split
import Gozarbin.Masque.Capsule

/-! # An HTTP/1.1 answer as it comes in

`Http1Answer` is pushed the bytes of an answer in pieces. It looks for the end of the head,
skips interim answers, and then knows where the body ends; a chunked body is joined by a
`Dechunker`. Both remember how far they have searched. A slice is what `drop` and `take` leave.
-/

namespace Gozarbin.Https

open Text Search
open Account (AetherError)
open Masque (WordSize)

def maxBody : Nat := 512 * 1024

def maxLine : Nat := 8 * 1024

def lineEnd : Bytes := ascii "\r\n"

def headEnd : Bytes := ascii "\r\n\r\n"

abbrev FieldList := List (Text × Text)

/-- How a round of a loop ends. -/
inductive Round (σ : Type) where
  | again (s : σ)
  | wait (s : σ)

structure Dechunker where
  at_ : Nat := 0
  searched : Nat := 0
  data : Option Nat := none
  trailer : Bool := false
  done : Bool := false
  joined : Bytes := []
  deriving DecidableEq

def malformed (what : String) : AetherError := .api ("a chunked answer with ".toList ++ what.toList)

def chunkSize (word : WordSize) (line : Bytes) : Option Nat :=
  (fromUtf8 line).bind fun line => fromStrRadix 16 (2 ^ word.bits) (trim ((splitAt ';' line).headD []))

namespace Dechunker

def dataRound (word : WordSize) (body : Bytes) (d : Dechunker) (size : Nat) :
    Except AetherError (Round Dechunker) :=
  let end_ := d.at_ + size + 2
  if 2 ^ word.bits ≤ end_ then .error (malformed "a chunk too large")
  else if body.length < end_ then .ok (.wait d)
  else if (body.drop (end_ - 2)).take 2 ≠ lineEnd then .error (malformed "no line end after a chunk")
  else
    .ok (.again { d with
      joined := d.joined ++ (body.drop d.at_).take size
      at_ := end_
      searched := end_
      data := none })

def takeLine (word : WordSize) (d : Dechunker) (line : Bytes) (end_ : Nat) :
    Except AetherError (Round Dechunker) :=
  let d := { d with at_ := end_ + 2, searched := end_ + 2 }
  if d.trailer then .ok (.again { d with done := line.isEmpty })
  else
    match chunkSize word line with
    | none => .error (malformed "a bad chunk size")
    | some 0 => .ok (.again { d with trailer := true })
    | some size => .ok (.again { d with data := some size })

def lineRound (word : WordSize) (body : Bytes) (d : Dechunker) : Except AetherError (Round Dechunker) :=
  let from_ := max (d.searched - 1) d.at_
  match position lineEnd (body.drop from_) with
  | none =>
    if body.length - d.at_ > maxLine then .error (malformed "a line too long")
    else .ok (.wait { d with searched := body.length })
  | some offset =>
    let end_ := from_ + offset
    d.takeLine word ((body.drop d.at_).take (end_ - d.at_)) end_

def round (word : WordSize) (body : Bytes) (d : Dechunker) : Except AetherError (Round Dechunker) :=
  match d.data with
  | some size => d.dataRound word body size
  | none => d.lineRound word body

theorem takeLine_again {word : WordSize} {d d' : Dechunker} {line : Bytes} {end_ : Nat}
    (again : d.takeLine word line end_ = .ok (.again d')) : d'.at_ = end_ + 2 := by
  rw [takeLine] at again
  split_ifs at again
  · cases again
    rfl
  · split at again
    · cases again
    all_goals
      cases again
      rfl

theorem round_again {word : WordSize} {body : Bytes} {d d' : Dechunker}
    (again : d.round word body = .ok (.again d')) :
    body.length - d'.at_ < body.length - d.at_ := by
  rw [round] at again
  split at again
  next size _ =>
    rw [dataRound] at again
    split_ifs at again
    · cases again
    · cases again
      dsimp only
      omega
  next =>
    rw [lineRound] at again
    split at again
    next =>
      split_ifs at again
      cases again
    next offset found =>
      have bound := position_bound (by decide) found
      rw [List.length_drop] at bound
      have two : lineEnd.length = 2 := rfl
      rw [takeLine_again again]
      omega

def advance (word : WordSize) (body : Bytes) (d : Dechunker) : Except AetherError (Bool × Dechunker) :=
  if d.done then .ok (true, d)
  else
    match _again : d.round word body with
    | .error e => .error e
    | .ok (.wait d) => .ok (false, d)
    | .ok (.again d) => advance word body d
termination_by body.length - d.at_
decreasing_by exact round_again _again

def finish (d : Dechunker) : Except AetherError Bytes :=
  if d.done then .ok d.joined
  else .error (.api "the chunked answer ended before its last chunk".toList)

end Dechunker

inductive Framing where
  | length (length : Nat)
  | chunked (dechunker : Dechunker)
  | close
  deriving DecidableEq

structure Http1Head where
  status : UInt16
  fields : FieldList
  bodyStart : Nat
  framing : Framing
  deriving DecidableEq

def http1Head (head : Bytes) : Except AetherError (UInt16 × FieldList) :=
  let lines := splitCrlf (fromUtf8Lossy head)
  let statusLine := lines.headD []
  match ((splitWhitespace statusLine)[1]?).bind (parseUnsigned 65536) with
  | none => .error (.api ("bad status line: ".toList ++ statusLine))
  | some status =>
    .ok (.ofNat status,
      (lines.tail.filterMap (splitOnce [':'])).map fun (name, value) => (trim name, trim value))

def field (fields : FieldList) (wanted : Text) : Option Text :=
  (fields.find? fun (name, _) => name.eqIgnoreAsciiCase wanted).map Prod.snd

def framing (word : WordSize) (status : UInt16) (fields : FieldList) : Except AetherError Framing :=
  if status = 204 || status = 304 then .ok (.length 0)
  else if (field fields "transfer-encoding".toList).any fun value =>
      Text.contains (value.map Char.toLower) "chunked".toList then .ok (.chunked {})
  else
    match field fields "content-length".toList with
    | none => .ok .close
    | some value =>
      match parseUnsigned (2 ^ word.bits) value with
      | some length => .ok (.length length)
      | none => .error (.api ("bad Content-Length: ".toList ++ value))

def isInterim (status : UInt16) : Bool := 100 ≤ status && status < 200 && status ≠ 101

structure Http1Answer where
  raw : Bytes := []
  headStart : Nat := 0
  searched : Nat := 0
  head : Option Http1Head := none
  deriving DecidableEq

namespace Http1Answer

def takeHead (word : WordSize) (a : Http1Answer) (head : Bytes) (end_ : Nat) :
    Except AetherError (Round Http1Answer) :=
  match http1Head head with
  | .error e => .error e
  | .ok (status, fields) =>
    if isInterim status then .ok (.again { a with headStart := end_ + 4, searched := end_ + 4 })
    else
      match framing word status fields with
      | .error e => .error e
      | .ok framing => .ok (.again { a with head := some ⟨status, fields, end_ + 4, framing⟩ })

def headRound (word : WordSize) (a : Http1Answer) : Except AetherError (Round Http1Answer) :=
  let from_ := max (a.searched - 3) a.headStart
  match position headEnd (a.raw.drop from_) with
  | none => .ok (.wait { a with searched := a.raw.length })
  | some offset =>
    let end_ := from_ + offset
    a.takeHead word ((a.raw.drop a.headStart).take (end_ - a.headStart)) end_

def unsearched (a : Http1Answer) : Nat := if a.head.isSome then 0 else a.raw.length - a.headStart + 1

theorem headRound_again {word : WordSize} {a a' : Http1Answer} (none_ : a.head = none)
    (again : a.headRound word = .ok (.again a')) : a'.unsearched < a.unsearched := by
  rw [headRound] at again
  split at again
  next => cases again
  next offset found =>
    have bound := position_bound (by decide) found
    rw [List.length_drop] at bound
    have four : headEnd.length = 4 := rfl
    rw [takeHead] at again
    split at again
    next => cases again
    next status fields read =>
      split_ifs at again
      · cases again
        simp only [unsearched, none_, Option.isSome_none, Bool.false_eq_true, if_false]
        omega
      · split at again
        next => cases again
        next =>
          cases again
          simp [unsearched, none_]

def seekHead (word : WordSize) (a : Http1Answer) : Except AetherError (Http1Answer × Option Http1Head) :=
  match _none : a.head with
  | some head => .ok (a, some head)
  | none =>
    match _again : a.headRound word with
    | .error e => .error e
    | .ok (.wait a) => .ok (a, none)
    | .ok (.again a) => seekHead word a
termination_by a.unsearched
decreasing_by exact headRound_again _none _again

def readBody (word : WordSize) (a : Http1Answer) :
    Option Http1Head → Except AetherError (Bool × Http1Answer)
  | none => .ok (false, a)
  | some head =>
    let body := a.raw.drop head.bodyStart
    match head.framing with
    | .length length => .ok (decide (length ≤ body.length), a)
    | .close => .ok (false, a)
    | .chunked dechunker =>
      match dechunker.advance word body with
      | .error e => .error e
      | .ok (whole, dechunker) =>
        .ok (whole, { a with head := some { head with framing := .chunked dechunker } })

def push (word : WordSize) (a : Http1Answer) (bytes : Bytes) : Except AetherError (Bool × Http1Answer) :=
  let a := { a with raw := a.raw ++ bytes }
  if a.raw.length > maxBody then .error (.api "the answer is too large".toList)
  else
    match a.seekHead word with
    | .error e => .error e
    | .ok (a, head) => a.readBody word head

def finish (a : Http1Answer) : Except AetherError (UInt16 × FieldList × Bytes) :=
  match a.head with
  | none =>
    .error (.api (if a.raw.isEmpty then "empty response".toList else "truncated response head".toList))
  | some head =>
    let body := a.raw.drop head.bodyStart
    match head.framing with
    | .length length =>
      if body.length < length then
        .error (.api ("the answer ended after ".toList ++ decimal body.length ++ " of its ".toList ++
          decimal length ++ " bytes".toList))
      else .ok (head.status, head.fields, body.take length)
    | .chunked dechunker => dechunker.finish.map fun joined => (head.status, head.fields, joined)
    | .close => .ok (head.status, head.fields, body)

def feed (word : WordSize) : Http1Answer → List Bytes → Except AetherError Http1Answer
  | a, [] => .ok a
  | a, piece :: pieces =>
    match a.push word piece with
    | .error e => .error e
    | .ok (true, a) => .ok a
    | .ok (false, a) => feed word a pieces

end Http1Answer

def answerOf (word : WordSize) (pieces : List Bytes) : Except AetherError (UInt16 × FieldList × Bytes) :=
  (Http1Answer.feed word {} pieces).bind Http1Answer.finish

end Gozarbin.Https
