import Gozarbin.Https.ChunkedAnswer
import Gozarbin.Lib.Utf8Valid

/-! # Bodies as they are written in chunks

A body is written as chunks: the size in hexadecimal, an extension if there is one, and the
data; then a chunk of no data and the trailer. However it comes in, a `Dechunker` says that it
is whole when all of it has come, and has the data.
-/

namespace Gozarbin.Https

open List Text Search Resume StateTransition
open Account (AetherError)
open Masque (WordSize)

/-- A line that can be written, and is not too long. -/
structure IsLine (line : Bytes) : Prop where
  unbroken : ¬ lineEnd <:+: line
  short : (line ++ lineEnd).length ≤ maxLine

def sizeText (digits : Text) (extension : Option Text) : Text :=
  digits ++ (extension.map (';' :: ·)).getD []

/-- A line with any spelling of a size. -/
structure SizeLine (size : Nat) where
  digits : Text
  numeral : Numeral 16 digits
  value : numberFrom 16 0 digits = size
  extension : Option Text
  isLine : IsLine (toUtf8 (sizeText digits extension))

def SizeLine.line {size : Nat} (s : SizeLine size) : Bytes := toUtf8 (sizeText s.digits s.extension)

structure WrittenChunk where
  data : Bytes
  some_ : data ≠ []
  size : SizeLine data.length

def WrittenChunk.encode (c : WrittenChunk) : Bytes := c.size.line ++ lineEnd ++ (c.data ++ lineEnd)

structure TrailerLine where
  line : Bytes
  some_ : line ≠ []
  isLine : IsLine line

structure WrittenBody where
  chunks : List WrittenChunk
  last : SizeLine 0
  trailer : List TrailerLine

namespace WrittenBody

def encode (body : WrittenBody) : Bytes :=
  body.chunks.flatMap WrittenChunk.encode ++
    (body.last.line ++ lineEnd ++ (body.trailer.flatMap (·.line ++ lineEnd) ++ lineEnd))

def data (body : WrittenBody) : Bytes := body.chunks.flatMap WrittenChunk.data

end WrittenBody

def Dechunker.advanceAll (word : WordSize) :
    Dechunker → List Bytes → Except AetherError (List Bool × Dechunker)
  | d, [] => .ok ([], d)
  | d, body :: bodies => do
      let (whole, d) ← d.advance word body
      let (wholes, d) ← d.advanceAll word bodies
      return (whole :: wholes, d)

theorem IsLine.ends {line : Bytes} (isLine : IsLine line) : Until lineEnd line :=
  until_pair (by decide) isLine.unbroken

theorem SizeLine.chunkSize_line {size : Nat} {word : WordSize} (s : SizeLine size)
    (held : size < 2 ^ word.bits) : chunkSize word s.line = some size := by
  have read : fromUtf8 s.line = some (sizeText s.digits s.extension) := fromUtf8_eq_some.mpr rfl
  have first : (splitAt ';' (sizeText s.digits s.extension)).headD [] = s.digits := by
    rw [sizeText, splitAt_append (s.numeral.not_mem (by decide))]
    cases s.extension with
    | none => exact append_nil s.digits
    | some text => exact append_nil s.digits
  have visible : ∀ c ∈ s.digits, isWhitespace c = false :=
    fun c member => hex_not_blank (s.numeral.digits c member)
  rw [chunkSize, read, Option.bind_some, first, (Trimmed.of_visible visible).trim_eq,
    s.numeral.fromStrRadix_eq (by decide) (by rwa [s.value]), s.value]

theorem trailer_written (fields : List TrailerLine) :
    Trailer (fields.flatMap (·.line ++ lineEnd) ++ lineEnd) (fields.map (·.line) ++ [[]]) := by
  induction fields with
  | nil => exact .last
  | cons field fields ih =>
    rw [flatMap_cons, append_assoc]
    exact .field field.isLine.ends field.some_ ih

namespace WrittenBody

def lines (body : WrittenBody) : List Bytes :=
  body.chunks.map (·.size.line) ++ body.last.line :: (body.trailer.map (·.line) ++ [[]])

theorem chunkedBody_encode {word : WordSize} (body : WrittenBody)
    (held : body.encode.length < 2 ^ word.bits) :
    ChunkedBody word body.encode body.lines body.data := by
  obtain ⟨chunks, last, trailer⟩ := body
  induction chunks with
  | nil =>
    exact .last last.isLine.ends (last.chunkSize_line (Nat.two_pow_pos _)) (trailer_written trailer)
  | cons chunk chunks ih =>
    have split : encode ⟨chunk :: chunks, last, trailer⟩ =
        chunk.size.line ++ lineEnd ++ (chunk.data ++ lineEnd ++ encode ⟨chunks, last, trailer⟩) := by
      simp [encode, WrittenChunk.encode]
    rw [split] at held ⊢
    simp only [length_append] at held
    exact .chunk chunk.size.isLine.ends (chunk.size.chunkSize_line (by omega)) chunk.some_
      (ih (by omega))

theorem length_of_mem_lines {body : WrittenBody} {line : Bytes} (listed : line ∈ body.lines) :
    (line ++ lineEnd).length ≤ maxLine := by
  simp only [lines, mem_append, mem_map, mem_cons, not_mem_nil, or_false] at listed
  rcases listed with ⟨chunk, -, rfl⟩ | rfl | ⟨field, -, rfl⟩ | rfl
  · exact chunk.size.isLine.short
  · exact body.last.isLine.short
  · exact field.isLine.short
  · decide

end WrittenBody

theorem Part.not_tooLong {lines : List Bytes} (short : ∀ line ∈ lines, (line ++ lineEnd).length ≤ maxLine)
    {c : ChunkStage × Bytes} (part : Part lines c) : ¬ TooLong c := by
  obtain ⟨stage, rest⟩ := c
  cases stage with
  | line =>
    obtain ⟨line, listed, inside⟩ := part
    exact Nat.not_lt.mpr (inside.le.trans (short line listed))
  | data => exact id
  | done => exact id

theorem Dechunker.stage_eq_done {d : Dechunker} {joined : Bytes} :
    d.stage = .done joined ↔ d.done = true ∧ d.joined = joined := by
  rw [stage]
  split_ifs with done
  · simp [done]
  · split <;> simp [done]

section
variable {word : WordSize} {body : WrittenBody} {front : Bytes} {d : Dechunker}

theorem WrittenBody.rests (held : body.encode.length < 2 ^ word.bits) {extra : Bytes}
    (shown : front <+: body.encode ++ extra) :
    ∃ c ∈ eval (chunkReader word).next (.line 0 false [], front),
      (chunkReader word).move c.1 c.2 = .wait ∧ ¬ TooLong c ∧
        (body.encode.length ≤ front.length ∧ c.1 = .done body.data ∨
          front.length < body.encode.length ∧ ∀ joined, c.1 ≠ .done joined) := by
  have feeds := (feeds_body 0 [] (body.chunkedBody_encode held) (by rwa [Nat.zero_add])).1
  rcases Nat.lt_or_ge front.length body.encode.length with short | long
  · obtain ⟨rest, split⟩ := prefix_of_prefix_length_le shown (prefix_append ..) short.le
    have more : rest ≠ [] := by
      rintro rfl
      rw [← split, append_nil] at short
      exact Nat.lt_irrefl _ short
    obtain ⟨⟨stage, left⟩, rests, waits, part⟩ := feeds.waits front rest split.symm more
    refine ⟨_, rests, waits, part.not_tooLong fun _ => length_of_mem_lines, .inr ⟨short, ?_⟩⟩
    rintro joined rfl
    exact part
  · obtain ⟨rest, rfl⟩ := prefix_of_prefix_length_le (prefix_append ..) shown long
    have waits : (chunkReader word).move (.done body.data) rest = .wait := rfl
    rw [feeds.takes.eval]
    exact ⟨_, mem_eval_self ((chunkReader word).next_of_wait waits), waits, id, .inl ⟨long, rfl⟩⟩

/-- A dechunker that was shown this much. -/
structure Dechunker.Shown (word : WordSize) (front : Bytes) (d : Dechunker) : Prop where
  fits : d.Fits front
  rests : d.config front ∈ eval (chunkReader word).next (.line 0 false [], front)

theorem Dechunker.shown_nil (word : WordSize) : Shown word [] {} where
  fits := .here 0 (Nat.le_refl 0) rfl rfl fun some_ => by cases some_
  rests := mem_eval_self rfl

theorem Dechunker.Shown.done_iff (shown : d.Shown word front) (held : body.encode.length < 2 ^ word.bits)
    {extra : Bytes} (part : front <+: body.encode ++ extra) :
    body.encode.length ≤ front.length ∧ d.done = true ∧ d.joined = body.data ∨
      front.length < body.encode.length ∧ d.done = false := by
  obtain ⟨c, rests, -, -, outcome⟩ := body.rests held part
  have same : d.config front = c := Part.mem_unique shown.rests rests
  have stage : d.stage = c.1 := congrArg Prod.fst same
  rcases outcome with ⟨long, whole⟩ | ⟨short, unfinished⟩
  · exact .inl ⟨long, stage_eq_done.mp (stage.trans whole)⟩
  · refine .inr ⟨short, ?_⟩
    rw [Bool.eq_false_iff]
    exact fun done => unfinished _ (stage.symm.trans (stage_eq_done.mpr ⟨done, rfl⟩))

theorem Dechunker.Shown.advance (shown : d.Shown word front) (held : body.encode.length < 2 ^ word.bits)
    {extra next : Bytes} (grows : front <+: next) (part : next <+: body.encode ++ extra) :
    ∃ d', d.advance word next = .ok (decide (body.encode.length ≤ next.length), d') ∧
      d'.Shown word next := by
  obtain ⟨more, rfl⟩ := grows
  obtain ⟨c, rests, waits, short, -⟩ := body.rests held part
  have fits := shown.fits.append more
  obtain ⟨c', rests', outcome⟩ := advance_rests word fits
  rw [config_append shown.fits, ← Reader.eval_append shown.rests] at rests'
  obtain rfl : c' = c := Part.mem_unique rests' rests
  rcases outcome with ⟨e, fault, -⟩ | ⟨d', -, -, fits', same, advanced⟩
  · cases fault with
    | fails fails => rw [waits] at fails; cases fails
    | tooLong _ exceeds => exact absurd exceeds short
  · have shown' : d'.Shown word (front ++ more) := ⟨fits', same ▸ rests⟩
    refine ⟨d', ?_, shown'⟩
    rw [advanced]
    rcases shown'.done_iff held part with ⟨long, done, -⟩ | ⟨short, live⟩
    · rw [done, decide_eq_true long]
    · rw [live, decide_eq_false (Nat.not_le.mpr short)]

theorem Dechunker.Shown.finish (shown : d.Shown word front) (held : body.encode.length < 2 ^ word.bits)
    {extra : Bytes} (part : front <+: body.encode ++ extra) :
    d.finish = if body.encode.length ≤ front.length then .ok body.data
      else .error (.api "the chunked answer ended before its last chunk".toList) := by
  rw [Dechunker.finish]
  rcases shown.done_iff held part with ⟨long, done, joined⟩ | ⟨short, live⟩
  · rw [if_pos done, if_pos long, joined]
  · rw [if_neg (by rw [live]; exact Bool.false_ne_true), if_neg (Nat.not_le.mpr short)]

theorem Dechunker.Shown.advanceAll (shown : d.Shown word front)
    (held : body.encode.length < 2 ^ word.bits) {extra : Bytes} {fronts : List Bytes}
    (growing : (front :: fronts).Pairwise (· <+: ·)) (parts : ∀ next ∈ fronts, next <+: body.encode ++ extra) :
    ∃ d', d.advanceAll word fronts =
        .ok (fronts.map fun next => decide (body.encode.length ≤ next.length), d') ∧
      d'.Shown word (fronts.getLastD front) := by
  induction fronts generalizing d front with
  | nil => exact ⟨d, rfl, shown⟩
  | cons next fronts ih =>
    obtain ⟨grows, growing'⟩ := pairwise_cons.mp growing
    obtain ⟨part, parts'⟩ := forall_mem_cons.mp parts
    obtain ⟨d₁, advanced, shown₁⟩ := shown.advance held (grows next mem_cons_self) part
    obtain ⟨d₂, all, shown₂⟩ := ih shown₁ growing' parts'
    refine ⟨d₂, ?_, ?_⟩
    · simp only [Dechunker.advanceAll, advanced, all, bind, Except.bind, pure, Except.pure, map_cons]
    · rwa [getLastD_cons]

end

/-- However a body written in chunks comes in, it is whole from its last byte on, and its data
    is there then and not before. -/
theorem dechunking_inverts (word : WordSize) (body : WrittenBody) (held : body.encode.length < 2 ^ word.bits)
    (extra : Bytes) (fronts : List Bytes) (growing : fronts.Pairwise (· <+: ·))
    (parts : ∀ front ∈ fronts, front <+: body.encode ++ extra) :
    ∃ d, Dechunker.advanceAll word {} fronts =
        .ok (fronts.map fun front => decide (body.encode.length ≤ front.length), d) ∧
      d.finish = if body.encode.length ≤ (fronts.getLastD []).length then .ok body.data
        else .error (.api "the chunked answer ended before its last chunk".toList) := by
  have growing' : ([] :: fronts).Pairwise (· <+: ·) :=
    pairwise_cons.mpr ⟨fun front _ => nil_prefix, growing⟩
  obtain ⟨d, all, shown⟩ := (Dechunker.shown_nil word).advanceAll held growing' parts
  have part : fronts.getLastD [] <+: body.encode ++ extra := by
    have last : fronts.getLastD [] ∈ [] :: fronts := getLastD_mem_cons
    rcases mem_cons.mp last with none_ | member
    · rw [none_]
      exact nil_prefix
    · exact parts _ member
  exact ⟨d, all, shown.finish held part⟩

def helloBody : WrittenBody where
  chunks := [⟨ascii "hello", by decide, "05".toList, ⟨forall_iff_forall_mem.mp (by decide), by decide⟩,
    by decide, some "x=1".toList, by decide, by decide⟩]
  last := ⟨"00".toList, ⟨forall_iff_forall_mem.mp (by decide), by decide⟩, by decide, none,
    by decide, by decide⟩
  trailer := [⟨ascii "A: b", by decide, by decide, by decide⟩]

theorem dechunking_inverts_hello :
    let whole := ascii "05;x=1\r\nhello\r\n00\r\nA: b\r\n\r\n"
    ∃ d, Dechunker.advanceAll .bits32 {} [whole.take 7, whole.take 24, whole] =
        .ok ([false, false, true], d) ∧ d.finish = .ok (ascii "hello") :=
  dechunking_inverts .bits32 helloBody (by decide) [] _ (by decide) (by decide)

end Gozarbin.Https
