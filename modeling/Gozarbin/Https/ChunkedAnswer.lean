import Gozarbin.Https.Pushing

/-! # Whole answers with a chunked body

The shape of an answer that has come to its end and whose body is chunked: interim answers, the
head, chunks, the last chunk and its trailer. The reader gets through it, and what it gets
through has this shape.
-/

namespace Gozarbin.Https

open List Text Search Resume StateTransition
open Account (AetherError)
open Masque (WordSize)

/-- The fields behind the last chunk, and the empty line. -/
inductive Trailer : Bytes → (lines : List Bytes) → Prop where
  | last : Trailer lineEnd [[]]
  | field {line rest : Bytes} {lines : List Bytes} (ends : Until lineEnd line) (some_ : line ≠ [])
      (more : Trailer rest lines) : Trailer (line ++ lineEnd ++ rest) (line :: lines)

/-- A chunked body, its lines, and its data. -/
inductive ChunkedBody (word : WordSize) : Bytes → (lines : List Bytes) → (joined : Bytes) → Prop where
  | last {line rest : Bytes} {lines : List Bytes} (ends : Until lineEnd line)
      (size : chunkSize word line = some 0)
      (trailer : Trailer rest lines) : ChunkedBody word (line ++ lineEnd ++ rest) (line :: lines) []
  | chunk {line data rest joined : Bytes} {lines : List Bytes} (ends : Until lineEnd line)
      (size : chunkSize word line = some data.length) (some_ : data ≠ [])
      (more : ChunkedBody word rest lines joined) :
      ChunkedBody word (line ++ lineEnd ++ (data ++ lineEnd ++ rest)) (line :: lines) (data ++ joined)

/-- An answer with a chunked body, the lines of the body, and what is read of it. -/
inductive ChunkedAnswer (word : WordSize) :
    Bytes → (lines : List Bytes) → (answer : UInt16 × FieldList × Bytes) → Prop where
  | interim {head rest : Bytes} {lines : List Bytes} {status : UInt16} {fields : FieldList}
      {answer : UInt16 × FieldList × Bytes} (ends : Until headEnd head)
      (read : http1Head head = .ok (status, fields))
      (interim : isInterim status) (more : ChunkedAnswer word rest lines answer) :
      ChunkedAnswer word (head ++ headEnd ++ rest) lines answer
  | final {head body joined extra : Bytes} {lines : List Bytes} {status : UInt16} {fields : FieldList}
      (ends : Until headEnd head) (read : http1Head head = .ok (status, fields))
      (final : ¬ isInterim status)
      (framed : framing word status fields = .ok (.chunked {}))
      (whole : ChunkedBody word body lines joined) :
      ChunkedAnswer word (head ++ headEnd ++ (body ++ extra)) lines (status, fields, joined)

section
variable {word : WordSize} {at_ : Nat} {joined body rest line : Bytes} {lines : List Bytes}
  {s s' : ChunkStage}

def Part (lines : List Bytes) : ChunkStage × Bytes → Prop
  | (.line .., rest) => ∃ line ∈ lines, rest.length < (line ++ lineEnd).length
  | (.data .., _) => True
  | (.done _, _) => False

theorem Part.mono {lines' : List Bytes} (subset : lines ⊆ lines') (c : ChunkStage × Bytes)
    (part : Part lines c) : Part lines' c := by
  obtain ⟨stage, rest⟩ := c
  cases stage with
  | line =>
    obtain ⟨line, listed, short⟩ := part
    exact ⟨line, subset listed, short⟩
  | data => trivial
  | done => exact part

theorem length_lt_of_split {xs front rest : Bytes} (split : xs = front ++ rest) (more : rest ≠ []) :
    front.length < xs.length := by
  rw [split, length_append]
  exact Nat.lt_add_of_pos_right (length_pos_of_ne_nil more)

variable {trailer : Bool}

theorem feeds_line (ends : Until lineEnd line)
    (after : afterLine word at_ trailer joined line = .ok s) :
    (chunkReader word).Feeds (Part [line]) (.line at_ trailer joined) (line ++ lineEnd) s :=
  .of_go (seek_until lineEnd_ne_nil ends after) fun _ _ split more =>
    ⟨seek_part lineEnd_ne_nil ends split more, line, mem_singleton_self line,
      length_lt_of_split split more⟩

theorem takes_line (ends : Until lineEnd line)
    (after : afterLine word at_ trailer joined line = .ok s) :
    (chunkReader word).Takes (.line at_ trailer joined) (line ++ lineEnd) s :=
  (feeds_line ends after).takes

variable {data : Bytes}

theorem feeds_data (small : at_ + (data ++ lineEnd).length < 2 ^ word.bits) :
    (chunkReader word).Feeds (Part []) (.data at_ data.length joined) (data ++ lineEnd)
      (.line (at_ + data.length + 2) false (joined ++ data)) := by
  have two : lineEnd.length = 2 := rfl
  rw [length_append, two] at small
  have move : chunkMove word (.data at_ data.length joined) (data ++ lineEnd) =
      .go (data ++ lineEnd).length (.line (at_ + data.length + 2) false (joined ++ data)) := by
    have long : ¬ (data ++ lineEnd).length < data.length + 2 := by
      rw [length_append]
      omega
    have ending : ((data ++ lineEnd).drop data.length).take 2 = lineEnd := by
      rw [drop_left]
      rfl
    rw [chunkMove, if_neg (by omega), if_neg long, if_neg (not_not.mpr ending), take_left,
      length_append, two]
  refine .of_go move fun front rest split more => ⟨?_, trivial⟩
  have short := length_lt_of_split split more
  rw [length_append, two] at short
  have waits : chunkMove word (.data at_ data.length joined) front = .wait := by
    rw [chunkMove, if_neg (by omega), if_pos short]
  exact waits

/-- The reader comes to the line on its way. -/
def ComesTo (word : WordSize) (s : ChunkStage) (body line : Bytes) : Prop :=
  Until lineEnd line ∧ ∃ front rest at_ trailer joined, body = front ++ (line ++ lineEnd ++ rest) ∧
    (chunkReader word).Takes s front (.line at_ trailer joined)

theorem ComesTo.here (ends : Until lineEnd line) (rest : Bytes) :
    ComesTo word (.line at_ trailer joined) (line ++ lineEnd ++ rest) line :=
  ⟨ends, [], rest, at_, trailer, joined, rfl, .refl _⟩

theorem ComesTo.after (takes : (chunkReader word).Takes s body s') (comes : ComesTo word s' rest line) :
    ComesTo word s (body ++ rest) line := by
  obtain ⟨ends, front, rest, at_, trailer, joined, rfl, takes'⟩ := comes
  exact ⟨ends, body ++ front, rest, at_, trailer, joined, by simp, takes.trans takes'⟩

theorem feeds_trailer (word : WordSize) (at_ : Nat) (joined : Bytes) (trailer : Trailer body lines) :
    (chunkReader word).Feeds (Part lines) (.line at_ true joined) body (.done joined) ∧
      ∀ line ∈ lines, ComesTo word (.line at_ true joined) body line := by
  induction trailer generalizing at_ with
  | last =>
    have empty : Until lineEnd [] := nofun
    exact ⟨feeds_line empty rfl, forall_mem_singleton.mpr (.here empty [])⟩
  | @field line rest lines ends some_ more ih =>
    have feeds : (chunkReader word).Feeds (Part [line]) (.line at_ true joined) (line ++ lineEnd)
        (.line (at_ + line.length + 2) true joined) := feeds_line ends (by simp [afterLine, some_])
    obtain ⟨through, comes⟩ := ih (at_ + line.length + 2)
    exact ⟨(feeds.mono (Part.mono (by simp))).trans (through.mono (Part.mono (by simp))),
      forall_mem_cons.mpr
        ⟨.here ends rest, fun line member => .after feeds.takes (comes line member)⟩⟩

theorem feeds_body (at_ : Nat) (joined : Bytes) (whole : ChunkedBody word body lines data)
    (small : at_ + body.length < 2 ^ word.bits) :
    (chunkReader word).Feeds (Part lines) (.line at_ false joined) body (.done (joined ++ data)) ∧
      ∀ line ∈ lines, ComesTo word (.line at_ false joined) body line := by
  induction whole generalizing at_ joined with
  | @last line rest lines ends size trailer =>
    have feeds : (chunkReader word).Feeds (Part [line]) (.line at_ false joined) (line ++ lineEnd)
        (.line (at_ + line.length + 2) true joined) := feeds_line ends (by simp [afterLine, size])
    obtain ⟨through, comes⟩ := feeds_trailer word (at_ + line.length + 2) joined trailer
    rw [append_nil]
    exact ⟨(feeds.mono (Part.mono (by simp))).trans (through.mono (Part.mono (by simp))),
      forall_mem_cons.mpr
        ⟨.here ends rest, fun line member => .after feeds.takes (comes line member)⟩⟩
  | @chunk line data rest more lines ends size some_ _ ih =>
    have two : lineEnd.length = 2 := rfl
    simp only [length_append] at small
    obtain ⟨k, length⟩ := Nat.exists_eq_add_one_of_ne_zero (mt length_eq_zero_iff.mp some_)
    have first : (chunkReader word).Feeds (Part [line]) (.line at_ false joined) (line ++ lineEnd)
        (.data (at_ + line.length + 2) data.length joined) :=
      feeds_line ends (by simp [afterLine, size, length])
    have second : (chunkReader word).Feeds (Part []) (.data (at_ + line.length + 2) data.length joined)
        (data ++ lineEnd)
        (.line (at_ + line.length + 2 + data.length + 2) false (joined ++ data)) :=
      feeds_data (by rw [length_append, two]; omega)
    obtain ⟨through, comes⟩ :=
      ih (at_ + line.length + 2 + data.length + 2) (joined ++ data) (by omega)
    rw [append_assoc joined] at through
    have later := (second.mono (Part.mono (nil_subset lines))).trans through
    exact ⟨(first.mono (Part.mono (by simp))).trans (later.mono (Part.mono (by simp))),
      forall_mem_cons.mpr ⟨.here ends _,
        fun line member => .after first.takes (.after second.takes (comes line member))⟩⟩

theorem takes_chunked (status : UInt16) (fields : FieldList) (takes : (chunkReader word).Takes s body s') :
    (answerReader word).Takes (.chunked status fields s) body (.chunked status fields s') := by
  have reaches : Reaches (chunkReader word).next (s, body) (s', []) := takes
  exact reaches_map (fun c => (Stage.chunked status fields c.1, c.2))
    (Http1Answer.next_chunked status fields) reaches

theorem takes_head {head : Bytes} {stage : Stage} (ends : Until headEnd head)
    (after : afterHead word head = .ok stage) :
    (answerReader word).Takes .head (head ++ headEnd) stage :=
  .of_go (seek_until headEnd_ne_nil ends after)

variable {bytes : Bytes}

theorem reaches_end {status : UInt16} {fields : FieldList}
    (whole : ChunkedAnswer word bytes lines (status, fields, joined)) (small : bytes.length ≤ maxBody) :
    (∃ extra,
      Reaches (answerReader word).next (.head, bytes) (.chunked status fields (.done joined), extra)) ∧
      ∀ line ∈ lines, Until lineEnd line ∧ ∃ front rest at_ trailer joined,
        bytes = front ++ (line ++ lineEnd ++ rest) ∧
        (answerReader word).Takes .head front (.chunked status fields (.line at_ trailer joined)) := by
  generalize same : (status, fields, joined) = answer at whole
  induction whole with
  | @interim head rest lines _ _ _ ends read interim _ ih =>
    have takes : (answerReader word).Takes .head (head ++ headEnd) .head :=
      takes_head ends (by simp [afterHead, read, interim])
    have later : rest.length ≤ maxBody := by
      rw [length_append] at small
      omega
    obtain ⟨⟨extra, reaches⟩, comes⟩ := ih later same
    refine ⟨⟨extra, (takes.reaches rest).trans reaches⟩, fun line member => ?_⟩
    obtain ⟨ends', front, back, at_, trailer, joined, rfl, takes'⟩ := comes line member
    exact ⟨ends', head ++ headEnd ++ front, back, at_, trailer, joined, by simp, takes.trans takes'⟩
  | @final head body _ extra lines _ _ ends read final framed whole =>
    cases same
    have takes : (answerReader word).Takes .head (head ++ headEnd)
        (.chunked status fields (.line 0 false [])) :=
      takes_head ends (by
        simp [afterHead, read, final, framed, Except.map, Framing.stage, Dechunker.stage])
    have word_large : maxBody < 2 ^ word.bits := by cases word <;> decide
    have inside : 0 + body.length < 2 ^ word.bits := by
      simp only [length_append] at small
      omega
    obtain ⟨through, comes⟩ := feeds_body 0 [] whole inside
    have through' := (takes_chunked status fields through.takes).reaches extra
    refine ⟨⟨extra, (takes.reaches (body ++ extra)).trans through'⟩, fun line member => ?_⟩
    obtain ⟨ends', front, back, at_, trailer, joined, rfl, takes'⟩ := comes line member
    exact ⟨ends', head ++ headEnd ++ front, back ++ extra, at_, trailer, joined, by simp,
      takes.trans (takes_chunked status fields takes')⟩

theorem length_le_of_mem {answer : UInt16 × FieldList × Bytes}
    (whole : ChunkedAnswer word bytes lines answer) (small : bytes.length ≤ maxBody)
    (listed : line ∈ lines) :
    line.length ≤ bytes.length := by
  obtain ⟨-, front, rest, _, _, _, rfl, -⟩ := (reaches_end whole small).2 line listed
  simp only [length_append]
  omega

/-- What a chunked body comes to its end with. -/
def Ends (word : WordSize) : ChunkStage → Bytes → (lines : List Bytes) → Prop
  | .line _ false _, body, lines => ∃ data, ChunkedBody word body lines data
  | .line _ true _, body, lines => Trailer body lines
  | .data _ size _, body, lines =>
    ∃ data rest more, body = data ++ lineEnd ++ rest ∧ data.length = size ∧
      ChunkedBody word rest lines more
  | .done _, body, lines => body = [] ∧ lines = []

/-- What an answer comes to its end with. -/
def Finishes (word : WordSize) : Stage × Bytes → (lines : List Bytes) → Prop
  | (.head, rest), lines => ∃ answer, ChunkedAnswer word rest lines answer
  | (.chunked _ _ s, rest), lines => ∃ body extra, rest = body ++ extra ∧ Ends word s body lines
  | _, _ => False

theorem ends_of_line (until_ : Until lineEnd line)
    (after : afterLine word at_ trailer joined line = .ok s)
    (ends : Ends word s rest lines) :
    Ends word (.line at_ trailer joined) (line ++ lineEnd ++ rest) (line :: lines) := by
  rw [afterLine] at after
  cases trailer with
  | true =>
    cases after
    cases line with
    | nil =>
      obtain ⟨rfl, rfl⟩ : rest = [] ∧ lines = [] := ends
      exact .last
    | cons b line => exact .field until_ (cons_ne_nil b line) ends
  | false =>
    rw [if_neg Bool.false_ne_true] at after
    split at after
    next => cases after
    next size =>
      cases after
      exact ⟨[], .last until_ size ends⟩
    next size' nonzero size =>
      cases after
      obtain ⟨data, rest', more, rfl, rfl, whole⟩ := ends
      refine ⟨data ++ more, .chunk until_ size ?_ whole⟩
      rintro rfl
      exact nonzero rfl

theorem eq_of_next_line
    (moves : (chunkReader word).next (.line at_ trailer joined, body) = some (s, rest)) :
    ∃ line, body = line ++ lineEnd ++ rest ∧ Until lineEnd line ∧
      afterLine word at_ trailer joined line = .ok s := by
  obtain ⟨n, s', goes, same⟩ := Reader.next_eq_some.mp moves
  obtain ⟨line, rest', rfl, until_, after, rfl⟩ := eq_of_seek lineEnd_ne_nil goes
  cases same
  exact ⟨line, by rw [drop_left], until_, after⟩

theorem eq_of_next_data {size : Nat}
    (moves : (chunkReader word).next (.data at_ size joined, body) = some (s, rest)) :
    ∃ data, body = data ++ lineEnd ++ rest ∧ data.length = size ∧
      s = .line (at_ + size + 2) false (joined ++ data) := by
  obtain ⟨n, s', goes, same⟩ := Reader.next_eq_some.mp moves
  have move : chunkMove word (.data at_ size joined) body = .go n s' := goes
  rw [chunkMove] at move
  split_ifs at move with _ short broken
  cases move
  cases same
  have ending := not_not.mp broken
  refine ⟨body.take size, ?_, length_take_of_le (by omega), rfl⟩
  rw [← ending, ← drop_drop, append_assoc, take_append_drop, take_append_drop]

theorem ends_of_next (moves : (chunkReader word).next (s, body) = some (s', rest)) {front extra : Bytes}
    (split : rest = front ++ extra) (ends : Ends word s' front lines) :
    ∃ front', body = front' ++ extra ∧ ∃ lines', Ends word s front' lines' ∧ lines ⊆ lines' := by
  subst split
  cases s with
  | line at_ trailer joined =>
    obtain ⟨line, rfl, until_, after⟩ := eq_of_next_line moves
    exact ⟨line ++ lineEnd ++ front, by simp, line :: lines, ends_of_line until_ after ends,
      subset_cons_self ..⟩
  | data at_ size joined =>
    obtain ⟨data, rfl, length, rfl⟩ := eq_of_next_data moves
    obtain ⟨more, whole⟩ := ends
    exact ⟨data ++ lineEnd ++ front, by simp, lines, ⟨data, front, more, rfl, length, whole⟩,
      List.Subset.refl _⟩
  | done joined => cases moves

theorem finishes_of_next {c c' : Stage × Bytes} (moves : (answerReader word).next c = some c')
    (finishes : Finishes word c' lines) : ∃ lines', Finishes word c lines' ∧ lines ⊆ lines' := by
  obtain ⟨stage, rest⟩ := c
  obtain ⟨n, stage', goes, rfl⟩ := Reader.next_eq_some.mp moves
  cases stage with
  | head =>
    obtain ⟨head, rest', rfl, until_, after, rfl⟩ := eq_of_seek headEnd_ne_nil goes
    rw [drop_left] at finishes
    rw [afterHead] at after
    split at after
    next => cases after
    next status fields read =>
      split_ifs at after with interim
      · cases after
        obtain ⟨answer, more⟩ := finishes
        exact ⟨lines, ⟨answer, .interim until_ read interim more⟩, List.Subset.refl _⟩
      · cases framed : framing word status fields with
        | error e =>
          rw [framed] at after
          cases after
        | ok framing =>
          rw [framed] at after
          cases after
          cases framing with
          | chunked d =>
            obtain rfl := Http1Answer.framing_fresh framed
            obtain ⟨body, extra, rfl, data, whole⟩ := finishes
            exact ⟨lines, ⟨_, .final until_ read interim framed whole⟩, List.Subset.refl _⟩
          | length n => cases finishes
          | close => cases finishes
  | chunked status fields s =>
    obtain ⟨s', chunk, rfl⟩ := Move.map_eq_go.mp goes
    obtain ⟨body, extra, split, ends⟩ := finishes
    obtain ⟨front, same, lines', ends', subset⟩ :=
      ends_of_next ((chunkReader word).next_of_go chunk) split ends
    exact ⟨lines', ⟨front, extra, same, ends'⟩, subset⟩
  | counted status fields length => cases goes
  | open_ status fields => cases goes

theorem finishes_of_reaches {c c' : Stage × Bytes} (reaches : Reaches (answerReader word).next c c')
    (finishes : Finishes word c' lines) : ∃ lines', Finishes word c lines' ∧ lines ⊆ lines' := by
  induction reaches using Relation.ReflTransGen.head_induction_on with
  | refl => exact ⟨lines, finishes, List.Subset.refl _⟩
  | head moves _ ih =>
    obtain ⟨lines', finishes', subset⟩ := ih
    obtain ⟨lines'', finishes'', subset'⟩ := finishes_of_next moves finishes'
    exact ⟨lines'', finishes'', List.Subset.trans subset subset'⟩

theorem chunkedAnswer_of_reaches {extra : Bytes} {status status' : UInt16}
    {fields fields' : FieldList}
    (comes : Reaches (answerReader word).next (.head, bytes)
      (.chunked status fields (.line at_ trailer joined), rest))
    (through : Reaches (answerReader word).next (.chunked status fields (.line at_ trailer joined), rest)
      (.chunked status' fields' (.done data), extra)) :
    ∃ line behind lines answer, rest = line ++ lineEnd ++ behind ∧ Until lineEnd line ∧
      ChunkedAnswer word bytes lines answer ∧ line ∈ lines := by
  rcases through.cases_head with same | ⟨⟨stage, rest'⟩, moves, later⟩
  · cases same
  obtain ⟨n, stage', goes, same⟩ := Reader.next_eq_some.mp moves
  cases same
  obtain ⟨s, chunk, rfl⟩ := Move.map_eq_go.mp goes
  obtain ⟨line, split, until_, after⟩ := eq_of_next_line ((chunkReader word).next_of_go chunk)
  have done : Finishes word (.chunked status' fields' (.done data), extra) [] := ⟨[], extra, rfl, rfl, rfl⟩
  obtain ⟨lines, ⟨body, more, split', ends⟩, -⟩ := finishes_of_reaches later done
  have here : Finishes word (.chunked status fields (.line at_ trailer joined), rest) (line :: lines) := by
    refine ⟨line ++ lineEnd ++ body, more, ?_, ends_of_line until_ after ends⟩
    rw [split, split', append_assoc _ body more]
  obtain ⟨lines', ⟨answer, whole⟩, subset⟩ := finishes_of_reaches comes here
  exact ⟨line, _, lines', answer, split, until_, whole, subset mem_cons_self⟩

end

end Gozarbin.Https
