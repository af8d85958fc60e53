import Gozarbin.Https.ChunkedAnswer

/-! # An answer that comes in pieces

However an answer is cut, the reader rests in the same place, and the same is read of it. But
the length of a line is looked at only while the line has not ended: a long line that comes at
once is read, and the same line is refused when a piece ends within it.
-/

namespace Gozarbin.Https

open List Text Search Resume StateTransition
open Account (AetherError)
open Masque (WordSize)

section
variable {word : WordSize} {a : Http1Answer} {c : Stage × Bytes} {e : AetherError}

variable {answer : UInt16 × FieldList × Bytes}

theorem rests_of_result (word : WordSize)
    (found : result c = some answer) :
    (answerReader word).move c.1 c.2 = .wait ∧ ¬ LineTooLong c := by
  obtain ⟨stage, rest⟩ := c
  cases stage with
  | head => cases found
  | counted status fields length => exact ⟨rfl, fun ⟨_, _, _, same, _⟩ => nomatch same⟩
  | open_ status fields => exact ⟨rfl, fun ⟨_, _, _, same, _⟩ => nomatch same⟩
  | chunked status fields body =>
    cases body with
    | line at_ trailer joined => cases found
    | data at_ size joined => cases found
    | done joined =>
      refine ⟨rfl, ?_⟩
      rintro ⟨_, _, _, same, long⟩
      cases same
      exact long

theorem result_of_fault (fault : Fault (answerReader word) LineTooLong c e) : result c = none := by
  rw [Option.eq_none_iff_forall_ne_some]
  intro answer found
  obtain ⟨waits, short⟩ := rests_of_result word found
  cases fault with
  | fails fails =>
    rw [waits] at fails
    cases fails
  | tooLong _ exceeds => exact short exceeds

theorem result_of_whole (word : WordSize) (whole : isWhole c = true) (more : Bytes) :
    result (c.1, c.2 ++ more) = result c ∧ (answerReader word).next (c.1, c.2 ++ more) = none := by
  obtain ⟨stage, rest⟩ := c
  cases stage with
  | head => cases whole
  | open_ status fields => cases whole
  | counted status fields length =>
    have enough : length ≤ rest.length := of_decide_eq_true whole
    have still : length ≤ (rest ++ more).length := by
      rw [length_append]
      exact Nat.le_add_right_of_le enough
    refine ⟨?_, rfl⟩
    dsimp only [result]
    rw [if_pos enough, if_pos still, take_append_of_le_length enough]
  | chunked status fields body =>
    cases body with
    | line at_ trailer joined => cases whole
    | data at_ size joined => cases whole
    | done joined => exact ⟨rfl, rfl⟩

def Overlong (word : WordSize) (start : Stage × Bytes) (bytes : Bytes) : Prop :=
  ∃ front back, bytes = front ++ back ∧
    ∃ c ∈ eval (answerReader word).next (start.1, start.2 ++ front), LineTooLong c ∧
    answerMove word c.1 c.2 = .wait

theorem feed_outcome (fits : a.Fits) (waits : answerMove word a.config.1 a.config.2 = .wait)
    {pieces : List Bytes}
    (small : (a.raw ++ pieces.flatten).length ≤ maxBody)
    (rests : c ∈ eval (answerReader word).next (a.config.1, a.config.2 ++ pieces.flatten)) :
    ((a.feed word pieces).bind Http1Answer.finish).toOption = result c ∨
      ((a.feed word pieces).bind Http1Answer.finish).toOption = none ∧
        Overlong word a.config pieces.flatten := by
  induction pieces generalizing a with
  | nil =>
    rw [flatten_nil, append_nil] at rests
    have here := mem_eval_self ((answerReader word).next_of_wait waits)
    obtain rfl := Part.mem_unique rests here
    exact .inl (Http1Answer.toOption_finish a)
  | cons piece pieces ih =>
    rw [flatten_cons] at small rests ⊢
    rw [← append_assoc] at small rests
    have first : (a.raw ++ piece).length ≤ maxBody := by
      rw [length_append] at small
      omega
    obtain ⟨c', rests', settles⟩ := Http1Answer.push_settles word fits first
    rw [Reader.eval_append rests'] at rests
    rw [Http1Answer.feed]
    rcases settles with ⟨e, fault, pushed⟩ | ⟨a', waits', short, fits', rfl, raw, pushed⟩
    · rw [pushed]
      cases fault with
      | fails fails =>
        -- the reader fails whatever comes later
        have fails' : (answerReader word).move c'.1 (c'.2 ++ pieces.flatten) = .fail e := by
          rwa [(answerReader word).stable (by simp [fails])]
        obtain rfl := Part.mem_unique rests (mem_eval_self ((answerReader word).next_of_fail fails'))
        exact .inl (result_of_fault (.fails fails')).symm
      | tooLong waits' exceeds => exact .inr ⟨rfl, piece, pieces.flatten, rfl, c', rests', exceeds, waits'⟩
    · rw [pushed]
      cases whole : isWhole a'.config with
      | true =>
        obtain ⟨same, still⟩ := result_of_whole word whole pieces.flatten
        obtain rfl := Part.mem_unique rests (mem_eval_self still)
        rw [same]
        exact .inl (Http1Answer.toOption_finish a')
      | false =>
        rw [← raw] at small
        rcases ih fits' waits' small rests with same | ⟨none_, front, back, split, c', rests'', exceeds⟩
        · exact .inl same
        · refine .inr ⟨none_, piece ++ front, back, by rw [split, append_assoc], c', ?_, exceeds⟩
          rwa [← append_assoc, Reader.eval_append rests']

theorem fits_new : ({} : Http1Answer).Fits := ⟨Nat.le_refl _, Nat.le_refl _, rfl⟩

variable {bytes : Bytes}

theorem answerOf_singleton (word : WordSize) (small : bytes.length ≤ maxBody) :
    ∃ c ∈ eval (answerReader word).next (.head, bytes), (answerOf word [bytes]).toOption = result c := by
  have small' : (({} : Http1Answer).raw ++ bytes).length ≤ maxBody := small
  obtain ⟨c, rests, settles⟩ := Http1Answer.push_settles word fits_new small'
  refine ⟨c, rests, ?_⟩
  rw [answerOf, Http1Answer.feed]
  rcases settles with ⟨e, fault, pushed⟩ | ⟨a', -, -, -, rfl, -, pushed⟩
  · rw [pushed, result_of_fault fault]
    rfl
  · rw [pushed]
    cases isWhole a'.config with
    | true => exact Http1Answer.toOption_finish a'
    | false => exact Http1Answer.toOption_finish a'

theorem answerOf_cut {front rest line : Bytes} {status : UInt16} {fields : FieldList} {at_ : Nat}
    {trailer : Bool}
    {joined : Bytes} (until_ : Until lineEnd line) (long : maxLine ≤ line.length)
    (takes : (answerReader word).Takes .head front (.chunked status fields (.line at_ trailer joined)))
    (small : (front ++ (line ++ [0x0d])).length ≤ maxBody) :
    answerOf word [front ++ (line ++ [0x0d]), rest] = .error (malformed "a line too long") := by
  have absent : position lineEnd (line ++ [0x0d]) = none := by
    have split : line ++ lineEnd = line ++ [0x0d] ++ [0x0a] := by simp [lineEnd, ascii]
    exact until_.position_part lineEnd_ne_nil split (cons_ne_nil _ _)
  have waits : (answerReader word).move (.chunked status fields (.line at_ trailer joined))
      (line ++ [0x0d]) = .wait :=
    Move.map_eq_wait.mpr (seek_eq_wait.mpr absent)
  have exceeds : LineTooLong (.chunked status fields (.line at_ trailer joined), line ++ [0x0d]) := by
    refine ⟨status, fields, _, rfl, ?_⟩
    change maxLine < (line ++ [0x0d]).length
    rw [length_append]
    exact Nat.lt_succ_of_le long
  have rests := mem_eval.mpr ⟨takes.reaches (line ++ [0x0d]), (answerReader word).next_of_wait waits⟩
  have small' : (({} : Http1Answer).raw ++ (front ++ (line ++ [0x0d]))).length ≤ maxBody := small
  obtain ⟨c, rests', settles⟩ := Http1Answer.push_settles word fits_new small'
  obtain rfl := Part.mem_unique rests' rests
  rw [answerOf, Http1Answer.feed]
  rcases settles with ⟨e, fault, pushed⟩ | ⟨_, -, short, -⟩
  · cases fault with
    | fails fails =>
      rw [waits] at fails
      cases fails
    | tooLong =>
      rw [pushed]
      rfl
  · exact absurd exceeds short

theorem answerOf_whole {lines : List Bytes}
    (small : bytes.length ≤ maxBody) (whole : ChunkedAnswer word bytes lines answer) :
    (answerOf word [bytes]).toOption = some answer := by
  obtain ⟨status, fields, joined⟩ := answer
  obtain ⟨⟨extra, reaches⟩, -⟩ := reaches_end whole small
  have still : (answerReader word).next (.chunked status fields (.done joined), extra) = none := rfl
  obtain ⟨c, rests, same⟩ := answerOf_singleton word small
  obtain rfl := Part.mem_unique rests (mem_eval.mpr ⟨reaches, still⟩)
  exact same

theorem answerOf_parted {line : Bytes} {lines : List Bytes}
    (small : bytes.length ≤ maxBody) (whole : ChunkedAnswer word bytes lines answer) (listed : line ∈ lines)
    (long : maxLine ≤ line.length) :
    ∃ front back, front ≠ [] ∧ back ≠ [] ∧ bytes = front ++ back ∧
      answerOf word [front, back] = .error (malformed "a line too long") := by
  obtain ⟨until_, front, rest, at_, trailer, joined, rfl, takes⟩ := (reaches_end whole small).2 line listed
  have ending : lineEnd = [0x0d, 0x0a] := rfl
  have split : front ++ (line ++ lineEnd ++ rest) = front ++ (line ++ [0x0d]) ++ 0x0a :: rest := by
    simp [ending]
  rw [split] at small ⊢
  refine ⟨front ++ (line ++ [0x0d]), 0x0a :: rest, by simp, by simp, rfl, answerOf_cut until_ long takes ?_⟩
  rw [length_append] at small
  omega

theorem chunked_of_reaches {c c' : Stage × Bytes} {status : UInt16} {fields : FieldList} {body : ChunkStage}
    (reaches : Reaches (answerReader word).next c c') (chunked : c.1 = .chunked status fields body) :
    ∃ body', c'.1 = .chunked status fields body' := by
  induction reaches with
  | refl => exact ⟨body, chunked⟩
  | @tail d d' _ moves ih =>
    obtain ⟨body', same⟩ := ih
    obtain ⟨stage, rest⟩ := d
    cases same
    obtain ⟨n, stage', goes, rfl⟩ := Reader.next_eq_some.mp moves
    obtain ⟨body'', -, rfl⟩ := Move.map_eq_go.mp goes
    exact ⟨body'', rfl⟩

theorem chunkedAnswer_of_overlong {c : Stage × Bytes}
    (rests : c ∈ eval (answerReader word).next (.head, bytes))
    (whole : result c ≠ none) (overlong : Overlong word (.head, []) bytes) :
    ∃ lines answer, ChunkedAnswer word bytes lines answer ∧ ∃ line ∈ lines, maxLine ≤ line.length := by
  obtain ⟨front, back, rfl, ⟨stage, rest⟩, rests', exceeds, waits⟩ := overlong
  obtain ⟨status, fields, body, rfl, long⟩ := exceeds
  cases body with
  | data at_ size joined => exact long.elim
  | done joined => exact long.elim
  | line at_ trailer joined =>
    have absent : position lineEnd rest = none := seek_eq_wait.mp (Move.map_eq_wait.mp waits)
    have comes : Reaches (answerReader word).next (.head, front ++ back)
        (.chunked status fields (.line at_ trailer joined), rest ++ back) :=
      Reader.reaches_append (mem_eval.mp rests').1 back
    rw [reaches_eval comes] at rests
    have through := (mem_eval.mp rests).1
    obtain ⟨stage, extra⟩ := c
    obtain ⟨body, rfl⟩ : ∃ body, stage = .chunked status fields body := chunked_of_reaches through rfl
    cases body with
    | line at_ trailer joined => exact absurd rfl whole
    | data at_ size joined => exact absurd rfl whole
    | done joined' =>
      obtain ⟨line, behind, lines, answer, split, until_, answers, listed⟩ :=
        chunkedAnswer_of_reaches comes through
      refine ⟨lines, answer, answers, line, listed, ?_⟩
      -- the line ends behind what had come of it
      by_contra short
      have found := until_.position lineEnd_ne_nil behind
      rw [← split] at found
      have two : lineEnd.length = 2 := rfl
      have inside : line.length + lineEnd.length ≤ rest.length := by
        have exceeds : maxLine < rest.length := long
        omega
      rw [position_left lineEnd_ne_nil found inside] at absent
      cases absent

end

/-- Whole or cut, the same is read of an answer, unless its body is chunked and a line of it is
    too long. -/
theorem answerOf_cut_iff (word : WordSize) (bytes : Bytes) (small : bytes.length ≤ maxBody) :
    (∀ pieces : List Bytes, (∀ piece ∈ pieces, piece ≠ []) → pieces.flatten = bytes →
        (answerOf word pieces).toOption = (answerOf word [bytes]).toOption) ↔
      ∀ lines answer, ChunkedAnswer word bytes lines answer → ∀ line ∈ lines, line.length < maxLine := by
  constructor
  · intro same lines answer whole line listed
    by_contra long
    obtain ⟨front, back, some_, some_', rfl, cut⟩ := answerOf_parted small whole listed (Nat.not_lt.mp long)
    have pieces := same [front, back] (by simp [some_, some_']) (by simp)
    rw [answerOf_whole small whole, cut] at pieces
    cases pieces
  · intro short pieces _ split
    subst split
    obtain ⟨c, rests, once⟩ := answerOf_singleton word small
    rw [once]
    rcases feed_outcome fits_new rfl small rests with same | ⟨none_, overlong⟩
    · exact same
    · by_cases whole : result c = none
      · rw [whole]
        exact none_
      · obtain ⟨lines, answer, answers, line, listed, long⟩ :=
          chunkedAnswer_of_overlong rests whole overlong
        exact absurd (short lines answer answers line listed) (Nat.not_lt.mpr long)

def helloAnswer : Bytes :=
  ascii "HTTP/1.1 200 OK\r\nTransfer-Encoding: chunked\r\n\r\n5\r\nhello\r\n0\r\n\r\n"

theorem answerOf_cut_hello :
    (∀ pieces : List Bytes, (∀ piece ∈ pieces, piece ≠ []) → pieces.flatten = helloAnswer →
        (answerOf .bits32 pieces).toOption = (answerOf .bits32 [helloAnswer]).toOption) ∧
      (answerOf .bits32 [helloAnswer]).toOption =
        some (200, [("Transfer-Encoding".toList, "chunked".toList)], ascii "hello") := by
  have small : helloAnswer.length ≤ maxBody := by decide
  refine ⟨(answerOf_cut_iff .bits32 helloAnswer small).mpr ?_, by decide +kernel⟩
  intro lines answer whole line listed
  have within := length_le_of_mem whole small listed
  have short : helloAnswer.length < maxLine := by decide
  omega

theorem long_field_refused :
    let front := ascii "HTTP/1.1 200 OK\r\nTransfer-Encoding: chunked" ++ headEnd ++ (ascii "0" ++ lineEnd)
    let field := List.replicate maxLine 0x61
    (answerOf .bits64 [front ++ (field ++ [0x0d]) ++ 0x0a :: lineEnd]).toOption =
        some (200, [("Transfer-Encoding".toList, "chunked".toList)], []) ∧
      answerOf .bits64 [front ++ (field ++ [0x0d]), 0x0a :: lineEnd] =
        .error (malformed "a line too long") := by
  intro front field
  let fields : FieldList := [("Transfer-Encoding".toList, "chunked".toList)]
  have ends : Until headEnd (ascii "HTTP/1.1 200 OK\r\nTransfer-Encoding: chunked") := by decide
  have read : http1Head (ascii "HTTP/1.1 200 OK\r\nTransfer-Encoding: chunked") =
      .ok (200, fields) := by rfl
  have zero : Until lineEnd (ascii "0") := by decide
  have exactly : field.length = maxLine := length_replicate
  have until_ : Until lineEnd field := until_of_not_mem fun member => by
    have same := eq_of_mem_replicate member
    revert same
    decide
  have length : (front ++ (field ++ [0x0d]) ++ 0x0a :: lineEnd).length =
      front.length + (maxLine + 1) + 3 := by
    have two : lineEnd.length = 2 := rfl
    simp only [length_append, length_cons, length_nil, exactly, two]
  have small : front.length + (maxLine + 1) + 3 ≤ maxBody := by decide
  constructor
  · have ending : lineEnd = [0x0d, 0x0a] := rfl
    have split : front ++ (field ++ [0x0d]) ++ 0x0a :: lineEnd =
        ascii "HTTP/1.1 200 OK\r\nTransfer-Encoding: chunked" ++ headEnd ++
          (ascii "0" ++ lineEnd ++ (field ++ lineEnd ++ lineEnd) ++ []) := by simp [front, ending]
    have some_ : field ≠ [] := ne_nil_of_length_pos (exactly ▸ by decide)
    rw [split] at length ⊢
    exact answerOf_whole (by omega)
      (.final ends read (by decide) (by rfl) (.last zero (by decide) (.field until_ some_ .last)))
  · have head : (answerReader .bits64).Takes .head _ (.chunked 200 fields (.line 0 false [])) :=
      takes_head ends (by rw [afterHead, read]; rfl)
    have last : (chunkReader .bits64).Takes (.line 0 false []) _ (.line 3 true []) := takes_line zero rfl
    refine answerOf_cut until_ exactly.ge (head.trans (takes_chunked 200 fields last)) ?_
    rw [length_append] at length
    omega

end Gozarbin.Https
