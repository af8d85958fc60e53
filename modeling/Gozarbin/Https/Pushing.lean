import Gozarbin.Https.Dechunking

/-! # What a push does

The loop over the heads moves as the reader does, and so does the loop over the body. So a push
leaves the answer where the reader rests, or fails there.
-/

namespace Gozarbin.Https

open List Text Search Resume StateTransition
open Account (AetherError)
open Masque (WordSize)

/-- The head has not ended in what was searched. -/
structure Http1Answer.Seeking (a : Http1Answer) : Prop where
  start_le : a.headStart ≤ a.searched
  searched_le : a.searched ≤ a.raw.length
  absent : position headEnd ((a.raw.drop a.headStart).take (a.searched - a.headStart)) = none

structure Http1Head.Fits (raw : Bytes) (h : Http1Head) : Prop where
  start_le : h.bodyStart ≤ raw.length
  chunks {d : Dechunker} (chunked : h.framing = .chunked d) : d.Fits (raw.drop h.bodyStart)

def Http1Answer.Fits (a : Http1Answer) : Prop :=
  match a.head with
  | none => a.Seeking
  | some h => h.Fits a.raw

def Http1Head.config (raw : Bytes) (h : Http1Head) : Stage × Bytes :=
  (h.framing.stage h.status h.fields,
    match h.framing with
    | .chunked d => (raw.drop h.bodyStart).drop d.at_
    | _ => raw.drop h.bodyStart)

def Http1Answer.config (a : Http1Answer) : Stage × Bytes :=
  match a.head with
  | none => (.head, a.raw.drop a.headStart)
  | some h => h.config a.raw

def LineTooLong (c : Stage × Bytes) : Prop :=
  ∃ status fields body, c.1 = .chunked status fields body ∧ TooLong (body, c.2)

def isWhole : Stage × Bytes → Bool
  | (.counted _ _ length, rest) => length ≤ rest.length
  | (.chunked _ _ (.done _), _) => true
  | _ => false

def result : Stage × Bytes → Option (UInt16 × FieldList × Bytes)
  | (.counted status fields length, rest) =>
    if length ≤ rest.length then some (status, fields, rest.take length) else none
  | (.open_ status fields, rest) => some (status, fields, rest)
  | (.chunked status fields (.done joined), _) => some (status, fields, joined)
  | _ => none

namespace Http1Answer

section
variable {word : WordSize} {a a' : Http1Answer} {e : AetherError}

theorem toOption_finish (a : Http1Answer) : a.finish.toOption = result a.config := by
  rw [finish, config]
  cases a.head with
  | none => rfl
  | some h =>
    obtain ⟨status, fields, start, framing⟩ := h
    cases framing with
    | length n =>
      dsimp only [Http1Head.config, Framing.stage, result]
      by_cases short : (a.raw.drop start).length < n
      · rw [if_pos short, if_neg (Nat.not_le.mpr short)]
        rfl
      · rw [if_neg short, if_pos (Nat.not_lt.mp short)]
        rfl
    | close => rfl
    | chunked d =>
      dsimp only [Http1Head.config, Framing.stage]
      rw [Dechunker.finish, Dechunker.stage]
      split_ifs with done
      · rfl
      · split <;> rfl

theorem Fits.append (fits : a.Fits) (more : Bytes) :
    { a with raw := a.raw ++ more }.Fits ∧
      { a with raw := a.raw ++ more }.config = (a.config.1, a.config.2 ++ more) := by
  obtain ⟨raw, headStart, searched, head⟩ := a
  cases head with
  | none =>
    obtain ⟨start_le, searched_le, absent⟩ : Seeking _ := fits
    have inside : searched - headStart ≤ (raw.drop headStart).length := by
      rw [length_drop]
      exact Nat.sub_le_sub_right searched_le _
    have appended : (raw ++ more).drop headStart = raw.drop headStart ++ more :=
      drop_append_of_le_length (start_le.trans searched_le)
    refine ⟨⟨start_le, ?_, ?_⟩, congrArg _ appended⟩
    · exact searched_le.trans (by simp)
    · dsimp only
      rwa [appended, take_append_of_le_length inside]
  | some h =>
    obtain ⟨start_le, chunks⟩ : h.Fits raw := fits
    have appended : (raw ++ more).drop h.bodyStart = raw.drop h.bodyStart ++ more :=
      drop_append_of_le_length start_le
    refine ⟨⟨start_le.trans (by simp), fun chunked => ?_⟩, ?_⟩
    · dsimp only
      rw [appended]
      exact (chunks chunked).append more
    · obtain ⟨status, fields, start, framing⟩ := h
      cases framing with
      | chunked d =>
        have later := congrArg Prod.snd (Dechunker.config_append (chunks rfl) more)
        rw [← appended] at later
        exact congrArg (Prod.mk _) later
      | length n => exact congrArg _ appended
      | close => exact congrArg _ appended

inductive Agrees (word : WordSize) (a : Http1Answer) : Except AetherError (Round Http1Answer) → Prop where
  | fails {e : AetherError} (fails : answerMove word .head (a.raw.drop a.headStart) = .fail e) :
      Agrees word a (.error e)
  | wait {a' : Http1Answer} (waits : answerMove word .head (a.raw.drop a.headStart) = .wait)
      (fits : a'.Fits)
      (none_ : a'.head = none) (raw : a'.raw = a.raw)
      (same : a'.config = a.config) : Agrees word a (.ok (.wait a'))
  | again {a' : Http1Answer} (moves : (answerReader word).next a.config = some a'.config) (fits : a'.Fits)
      (raw : a'.raw = a.raw) : Agrees word a (.ok (.again a'))

theorem headRound_eq (seeking : a.Seeking) :
    a.headRound word =
      match position headEnd (a.raw.drop a.headStart) with
      | none => .ok (.wait { a with searched := a.raw.length })
      | some n => a.takeHead word ((a.raw.drop a.headStart).take n) (a.headStart + n) := by
  have three : headEnd.length - 1 = 3 := rfl
  have resumed := position_resume headEnd_ne_nil seeking.absent
  rw [three] at resumed
  rw [headRound, resumed]
  cases position headEnd (a.raw.drop (max (a.searched - 3) a.headStart)) with
  | none => rfl
  | some offset =>
    have place : max (a.searched - 3) a.headStart + offset =
        a.headStart + (max (a.searched - 3) a.headStart - a.headStart + offset) := by
      omega
    rw [Option.map_some]
    dsimp only
    rw [place, Nat.add_sub_cancel_left]

theorem framing_fresh {status : UInt16} {fields : FieldList} {d : Dechunker}
    (framed : framing word status fields = .ok (.chunked d)) : d = {} := by
  rw [framing] at framed
  split_ifs at framed
  · cases framed
  · cases framed
    rfl
  · split at framed
    · cases framed
    · split at framed <;> cases framed

theorem takeHead_agrees (none_ : a.head = none) {n : Nat}
    (found : position headEnd (a.raw.drop a.headStart) = some n) :
    Agrees word a (a.takeHead word ((a.raw.drop a.headStart).take n) (a.headStart + n)) := by
  have four : headEnd.length = 4 := rfl
  have bound := position_bound headEnd_ne_nil found
  have inside : a.headStart + n + 4 ≤ a.raw.length := by
    rw [length_drop] at bound
    omega
  have at_head : a.config = (.head, a.raw.drop a.headStart) := by rw [config, none_]
  have move : answerMove word .head (a.raw.drop a.headStart) = _ := seek_found found
  rw [afterHead, four] at move
  have goes {s : Stage} (goes : (answerReader word).move .head (a.raw.drop a.headStart) = .go (n + 4) s) :
      (answerReader word).next a.config = some (s, a.raw.drop (a.headStart + n + 4)) := by
    rw [at_head]
    refine ((answerReader word).next_of_go goes).trans ?_
    rw [drop_drop, Nat.add_assoc]
  rw [takeHead]
  cases read : http1Head ((a.raw.drop a.headStart).take n) with
  | error e =>
    rw [read] at move
    exact .fails move
  | ok pair =>
    obtain ⟨status, fields⟩ := pair
    rw [read] at move
    dsimp only at move ⊢
    split_ifs with interim
    · rw [if_pos interim] at move
      refine .again ((goes move).trans ?_) ?_ rfl
      · rw [config, none_]
      · rw [Fits, none_]
        refine ⟨Nat.le_refl _, inside, ?_⟩
        rw [Nat.sub_self, take_zero]
        rfl
    · rw [if_neg interim] at move
      cases framed : framing word status fields with
      | error e =>
        rw [framed] at move
        exact .fails move
      | ok framing =>
        rw [framed] at move
        refine .again ((goes move).trans ?_) ?_ rfl
        · cases framing with
          | chunked d =>
            obtain rfl := framing_fresh framed
            rfl
          | length n => rfl
          | close => rfl
        · refine ⟨inside, fun chunked => ?_⟩
          obtain rfl : framing = _ := chunked
          obtain rfl := framing_fresh framed
          exact .here 0 (Nat.zero_le _) rfl rfl fun some_ => by cases some_

theorem headRound_agrees (word : WordSize) (seeking : a.Seeking) (none_ : a.head = none) :
    Agrees word a (a.headRound word) := by
  rw [headRound_eq seeking]
  cases found : position headEnd (a.raw.drop a.headStart) with
  | some n => exact takeHead_agrees none_ found
  | none =>
    have whole : (a.raw.drop a.headStart).take (a.raw.length - a.headStart) = a.raw.drop a.headStart := by
      rw [← length_drop, take_length]
    refine .wait (seek_eq_wait.mpr found) ?_ none_ rfl ?_
    · rw [Fits, none_]
      exact ⟨seeking.start_le.trans seeking.searched_le, Nat.le_refl _, by rwa [whole]⟩
    · rw [config, config, none_]

theorem seekHead_some {head : Http1Head} (found : a.head = some head) :
    a.seekHead word = .ok (a, a.head) := by
  rw [seekHead]
  split
  next head' found' => rw [found']
  next none_ => simp [found] at none_

theorem seekHead_none (none_ : a.head = none) :
    a.seekHead word =
      match a.headRound word with
      | .error e => .error e
      | .ok (.wait a) => .ok (a, none)
      | .ok (.again a) => a.seekHead word := by
  rw [seekHead]
  split
  next head found => simp [found] at none_
  next =>
    split
    next failed => rw [failed]
    next waits => rw [waits]
    next again => rw [again]

theorem seekHead_reaches (fits : a.Fits) :
    (∃ e c, Reaches (answerReader word).next a.config c ∧ answerMove word c.1 c.2 = .fail e ∧
        a.seekHead word = .error e) ∨
      ∃ a', Reaches (answerReader word).next a.config a'.config ∧ a'.Fits ∧ a'.raw = a.raw ∧
        (a'.head = none → answerMove word a'.config.1 a'.config.2 = .wait) ∧
        a.seekHead word = .ok (a', a'.head) := by
  induction a using seekHead.induct word with
  | case1 a head found =>
    exact .inr ⟨a, .refl, fits, rfl, fun none_ => by simp [found] at none_, seekHead_some found⟩
  | case2 a none_ e failed =>
    have agrees := headRound_agrees word (by simpa [Fits, none_] using fits) none_
    rw [failed] at agrees
    cases agrees with
    | fails fails =>
      refine .inl ⟨e, a.config, .refl, ?_, ?_⟩
      · rw [config, none_]
        exact fails
      · rw [seekHead_none none_, failed]
  | case3 a none_ a' waits =>
    have agrees := headRound_agrees word (by simpa [Fits, none_] using fits) none_
    rw [waits] at agrees
    cases agrees with
    | wait still fits' none' raw same =>
      refine .inr ⟨a', same ▸ .refl, fits', raw, fun _ => ?_, ?_⟩
      · rw [same, config, none_]
        exact still
      · rw [seekHead_none none_, waits, none']
  | case4 a none_ a' again ih =>
    have agrees := headRound_agrees word (by simpa [Fits, none_] using fits) none_
    rw [again] at agrees
    cases agrees with
    | again moves fits' raw =>
      rw [seekHead_none none_, again]
      rcases ih fits' with ⟨e, c, reaches, fails, same⟩ | ⟨a'', reaches, fits'', raw', waits, same⟩
      · exact .inl ⟨e, c, .head moves reaches, fails, same⟩
      · exact .inr ⟨a'', .head moves reaches, fits'', raw'.trans raw, waits, same⟩

theorem next_chunked (status : UInt16) (fields : FieldList) {c c' : ChunkStage × Bytes}
    (moves : (chunkReader word).next c = some c') :
    (answerReader word).next (.chunked status fields c.1, c.2) =
      some (.chunked status fields c'.1, c'.2) := by
  obtain ⟨n, s', goes, rfl⟩ := Reader.next_eq_some.mp moves
  exact (answerReader word).next_of_go (Move.map_eq_go.mpr ⟨s', goes, rfl⟩)

theorem fault_chunked {status : UInt16} {fields : FieldList} {c : ChunkStage × Bytes}
    (fault : Fault (chunkReader word) TooLong c e) :
    Fault (answerReader word) LineTooLong (.chunked status fields c.1, c.2) e := by
  cases fault with
  | fails fails =>
    have move : chunkMove word c.1 c.2 = .fail e := fails
    refine .fails ?_
    change (chunkMove word c.1 c.2).map _ = _
    rw [move]
    rfl
  | tooLong waits long => exact .tooLong (Move.map_eq_wait.mpr waits) ⟨status, fields, c.1, rfl, long⟩

theorem isWhole_chunked (status : UInt16) (fields : FieldList) (d : Dechunker) (rest : Bytes) :
    isWhole (.chunked status fields d.stage, rest) = d.done := by
  cases done : d.done with
  | true =>
    rw [Dechunker.stage, if_pos done]
    rfl
  | false =>
    cases data : d.data with
    | none => rw [Dechunker.stage_line done data]; rfl
    | some size => rw [Dechunker.stage_data done data]; rfl

/-- What a push comes to, where the reader rests. -/
def Settles (word : WordSize) (raw : Bytes) (c : Stage × Bytes)
    (pushed : Except AetherError (Bool × Http1Answer)) : Prop :=
  (∃ e, Fault (answerReader word) LineTooLong c e ∧ pushed = .error e) ∨
    ∃ a, answerMove word c.1 c.2 = .wait ∧ ¬ LineTooLong c ∧ a.Fits ∧ a.config = c ∧ a.raw = raw ∧
      pushed = .ok (isWhole c, a)

theorem readBody_settles (fits : a.Fits)
    (waits : a.head = none → answerMove word a.config.1 a.config.2 = .wait) :
    ∃ c ∈ eval (answerReader word).next a.config, Settles word a.raw c (a.readBody word a.head) := by
  -- where the reader has nothing to do
  have resting (still : answerMove word a.config.1 a.config.2 = .wait)
      (plain : ∀ status fields body, a.config.1 ≠ .chunked status fields body)
      (read : a.readBody word a.head = .ok (isWhole a.config, a)) :
      ∃ c ∈ eval (answerReader word).next a.config, Settles word a.raw c (a.readBody word a.head) := by
    refine ⟨a.config, mem_eval_self ((answerReader word).next_of_wait still),
      .inr ⟨a, still, ?_, fits, rfl, rfl, read⟩⟩
    rintro ⟨status, fields, body, same, -⟩
    exact plain status fields body same
  obtain ⟨raw, headStart, searched, head⟩ := a
  cases head with
  | none => exact resting (waits rfl) nofun rfl
  | some h =>
    obtain ⟨status, fields, start, framing⟩ := h
    cases framing with
    | length n => exact resting rfl nofun rfl
    | close => exact resting rfl nofun rfl
    | chunked d =>
      obtain ⟨start_le, chunks⟩ : Http1Head.Fits raw _ := fits
      obtain ⟨c, rests, outcome⟩ := Dechunker.advance_rests word (chunks rfl)
      obtain ⟨reaches, still⟩ := mem_eval.mp rests
      have reaches' : Reaches (answerReader word).next
          (.chunked status fields d.stage, (raw.drop start).drop d.at_)
          (.chunked status fields c.1, c.2) :=
        reaches_map (fun c => (Stage.chunked status fields c.1, c.2))
          (next_chunked status fields) reaches
      rcases outcome with ⟨e, fault, failed⟩ | ⟨d', waits', short, fits', rfl, advanced⟩
      · refine ⟨_, mem_eval.mpr ⟨reaches', (fault_chunked fault).rests⟩,
          .inl ⟨e, fault_chunked fault, ?_⟩⟩
        rw [readBody]
        dsimp only
        rw [failed]
      · have still' : answerMove word (.chunked status fields d'.stage)
            ((raw.drop start).drop d'.at_) = .wait :=
          Move.map_eq_wait.mpr waits'
        refine ⟨_, mem_eval.mpr ⟨reaches', (answerReader word).next_of_wait still'⟩,
          .inr ⟨⟨raw, headStart, searched, some ⟨status, fields, start, .chunked d'⟩⟩,
            still', ?_, ?_, rfl, rfl, ?_⟩⟩
        · rintro ⟨_, _, _, same, long⟩
          cases same
          exact short long
        · refine ⟨start_le, fun same => ?_⟩
          cases same
          exact fits'
        · have whole := isWhole_chunked status fields d' ((raw.drop start).drop d'.at_)
          rw [readBody]
          dsimp only [Dechunker.config]
          rw [advanced, whole]

theorem push_settles (word : WordSize) (fits : a.Fits) {bytes : Bytes}
    (small : (a.raw ++ bytes).length ≤ maxBody) :
    ∃ c ∈ eval (answerReader word).next (a.config.1, a.config.2 ++ bytes),
      Settles word (a.raw ++ bytes) c (a.push word bytes) := by
  obtain ⟨fits', start⟩ := fits.append bytes
  rw [← start, push]
  rw [if_neg (Nat.not_lt.mpr small)]
  rcases seekHead_reaches fits' with
    ⟨e, c, reaches, fails, failed⟩ | ⟨a', reaches, fits'', raw, waits, sought⟩
  · refine ⟨c, mem_eval.mpr ⟨reaches, (answerReader word).next_of_fail fails⟩, .inl ⟨e, .fails fails, ?_⟩⟩
    rw [failed]
  · have settles := readBody_settles fits'' waits
    rw [raw] at settles
    rw [sought, reaches_eval reaches]
    exact settles

end

end Http1Answer

end Gozarbin.Https
