import Gozarbin.Https.Reading

/-! # A chunked body as it comes in

Each round of the loop of a `Dechunker` is one move of the stage that comes next, and the loop
ends where the reader rests. Only one thing is not the reader's: the loop fails when it leaves
a line unfinished and there is too much of it.
-/

namespace Gozarbin.Https

open List Text Search Resume StateTransition
open Account (AetherError)
open Masque (WordSize)

structure Dechunker.Fits (body : Bytes) (d : Dechunker) : Prop where
  at_le : d.at_ ≤ d.searched
  searched_le : d.searched ≤ body.length
  absent : position lineEnd ((body.drop d.at_).take (d.searched - d.at_)) = none
  ahead : d.data.isSome → d.trailer = false

def Dechunker.config (body : Bytes) (d : Dechunker) : ChunkStage × Bytes := (d.stage, body.drop d.at_)

/-- A line that has not ended is too long already. -/
def TooLong : ChunkStage × Bytes → Prop
  | (.line .., rest) => maxLine < rest.length
  | _ => False

inductive Fault {σ : Type} (r : Reader UInt8 σ AetherError) (long : σ × Bytes → Prop) (c : σ × Bytes) :
    AetherError → Prop where
  | fails {e : AetherError} (fails : r.move c.1 c.2 = .fail e) : Fault r long c e
  | tooLong (waits : r.move c.1 c.2 = .wait) (exceeds : long c) : Fault r long c (malformed "a line too long")

theorem Fault.rests {σ : Type} {r : Reader UInt8 σ AetherError} {long : σ × Bytes → Prop} {c : σ × Bytes}
    {e : AetherError} (fault : Fault r long c e) : r.next c = none := by
  cases fault with
  | fails fails => exact r.next_of_fail fails
  | tooLong waits => exact r.next_of_wait waits

namespace Dechunker

section
variable {word : WordSize} {body : Bytes} {d d' : Dechunker} {e : AetherError}

theorem Fits.append (fits : d.Fits body) (more : Bytes) : d.Fits (body ++ more) where
  at_le := fits.at_le
  searched_le := by
    rw [length_append]
    exact Nat.le_add_right_of_le fits.searched_le
  absent := by
    have inside : d.searched - d.at_ ≤ (body.drop d.at_).length := by
      rw [length_drop]
      exact Nat.sub_le_sub_right fits.searched_le _
    rw [drop_append_of_le_length (fits.at_le.trans fits.searched_le),
      take_append_of_le_length inside]
    exact fits.absent
  ahead := fits.ahead

theorem config_append (fits : d.Fits body) (more : Bytes) :
    d.config (body ++ more) = ((d.config body).1, (d.config body).2 ++ more) := by
  rw [config, config, drop_append_of_le_length (fits.at_le.trans fits.searched_le)]

theorem Fits.here (place : Nat) (inside : place ≤ body.length) (reached : d.at_ = place)
    (searched : d.searched = place)
    (ahead : d.data.isSome → d.trailer = false) : d.Fits body where
  at_le := by omega
  searched_le := by omega
  absent := by
    rw [searched, reached, Nat.sub_self, take_zero]
    rfl
  ahead := ahead

theorem lineRound_eq (fits : d.Fits body) :
    d.lineRound word body =
      match position lineEnd (body.drop d.at_) with
      | none =>
        if maxLine < (body.drop d.at_).length then .error (malformed "a line too long")
        else .ok (.wait { d with searched := body.length })
      | some n => d.takeLine word ((body.drop d.at_).take n) (d.at_ + n) := by
  have two : lineEnd.length - 1 = 1 := rfl
  have resumed := position_resume lineEnd_ne_nil fits.absent
  rw [two] at resumed
  rw [lineRound, resumed]
  cases position lineEnd (body.drop (max (d.searched - 1) d.at_)) with
  | none => simp only [Option.map_none, length_drop]
  | some offset =>
    have place : max (d.searched - 1) d.at_ + offset =
        d.at_ + (max (d.searched - 1) d.at_ - d.at_ + offset) := by
      omega
    rw [Option.map_some]
    dsimp only
    rw [place, Nat.add_sub_cancel_left]

inductive Agrees (word : WordSize) (body : Bytes) (d : Dechunker) :
    Except AetherError (Round Dechunker) → Prop where
  | fault {e : AetherError} (fault : Fault (chunkReader word) TooLong (d.config body) e) :
      Agrees word body d (.error e)
  | wait {d' : Dechunker} (waits : chunkMove word d.stage (body.drop d.at_) = .wait)
      (short : ¬ TooLong (d.config body)) (fits : d'.Fits body) (live : d'.done = false)
      (same : d'.config body = d.config body) : Agrees word body d (.ok (.wait d'))
  | again {d' : Dechunker} (moves : (chunkReader word).next (d.config body) = some (d'.config body))
      (fits : d'.Fits body) : Agrees word body d (.ok (.again d'))

theorem stage_data {size : Nat} (live : d.done = false) (data : d.data = some size) :
    d.stage = .data d.at_ size d.joined := by
  simp [stage, live, data]

theorem stage_line (live : d.done = false) (data : d.data = none) :
    d.stage = .line d.at_ d.trailer d.joined := by
  simp [stage, live, data]

theorem dataRound_agrees {size : Nat} (fits : d.Fits body) (live : d.done = false)
    (data : d.data = some size) :
    Agrees word body d (d.dataRound word body size) := by
  have before := fits.ahead (by simp [data])
  have inside : d.at_ ≤ body.length := fits.at_le.trans fits.searched_le
  have length : (body.drop d.at_).length = body.length - d.at_ := length_drop
  have ending : body.drop (d.at_ + size + 2 - 2) = (body.drop d.at_).drop size := by
    rw [drop_drop, Nat.add_sub_cancel]
  have at_stage := stage_data live data
  have move : chunkMove word d.stage (body.drop d.at_) = chunkMove word (.data d.at_ size d.joined)
      (body.drop d.at_) := by
    rw [at_stage]
  rw [chunkMove] at move
  rw [dataRound]
  split_ifs with large short broken
  · rw [if_pos large] at move
    exact .fault (.fails move)
  · rw [if_neg large, if_pos (by omega)] at move
    refine .wait move ?_ fits live rfl
    rw [config, at_stage]
    exact id
  · rw [if_neg large, if_neg (by omega), if_pos (by rwa [← ending])] at move
    exact .fault (.fails move)
  · rw [if_neg large, if_neg (by omega), if_neg (by rwa [← ending])] at move
    refine .again (((chunkReader word).next_of_go move).trans ?_)
      (.here (d.at_ + size + 2) (by omega) rfl rfl fun some_ => by cases some_)
    simp [config, stage, live, before, Nat.add_assoc]

theorem takeLine_agrees (live : d.done = false) (data : d.data = none) {n : Nat}
    (found : position lineEnd (body.drop d.at_) = some n) :
    Agrees word body d (d.takeLine word ((body.drop d.at_).take n) (d.at_ + n)) := by
  have two : lineEnd.length = 2 := rfl
  have bound := position_bound lineEnd_ne_nil found
  have length : ((body.drop d.at_).take n).length = n := length_take_of_le (by omega)
  have inside : d.at_ + n + 2 ≤ body.length := by
    rw [length_drop] at bound
    omega
  have move : chunkMove word (.line d.at_ d.trailer d.joined) (body.drop d.at_) = _ := seek_found found
  rw [← stage_line live data] at move
  generalize (body.drop d.at_).take n = line at *
  rw [afterLine, length, two] at move
  -- behind the line, with what it says
  have again {d' : Dechunker} (goes : chunkMove word d.stage (body.drop d.at_) = .go (n + 2) d'.stage)
      (reached : d'.at_ = d.at_ + n + 2) (searched : d'.searched = d.at_ + n + 2)
      (ahead : d'.data.isSome → d'.trailer = false) : Agrees word body d (.ok (.again d')) := by
    refine .again (((chunkReader word).next_of_go goes).trans ?_)
      (.here (d.at_ + n + 2) inside reached searched ahead)
    rw [config, reached, drop_drop, Nat.add_assoc]
  rw [takeLine]
  dsimp only at move ⊢
  split_ifs with trailer
  · rw [if_pos trailer] at move
    refine again (move.trans ?_) rfl rfl (by simp [data])
    simp [stage, data, trailer]
  · rw [if_neg trailer] at move
    cases size : chunkSize word line with
    | none =>
      rw [size] at move
      exact .fault (.fails move)
    | some size' =>
      rw [size] at move
      cases size' with
      | zero =>
        refine again (move.trans ?_) rfl rfl (by simp [data])
        simp [stage, live, data]
      | succ k =>
        refine again (move.trans ?_) rfl rfl (by simpa using trailer)
        simp [stage, live]

theorem lineRound_agrees (fits : d.Fits body) (live : d.done = false) (data : d.data = none) :
    Agrees word body d (d.lineRound word body) := by
  have at_stage := stage_line live data
  rw [lineRound_eq fits]
  cases found : position lineEnd (body.drop d.at_) with
  | some n => exact takeLine_agrees live data found
  | none =>
    have waits : chunkMove word d.stage (body.drop d.at_) = .wait := by
      rw [at_stage]
      exact seek_eq_wait.mpr found
    have long_iff : TooLong (d.config body) ↔ maxLine < (body.drop d.at_).length := by
      rw [config, at_stage]
      rfl
    split_ifs with long
    · exact .fault (.tooLong waits (long_iff.mpr long))
    · refine .wait waits (mt long_iff.mp long) ?_ live rfl
      have whole : (body.drop d.at_).take (body.length - d.at_) = body.drop d.at_ := by
        rw [← length_drop, take_length]
      exact ⟨fits.at_le.trans fits.searched_le, Nat.le_refl _, by rwa [whole], fits.ahead⟩

theorem round_agrees (word : WordSize) (fits : d.Fits body) (live : d.done = false) :
    Agrees word body d (d.round word body) := by
  rw [round]
  split
  next size data => exact dataRound_agrees fits live data
  next data => exact lineRound_agrees fits live data

theorem advance_rests (word : WordSize) (fits : d.Fits body) :
    ∃ c ∈ eval (chunkReader word).next (d.config body),
      (∃ e, Fault (chunkReader word) TooLong c e ∧ d.advance word body = .error e) ∨
        ∃ d', chunkMove word c.1 c.2 = .wait ∧ ¬ TooLong c ∧ d'.Fits body ∧ d'.config body = c ∧
          d.advance word body = .ok (d'.done, d') := by
  induction d using advance.induct word body with
  | case1 d done =>
    have at_stage : d.stage = .done d.joined := if_pos done
    have waits : chunkMove word d.stage (body.drop d.at_) = .wait := by
      rw [at_stage]
      rfl
    refine ⟨d.config body, mem_eval_self ((chunkReader word).next_of_wait waits),
      .inr ⟨d, waits, ?_, fits, rfl, ?_⟩⟩
    · rw [config, at_stage]
      exact id
    · rw [advance, if_pos done, done]
  | case2 d live e failed =>
    have agrees := round_agrees word fits (by simpa using live)
    rw [failed] at agrees
    cases agrees with
    | fault fault =>
      refine ⟨d.config body, mem_eval_self fault.rests, .inl ⟨e, fault, ?_⟩⟩
      rw [advance, if_neg live, failed]
  | case3 d live d' waits =>
    have agrees := round_agrees word fits (by simpa using live)
    rw [waits] at agrees
    cases agrees with
    | wait still short fits' live' same =>
      refine ⟨d.config body, mem_eval_self ((chunkReader word).next_of_wait still),
        .inr ⟨d', still, short, fits', same, ?_⟩⟩
      rw [advance, if_neg live, waits, live']
  | case4 d live d' again ih =>
    have agrees := round_agrees word fits (by simpa using live)
    rw [again] at agrees
    cases agrees with
    | again moves fits' =>
      obtain ⟨c, rests, outcome⟩ := ih fits'
      refine ⟨c, mem_eval_step moves rests, ?_⟩
      rw [advance, if_neg live, again]
      exact outcome

end

end Dechunker

end Gozarbin.Https
