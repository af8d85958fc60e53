import Gozarbin.Https.Answer
import Gozarbin.Lib.Resume

/-! # The stages of an answer

What `Http1Answer` does with the bytes depends on what comes next of the answer, and on what
has come and was not taken yet; how far it has searched is forgotten here. A stage waits,
fails or goes on whatever comes later.
-/

namespace Gozarbin.Https

open Text Search Resume StateTransition
open Account (AetherError)
open Masque (WordSize)

inductive ChunkStage where
  | line (at_ : Nat) (trailer : Bool) (joined : Bytes)
  | data (at_ size : Nat) (joined : Bytes)
  | done (joined : Bytes)

def afterLine (word : WordSize) (at_ : Nat) (trailer : Bool) (joined line : Bytes) :
    Except AetherError ChunkStage :=
  let at_ := at_ + line.length + 2
  if trailer then .ok (if line.isEmpty then .done joined else .line at_ true joined)
  else
    match chunkSize word line with
    | none => .error (malformed "a bad chunk size")
    | some 0 => .ok (.line at_ true joined)
    | some size => .ok (.data at_ size joined)

def chunkMove (word : WordSize) : ChunkStage → Bytes → Move ChunkStage AetherError
  | .line at_ trailer joined, rest => seek lineEnd (afterLine word at_ trailer joined) rest
  | .data at_ size joined, rest =>
    if 2 ^ word.bits ≤ at_ + size + 2 then .fail (malformed "a chunk too large")
    else if rest.length < size + 2 then .wait
    else if (rest.drop size).take 2 ≠ lineEnd then .fail (malformed "no line end after a chunk")
    else .go (size + 2) (.line (at_ + size + 2) false (joined ++ rest.take size))
  | .done _, _ => .wait

inductive Stage where
  | head
  | counted (status : UInt16) (fields : FieldList) (length : Nat)
  | open_ (status : UInt16) (fields : FieldList)
  | chunked (status : UInt16) (fields : FieldList) (body : ChunkStage)

def Dechunker.stage (d : Dechunker) : ChunkStage :=
  if d.done then .done d.joined
  else
    match d.data with
    | some size => .data d.at_ size d.joined
    | none => .line d.at_ d.trailer d.joined

def Framing.stage (status : UInt16) (fields : FieldList) : Framing → Stage
  | .length n => .counted status fields n
  | .close => .open_ status fields
  | .chunked dechunker => .chunked status fields dechunker.stage

def afterHead (word : WordSize) (head : Bytes) : Except AetherError Stage :=
  match http1Head head with
  | .error e => .error e
  | .ok (status, fields) =>
    if isInterim status then .ok .head else (framing word status fields).map (Framing.stage status fields)

def answerMove (word : WordSize) : Stage → Bytes → Move Stage AetherError
  | .head, rest => seek headEnd (afterHead word) rest
  | .chunked status fields body, rest => (chunkMove word body rest).map (.chunked status fields)
  | _, _ => .wait

section
variable {word : WordSize} {s : ChunkStage} {rest : Bytes} {n : Nat}

theorem lineEnd_ne_nil : lineEnd ≠ [] := by decide
theorem headEnd_ne_nil : headEnd ≠ [] := by decide

theorem chunkMove_taken {s' : ChunkStage} (goes : chunkMove word s rest = .go n s') : n ≤ rest.length := by
  cases s with
  | line at_ trailer joined => exact seek_taken lineEnd_ne_nil goes
  | data at_ size joined =>
    rw [chunkMove] at goes
    split_ifs at goes
    cases goes
    omega
  | done joined => cases goes

theorem chunkMove_append (moves : chunkMove word s rest ≠ .wait) (more : Bytes) :
    chunkMove word s (rest ++ more) = chunkMove word s rest := by
  cases s with
  | line at_ trailer joined => exact seek_append lineEnd_ne_nil moves more
  | data at_ size joined =>
    rw [chunkMove] at moves ⊢
    rw [chunkMove]
    by_cases large : 2 ^ word.bits ≤ at_ + size + 2
    · rw [if_pos large, if_pos large]
    · by_cases short : rest.length < size + 2
      · rw [if_neg large, if_pos short] at moves
        exact absurd rfl moves
      · have inside : size ≤ rest.length := by omega
        have two : 2 ≤ (rest.drop size).length := by
          rw [List.length_drop]
          omega
        have still : ¬ (rest ++ more).length < size + 2 := by
          rw [List.length_append]
          omega
        rw [if_neg large, if_neg large, if_neg short, if_neg still, List.drop_append_of_le_length inside,
          List.take_append_of_le_length two, List.take_append_of_le_length inside]
  | done joined => exact absurd rfl moves

end

def chunkReader (word : WordSize) : Reader UInt8 ChunkStage AetherError where
  move := chunkMove word
  taken_le := chunkMove_taken
  stable := chunkMove_append

section
variable {word : WordSize} {s s' : Stage} {rest : Bytes} {n : Nat}

theorem answerMove_taken (goes : answerMove word s rest = .go n s') : n ≤ rest.length := by
  cases s with
  | head => exact seek_taken headEnd_ne_nil goes
  | chunked status fields body =>
    obtain ⟨_, chunk, -⟩ := Move.map_eq_go.mp goes
    exact chunkMove_taken chunk
  | counted status fields length => cases goes
  | open_ status fields => cases goes

theorem answerMove_append (moves : answerMove word s rest ≠ .wait) (more : Bytes) :
    answerMove word s (rest ++ more) = answerMove word s rest := by
  cases s with
  | head => exact seek_append headEnd_ne_nil moves more
  | chunked status fields body =>
    have still := chunkMove_append (mt Move.map_eq_wait.mpr moves) more
    rw [answerMove, still, answerMove]
  | counted status fields length => exact absurd rfl moves
  | open_ status fields => exact absurd rfl moves

end

def answerReader (word : WordSize) : Reader UInt8 Stage AetherError where
  move := answerMove word
  taken_le := answerMove_taken
  stable := answerMove_append

end Gozarbin.Https
