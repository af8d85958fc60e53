import Gozarbin.Lib.Copies
import Gozarbin.Lib.Json
import Gozarbin.Net.Addr
import Mathlib.Data.Option.Basic

/-! # Differential updates: the plan

`package_chunks.py` cuts a package into chunks and publishes their offsets, lengths and hashes.
`delta-plan.uc` compares the manifests of a new package and of the one in the cache, and plans
which ranges to copy and which to download. The hash is a parameter.
-/

namespace Gozarbin.Update

open Copies

def minChunk : Nat := 65536
def maxChunk : Nat := 1048576
def boundary : Bytes := [0xb7, 0x3a]

def latestEnd (data : Bytes) (offset : Nat) : Nat :=
  if offset + maxChunk ≤ data.length then offset + maxChunk else data.length

def endFrom (data : Bytes) (start latest : Nat) : Nat :=
  (find? boundary (slice start (latest - start) data)).elim latest fun marker =>
    start + marker + boundary.length

def chunkEnd (data : Bytes) (offset : Nat) : Nat :=
  endFrom data (offset + minChunk) (latestEnd data offset)

variable {data : Bytes} {offset : Nat}

theorem latestEnd_bounds (inside : offset < data.length) :
    offset < latestEnd data offset ∧ latestEnd data offset ≤ data.length := by
  have some_length : 0 < maxChunk := by simp [maxChunk]
  rw [latestEnd]
  split <;> omega

variable {start : Nat}

theorem endFrom_bounds {latest : Nat} (later : offset ≤ start)
    (after : offset < latest) (inside : latest ≤ data.length) :
    offset < endFrom data start latest ∧ endFrom data start latest ≤ data.length := by
  rw [endFrom]
  cases found : find? boundary (slice start (latest - start) data) with
  | none => exact ⟨after, inside⟩
  | some marker =>
    have fits := add_length_le_of_find? found
    have some_length : 0 < boundary.length := by decide
    rw [slice, List.length_take, List.length_drop] at fits
    simp only [Option.elim]
    omega

theorem chunkEnd_bounds (inside : offset < data.length) :
    offset < chunkEnd data offset ∧ chunkEnd data offset ≤ data.length := by
  obtain ⟨after, latest⟩ := latestEnd_bounds inside
  exact endFrom_bounds (Nat.le_add_right offset minChunk) after latest

def boundaries (data : Bytes) (offset : Nat) : List (Nat × Nat) :=
  if _inside : offset < data.length then
    (offset, chunkEnd data offset) :: boundaries data (chunkEnd data offset)
  else []
termination_by data.length - offset
decreasing_by
  have := chunkEnd_bounds _inside
  omega

section Hash

variable (sha256 : Bytes → Text)

def index (name : Text) (data : Bytes) : Option Json :=
  if data.length = 0 ∨ 134217728 < data.length then none
  else
    some (.object [
      ("format".toList, .int 1),
      ("name".toList, .string name),
      ("size".toList, .int data.length),
      ("sha256".toList, .string (sha256 data)),
      ("chunks".toList, .array ((boundaries data 0).map fun (offset, stop) =>
        .array [.int offset, .int (stop - offset : Nat),
          .string (sha256 (slice offset (stop - offset) data))]))])

end Hash

structure Chunk where
  offset : Nat
  length : Nat
  hash : Text

structure Manifest where
  name : Text
  sha256 : Text
  size : Nat
  chunks : List Chunk

def isHex64 (text : Text) : Bool :=
  text.length = 64 && text.all fun c => c.isDigit || ('a' ≤ c && c ≤ 'f')

def isNameChar (c : Char) : Bool := c.isAlphanum || c = '_' || c = '.' || c = '+' || c = '-'

def isPackageName (text : Text) : Bool :=
  [".apk".toList, ".ipk".toList, ".tar.gz".toList].any fun ending =>
    (Text.stripEnd ending text).any fun stem => stem ≠ [] && stem.all isNameChar

def readChunk (start : Nat) : Json → Option Chunk
  | .array [.int offset, .int length, .string hash] =>
    if offset = start ∧ 1 ≤ length ∧ length ≤ 1048576 ∧ isHex64 hash then
      some ⟨start, length.toNat, hash⟩
    else none
  | _ => none

def readChunks : (start : Nat) → List Json → Option (List Chunk × Nat)
  | start, [] => some ([], start)
  | start, item :: rest => do
      let chunk ← readChunk start item
      let (chunks, stop) ← readChunks (start + chunk.length) rest
      some (chunk :: chunks, stop)

def valid (isOne : Json → Bool) (json : Json) : Option Manifest := do
  guard ((json.get "format".toList).any isOne)
  let name ← (json.get "name".toList).bind Json.asStr
  guard (isPackageName name)
  let sha256 ← (json.get "sha256".toList).bind Json.asStr
  guard (isHex64 sha256)
  let size ← (json.get "size".toList).bind Json.asInt
  guard (1 ≤ size ∧ size ≤ 134217728)
  let items ← (json.get "chunks".toList).bind Json.asArray
  guard (items ≠ [] ∧ items.length ≤ 2048)
  let (chunks, stop) ← readChunks 0 items
  guard (stop = size)
  some ⟨name, sha256, size.toNat, chunks⟩

/-- `local` is the cache. -/
inductive Source where
  | cache
  | remote
  deriving DecidableEq

def prior (previous : List Chunk) (hash : Text) : Option Chunk :=
  previous.reverse.find? (·.hash = hash)

def opFor (previous : List Chunk) (chunk : Chunk) : Op Source :=
  match (prior previous chunk.hash).filter (·.length = chunk.length) with
  | some old => ⟨.cache, old.offset, chunk.length⟩
  | none => ⟨.remote, chunk.offset, chunk.length⟩

def operations (target previous : List Chunk) : List (Op Source) :=
  target.foldl (fun ops chunk => push ops (opFor previous chunk)) []

def reused (target previous : List Chunk) : Nat :=
  target.foldl (fun sum chunk =>
    if (opFor previous chunk).source = .cache then sum + chunk.length else sum) 0

/-- Why the script ends without a result. -/
inductive Refusal where
  | exception
  | target
  | previous
  | costly

def readTarget (isOne : Json → Bool) (target : Option Json) (name expected : Text) :
    Except Refusal Manifest :=
  match target with
  | none => .error .exception
  | some json =>
    match valid isOne json with
    | none => .error .target
    | some manifest =>
      if manifest.name ≠ name ∨ manifest.sha256 ≠ expected then .error .target else .ok manifest

def plan (isOne : Json → Bool) (target previous : Option Json) (name expected : Text) :
    Except Refusal (List (Op Source)) :=
  match readTarget isOne target name expected, previous with
  | .error refusal, _ => .error refusal
  | .ok _, none => .error .exception
  | .ok manifest, some json =>
    match valid isOne json with
    | none => .error .previous
    | some old =>
      let ops := operations manifest.chunks old.chunks
      let reused := reused manifest.chunks old.chunks
      if reused < 65536 ∨ reused * 4 < manifest.size ∨ 128 < ops.length then .error .costly
      else .ok ops

/-- What `valid` has read of a document. -/
structure Reads (json : Json) (manifest : Manifest) : Prop where
  sha256 : json.get "sha256".toList = some (.string manifest.sha256)
  size : json.get "size".toList = some (.int manifest.size)
  chunks : ∃ items stop, json.get "chunks".toList = some (.array items) ∧
    readChunks 0 items = some (manifest.chunks, stop)

variable {isOne : Json → Bool} {manifest : Manifest}

theorem reads_of_valid {json : Json}
    (accepted : valid isOne json = some manifest) : Reads json manifest := by
  simp only [valid, Option.bind_eq_bind, Option.bind_eq_some_iff, Option.guard_eq_some'] at accepted
  obtain ⟨-, -, name, -, -, -, sha256, ⟨hashJson, hasHash, isStr⟩, -, -, size, ⟨sizeJson, hasSize, isInt⟩, -, bounds, items,
    ⟨itemsJson, hasItems, isArray⟩, -, -, ⟨chunks, stop⟩, read, -, -, eq⟩ := accepted
  cases eq
  cases Json.eq_string_of_asStr isStr
  cases Json.eq_int_of_asInt isInt
  cases Json.eq_array_of_asArray isArray
  refine ⟨hasHash, ?_, items, stop, hasItems, read⟩
  rw [hasSize, Int.toNat_of_nonneg (by omega)]

def chunksOf (sha256 : Bytes → Text) (data : Bytes) : List Chunk :=
  (boundaries data 0).map fun (offset, stop) =>
    ⟨offset, stop - offset, sha256 (slice offset (stop - offset) data)⟩

def pieces (data : Bytes) : List Bytes :=
  (boundaries data 0).map fun (offset, stop) => slice offset (stop - offset) data

variable {chunk : Chunk}

theorem readChunk_eq {offset length : Int} {hash : Text}
    (read : readChunk start (.array [.int offset, .int length, .string hash]) = some chunk) :
    chunk = ⟨offset.toNat, length.toNat, hash⟩ := by
  obtain ⟨⟨rfl, -⟩, eq⟩ := Option.ite_none_right_eq_some.mp read
  cases eq
  rfl

theorem readChunks_map {ι : Type} {offset length : ι → Nat} {hash : ι → Text} {items : List ι}
    {stop : Nat} {chunks : List Chunk}
    (read : readChunks start (items.map fun i =>
      .array [.int (offset i), .int (length i), .string (hash i)]) = some (chunks, stop)) :
    chunks = items.map fun i => ⟨offset i, length i, hash i⟩ := by
  induction items generalizing start chunks with
  | nil =>
    cases read
    rfl
  | cons i items ih =>
    simp only [List.map_cons, readChunks, Option.bind_eq_bind, Option.bind_eq_some_iff] at read
    obtain ⟨chunk, first, ⟨rest, stop'⟩, later, eq⟩ := read
    cases eq
    rw [List.map_cons, readChunk_eq first, ih later]
    rfl

theorem valid_index {sha256 : Bytes → Text} {name : Text}
    {json : Json} (indexed : index sha256 name data = some json)
    (accepted : valid isOne json = some manifest) :
    manifest.chunks = chunksOf sha256 data ∧ manifest.size = data.length ∧
      manifest.sha256 = sha256 data := by
  have reads := reads_of_valid accepted
  obtain ⟨-, eq⟩ := Option.ite_none_left_eq_some.mp indexed
  cases eq
  obtain ⟨items, stop, hasItems, read⟩ := reads.chunks
  have sizes : (data.length : Int) = manifest.size := Json.int.inj (Option.some.inj reads.size)
  have hashes : sha256 data = manifest.sha256 := Json.string.inj (Option.some.inj reads.sha256)
  cases hasItems
  exact ⟨readChunks_map read, by omega, hashes.symm⟩

theorem flatMap_boundaries (data : Bytes) (offset : Nat) :
    ((boundaries data offset).flatMap fun (start, stop) => slice start (stop - start) data) =
      data.drop offset := by
  fun_induction boundaries data offset with
  | case1 offset inside ih =>
    obtain ⟨after, -⟩ := chunkEnd_bounds inside
    rw [List.flatMap_cons, ih]
    have rest : (data.drop offset).drop (chunkEnd data offset - offset) =
        data.drop (chunkEnd data offset) := by
      rw [List.drop_drop, Nat.add_sub_cancel' (Nat.le_of_lt after)]
    show (data.drop offset).take _ ++ _ = _
    rw [← rest, List.take_append_drop]
  | case2 offset outside => rw [List.flatMap_nil, List.drop_eq_nil_of_le (Nat.not_lt.mp outside)]

theorem flatMap_chunksOf (sha256 : Bytes → Text) (data : Bytes) :
    ((chunksOf sha256 data).flatMap fun chunk => slice chunk.offset chunk.length data) = data := by
  rw [chunksOf, List.flatMap_map]
  exact flatMap_boundaries data 0

def contents (old new : Bytes) : Source → Bytes
  | .cache => old
  | .remote => new

/-- The hash tells the chunks of one package from those of the other. -/
def NoCollision (sha256 : Bytes → Text) (old new : Bytes) : Prop :=
  ∀ piece ∈ pieces old, ∀ piece' ∈ pieces new, sha256 piece = sha256 piece' → piece = piece'

theorem mem_pieces {sha256 : Bytes → Text}
    (mem : chunk ∈ chunksOf sha256 data) :
    slice chunk.offset chunk.length data ∈ pieces data ∧
      chunk.hash = sha256 (slice chunk.offset chunk.length data) := by
  obtain ⟨⟨start, stop⟩, here, rfl⟩ := List.mem_map.mp mem
  exact ⟨List.mem_map.mpr ⟨(start, stop), here, rfl⟩, rfl⟩

variable {old new : Bytes}

theorem opFor_bytes {sha256 : Bytes → Text} (apart : NoCollision sha256 old new)
    (mem : chunk ∈ chunksOf sha256 new) :
    (opFor (chunksOf sha256 old) chunk).bytes (contents old new) =
      slice chunk.offset chunk.length new := by
  rw [opFor]
  split
  case h_2 => rfl
  case h_1 copy found =>
    obtain ⟨known, sameLength⟩ := Option.filter_eq_some_iff.mp found
    have sameHash : copy.hash = chunk.hash := by simpa using List.find?_some known
    have sameLength : copy.length = chunk.length := by simpa using sameLength
    obtain ⟨here, hash⟩ := mem_pieces (List.mem_reverse.mp (List.mem_of_find?_eq_some known))
    obtain ⟨there, hash'⟩ := mem_pieces mem
    have same := apart _ here _ there (by rw [← hash, ← hash', sameHash])
    rw [← same, sameLength]
    rfl

theorem mem_boundaries {stop : Nat}
    (mem : (start, stop) ∈ boundaries data offset) : start < stop ∧ stop ≤ data.length := by
  fun_induction boundaries data offset with
  | case1 offset inside ih =>
    rcases List.mem_cons.mp mem with eq | later
    · cases eq
      exact chunkEnd_bounds inside
    · exact ih later
  | case2 => cases mem

theorem fits_of_mem_chunksOf {sha256 : Bytes → Text}
    (mem : chunk ∈ chunksOf sha256 data) :
    0 < chunk.length ∧ chunk.offset + chunk.length ≤ data.length := by
  obtain ⟨⟨start, stop⟩, here, rfl⟩ := List.mem_map.mp mem
  obtain ⟨before, inside⟩ := mem_boundaries here
  simp only
  omega

theorem opFor_fits {sha256 : Bytes → Text}
    (mem : chunk ∈ chunksOf sha256 new) :
    (opFor (chunksOf sha256 old) chunk).Fits (contents old new) := by
  rw [opFor]
  split
  case h_2 => exact fits_of_mem_chunksOf mem
  case h_1 copy found =>
    obtain ⟨known, sameLength⟩ := Option.filter_eq_some_iff.mp found
    have sameLength : copy.length = chunk.length := by simpa using sameLength
    have fits := fits_of_mem_chunksOf (List.mem_reverse.mp (List.mem_of_find?_eq_some known))
    rw [sameLength] at fits
    exact fits

theorem operations_fit {sha256 : Bytes → Text} :
    ∀ op ∈ operations (chunksOf sha256 new) (chunksOf sha256 old), op.Fits (contents old new) :=
  fits_foldl_push (by simp) fun _ mem => opFor_fits mem

theorem assemble_operations {sha256 : Bytes → Text}
    (apart : NoCollision sha256 old new) :
    assemble (contents old new) (operations (chunksOf sha256 new) (chunksOf sha256 old)) = new := by
  rw [operations, assemble_foldl_push]
  calc [] ++ ((chunksOf sha256 new).flatMap fun chunk =>
        (opFor (chunksOf sha256 old) chunk).bytes (contents old new))
    _ = (chunksOf sha256 new).flatMap fun chunk => slice chunk.offset chunk.length new :=
        List.flatMap_congr fun chunk mem => opFor_bytes apart mem
    _ = new := flatMap_chunksOf sha256 new

variable {expected : Text}

theorem readTarget_ok {target : Option Json} {name : Text}
    (accepted : readTarget isOne target name expected = .ok manifest) :
    ∃ json, target = some json ∧ valid isOne json = some manifest ∧ manifest.sha256 = expected := by
  simp only [readTarget] at accepted
  split at accepted
  · cases accepted
  · split at accepted
    · cases accepted
    · split at accepted
      case isTrue => cases accepted
      case isFalse json _ _ read same =>
        cases accepted
        exact ⟨json, rfl, read, by simpa using (not_or.mp same).2⟩

theorem plan_ok {target previous : Option Json} {name : Text}
    {ops : List (Op Source)} (accepted : plan isOne target previous name expected = .ok ops) :
    ∃ manifest json old, readTarget isOne target name expected = .ok manifest ∧
      previous = some json ∧ valid isOne json = some old ∧
        ops = operations manifest.chunks old.chunks := by
  simp only [plan] at accepted
  split at accepted
  · cases accepted
  · cases accepted
  case h_3 manifest json target =>
    split at accepted
    · cases accepted
    case h_2 old read =>
      split at accepted
      · cases accepted
      · cases accepted
        exact ⟨manifest, json, old, target, rfl, read, rfl⟩

theorem plan_index {sha256 : Bytes → Text}
    {oldName newName name : Text} {oldJson newJson : Json}
    {ops : List (Op Source)} (oldIndex : index sha256 oldName old = some oldJson)
    (newIndex : index sha256 newName new = some newJson)
    (accepted : plan isOne (some newJson) (some oldJson) name expected = .ok ops) :
    ops = operations (chunksOf sha256 new) (chunksOf sha256 old) := by
  obtain ⟨target, json, previous, readNew, eq, readOld, rfl⟩ := plan_ok accepted
  cases eq
  obtain ⟨json, eq, readNew, -⟩ := readTarget_ok readNew
  cases eq
  rw [(valid_index newIndex readNew).1, (valid_index oldIndex readOld).1]

def twoChunks (last : UInt8) : Bytes := .replicate minChunk 0 ++ (boundary ++ [last])

section
variable {sha256 : Bytes → Text} {name : Text} (last : UInt8)

theorem length_twoChunks : (twoChunks last).length = 65539 := by
  rw [twoChunks, List.length_append, List.length_replicate]
  rfl

theorem slices_twoChunks :
    slice 0 65538 (twoChunks last) = .replicate minChunk 0 ++ boundary ∧
      slice 65538 1 (twoChunks last) = [last] := by
  have length : (.replicate minChunk 0 ++ boundary : Bytes).length = 65538 := by
    rw [List.length_append, List.length_replicate]
    rfl
  rw [twoChunks, ← List.append_assoc, ← length]
  exact ⟨List.take_left, by rw [slice, List.drop_left]; rfl⟩

theorem boundaries_twoChunks : boundaries (twoChunks last) 0 = [(0, 65538), (65538, 65539)] := by
  have length := length_twoChunks last
  have few : ∀ offset, latestEnd (twoChunks last) offset = 65539 := by
    intro offset
    rw [latestEnd, length, if_neg (by simp only [maxChunk]; omega)]
  have first : chunkEnd (twoChunks last) 0 = 65538 := by
    have behind : slice 65536 3 (twoChunks last) = boundary ++ [last] := by
      have zeros : (.replicate minChunk 0 : Bytes).length = 65536 := List.length_replicate
      rw [slice, twoChunks, ← zeros, List.drop_left]
      rfl
    rw [chunkEnd, few, endFrom]
    change (find? boundary (slice 65536 3 (twoChunks last))).elim _ _ = _
    rw [behind]
    simp [find?, boundary, minChunk]
  have second : chunkEnd (twoChunks last) 65538 = 65539 := by
    rw [chunkEnd, few, endFrom]
    change (find? boundary (slice 131074 0 (twoChunks last))).elim _ _ = _
    simp [slice, find?, boundary]
  rw [boundaries, dif_pos (by omega), first, boundaries, dif_pos (by omega), second, boundaries,
    dif_neg (by omega)]

theorem pieces_twoChunks : pieces (twoChunks last) = [.replicate minChunk 0 ++ boundary, [last]] := by
  obtain ⟨begins, ends⟩ := slices_twoChunks last
  rw [pieces, boundaries_twoChunks, ← begins, ← ends]
  rfl

theorem valid_twoChunks (hex : ∀ data, isHex64 (sha256 data) = true) (named : isPackageName name = true) :
    (index sha256 name (twoChunks last)).bind (valid fun json => json.asInt = some 1) =
      some ⟨name, sha256 (twoChunks last), 65539,
        [⟨0, 65538, sha256 (.replicate minChunk 0 ++ boundary)⟩, ⟨65538, 1, sha256 [last]⟩]⟩ := by
  obtain ⟨begins, ends⟩ := slices_twoChunks last
  rw [index, length_twoChunks, if_neg (by decide), boundaries_twoChunks]
  simp [valid, Json.get, List.lookup_cons, Json.asStr, Json.asInt, Json.asArray, named, hex,
    readChunks, readChunk, guard, begins, ends]

theorem plan_twoChunks (hex : ∀ data, isHex64 (sha256 data) = true) (named : isPackageName name = true)
    {old new : UInt8} (changed : sha256 [old] ≠ sha256 [new])
    (oldOther : sha256 [old] ≠ sha256 (.replicate minChunk 0 ++ boundary))
    (newOther : sha256 (.replicate minChunk 0 ++ boundary) ≠ sha256 [new]) :
    plan (fun json => json.asInt = some 1) (index sha256 name (twoChunks new))
        (index sha256 name (twoChunks old)) name (sha256 (twoChunks new)) =
      .ok [⟨.cache, 0, 65538⟩, ⟨.remote, 65538, 1⟩] := by
  obtain ⟨newJson, newIndex, readNew⟩ := Option.bind_eq_some_iff.mp (valid_twoChunks new hex named)
  obtain ⟨oldJson, oldIndex, readOld⟩ := Option.bind_eq_some_iff.mp (valid_twoChunks old hex named)
  simp [plan, readTarget, newIndex, readNew, oldIndex, readOld, operations, reused, opFor, prior, push,
    Option.filter, changed, oldOther, newOther]

end

end Gozarbin.Update
