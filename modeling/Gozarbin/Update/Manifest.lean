import Gozarbin.Update.Plan

/-! # Differential updates: the manifests

The router takes a manifest only when its chunks are of a certain size and not too many. What
`package_chunks.py` publishes for a package of a supported size always is like that, though the
number of chunks comes close to the limit.
-/

namespace Gozarbin.Update

open Copies

def hexDigit (n : Nat) : Char := Nat.digitChar (n % 16)

def hexdigest (digest : Vector UInt8 32) : Text :=
  digest.toList.flatMap fun b => [hexDigit (b.toNat / 16), hexDigit b.toNat]

/-- The chunks lie one behind the other. -/
def Contiguous : (start : Nat) → List Chunk → (stop : Nat) → Prop
  | start, [], stop => start = stop
  | start, chunk :: rest, stop => chunk.offset = start ∧ Contiguous (start + chunk.length) rest stop

/-- What the router expects of the chunks of a package, and more. -/
structure Cut (chunks : List Chunk) (size : Nat) : Prop where
  contiguous : Contiguous 0 chunks size
  sizes : ∀ chunk ∈ chunks, 1 ≤ chunk.length ∧ chunk.length ≤ 1048576
  few : chunks.length ≤ 2048
  long : ∀ chunk ∈ chunks.dropLast, 65538 ≤ chunk.length

theorem hexDigit_spec (n : Nat) :
    ((hexDigit n).isDigit || ('a' ≤ hexDigit n && hexDigit n ≤ 'f')) = true := by
  have each : ∀ d < 16, ((Nat.digitChar d).isDigit ||
      ('a' ≤ Nat.digitChar d && Nat.digitChar d ≤ 'f')) = true := by decide
  exact each _ (Nat.mod_lt n (by decide))

theorem isHex64_hexdigest (digest : Vector UInt8 32) : isHex64 (hexdigest digest) = true := by
  rw [isHex64, Bool.and_eq_true, decide_eq_true_eq]
  constructor
  · simp [hexdigest]
  · rw [List.all_eq_true]
    intro c member
    obtain ⟨b, _, digit⟩ := List.mem_flatMap.mp member
    rcases List.mem_pair.mp digit with rfl | rfl <;> exact hexDigit_spec _

section
variable {data : Bytes} {offset : Nat}

theorem endFrom_cases (data : Bytes) (start latest : Nat) :
    endFrom data start latest = latest ∨
      start + 2 ≤ endFrom data start latest ∧ endFrom data start latest ≤ latest := by
  rw [endFrom]
  cases found : find? boundary (slice start (latest - start) data) with
  | none => exact .inl rfl
  | some marker =>
    have fits := add_length_le_of_find? found
    have two : boundary.length = 2 := rfl
    rw [slice, List.length_take, List.length_drop] at fits
    simp only [Option.elim]
    omega

theorem chunkEnd_le (data : Bytes) (offset : Nat) : chunkEnd data offset ≤ offset + maxChunk := by
  have latest : latestEnd data offset ≤ offset + maxChunk := by
    rw [latestEnd]
    split <;> omega
  have cases_ := endFrom_cases data (offset + minChunk) (latestEnd data offset)
  rw [chunkEnd]
  omega

theorem chunkEnd_far (data : Bytes) (offset : Nat) :
    chunkEnd data offset = data.length ∨ offset + 65538 ≤ chunkEnd data offset := by
  have latest : latestEnd data offset = offset + maxChunk ∨ latestEnd data offset = data.length := by
    rw [latestEnd]
    split
    · exact .inl rfl
    · exact .inr rfl
  have cases_ := endFrom_cases data (offset + minChunk) (latestEnd data offset)
  have least : minChunk = 65536 := rfl
  have most : maxChunk = 1048576 := rfl
  rw [chunkEnd]
  omega

theorem boundaries_end (data : Bytes) : boundaries data data.length = [] := by
  rw [boundaries, dif_neg (Nat.lt_irrefl _)]

/-- What there is to know about where a chunk ends. -/
structure Ends (data : Bytes) (offset stop : Nat) : Prop where
  after : offset < stop
  inside : stop ≤ data.length
  near : stop ≤ offset + 1048576
  far : stop = data.length ∨ offset + 65538 ≤ stop

theorem ends_chunkEnd (inside : offset < data.length) : Ends data offset (chunkEnd data offset) where
  after := (chunkEnd_bounds inside).1
  inside := (chunkEnd_bounds inside).2
  near := chunkEnd_le data offset
  far := chunkEnd_far data offset

theorem share_last {size offset : Nat} (inside : offset < size) :
    65538 * 1 < size - offset + 65538 := by
  omega

theorem share_step {count size offset stop : Nat} (later : 65538 * count < size - stop + 65538)
    (within : stop ≤ size) (far : offset + 65538 ≤ stop) :
    65538 * (count + 1) < size - offset + 65538 := by
  omega

theorem length_boundaries (data : Bytes) (offset : Nat) :
    65538 * (boundaries data offset).length < data.length - offset + 65538 := by
  fun_induction boundaries data offset with
  | case1 offset inside ih =>
    have ends := ends_chunkEnd inside
    generalize chunkEnd data offset = stop at ends ih ⊢
    rcases ends.far with rfl | far
    · rw [boundaries_end, List.length_singleton]
      exact share_last inside
    · rw [List.length_cons]
      exact share_step ih ends.inside far
  | case2 =>
    exact Nat.add_pos_right _ (by decide)

theorem dropLast_boundaries (data : Bytes) (offset : Nat) :
    ∀ part ∈ (boundaries data offset).dropLast, part.1 + 65538 ≤ part.2 := by
  fun_induction boundaries data offset with
  | case1 offset inside ih =>
    have ends := ends_chunkEnd inside
    generalize chunkEnd data offset = stop at ends ih ⊢
    intro part member
    rcases ends.far with rfl | far
    · rw [boundaries_end] at member
      cases member
    · cases rest : boundaries data stop with
      | nil =>
        rw [rest] at member
        cases member
      | cons next more =>
        rw [rest, List.dropLast_cons_of_ne_nil (by simp)] at member
        rcases List.mem_cons.mp member with rfl | later
        · exact far
        · rw [rest] at ih
          exact ih part later
  | case2 => simp

theorem sizes_boundaries (data : Bytes) (offset : Nat) :
    ∀ part ∈ boundaries data offset, part.1 < part.2 ∧ part.2 ≤ part.1 + 1048576 := by
  fun_induction boundaries data offset with
  | case1 offset inside ih =>
    have ends := ends_chunkEnd inside
    generalize chunkEnd data offset = stop at ends ih ⊢
    intro part member
    rcases List.mem_cons.mp member with rfl | later
    · exact ⟨ends.after, ends.near⟩
    · exact ih part later
  | case2 => simp

def chunkAt (sha256 : Bytes → Text) (data : Bytes) (part : Nat × Nat) : Chunk :=
  ⟨part.1, part.2 - part.1, sha256 (slice part.1 (part.2 - part.1) data)⟩

theorem chunksOf_eq (sha256 : Bytes → Text) (data : Bytes) :
    chunksOf sha256 data = (boundaries data 0).map (chunkAt sha256 data) := rfl

theorem Contiguous.cons {start next stop : Nat} {chunk : Chunk} {rest : List Chunk}
    (begins : chunk.offset = start) (ends : start + chunk.length = next)
    (later : Contiguous next rest stop) : Contiguous start (chunk :: rest) stop := by
  subst ends
  exact ⟨begins, later⟩

theorem contiguous_boundaries (sha256 : Bytes → Text) (data : Bytes) (offset : Nat)
    (within : offset ≤ data.length) :
    Contiguous offset ((boundaries data offset).map (chunkAt sha256 data)) data.length := by
  fun_induction boundaries data offset with
  | case1 offset inside ih =>
    have ends := ends_chunkEnd inside
    generalize chunkEnd data offset = stop at ends ih ⊢
    rw [List.map_cons]
    exact .cons rfl (Nat.add_sub_cancel' (Nat.le_of_lt ends.after)) (ih ends.inside)
  | case2 offset outside => exact Nat.le_antisymm within (Nat.not_lt.mp outside)

theorem few_boundaries {data : Bytes} (most : data.length ≤ 134217728) :
    (boundaries data 0).length ≤ 2048 := by
  have share := length_boundaries data 0
  omega

theorem cut_chunksOf (sha256 : Bytes → Text) {data : Bytes} (most : data.length ≤ 134217728) :
    Cut (chunksOf sha256 data) data.length where
  contiguous := contiguous_boundaries sha256 data 0 (Nat.zero_le _)
  sizes := by
    intro chunk member
    obtain ⟨part, listed, rfl⟩ := List.mem_map.mp member
    obtain ⟨before, near⟩ := sizes_boundaries data 0 part listed
    exact ⟨Nat.sub_pos_of_lt before, Nat.sub_le_iff_le_add'.mpr near⟩
  few := by
    rw [chunksOf_eq, List.length_map]
    exact few_boundaries most
  long := by
    intro chunk member
    rw [chunksOf_eq, ← List.map_dropLast] at member
    obtain ⟨part, listed, rfl⟩ := List.mem_map.mp member
    exact Nat.le_sub_of_add_le' (dropLast_boundaries data 0 part listed)

end

def chunkJson (chunk : Chunk) : Json :=
  .array [.int chunk.offset, .int chunk.length, .string chunk.hash]

theorem readChunks_contiguous {chunks : List Chunk} {start stop : Nat}
    (contiguous : Contiguous start chunks stop)
    (sizes : ∀ chunk ∈ chunks, 1 ≤ chunk.length ∧ chunk.length ≤ 1048576)
    (hashes : ∀ chunk ∈ chunks, isHex64 chunk.hash = true) :
    readChunks start (chunks.map chunkJson) = some (chunks, stop) := by
  induction chunks generalizing start with
  | nil =>
    obtain rfl : start = stop := contiguous
    rfl
  | cons chunk chunks ih =>
    obtain ⟨size, sizes⟩ := List.forall_mem_cons.mp sizes
    obtain ⟨hash, hashes⟩ := List.forall_mem_cons.mp hashes
    obtain ⟨offset, later⟩ := contiguous
    subst offset
    have good : (chunk.offset : Int) = (chunk.offset : Int) ∧ 1 ≤ (chunk.length : Int) ∧
        (chunk.length : Int) ≤ 1048576 ∧ isHex64 chunk.hash = true := by
      refine ⟨rfl, ?_, ?_, hash⟩ <;> omega
    have read : readChunk chunk.offset (chunkJson chunk) = some chunk := by
      rw [chunkJson, readChunk, if_pos good]
      rfl
    simp only [List.map_cons, readChunks, read, Option.bind_eq_bind, Option.bind_some,
      ih later sizes hashes]

section
variable (sha256 : Bytes → Vector UInt8 32) (isOne : Json → Bool)

def manifestOf (name : Text) (data : Bytes) : Manifest :=
  ⟨name, hexdigest (sha256 data), data.length, chunksOf (fun part => hexdigest (sha256 part)) data⟩

theorem readChunks_index {data : Bytes} (most : data.length ≤ 134217728) :
    readChunks 0 ((boundaries data 0).map fun part =>
      .array [.int part.1, .int (part.2 - part.1 : Nat),
        .string (hexdigest (sha256 (slice part.1 (part.2 - part.1) data)))]) =
      some (chunksOf (fun part => hexdigest (sha256 part)) data, data.length) := by
  have cut := cut_chunksOf (fun part => hexdigest (sha256 part)) most
  have hashes : ∀ chunk ∈ chunksOf (fun part => hexdigest (sha256 part)) data,
      isHex64 chunk.hash = true := by
    intro chunk member
    obtain ⟨part, _, rfl⟩ := List.mem_map.mp member
    exact isHex64_hexdigest _
  have read := readChunks_contiguous cut.contiguous cut.sizes hashes
  rw [chunksOf_eq, List.map_map] at read
  exact read

/-- The router takes the manifest of every package of a supported size. -/
theorem valid_of_index (one : isOne (.int 1) = true) (name : Text) (named : isPackageName name = true)
    (data : Bytes) (some_ : 1 ≤ data.length) (most : data.length ≤ 134217728) :
    ∃ json manifest, index (fun part => hexdigest (sha256 part)) name data = some json ∧
      valid isOne json = some manifest ∧ manifest.size = data.length ∧
        Cut manifest.chunks data.length := by
  have fits : ¬ (data.length = 0 ∨ 134217728 < data.length) := by omega
  have read := readChunks_index sha256 most
  have sized : 1 ≤ (data.length : Int) ∧ (data.length : Int) ≤ 134217728 := by omega
  have inside : 0 < data.length := some_
  have parts : boundaries data 0 ≠ [] := by
    rw [boundaries, dif_pos inside]
    exact List.cons_ne_nil _ _
  have cut := cut_chunksOf (fun part => hexdigest (sha256 part)) most
  refine ⟨_, manifestOf sha256 name data, by rw [index, if_neg fits], ?_, rfl, cut⟩
  simp [valid, Json.get, List.lookup_cons, Json.asStr, Json.asInt, Json.asArray, one, named,
    isHex64_hexdigest, guard, sized, parts, few_boundaries most, read, manifestOf]

theorem Contiguous.stop_le {chunks : List Chunk} {start stop : Nat} (contiguous : Contiguous start chunks stop)
    (sizes : ∀ chunk ∈ chunks, chunk.length ≤ 1048576) : stop ≤ start + 1048576 * chunks.length := by
  induction chunks generalizing start with
  | nil => exact Nat.le_of_eq (Eq.symm contiguous)
  | cons chunk rest ih =>
    obtain ⟨here, later⟩ := List.forall_mem_cons.mp sizes
    have bound := ih contiguous.2 later
    rw [List.length_cons]
    omega

theorem valid_of_index_many :
    let data : Bytes := .replicate 2097153 0
    ∃ json manifest,
      index (fun part => hexdigest (.replicate 32 (.ofNat part.length))) "a.ipk".toList data = some json ∧
        valid (fun json => json.asInt = some 1) json = some manifest ∧ manifest.size = 2097153 ∧
        Cut manifest.chunks 2097153 ∧ 3 ≤ manifest.chunks.length := by
  intro data
  have length : data.length = 2097153 := List.length_replicate
  obtain ⟨json, manifest, indexed, read, size, cut⟩ :=
    valid_of_index (fun part => .replicate 32 (.ofNat part.length)) (fun json => json.asInt = some 1)
      (by decide) "a.ipk".toList (by decide) data (by omega) (by omega)
  rw [length] at size cut
  have many := cut.contiguous.stop_le fun chunk member => (cut.sizes chunk member).2
  exact ⟨json, manifest, indexed, read, size, cut, by omega⟩

end

end Gozarbin.Update
