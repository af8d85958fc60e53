import Gozarbin.Update.Plan
import Mathlib.Tactic.SplitIfs

/-! # Differential updates: the download

`delta.sh fetch` downloads the manifest of a package, has the plan made, and puts the package
together from the cache and from ranges of the published file. The commands it runs may fail,
and the network may answer anything. A directory beside the destination holds what is not
finished.
-/

namespace Gozarbin.Update

open List Copies

def readPiece (source : Bytes) (pos size : Nat) : Bytes :=
  slice pos (if size ≤ 65536 then size else 65536) source

def copyLoop (source : Bytes) (pos size : Nat) : Option Bytes :=
  if _more : size = 0 then some []
  else if _there : readPiece source pos size = [] then none
  else
    (copyLoop source (pos + (readPiece source pos size).length)
      (size - (readPiece source pos size).length)).map (readPiece source pos size ++ ·)
termination_by size
decreasing_by
  have := length_pos_iff.mpr _there
  omega

def copy (source : Bytes) (offset size : Nat) : Option Bytes :=
  if size < 1 ∨ 134217728 < size then none else copyLoop source offset size

def releases : Text := "https://github.com/dreamboxone/gozarbin/releases/download/v".toList

def isKey (key : Text) : Bool := key ∈ ["main".toList, "luci".toList, "psiphon".toList]

def isReleaseUrl (url : Text) : Bool :=
  [".apk".toList, ".ipk".toList, ".tar.gz".toList].any fun ending =>
    ((Text.strip releases url).bind (Text.stripEnd ending)).any ('/' ∈ ·)

def baseName (url : Text) : Text := ((Text.rsplitOnce '/' url).map (·.2)).getD url

/-- What one operation of the plan meets. -/
structure Answer where
  copied : Bool
  response : Option (Nat × Bytes)
  added : Bool

structure Given where
  url : Text
  expected : Text
  key : Text
  sums : List (Text × Text)
  made : Bool
  manifest : Option Bytes
  package : Bytes
  previous : Bytes
  begun : Bool
  answers : Nat → Answer
  moved : Bool

def Given.want (given : Given) : Text :=
  let file := baseName given.url ++ ".chunks.json".toList
  ((given.sums.find? fun (_, name) => name = file || name = '*' :: file).map (·.1)).getD []

/-- How far the loop over the plan has come. -/
inductive Progress where
  | exits (status : Nat)
  | whole (file : Bytes)
  | built (bytes : Bytes)

section Script

variable (sha256 : Bytes → Text) (isOne : Json → Bool) (parse : Bytes → Option Json) (given : Given)

def readJson (file : Bytes) : Option Json := if file = [] then some .null else parse file

def fetchPart (answer : Answer) (op : Op Source) : Progress :=
  match op.source with
  | .cache =>
    match if answer.copied then copy given.package op.offset op.length else none with
    | some bytes => .built bytes
    | none => .exits 2
  | .remote =>
    match answer.response with
    | some (code, bytes) =>
      if code = 200 then
        -- Some mirrors ignore the range.
        if sha256 bytes = given.expected then .whole bytes else .exits 2
      else if code = 206 then .built bytes
      else .exits 2
    | none => .exits 2

def fetchLoop : (i : Nat) → (package : Bytes) → List (Op Source) → Progress
  | _, package, [] => .built package
  | i, package, op :: ops =>
    match fetchPart sha256 given (given.answers i) op with
    | .built bytes =>
      if bytes.length ≠ op.length then .exits 2
      else if (given.answers i).added then fetchLoop (i + 1) (package ++ bytes) ops
      else .exits 1
    | ended => ended

def place (file : Bytes) (dest : Option Bytes) : Nat × Option Bytes :=
  if given.moved then (0, some file) else (1, dest)

def finish (size : Nat) (progress : Progress) (dest : Option Bytes) : Nat × Option Bytes :=
  match progress with
  | .exits status => (status, dest)
  | .whole file => place given file dest
  | .built file =>
    if file.length = size ∧ sha256 file = given.expected then place given file dest else (2, dest)

def fetch (dest : Option Bytes) : Nat × Option Bytes :=
  let name := baseName given.url
  if !isKey given.key || !isReleaseUrl given.url then (2, dest)
  else if !given.made then (1, dest)
  else if given.want.length ≠ 64 then (2, dest)
  else
    match given.manifest with
    | none => (2, dest)
    | some manifest =>
      if sha256 manifest ≠ given.want then (2, dest)
      else
        match readTarget isOne (readJson parse manifest) name given.expected with
        | .error _ => (2, dest)
        | .ok target =>
          if given.package = [] ∨ given.previous = [] then (2, dest)
          else
            match plan isOne (readJson parse manifest) (readJson parse given.previous) name
              given.expected with
            | .error _ => (2, dest)
            | .ok ops =>
              if !given.begun then (1, dest)
              else finish sha256 given target.size (fetchLoop sha256 given 0 [] ops) dest

end Script

section Script

variable {sha256 : Bytes → Text} {isOne : Json → Bool} {parse : Bytes → Option Json} {given : Given}

/-- Success means the expected file; without it the destination is as before. -/
structure Delivers (sha256 : Bytes → Text) (expected : Text) (before : Option Bytes)
    (outcome : Nat × Option Bytes) : Prop where
  exact : outcome.1 = 0 → ∃ file, outcome.2 = some file ∧ sha256 file = expected
  kept : outcome.1 ≠ 0 → outcome.2 = before

theorem delivers_exit {expected : Text} {dest : Option Bytes} {status : Nat} (failed : status ≠ 0) :
    Delivers sha256 expected dest (status, dest) where
  exact ok := absurd ok failed
  kept _ := rfl

theorem delivers_place {file : Bytes} {dest : Option Bytes} (expected : sha256 file = given.expected) :
    Delivers sha256 given.expected dest (place given file dest) := by
  rw [place]
  split
  · exact ⟨fun _ => ⟨file, rfl, expected⟩, fun failed => absurd rfl failed⟩
  · exact delivers_exit (by decide)

def Progress.Checked (sha256 : Bytes → Text) (expected : Text) : Progress → Prop
  | .exits status => status ≠ 0
  | .whole file => sha256 file = expected
  | .built _ => True

theorem fetchPart_checked (answer : Answer) (op : Op Source) :
    (fetchPart sha256 given answer op).Checked sha256 given.expected := by
  rw [fetchPart]
  split
  case h_1 =>
    split
    · trivial
    · exact Nat.succ_ne_zero 1
  case h_2 =>
    split
    case h_1 code bytes response =>
      split_ifs with full expected
      · exact expected
      · exact Nat.succ_ne_zero 1
      · trivial
      · exact Nat.succ_ne_zero 1
    case h_2 => exact Nat.succ_ne_zero 1

theorem fetchLoop_checked (i : Nat) (package : Bytes) (ops : List (Op Source)) :
    (fetchLoop sha256 given i package ops).Checked sha256 given.expected := by
  induction ops generalizing i package with
  | nil => trivial
  | cons op ops ih =>
    have part : (fetchPart sha256 given (given.answers i) op).Checked sha256 given.expected :=
      fetchPart_checked _ op
    rw [fetchLoop]
    split
    case h_1 bytes built =>
      split_ifs
      · exact Nat.succ_ne_zero 1
      · exact ih _ _
      · exact Nat.succ_ne_zero 0
    case h_2 => exact part

theorem finish_delivers {progress : Progress} (checked : progress.Checked sha256 given.expected)
    (size : Nat) (dest : Option Bytes) :
    Delivers sha256 given.expected dest (finish sha256 given size progress dest) := by
  match progress with
  | .exits status => exact delivers_exit checked
  | .whole file => exact delivers_place checked
  | .built file =>
    rw [finish]
    split
    case isTrue right => exact delivers_place right.2
    case isFalse => exact delivers_exit (Nat.succ_ne_zero 1)

theorem fetch_delivers (dest : Option Bytes) :
    Delivers sha256 given.expected dest (fetch sha256 isOne parse given dest) := by
  have exits : ∀ status, Delivers sha256 given.expected dest (status + 1, dest) :=
    fun status => delivers_exit (Nat.succ_ne_zero status)
  simp only [fetch]
  split
  · exact exits 1
  split
  · exact exits 0
  split
  · exact exits 1
  split
  · exact exits 1
  split
  · exact exits 1
  split
  · exact exits 1
  split
  · exact exits 1
  split
  · exact exits 1
  split
  · exact exits 0
  · exact finish_delivers (fetchLoop_checked _ _ _) _ _

theorem readPiece_spec {source : Bytes} {pos size : Nat} (inside : pos + size ≤ source.length) :
    ∃ n, readPiece source pos size = slice pos n source ∧ (readPiece source pos size).length = n ∧
      n ≤ size ∧ (0 < size → 0 < n) := by
  refine ⟨if size ≤ 65536 then size else 65536, rfl, ?_⟩
  rw [readPiece, slice, length_take, length_drop]
  split <;> omega

theorem copyLoop_eq {source : Bytes} {pos size : Nat} (inside : pos + size ≤ source.length) :
    copyLoop source pos size = some (slice pos size source) := by
  fun_induction copyLoop source pos size with
  | case1 pos => simp [slice]
  | case2 pos size some_size nothing =>
    obtain ⟨n, -, length, -, some_bytes⟩ := readPiece_spec inside
    have := some_bytes (Nat.pos_of_ne_zero some_size)
    rw [← length, nothing] at this
    cases this
  | case3 pos size some_size something ih =>
    obtain ⟨n, piece, length, short, -⟩ := readPiece_spec inside
    rw [ih (by omega), Option.map_some, length, piece, slice_append, Nat.add_sub_cancel' short]

/-- Nothing fails, and the server has the new package and knows ranges; `ops` are left, from the
    `i`-th of the plan on. -/
structure Faithful (given : Given) (old new : Bytes) (i : Nat) (ops : List (Op Source)) : Prop where
  package : given.package = old
  copied : ∀ i, (given.answers i).copied = true
  added : ∀ i, (given.answers i).added = true
  ranges : ∀ j op, ops[j]? = some op → op.source = .remote →
    (given.answers (i + j)).response = some (206, slice op.offset op.length new)

variable {old new : Bytes} {ops : List (Op Source)} {i : Nat}

theorem Faithful.tail {op : Op Source}
    (faithful : Faithful given old new i (op :: ops)) : Faithful given old new (i + 1) ops where
  package := faithful.package
  copied := faithful.copied
  added := faithful.added
  ranges j op here remote := by
    have range := faithful.ranges (j + 1) op here remote
    rwa [Nat.add_assoc, Nat.add_comm 1 j]

theorem Faithful.fetchPart {op : Op Source}
    (faithful : Faithful given old new i (op :: ops)) (small : old.length ≤ 134217728)
    (fits : op.Fits (contents old new)) :
    fetchPart sha256 given (given.answers i) op = .built (op.bytes (contents old new)) := by
  obtain ⟨some_length, inside⟩ := fits
  rw [Update.fetchPart]
  cases source : op.source with
  | cache =>
    have inside : op.offset + op.length ≤ old.length := by
      rw [source] at inside
      exact inside
    have size : ¬ (op.length < 1 ∨ 134217728 < op.length) := by omega
    simp only [faithful.copied, if_true, copy, if_neg size, faithful.package]
    rw [copyLoop_eq inside]
    simp only [Op.bytes, source, contents]
  | remote =>
    have range := faithful.ranges 0 op rfl source
    rw [Nat.add_zero] at range
    simp [range, Op.bytes, source, contents]

theorem Faithful.fetchLoop {package : Bytes}
    (faithful : Faithful given old new i ops) (small : old.length ≤ 134217728)
    (fits : ∀ op ∈ ops, op.Fits (contents old new)) :
    fetchLoop sha256 given i package ops = .built (package ++ assemble (contents old new) ops) := by
  induction ops generalizing i package with
  | nil => simp [Update.fetchLoop, assemble]
  | cons op ops ih =>
    obtain ⟨first, rest⟩ := forall_mem_cons.mp fits
    simp only [Update.fetchLoop, faithful.fetchPart small first, first.length_bytes, faithful.added]
    simp [ih faithful.tail rest, assemble]

theorem index_eq_some {name : Text} {data : Bytes} {json : Json}
    (indexed : index sha256 name data = some json) :
    0 < data.length ∧ data.length ≤ 134217728 ∧ json ≠ .null := by
  obtain ⟨size, eq⟩ := Option.ite_none_left_eq_some.mp indexed
  cases eq
  exact ⟨by omega, by omega, by simp⟩

/-- Nothing fails, and the release, its manifest and the old package are what they should be. -/
structure Undisturbed (sha256 : Bytes → Text) (parse : Bytes → Option Json) (given : Given)
    (old new : Bytes) (oldJson newJson : Json) (ops : List (Op Source)) : Prop
    extends Faithful given old new 0 ops where
  key : isKey given.key = true
  url : isReleaseUrl given.url = true
  published : given.want.length = 64
  downloaded : ∃ manifest, given.manifest = some manifest ∧ sha256 manifest = given.want ∧
    readJson parse manifest = some newJson
  cached : readJson parse given.previous = some oldJson
  made : given.made = true
  begun : given.begun = true
  moved : given.moved = true

theorem fetch_rebuilds {oldName newName : Text} {oldJson newJson : Json}
    (apart : NoCollision sha256 old new)
    (oldIndex : index sha256 oldName old = some oldJson)
    (newIndex : index sha256 newName new = some newJson)
    (accepted : plan isOne (some newJson) (some oldJson) (baseName given.url) given.expected = .ok ops)
    (fine : Undisturbed sha256 parse given old new oldJson newJson ops) (dest : Option Bytes) :
    fetch sha256 isOne parse given dest = (0, some new) := by
  obtain ⟨target, -, -, readNew, -⟩ := plan_ok accepted
  obtain ⟨json, eq, isValid, expected⟩ := readTarget_ok readNew
  cases eq
  obtain ⟨-, size, hash⟩ := valid_index newIndex isValid
  obtain ⟨some_bytes, small, not_null⟩ := index_eq_some oldIndex
  obtain ⟨manifest, downloaded, intact, parsed⟩ := fine.downloaded
  have package : given.package ≠ [] := by
    rw [fine.package]
    exact ne_nil_of_length_pos some_bytes
  have previous : given.previous ≠ [] := by
    intro empty
    have cached := fine.cached
    rw [readJson, if_pos empty] at cached
    exact not_null (Option.some.inj cached).symm
  have planned := plan_index oldIndex newIndex accepted
  have built : assemble (contents old new) ops = new := by
    rw [planned]
    exact assemble_operations apart
  have fits : ∀ op ∈ ops, op.Fits (contents old new) := by
    rw [planned]
    exact operations_fit
  simp only [fetch, fine.key, fine.url, fine.made, fine.published, downloaded, intact, parsed, fine.cached,
    accepted, readNew, fine.begun, package, previous, fine.fetchLoop small fits, built, finish, place,
    fine.moved]
  simp [size, ← hash, expected]

end Script

/-- The plan builds the exact package, a download that succeeds has it, and one in which nothing
    fails succeeds. -/
theorem update_rebuilds_package (sha256 : Bytes → Text) (isOne : Json → Bool)
    (parse : Bytes → Option Json) :
    (∀ oldName newName name expected old new oldJson newJson ops, NoCollision sha256 old new →
      index sha256 oldName old = some oldJson → index sha256 newName new = some newJson →
      plan isOne (some newJson) (some oldJson) name expected = .ok ops →
        assemble (contents old new) ops = new) ∧
    (∀ given dest, Delivers sha256 given.expected dest (fetch sha256 isOne parse given dest)) ∧
    ∀ given dest oldName newName old new oldJson newJson ops, NoCollision sha256 old new →
      index sha256 oldName old = some oldJson → index sha256 newName new = some newJson →
      plan isOne (some newJson) (some oldJson) (baseName given.url) given.expected = .ok ops →
      Undisturbed sha256 parse given old new oldJson newJson ops →
        fetch sha256 isOne parse given dest = (0, some new) := by
  refine ⟨?_, fun given dest => fetch_delivers dest, ?_⟩
  · intro oldName newName name expected old new oldJson newJson ops apart oldIndex newIndex accepted
    rw [plan_index oldIndex newIndex accepted]
    exact assemble_operations apart
  · intro given dest oldName newName old new oldJson newJson ops apart oldIndex newIndex accepted fine
    exact fetch_rebuilds apart oldIndex newIndex accepted fine dest

def byLast (data : Bytes) : Text :=
  .replicate 64 (match data.getLast? with | some 1 => '1' | some 2 => '2' | some 0x3a => 'a' | _ => '0')

theorem byLast_hex (data : Bytes) : isHex64 (byLast data) = true := by
  rw [byLast]
  split <;> decide

theorem byLast_append (front : Bytes) {back : Bytes} (some_ : back ≠ []) :
    byLast (front ++ back) = byLast back := by
  rw [byLast, byLast, List.getLast?_append_of_ne_nil front some_]

def packageName : Text := "a.ipk".toList

def parseFile (file : Bytes) : Option Json :=
  index byLast packageName (if file = [7] then twoChunks 2 else twoChunks 1)

def changedByte : Given where
  url := releases ++ "1.0.0/a.ipk".toList
  expected := byLast (twoChunks 2)
  key := "main".toList
  sums := [(byLast [7], "a.ipk.chunks.json".toList)]
  made := true
  manifest := some [7]
  package := twoChunks 1
  previous := [8]
  begun := true
  answers _ := ⟨true, some (206, [2]), true⟩
  moved := true

theorem noCollision_twoChunks : NoCollision byLast (twoChunks 1) (twoChunks 2) := by
  have first : byLast (.replicate minChunk 0 ++ boundary) = byLast boundary :=
    byLast_append _ (by decide)
  rw [NoCollision, pieces_twoChunks, pieces_twoChunks]
  simp only [forall_mem_cons, first]
  refine ⟨⟨fun _ => trivial, fun same => ?_, forall_mem_nil _⟩,
    ⟨fun same => ?_, fun same => ?_, forall_mem_nil _⟩, forall_mem_nil _⟩
  · exact absurd same (by decide)
  · exact absurd same (by decide)
  · exact absurd same (by decide)

theorem changedByte_rebuilt :
    let isOne (json : Json) : Bool := json.asInt = some 1
    let ops : List (Op Source) := [⟨.cache, 0, 65538⟩, ⟨.remote, 65538, 1⟩]
    plan isOne (index byLast packageName (twoChunks 2)) (index byLast packageName (twoChunks 1))
        packageName (byLast (twoChunks 2)) = .ok ops ∧
      assemble (contents (twoChunks 1) (twoChunks 2)) ops = twoChunks 2 ∧
      fetch byLast isOne parseFile changedByte none = (0, some (twoChunks 2)) := by
  intro isOne ops
  have planned : plan isOne (index byLast packageName (twoChunks 2))
      (index byLast packageName (twoChunks 1)) packageName (byLast (twoChunks 2)) = .ok ops :=
    plan_twoChunks byLast_hex (by decide) (by decide) (by rw [byLast_append _ (by decide)]; decide)
      (by rw [byLast_append _ (by decide)]; decide)
  have indexed : ∀ last, ∃ json, index byLast packageName (twoChunks last) = some json := by
    intro last
    rw [index, length_twoChunks, if_neg (by decide)]
    exact ⟨_, rfl⟩
  obtain ⟨newJson, newIndex⟩ := indexed 2
  obtain ⟨oldJson, oldIndex⟩ := indexed 1
  obtain ⟨builds, -, fetches⟩ := update_rebuilds_package byLast isOne parseFile
  refine ⟨planned, ?_, ?_⟩
  · rw [newIndex, oldIndex] at planned
    exact builds _ _ _ _ _ _ _ _ _ noCollision_twoChunks oldIndex newIndex planned
  · rw [newIndex, oldIndex] at planned
    refine fetches changedByte none _ _ _ _ _ _ _ noCollision_twoChunks oldIndex newIndex planned ?_
    constructor
    case toFaithful =>
      refine ⟨rfl, fun _ => rfl, fun _ => rfl, fun j op found remote => ?_⟩
      rcases j with _ | _ | j
      · cases found
        cases remote
      · cases found
        rw [(slices_twoChunks 2).2]
        rfl
      · cases found
    case downloaded =>
      exact ⟨[7], rfl, by decide, by rw [readJson, if_neg (by decide), parseFile, if_pos rfl, newIndex]⟩
    case cached =>
      have other : ¬ changedByte.previous = [7] := by decide
      rw [readJson, if_neg (by decide), parseFile, if_neg other, oldIndex]
    all_goals decide

end Gozarbin.Update
