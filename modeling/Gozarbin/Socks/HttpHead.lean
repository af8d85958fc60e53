import Gozarbin.Lib.Search
import Gozarbin.Socks.Gateway

/-! # The head of a request to the HTTP proxy

`read_head` collects bytes until the first blank line and gives up on a head that is too large.
The first line names the target: by its authority for CONNECT, by an absolute URI for every
other method. What is read beyond the head is kept for the server (`early`).
-/

namespace Gozarbin.Socks

open List Text Search

def httpHeadLimit : Nat := 16 * 1024

def headChunk : Nat := 2048

structure HttpRequestLine where
  method : Text
  authority : Text
  port : UInt16
  rewritten : Option Text
  deriving DecidableEq

def parsePort (text : Text) : Option UInt16 := (parseUnsigned 65536 text).map UInt16.ofNat

def parseAuthority (raw : Text) (defaultPort : UInt16) : Option (Text × UInt16) :=
  let raw := trim raw
  if raw.isEmpty then none
  else
    match strip ['['] raw with
    | some rest =>
      match splitOnce [']'] rest with
      | none => none
      | some (host, tail) =>
        if host.isEmpty then none
        else
          match strip [':'] tail with
          | some value => (parsePort value).map fun port => (host, port)
          | none => some (host, defaultPort)
    | none =>
      match rsplitOnce ':' raw with
      | some (host, port) =>
        if host.contains [':'] then some (raw, defaultPort)
        else if host.isEmpty then none
        else (parsePort port).map fun port => (host, port)
      | none => some (raw, defaultPort)

def splitPath (withoutScheme : Text) : Text × Text :=
  match splitOnce ['/'] withoutScheme with
  | some (authority, rest) => (authority, '/' :: rest)
  | none => (withoutScheme, ['/'])

def parseRequestLine (line : Text) : Option HttpRequestLine :=
  match splitWhitespace line with
  | method :: target :: more =>
    let version := more.headD "HTTP/1.1".toList
    if method.eqIgnoreAsciiCase "CONNECT".toList then
      (parseAuthority target 443).map fun (authority, port) => ⟨method, authority, port, none⟩
    else
      match (strip "http://".toList target).or (strip "HTTP://".toList target) with
      | none => none
      | some withoutScheme =>
        let (authorityPart, path) := splitPath withoutScheme
        (parseAuthority authorityPart 80).map fun (authority, port) =>
          ⟨method, authority, port,
            some (method ++ ' ' :: path ++ ' ' :: version ++ "\r\n".toList)⟩
  | _ => none

/-- Why no head was read. -/
inductive HeadError where
  | closed
  | failed
  | late
  | tooLarge
  deriving DecidableEq

def readHead (ending : HeadError) :
    (buf : Bytes) → List Bytes → Except HeadError (Bytes × Bytes × List Bytes)
  | _, [] => .error ending
  | buf, chunk :: rest =>
    if chunk.isEmpty then .error .closed
    else
      let searchFrom := buf.length - 3
      let buf := buf ++ chunk
      match findHeadEnd (buf.drop searchFrom) with
      | some end_ => .ok (buf.take (searchFrom + end_), buf.drop (searchFrom + end_), rest)
      | none =>
        if buf.length > httpHeadLimit then .error .tooLarge else readHead ending buf rest

section findHeadEnd
variable {bytes more : Bytes} {n : Nat}

def blankLine : Bytes := Text.ascii "\r\n\r\n"

theorem blankLine_ne_nil : blankLine ≠ [] := by decide

theorem findHeadEnd_eq (bytes : Bytes) : findHeadEnd bytes = (position blankLine bytes).map (· + 4) := by
  induction bytes with
  | nil => rfl
  | cons b rest ih =>
    rw [findHeadEnd, position, show Text.ascii "\r\n\r\n" = blankLine from rfl, ih]
    by_cases here : blankLine <+: b :: rest
    · rw [if_pos ( isPrefixOf_iff_prefix.mpr here), if_pos here]
      rfl
    · rw [if_neg (mt isPrefixOf_iff_prefix.mp here), if_neg here, Option.map_map, Option.map_map]
      rfl

theorem findHeadEnd_eq_some :
    findHeadEnd bytes = some n ↔ ∃ m, position blankLine bytes = some m ∧ n = m + 4 := by
  rw [findHeadEnd_eq, Option.map_eq_some_iff]
  simp only [eq_comm]

theorem findHeadEnd_eq_none : findHeadEnd bytes = none ↔ position blankLine bytes = none := by
  rw [findHeadEnd_eq, Option.map_eq_none_iff]

theorem findHeadEnd_bounds (found : findHeadEnd bytes = some n) : 4 ≤ n ∧ n ≤ bytes.length := by
  obtain ⟨m, place, rfl⟩ := findHeadEnd_eq_some.mp found
  exact ⟨Nat.le_add_left .., position_bound blankLine_ne_nil place⟩

theorem findHeadEnd_append (found : findHeadEnd bytes = some n) :
    findHeadEnd (bytes ++ more) = some n := by
  obtain ⟨m, place, rfl⟩ := findHeadEnd_eq_some.mp found
  exact findHeadEnd_eq_some.mpr ⟨m, position_append blankLine_ne_nil place more, rfl⟩

theorem findHeadEnd_left (found : findHeadEnd (bytes ++ more) = some n)
    (inside : n ≤ bytes.length) : findHeadEnd bytes = some n := by
  obtain ⟨m, place, rfl⟩ := findHeadEnd_eq_some.mp found
  exact findHeadEnd_eq_some.mpr ⟨m, position_left blankLine_ne_nil place inside, rfl⟩

theorem findHeadEnd_from (open_ : findHeadEnd bytes = none) :
    findHeadEnd (bytes ++ more) =
      (findHeadEnd ((bytes ++ more).drop (bytes.length - 3))).map (bytes.length - 3 + ·) := by
  have absent : position blankLine ((bytes ++ more).take bytes.length) = none := by
    rw [take_left]
    exact findHeadEnd_eq_none.mp open_
  have resumed := position_from blankLine_ne_nil absent
  rw [findHeadEnd_eq, findHeadEnd_eq, resumed, Option.map_map, Option.map_map]
  rfl

end findHeadEnd

section readHead
variable {ending : HeadError} {buf head early : Bytes} {reads rest : List Bytes}

theorem readHead_cons (open_ : findHeadEnd buf = none) {chunk : Bytes} (some_ : chunk ≠ []) :
    readHead ending buf (chunk :: rest) =
      match findHeadEnd (buf ++ chunk) with
      | some n => .ok ((buf ++ chunk).take n, (buf ++ chunk).drop n, rest)
      | none =>
        if (buf ++ chunk).length > httpHeadLimit then .error .tooLarge
        else readHead ending (buf ++ chunk) rest := by
  rw [readHead, if_neg (by simpa using some_), findHeadEnd_from open_]
  dsimp only
  cases findHeadEnd ((buf ++ chunk).drop (buf.length - 3)) <;> rfl

theorem readHead_sound (open_ : findHeadEnd buf = none) (small : buf.length ≤ httpHeadLimit)
    (some_ : ∀ chunk ∈ reads, chunk ≠ [])
    (read : readHead ending buf reads = .ok (head, early, rest)) :
    buf ++ reads.flatten = head ++ early ++ rest.flatten ∧
      findHeadEnd (buf ++ reads.flatten) = some head.length ∧
      ∃ chunk ∈ reads, head.length ≤ httpHeadLimit + chunk.length := by
  induction reads generalizing buf with
  | nil => cases read
  | cons chunk reads ih =>
    obtain ⟨here, later⟩ := forall_mem_cons.mp some_
    rw [readHead_cons open_ here] at read
    cases found : findHeadEnd (buf ++ chunk) with
    | some n =>
      rw [found] at read
      cases read
      have bounds := findHeadEnd_bounds found
      have length : ((buf ++ chunk).take n).length = n := by
        rw [length_take, Nat.min_eq_left bounds.2]
      refine ⟨by simp, ?_, chunk, mem_cons_self, ?_⟩
      · rw [length, flatten_cons, ← append_assoc]
        exact findHeadEnd_append found
      · rw [length]
        have := bounds.2
        rw [length_append] at this
        omega
    | none =>
      rw [found] at read
      dsimp only at read
      split at read
      next => cases read
      next within =>
        obtain ⟨all, ends, last, member, bound⟩ :=
          ih found (Nat.le_of_not_lt within) later read
        rw [append_assoc] at all ends
        exact ⟨all, ends, last, mem_cons_of_mem _ member, bound⟩

theorem readHead_complete {n : Nat} (open_ : findHeadEnd buf = none)
    (some_ : ∀ chunk ∈ reads, chunk ≠ [])
    (ends : findHeadEnd (buf ++ reads.flatten) = some n)
    (within : ∀ before after, reads = before ++ after → (buf ++ before.flatten).length < n →
      (buf ++ before.flatten).length ≤ httpHeadLimit) :
    ∃ early rest, readHead ending buf reads =
      .ok ((buf ++ reads.flatten).take n, early, rest) := by
  induction reads generalizing buf with
  | nil =>
    rw [flatten_nil, append_nil, open_] at ends
    cases ends
  | cons chunk reads ih =>
    obtain ⟨here, later⟩ := forall_mem_cons.mp some_
    rw [readHead_cons open_ here]
    rw [flatten_cons, ← append_assoc] at ends ⊢
    cases found : findHeadEnd (buf ++ chunk) with
    | some m =>
      have same : m = n := Option.some.inj ((findHeadEnd_append found).symm.trans ends)
      subst same
      refine ⟨(buf ++ chunk).drop m, reads, ?_⟩
      rw [take_append_of_le_length (findHeadEnd_bounds found).2]
    | none =>
      have short : (buf ++ chunk).length < n := by
        by_contra long
        have seen := findHeadEnd_left ends (Nat.le_of_not_lt long)
        rw [found] at seen
        cases seen
      have bound := within [chunk] reads rfl (by simpa using short)
      rw [flatten_cons, flatten_nil, append_nil] at bound
      rw [if_neg (Nat.not_lt.mpr bound)]
      apply ih found later ends
      intro before after split
      have all := within (chunk :: before) after (by rw [split]; rfl)
      simpa using all

end readHead

section segments
variable {ending : HeadError} {buf bytes head early : Bytes} {reads rest : List Bytes} {n : Nat}

/-- The shortest beginning of a stream that ends with a blank line. -/
structure IsHead (stream head : Bytes) : Prop where
  begins : head <+: stream
  blank : blankLine <:+ head
  shortest : ∀ other, other <+: stream → blankLine <:+ other → head.length ≤ other.length

theorem suffix_of_findHeadEnd (found : findHeadEnd bytes = some n) : blankLine <:+ bytes.take n := by
  obtain ⟨m, place, rfl⟩ := findHeadEnd_eq_some.mp found
  obtain ⟨front, rest, rfl, rfl, -⟩ := until_of_position blankLine_ne_nil place
  have whole : (front ++ blankLine ++ rest).take (front.length + 4) = front ++ blankLine :=
    take_left' length_append
  rw [whole]
  exact suffix_append ..

theorem findHeadEnd_of_suffix (blank : blankLine <:+ bytes) :
    ∃ n, findHeadEnd bytes = some n ∧ n ≤ bytes.length := by
  have found : findHeadEnd bytes ≠ none := by
    obtain ⟨front, rfl⟩ := blank
    rw [Ne, findHeadEnd_eq_none, position_eq_none blankLine_ne_nil]
    intro nowhere
    refine nowhere front.length ?_
    rw [drop_left]
  obtain ⟨n, some_⟩ := Option.ne_none_iff_exists'.mp found
  exact ⟨n, some_, (findHeadEnd_bounds some_).2⟩

theorem isHead_of_findHeadEnd (found : findHeadEnd bytes = some n) : IsHead bytes (bytes.take n) where
  begins := take_prefix n bytes
  blank := suffix_of_findHeadEnd found
  shortest := by
    rintro other ⟨more, rfl⟩ blank
    obtain ⟨m, earlier, bound⟩ := findHeadEnd_of_suffix blank
    obtain rfl : m = n := Option.some.inj ((findHeadEnd_append earlier).symm.trans found)
    exact Nat.le_trans (length_take_le ..) bound

theorem IsHead.findHeadEnd_eq (is_head : IsHead bytes head) :
    findHeadEnd bytes = some head.length := by
  obtain ⟨m, found, bound⟩ := findHeadEnd_of_suffix is_head.blank
  obtain ⟨more, rfl⟩ := is_head.begins
  have later : findHeadEnd (head ++ more) = some m := findHeadEnd_append found
  have earlier := isHead_of_findHeadEnd later
  have least := is_head.shortest _ earlier.begins earlier.blank
  have most := length_take_le m (head ++ more)
  obtain rfl : m = head.length := by omega
  exact later

theorem suffix_of_readHead (read : readHead ending buf reads = .ok (head, early, rest)) :
    rest <:+ reads := by
  induction reads generalizing buf with
  | nil => cases read
  | cons chunk reads ih =>
    rw [readHead] at read
    split at read
    · cases read
    · dsimp only at read
      split at read
      · cases read
        exact suffix_cons ..
      · split at read
        · cases read
        · exact (ih read).trans (suffix_cons ..)

theorem readHead_open (none_ : findHeadEnd (buf ++ reads.flatten) = none)
    (some_ : ∀ chunk ∈ reads, chunk ≠ []) (more : List Bytes) :
    (∃ why, readHead ending buf reads = .error why) ∧
      ∃ why, readHead ending buf (reads ++ [] :: more) = .error why := by
  induction reads generalizing buf with
  | nil => exact ⟨⟨_, rfl⟩, _, rfl⟩
  | cons chunk reads ih =>
    obtain ⟨here, later⟩ := forall_mem_cons.mp some_
    rw [flatten_cons, ← append_assoc] at none_
    have closed : ∀ {bytes more : Bytes}, findHeadEnd (bytes ++ more) = none →
        findHeadEnd bytes = none := by
      intro bytes more none_
      cases found : findHeadEnd bytes with
      | none => rfl
      | some n =>
        rw [findHeadEnd_append found] at none_
        cases none_
    have open_ := closed none_
    rw [cons_append, readHead_cons (closed open_) here, readHead_cons (closed open_) here, open_]
    dsimp only
    split
    · exact ⟨⟨_, rfl⟩, _, rfl⟩
    · exact ih none_ later

/-- The head does not depend on how the stream is cut: if it ends within the limit it is read,
    and a stream without a head is an error. -/
theorem readHead_independent (ending : HeadError) {stream : Bytes} {reads : List Bytes}
    (delivered : reads.flatten = stream)
    (sizes : ∀ chunk ∈ reads, 1 ≤ chunk.length ∧ chunk.length ≤ headChunk) :
    (∀ head, IsHead stream head → head.length ≤ httpHeadLimit →
      ∃ early used rest, readHead ending [] reads = .ok (head, early, rest) ∧
        reads = used ++ rest ∧ head ++ early = used.flatten) ∧
      ((∀ head, ¬ IsHead stream head) →
        (∃ why, readHead ending [] reads = .error why) ∧
          ∀ more, ∃ why, readHead ending [] (reads ++ [] :: more) = .error why) := by
  have some_ : ∀ chunk ∈ reads, chunk ≠ [] := fun chunk member =>
    ne_nil_of_length_pos (sizes chunk member).1
  subst delivered
  refine ⟨fun head is_head within => ?read, fun none_ => ?error⟩
  case read =>
    obtain ⟨early, rest, read⟩ : ∃ early rest, readHead ending [] reads =
        .ok (([] ++ reads.flatten).take head.length, early, rest) :=
      readHead_complete rfl some_ is_head.findHeadEnd_eq fun before after split short => by omega
    obtain ⟨all, -, -⟩ := readHead_sound rfl (Nat.zero_le _) some_ read
    obtain ⟨used, parts⟩ := suffix_of_readHead read
    have whole : ([] ++ reads.flatten).take head.length = head := by
      rw [nil_append]
      exact (prefix_iff_eq_take.mp is_head.begins).symm
    rw [whole] at read all
    refine ⟨early, used, rest, read, parts.symm, ?_⟩
    rw [nil_append, ← parts, flatten_append] at all
    exact (append_cancel_right all).symm
  case error =>
    have open_ : findHeadEnd ([] ++ reads.flatten) = none := by
      cases found : findHeadEnd ([] ++ reads.flatten) with
      | none => rfl
      | some n => exact absurd (isHead_of_findHeadEnd found) (none_ _)
    exact ⟨(readHead_open open_ some_ []).1, fun more => (readHead_open open_ some_ more).2⟩

def cutReads : List Bytes := [ascii "GET / HTTP/1.1\r\n\r", ascii "\nab", ascii "c"]

theorem readHead_cut_blank_line :
    ∃ early used rest,
      readHead .closed [] cutReads = .ok (ascii "GET / HTTP/1.1\r\n\r\n", early, rest) ∧
        cutReads = used ++ rest ∧ ascii "GET / HTTP/1.1\r\n\r\n" ++ early = used.flatten :=
  have found : findHeadEnd cutReads.flatten = some 18 := by decide
  (readHead_independent .closed rfl (by decide)).1 _ (isHead_of_findHeadEnd found) (by decide)

end segments

end Gozarbin.Socks
