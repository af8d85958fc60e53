import Gozarbin.Lib.Varint

/-! # Fields at offsets

A reader that keeps an offset into a byte string reads ranges and big-endian numbers at
it, and walks over records of a kind, a length and a value. What it reads is determined
by what stands behind the offset, and does not change when bytes are added at the end.
-/

namespace Gozarbin.Fields

open List BigEndian

def range {α : Type*} (buf : List α) (start stop : Nat) : Option (List α) :=
  if start ≤ stop ∧ stop ≤ buf.length then some ((buf.drop start).take (stop - start)) else none

def number (size : Nat) (buf : List UInt8) (offset : Nat) : Option Nat :=
  (range buf offset (offset + size)).map ofBytes

section range
variable {α : Type*} {buf more rest taken : List α} {offset start stop : Nat}

theorem range_eq_some : range buf start stop = some taken ↔
    start ≤ stop ∧ stop ≤ buf.length ∧ taken = (buf.drop start).take (stop - start) := by
  rw [range, Option.ite_none_right_eq_some, Option.some.injEq, and_assoc, eq_comm (a := taken)]

theorem range_of_drop (inside : offset ≤ buf.length) (split : buf.drop offset = taken ++ rest) :
    range buf offset (offset + taken.length) = some taken := by
  have length := congrArg List.length split
  rw [length_drop, length_append] at length
  refine range_eq_some.mpr ⟨by omega, by omega, ?_⟩
  rw [split, Nat.add_sub_cancel_left, take_left]

theorem length_range (found : range buf start stop = some taken) : taken.length = stop - start := by
  obtain ⟨ordered, inside, rfl⟩ := range_eq_some.mp found
  rw [length_take, length_drop]
  omega

theorem range_append (found : range buf start stop = some taken) (more : List α) :
    range (buf ++ more) start stop = some taken := by
  obtain ⟨ordered, inside, rfl⟩ := range_eq_some.mp found
  refine range_eq_some.mpr ⟨ordered, by rw [length_append]; omega, ?_⟩
  rw [drop_append_of_le_length (by omega),
    take_append_of_le_length (by rw [length_drop]; omega)]

theorem range_extend {stop' : Nat} (found : range buf start stop = some taken) (more : List α)
    (later : stop ≤ stop') (inside : stop' ≤ (buf ++ more).length) :
    ∃ added, range (buf ++ more) start stop' = some (taken ++ added) := by
  obtain ⟨ordered, -, rfl⟩ := range_eq_some.mp (range_append found more)
  refine ⟨((buf ++ more).drop stop).take (stop' - stop), range_eq_some.mpr ⟨by omega, inside, ?_⟩⟩
  have sum : stop' - start = stop - start + (stop' - stop) := by omega
  have reach : start + (stop - start) = stop := by omega
  rw [sum, take_add, drop_drop, reach]

theorem range_drop (inside : offset ≤ buf.length) :
    range (buf.drop offset) start stop = range buf (offset + start) (offset + stop) := by
  have bounds : (start ≤ stop ∧ stop ≤ (buf.drop offset).length) ↔
      (offset + start ≤ offset + stop ∧ offset + stop ≤ buf.length) := by
    rw [length_drop]
    omega
  rw [range, range, drop_drop, Nat.add_sub_add_left]
  simp only [bounds]

theorem range_range {start' stop' : Nat} {part : List α} (outer : range buf start stop = some part)
    (inner : range part start' stop' = some taken) :
    range buf (start + start') (start + stop') = some taken := by
  obtain ⟨ordered, inside, rfl⟩ := range_eq_some.mp outer
  have whole : buf.drop start = (buf.drop start).take (stop - start) ++
      (buf.drop start).drop (stop - start) := (take_append_drop ..).symm
  rw [← range_drop (by omega), whole]
  exact range_append inner _

theorem drop_add (split : buf.drop offset = taken ++ rest) :
    buf.drop (offset + taken.length) = rest := by
  rw [← drop_drop, split, drop_left]

theorem getElem?_of_drop {a : α} (split : buf.drop offset = a :: rest) : buf[offset]? = some a := by
  have first : (buf.drop offset)[0]? = some a := by rw [split]; rfl
  rwa [List.getElem?_drop, Nat.add_zero] at first

end range

section number
variable {size offset value : Nat} {buf rest : List UInt8}

theorem number_of_drop (split : buf.drop offset = toBytes (size + 1) value ++ rest)
    (small : value < 256 ^ (size + 1)) : number (size + 1) buf offset = some value := by
  have inside : offset ≤ buf.length := by
    by_contra beyond
    have empty : buf.drop offset = [] := drop_eq_nil_of_le (by omega)
    rw [empty] at split
    have length := congrArg List.length split
    rw [length_nil, length_append, length_toBytes] at length
    omega
  have found := range_of_drop inside split
  rw [length_toBytes] at found
  rw [number, found, Option.map_some, ofBytes_toBytes, Nat.mod_eq_of_lt small]

theorem number_succ (size : Nat) (buf : List UInt8) (offset : Nat) :
    number (size + 1) buf offset =
      if size + 1 ≤ (buf.drop offset).length then some (ofBytes ((buf.drop offset).take (size + 1)))
      else none := by
  have bounds : (offset ≤ offset + (size + 1) ∧ offset + (size + 1) ≤ buf.length) ↔
      size + 1 ≤ (buf.drop offset).length := by
    rw [length_drop]
    omega
  rw [number, range, Nat.add_sub_cancel_left]
  simp only [bounds]
  split <;> rfl

theorem number_append (found : number size buf offset = some value) (more : List UInt8) :
    number size (buf ++ more) offset = some value := by
  obtain ⟨bytes, read, rfl⟩ := Option.map_eq_some_iff.mp found
  rw [number, range_append read]
  rfl

theorem number_range {start stop : Nat} {part : List UInt8} (outer : range buf start stop = some part)
    (found : number size part offset = some value) : number size buf (start + offset) = some value := by
  obtain ⟨bytes, read, rfl⟩ := Option.map_eq_some_iff.mp found
  rw [number, Nat.add_assoc, range_range outer read]
  rfl

theorem number_lt (found : number size buf offset = some value) : value < 256 ^ size := by
  obtain ⟨bytes, read, rfl⟩ := Option.map_eq_some_iff.mp found
  have length := length_range read
  rw [Nat.add_sub_cancel_left] at length
  rw [← length]
  exact ofBytes_lt bytes

theorem number_le (found : number size buf offset = some value) : offset + size ≤ buf.length := by
  obtain ⟨bytes, read, -⟩ := Option.map_eq_some_iff.mp found
  exact (range_eq_some.mp read).2.1

end number

/-- A kind, and a value that is preceded by its length in two bytes. -/
structure Record where
  kind : Nat
  value : List UInt8

def Record.encode (tag : Nat) (r : Record) : List UInt8 :=
  toBytes tag r.kind ++ (toBytes 2 r.value.length ++ r.value)

/-- The kind and the length fit into their fields. -/
structure Record.Fits (tag : Nat) (r : Record) : Prop where
  kind : r.kind < 256 ^ tag
  length : r.value.length < 65536

def find (tag : Nat) (buf : List UInt8) (stop wanted : Nat) :
    (fuel offset : Nat) → Option (List UInt8)
  | 0, _ => none
  | fuel + 1, offset =>
    if offset + (tag + 2) ≤ stop then
      (number tag buf offset).bind fun kind =>
        (number 2 buf (offset + tag)).bind fun length =>
          if offset + (tag + 2) + length > stop then none
          else if kind = wanted then
            range buf (offset + (tag + 2)) (offset + (tag + 2) + length)
          else find tag buf stop wanted fuel (offset + (tag + 2) + length)
    else none

section find
variable {tag stop wanted fuel offset : Nat} {buf rest value : List UInt8} {r : Record}

@[simp] theorem Record.length_encode (tag : Nat) (r : Record) :
    (r.encode tag).length = tag + 2 + r.value.length := by
  simp [encode, Nat.add_assoc]

theorem length_le_encode (tag : Nat) (records : List Record) :
    records.length ≤ (records.flatMap (Record.encode tag)).length := by
  induction records with
  | nil => simp
  | cons r records ih =>
    rw [flatMap_cons, length_append, Record.length_encode, length_cons]
    omega

theorem value_le_encode (tag : Nat) {records : List Record} (member : r ∈ records) :
    r.value.length ≤ (records.flatMap (Record.encode tag)).length := by
  induction records with
  | nil => cases member
  | cons o records ih =>
    rw [flatMap_cons, length_append, Record.length_encode]
    rcases mem_cons.mp member with rfl | later
    · omega
    · have := ih later
      omega

theorem find_record (pos : 0 < tag) (fits : r.Fits tag) (split : buf.drop offset = r.encode tag ++ rest)
    (inside : offset + (r.encode tag).length ≤ stop) :
    find tag buf stop wanted (fuel + 1) offset =
      if r.kind = wanted then some r.value
      else find tag buf stop wanted fuel (offset + (r.encode tag).length) := by
  obtain ⟨tag, rfl⟩ := Nat.exists_eq_add_one_of_ne_zero (Nat.ne_of_gt pos)
  rw [Record.length_encode] at inside ⊢
  rw [Record.encode, append_assoc, append_assoc] at split
  have kind := number_of_drop split fits.kind
  have split₁ := drop_add split
  rw [length_toBytes] at split₁
  have length := number_of_drop split₁ fits.length
  have split₂ := drop_add split₁
  have within : offset + (tag + 1 + 2) ≤ buf.length := by
    have := number_le length
    omega
  have found := range_of_drop within split₂
  rw [find, if_pos (by omega), kind, Option.bind_some, length, Option.bind_some, if_neg (by omega),
    found, Nat.add_assoc]

theorem find_found {others : List Record} (pos : 0 < tag) (others_fit : ∀ o ∈ others, o.Fits tag)
    (differ : ∀ o ∈ others, o.kind ≠ wanted) (fits : r.Fits tag) (same : r.kind = wanted)
    (split : buf.drop offset = others.flatMap (Record.encode tag) ++ (r.encode tag ++ rest))
    (inside : offset + (others.flatMap (Record.encode tag)).length +
      (r.encode tag).length ≤ stop) (enough : others.length < fuel) :
    find tag buf stop wanted fuel offset = some r.value := by
  induction others generalizing offset fuel with
  | nil =>
    obtain ⟨fuel, rfl⟩ := Nat.exists_eq_add_one_of_ne_zero (Nat.ne_of_gt enough)
    rw [find_record pos fits split (by simpa using inside), if_pos same]
  | cons o others ih =>
    obtain ⟨fuel, rfl⟩ := Nat.exists_eq_add_one_of_ne_zero (Nat.ne_zero_of_lt enough)
    rw [flatMap_cons, append_assoc] at split
    rw [flatMap_cons, length_append] at inside
    rw [find_record pos (others_fit o (mem_cons_self ..)) split (by omega),
      if_neg (differ o (mem_cons_self ..))]
    exact ih (fun o member => others_fit o (mem_cons_of_mem _ member))
      (fun o member => differ o (mem_cons_of_mem _ member)) (drop_add split) (by omega)
      (Nat.lt_of_succ_lt_succ enough)

theorem find_absent {others : List Record} (pos : 0 < tag) (others_fit : ∀ o ∈ others, o.Fits tag)
    (differ : ∀ o ∈ others, o.kind ≠ wanted)
    (split : buf.drop offset = others.flatMap (Record.encode tag) ++ rest)
    (inside : stop = offset + (others.flatMap (Record.encode tag)).length) :
    find tag buf stop wanted fuel offset = none := by
  induction others generalizing offset fuel with
  | nil =>
    cases fuel with
    | zero => rfl
    | succ fuel =>
      simp only [flatMap_nil, length_nil] at inside
      rw [find, if_neg (by omega)]
  | cons o others ih =>
    cases fuel with
    | zero => rfl
    | succ fuel =>
      rw [flatMap_cons, append_assoc] at split
      rw [flatMap_cons, length_append] at inside
      rw [find_record pos (others_fit o (mem_cons_self ..)) split (by omega),
        if_neg (differ o (mem_cons_self ..))]
      exact ih (fun o member => others_fit o (mem_cons_of_mem _ member))
        (fun o member => differ o (mem_cons_of_mem _ member)) (drop_add split) (by omega)

theorem find_append {stop' fuel' : Nat} (taken : find tag buf stop wanted fuel offset = some value)
    (later : stop ≤ stop') (enough : fuel ≤ fuel') (more : List UInt8) :
    find tag (buf ++ more) stop' wanted fuel' offset = some value := by
  induction fuel generalizing fuel' offset with
  | zero => cases taken
  | succ fuel ih =>
    obtain ⟨fuel', rfl⟩ := Nat.exists_eq_add_one_of_ne_zero (Nat.ne_zero_of_lt enough)
    rw [find, Option.ite_none_right_eq_some] at taken
    obtain ⟨head, taken⟩ := taken
    obtain ⟨kind, read_kind, taken⟩ := Option.bind_eq_some_iff.mp taken
    obtain ⟨length, read_length, taken⟩ := Option.bind_eq_some_iff.mp taken
    rw [Option.ite_none_left_eq_some] at taken
    obtain ⟨inside, taken⟩ := taken
    rw [find, if_pos (by omega), number_append read_kind, Option.bind_some,
      number_append read_length, Option.bind_some, if_neg (by omega)]
    split at taken
    next same => rw [if_pos same, range_append taken]
    next other => rw [if_neg other, ih taken (Nat.le_of_succ_le_succ enough)]

theorem find_fuel {fuel' : Nat} (enough : stop < offset + fuel) (enough' : stop < offset + fuel') :
    find tag buf stop wanted fuel offset = find tag buf stop wanted fuel' offset := by
  induction fuel generalizing fuel' offset with
  | zero =>
    cases fuel' with
    | zero => rfl
    | succ fuel' => rw [find, find, if_neg (by omega)]
  | succ fuel ih =>
    cases fuel' with
    | zero => rw [find, find, if_neg (by omega)]
    | succ fuel' =>
      rw [find, find]
      split
      · congr! 4 with kind length
        exact ih (by omega) (by omega)
      · rfl

end find

end Gozarbin.Fields
