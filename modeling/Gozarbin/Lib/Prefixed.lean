import Gozarbin.Lib.Fields

/-! # Fields read in order

Readers that take a field off the front of a byte string: a number of bytes, a big-endian number,
or a string that its length precedes. Each of them reads what was written and nothing else, and so
does a loop that reads items until the bytes are used up.
-/

namespace Gozarbin.Prefixed

open List BigEndian

variable {α β ρ : Type*} {bytes rest head : List UInt8} {n size value : Nat}

def take (len : Nat) (bytes : List UInt8) : Option (List UInt8 × List UInt8) :=
  if bytes.length < len then none else some (bytes.take len, bytes.drop len)

def number (size : Nat) (bytes : List UInt8) : Option (Nat × List UInt8) :=
  (take size bytes).map fun (head, rest) => (ofBytes head, rest)

def u8 : List UInt8 → Option (Nat × List UInt8) := number 1

def u16 : List UInt8 → Option (Nat × List UInt8) := number 2

def prefixed (size : Nat) (bytes : List UInt8) : Option (List UInt8 × List UInt8) :=
  (number size bytes).bind fun (len, rest) => take len rest

def u8Prefixed : List UInt8 → Option (List UInt8 × List UInt8) := prefixed 1

def u16Prefixed : List UInt8 → Option (List UInt8 × List UInt8) := prefixed 2

def framed (size : Nat) (text : List UInt8) : List UInt8 := toBytes size text.length ++ text

theorem take_eq_some : take n bytes = some (head, rest) ↔ head.length = n ∧ bytes = head ++ rest := by
  rw [take]
  constructor
  · intro taken
    rw [Option.ite_none_left_eq_some] at taken
    obtain ⟨enough, taken⟩ := taken
    cases taken
    exact ⟨length_take_of_le (Nat.not_lt.mp enough), (take_append_drop n bytes).symm⟩
  · rintro ⟨rfl, rfl⟩
    rw [if_neg (by simp), take_left, drop_left]

theorem number_eq_some :
    number size bytes = some (value, rest) ↔ value < 256 ^ size ∧ bytes = toBytes size value ++ rest := by
  rw [number, Option.map_eq_some_iff]
  constructor
  · rintro ⟨⟨head, after⟩, taken, same⟩
    cases same
    obtain ⟨rfl, rfl⟩ := take_eq_some.mp taken
    exact ⟨ofBytes_lt head, by rw [toBytes_ofBytes]⟩
  · rintro ⟨small, rfl⟩
    refine ⟨(toBytes size value, rest), take_eq_some.mpr ⟨length_toBytes size value, rfl⟩, ?_⟩
    dsimp only
    rw [ofBytes_toBytes, Nat.mod_eq_of_lt small]

theorem prefixed_eq_some :
    prefixed size bytes = some (head, rest) ↔
      head.length < 256 ^ size ∧ bytes = framed size head ++ rest := by
  rw [prefixed, Option.bind_eq_some_iff]
  constructor
  · rintro ⟨⟨len, after⟩, read, taken⟩
    obtain ⟨small, rfl⟩ := number_eq_some.mp read
    obtain ⟨rfl, rfl⟩ := take_eq_some.mp taken
    exact ⟨small, by rw [framed, append_assoc]⟩
  · rintro ⟨small, rfl⟩
    rw [framed, append_assoc]
    exact ⟨(head.length, head ++ rest), number_eq_some.mpr ⟨small, rfl⟩, take_eq_some.mpr ⟨rfl, rfl⟩⟩

theorem u8_eq_some : u8 bytes = some (value, rest) ↔ value < 256 ∧ bytes = toBytes 1 value ++ rest :=
  number_eq_some

theorem u16_eq_some : u16 bytes = some (value, rest) ↔ value < 65536 ∧ bytes = toBytes 2 value ++ rest :=
  number_eq_some

theorem u8Prefixed_eq_some :
    u8Prefixed bytes = some (head, rest) ↔ head.length < 256 ∧ bytes = framed 1 head ++ rest :=
  prefixed_eq_some

theorem u16Prefixed_eq_some :
    u16Prefixed bytes = some (head, rest) ↔ head.length < 65536 ∧ bytes = framed 2 head ++ rest :=
  prefixed_eq_some

@[simp] theorem length_framed (size : Nat) (text : List UInt8) :
    (framed size text).length = size + text.length := by
  simp [framed]

def readItems (item : List UInt8 → Option (α × List UInt8)) (f : β → α → β) :
    (fuel : Nat) → List UInt8 → β → Option β
  | _, [], acc => some acc
  | 0, _ :: _, _ => none
  | fuel + 1, byte :: more, acc =>
    (item (byte :: more)).bind fun (a, rest) => readItems item f fuel rest (f acc a)

section
variable {item : List UInt8 → Option (α × List UInt8)} {f : β → α → β} {acc result : β}
  {encode : ρ → List UInt8} {Good : ρ → Prop} {reading : ρ → α}
  (reads : ∀ {bytes a rest}, item bytes = some (a, rest) ↔
    ∃ r, Good r ∧ reading r = a ∧ bytes = encode r ++ rest)
  (nonempty : ∀ r, encode r ≠ [])

include nonempty in
theorem eq_nil_of_flatMap {list : List ρ} (empty : list.flatMap encode = []) : list = [] :=
  eq_nil_iff_forall_not_mem.mpr fun r mem => nonempty r (flatMap_eq_nil_iff.mp empty r mem)

include nonempty in
theorem readItems_nil {fuel : Nat} :
    readItems item f fuel [] acc = some result ↔
      ∃ list : List ρ, (∀ r ∈ list, Good r) ∧ [] = list.flatMap encode ∧
        result = list.foldl (fun acc r => f acc (reading r)) acc := by
  rw [readItems, Option.some.injEq]
  constructor
  · rintro rfl
    exact ⟨[], by simp, rfl, rfl⟩
  · rintro ⟨list, -, empty, rfl⟩
    rw [eq_nil_of_flatMap nonempty empty.symm]
    rfl

include reads nonempty in
theorem readItems_eq_some {fuel : Nat} (enough : bytes.length ≤ fuel) :
    readItems item f fuel bytes acc = some result ↔
      ∃ list : List ρ, (∀ r ∈ list, Good r) ∧ bytes = list.flatMap encode ∧
        result = list.foldl (fun acc r => f acc (reading r)) acc := by
  induction fuel generalizing bytes acc with
  | zero =>
    obtain rfl := length_eq_zero_iff.mp (Nat.le_zero.mp enough)
    exact readItems_nil nonempty
  | succ fuel ih =>
    cases bytes with
    | nil => exact readItems_nil nonempty
    | cons byte more =>
      have shorter : ∀ {r : ρ} {rest : List UInt8}, byte :: more = encode r ++ rest →
          rest.length ≤ fuel := by
        intro r rest split
        have positive := length_pos_iff.mpr (nonempty r)
        rw [split, length_append] at enough
        omega
      rw [readItems, Option.bind_eq_some_iff]
      constructor
      · rintro ⟨⟨a, rest⟩, read, later⟩
        obtain ⟨r, good, rfl, split⟩ := reads.mp read
        obtain ⟨list, goods, rfl, rfl⟩ := (ih (shorter split)).mp later
        exact ⟨r :: list, forall_mem_cons.mpr ⟨good, goods⟩, split, rfl⟩
      · rintro ⟨list, goods, split, rfl⟩
        cases list with
        | nil => cases split
        | cons r list =>
          obtain ⟨good, goods⟩ := forall_mem_cons.mp goods
          exact ⟨(reading r, list.flatMap encode), reads.mpr ⟨r, good, rfl, split⟩,
            (ih (shorter split)).mpr ⟨list, goods, rfl, rfl⟩⟩

end

theorem readItems_flatMap {item : List UInt8 → Option (α × List UInt8)} {f : β → α → β}
    {encode : ρ → List UInt8} {reading : ρ → α} {list : List ρ}
    (reads : ∀ r ∈ list, ∀ rest, item (encode r ++ rest) = some (reading r, rest))
    (nonempty : ∀ r ∈ list, encode r ≠ []) {fuel : Nat} (enough : (list.flatMap encode).length ≤ fuel)
    (acc : β) :
    readItems item f fuel (list.flatMap encode) acc =
      some (list.foldl (fun acc r => f acc (reading r)) acc) := by
  induction list generalizing fuel acc with
  | nil => rw [flatMap_nil, readItems, foldl_nil]
  | cons r list ih =>
    obtain ⟨here, later⟩ := forall_mem_cons.mp reads
    obtain ⟨some_, later'⟩ := forall_mem_cons.mp nonempty
    have positive := length_pos_iff.mpr some_
    have read := here (list.flatMap encode)
    rw [flatMap_cons, length_append] at enough
    obtain ⟨fuel, rfl⟩ : ∃ less, fuel = less + 1 := ⟨fuel - 1, by omega⟩
    obtain ⟨byte, more, bytes⟩ := exists_cons_of_ne_nil some_
    have enough' : (list.flatMap encode).length ≤ fuel := by omega
    rw [flatMap_cons, foldl_cons, ← ih later later' enough' (f acc (reading r))]
    rw [bytes, cons_append] at read ⊢
    rw [readItems, read]
    rfl

theorem readItems_concat {item : List UInt8 → Option (α × List UInt8)} {encode : ρ → List UInt8}
    {reading : ρ → α} {list : List ρ}
    (reads : ∀ r ∈ list, ∀ rest, item (encode r ++ rest) = some (reading r, rest))
    (nonempty : ∀ r ∈ list, encode r ≠ []) :
    readItems item (fun items a => items ++ [a]) (list.flatMap encode).length (list.flatMap encode) [] =
      some (list.map reading) := by
  have collected (items : List α) :
      list.foldl (fun items r => items ++ [reading r]) items = items ++ list.map reading := by
    clear reads nonempty
    induction list generalizing items with
    | nil => simp
    | cons r list ih => simp [ih]
  rw [readItems_flatMap reads nonempty (Nat.le_refl _), collected, nil_append]

end Gozarbin.Prefixed
