import Mathlib.Data.List.Nodup
import Gozarbin.Lib.Numerals
import Gozarbin.Lib.Utf8Valid

/-! # Base64

Three bytes are written as four symbols of six bits each. One or two bytes at the end are written
as two or three symbols and, by some engines, filled up with padding. What is decoded goes by four
symbols too; the last four are read with care for padding and for bits that no byte takes up.
-/

namespace Gozarbin.Base64

open List Text

def pad : UInt8 := 0x3d

structure Engine where
  symbols : List UInt8
  padded : Bool
  full : symbols.length = 64
  nodup : symbols.Nodup
  ascii : ∀ b ∈ symbols, b < 0x80
  pad_not_mem : pad ∉ symbols

def standard : Engine where
  symbols := "ABCDEFGHIJKLMNOPQRSTUVWXYZabcdefghijklmnopqrstuvwxyz0123456789+/".toList.map (·.toNat.toUInt8)
  padded := true
  full := rfl
  nodup := by decide
  ascii := forall_iff_forall_mem.mp (by decide)
  pad_not_mem := by decide

def urlSafeNoPad : Engine where
  symbols := "ABCDEFGHIJKLMNOPQRSTUVWXYZabcdefghijklmnopqrstuvwxyz0123456789-_".toList.map (·.toNat.toUInt8)
  padded := false
  full := rfl
  nodup := by decide
  ascii := forall_iff_forall_mem.mp (by decide)
  pad_not_mem := by decide

def join (a b c : UInt8) : Nat := a.toNat * 65536 + b.toNat * 256 + c.toNat

def sextets (num : Nat) : List Nat := [num / 262144, num / 4096 % 64, num / 64 % 64, num % 64]

def pack (morsels : List Nat) : Nat :=
  morsels.getD 0 0 * 262144 + morsels.getD 1 0 * 4096 + morsels.getD 2 0 * 64 + morsels.getD 3 0

def unpack (num : Nat) : List UInt8 := [num / 65536, num / 256 % 256, num % 256].map UInt8.ofNat

theorem join_lt (a b c : UInt8) : join a b c < 16777216 := by
  have := a.toNat_lt
  have := b.toNat_lt
  have := c.toNat_lt
  rw [join]
  omega

theorem pack_sextets (num : Nat) : pack (sextets num) = num := by
  simp only [pack, sextets, getD_cons_zero, getD_cons_succ]
  omega

theorem unpack_join (a b c : UInt8) : unpack (join a b c) = [a, b, c] := by
  have := b.toNat_lt
  have := c.toNat_lt
  have first : join a b c / 65536 = a.toNat := by rw [join]; omega
  have second : join a b c / 256 % 256 = b.toNat := by rw [join]; omega
  have third : join a b c % 256 = c.toNat := by rw [join]; omega
  simp [unpack, first, second, third]

theorem sextets_lt {num : Nat} (small : num < 16777216) : ∀ n ∈ sextets num, n < 64 := by
  simp only [sextets, forall_mem_cons]
  refine ⟨by omega, by omega, by omega, by omega, by simp⟩

namespace Engine

variable (e : Engine)

def symbol (n : Nat) : UInt8 := e.symbols.getD n 0

def value (b : UInt8) : Option Nat := if b ∈ e.symbols then some (e.symbols.idxOf b) else none

section
variable {e} {n : Nat} (small : n < 64)
include small

theorem symbol_eq : e.symbol n = e.symbols.get ⟨n, e.full ▸ small⟩ := by
  rw [symbol, List.getD, List.getElem?_eq_getElem (e.full ▸ small)]
  rfl

theorem symbol_mem : e.symbol n ∈ e.symbols := by
  rw [symbol_eq small]
  exact get_mem ..

theorem value_symbol : e.value (e.symbol n) = some n := by
  rw [value, if_pos (symbol_mem small), symbol_eq small]
  simp [List.Nodup.idxOf_getElem e.nodup]

theorem symbol_ne_pad : e.symbol n ≠ pad := fun same => e.pad_not_mem (same ▸ symbol_mem small)

end

def pads (count : Nat) : List UInt8 := if e.padded then List.replicate count pad else []

def encodeBytes : List UInt8 → List UInt8
  | a :: b :: c :: rest => (sextets (join a b c)).map e.symbol ++ encodeBytes rest
  | [a, b] => ((sextets (join a b 0)).take 3).map e.symbol ++ e.pads 1
  | [a] => ((sextets (join a 0 0)).take 2).map e.symbol ++ e.pads 2
  | [] => []

def encode (bytes : List UInt8) : Text := (e.encodeBytes bytes).map fun b => Char.ofNat b.toNat

inductive DecodeError where
  | invalidByte (offset : Nat) (byte : UInt8)
  | invalidLength (length : Nat)
  | invalidLastSymbol (offset : Nat) (byte : UInt8)
  | invalidPadding

def DecodeError.text : DecodeError → Text
  | .invalidByte offset byte =>
    "Invalid symbol ".toList ++ decimal byte.toNat ++ ", offset ".toList ++ decimal offset ++ ['.']
  | .invalidLength length => "Invalid input length: ".toList ++ decimal length
  | .invalidLastSymbol offset byte =>
    "Invalid last symbol ".toList ++ decimal byte.toNat ++ ", offset ".toList ++ decimal offset ++ ['.']
  | .invalidPadding => "Invalid padding".toList

/-- The last symbols, as far as they were read. -/
structure Suffix where
  padding : Nat := 0
  firstPadding : Nat := 0
  morsels : List Nat := []
  last : UInt8 := 0

def readSuffix (offset : Nat) : (index : Nat) → Suffix → List UInt8 → Except DecodeError Suffix
  | _, s, [] => .ok s
  | index, s, b :: rest =>
    if b = pad then
      if index < 2 then .error (.invalidByte (offset + index) b)
      else
        let firstPadding := if s.padding = 0 then index else s.firstPadding
        readSuffix offset (index + 1) { s with padding := s.padding + 1, firstPadding } rest
    else if s.padding > 0 then .error (.invalidByte (offset + s.firstPadding) pad)
    else
      match e.value b with
      | none => .error (.invalidByte (offset + index) b)
      | some morsel =>
        let morsels := s.morsels ++ [morsel]
        readSuffix offset (index + 1) { s with morsels, last := b } rest

def finish (offset : Nat) (nothing : Bool) (s : Suffix) : Except DecodeError (List UInt8) :=
  let read := s.morsels.length
  let count := read * 6 / 8
  if !nothing && read < 2 then .error (.invalidLength (offset + read))
  else if if e.padded then (s.padding + read) % 4 ≠ 0 else s.padding > 0 then .error .invalidPadding
  else if pack s.morsels % 256 ^ (3 - count) ≠ 0 then .error (.invalidLastSymbol (offset + read - 1) s.last)
  else .ok ((unpack (pack s.morsels)).take count)

def decodeSuffix (offset : Nat) (suffix : List UInt8) : Except DecodeError (List UInt8) :=
  (e.readSuffix offset 0 {} suffix).bind (e.finish offset suffix.isEmpty)

def morsel (offset : Nat) (b : UInt8) : Except DecodeError Nat :=
  match e.value b with
  | some morsel => .ok morsel
  | none => .error (.invalidByte offset b)

def decodeFrom : (offset : Nat) → List UInt8 → Except DecodeError (List UInt8)
  | offset, a :: b :: c :: d :: next :: rest => do
      let first ← e.morsel offset a
      let second ← e.morsel (offset + 1) b
      let third ← e.morsel (offset + 2) c
      let fourth ← e.morsel (offset + 3) d
      let more ← decodeFrom (offset + 4) (next :: rest)
      return unpack (pack [first, second, third, fourth]) ++ more
  | offset, suffix => e.decodeSuffix offset suffix

def decode (text : Text) : Except DecodeError (List UInt8) :=
  let input := toUtf8 text
  match input.getLast? with
  | some last =>
    -- A line feed at the end is told apart from symbols that are missing.
    if input.length % 4 = 1 ∧ last ≠ pad ∧ e.value last = none then
      .error (.invalidByte (input.length - 1) last)
    else e.decodeFrom 0 input
  | none => e.decodeFrom 0 input

section
variable {k : Nat} {s : Suffix} {morsels : List Nat}

theorem length_pads (count : Nat) : (e.pads count).length = count ∨ (e.pads count).length = 0 := by
  rw [pads]
  split <;> simp

theorem readSuffix_symbols (offset index : Nat) (small : ∀ n ∈ morsels, n < 64)
    (unpadded : s.padding = 0) (rest : List UInt8) :
    ∃ last, e.readSuffix offset index s (morsels.map e.symbol ++ rest) =
      e.readSuffix offset (index + morsels.length)
        { s with morsels := s.morsels ++ morsels, last } rest := by
  induction morsels generalizing index s with
  | nil => exact ⟨s.last, by simp⟩
  | cons n morsels ih =>
    obtain ⟨here, later⟩ := forall_mem_cons.mp small
    obtain ⟨last, same⟩ := ih (index + 1)
      (s := { s with morsels := s.morsels ++ [n], last := e.symbol n }) later unpadded
    refine ⟨last, ?_⟩
    rw [map_cons, cons_append, readSuffix, if_neg (symbol_ne_pad here),
      if_neg (by simp [unpadded]), value_symbol here]
    simpa [Nat.add_comm, Nat.add_left_comm] using same

theorem readSuffix_pads (offset : Nat) {index : Nat} (behind : 2 ≤ index) (s : Suffix) (k : Nat) :
    ∃ firstPadding, e.readSuffix offset index s (List.replicate k pad) =
      .ok { s with padding := s.padding + k, firstPadding } := by
  induction k generalizing index s with
  | zero => exact ⟨s.firstPadding, rfl⟩
  | succ k ih =>
    obtain ⟨firstPadding, same⟩ := ih (Nat.le_succ_of_le behind) { s with
      padding := s.padding + 1
      firstPadding := if s.padding = 0 then index else s.firstPadding }
    refine ⟨firstPadding, ?_⟩
    rw [replicate_succ, readSuffix, if_pos rfl, if_neg (by omega)]
    simpa [Nat.add_comm, Nat.add_left_comm] using same

theorem decodeSuffix_symbols (offset : Nat) (small : ∀ n ∈ morsels, n < 64) (enough : 2 ≤ morsels.length)
    (filled : morsels.length + k = 4) (exact : pack morsels % 256 ^ (3 - morsels.length * 6 / 8) = 0) :
    e.decodeSuffix offset (morsels.map e.symbol ++ e.pads k) =
      .ok ((unpack (pack morsels)).take (morsels.length * 6 / 8)) := by
  obtain ⟨last, first⟩ := e.readSuffix_symbols offset 0 (s := {}) small rfl (e.pads k)
  rw [nil_append] at first
  rw [decodeSuffix, first]
  cases padded : e.padded with
  | false =>
    have none : e.pads k = [] := by simp [pads, padded]
    rw [none, readSuffix, Except.bind, finish, if_neg (by simp [Nat.not_lt.mpr enough]),
      if_neg (by simp [padded]), if_neg (by simp [exact])]
  | true =>
    have all : e.pads k = List.replicate k pad := by simp [pads, padded]
    have behind : 2 ≤ 0 + morsels.length := by omega
    obtain ⟨firstPadding, second⟩ := e.readSuffix_pads offset behind { morsels, last } k
    rw [all, second, Except.bind, finish, if_neg (by simp [Nat.not_lt.mpr enough]),
      if_neg (by simp [padded, Nat.add_comm k, filled]), if_neg (by simp [exact])]

theorem pack_take {num size : Nat} (three : size = 1 ∨ size = 2 ∨ size = 3)
    (zeros : num % 256 ^ (3 - size) = 0) : pack ((sextets num).take (size + 1)) = num := by
  rcases three with rfl | rfl | rfl
  · have zeros : num % 65536 = 0 := zeros
    simp only [pack, sextets, take_succ_cons, take_zero, getD_cons_zero,
      getD_cons_succ, getD_nil]
    omega
  · have zeros : num % 256 = 0 := zeros
    simp only [pack, sextets, take_succ_cons, take_zero, getD_cons_zero,
      getD_cons_succ, getD_nil]
    omega
  · exact pack_sextets num

theorem decodeSuffix_cut (offset : Nat) {a b c : UInt8} {size : Nat}
    (three : size = 1 ∨ size = 2 ∨ size = 3) (zeros : join a b c % 256 ^ (3 - size) = 0) :
    e.decodeSuffix offset (((sextets (join a b c)).take (size + 1)).map e.symbol ++ e.pads (3 - size)) =
      .ok ([a, b, c].take size) := by
  have same := pack_take three zeros
  have length : ((sextets (join a b c)).take (size + 1)).length = size + 1 := by
    rw [length_take, sextets]
    simp only [length_cons]
    omega
  have count : (size + 1) * 6 / 8 = size := by omega
  have small : ∀ n ∈ (sextets (join a b c)).take (size + 1), n < 64 := fun n mem =>
    sextets_lt (join_lt a b c) n (mem_of_mem_take mem)
  have decoded := e.decodeSuffix_symbols offset (k := 3 - size) small (by omega) (by omega)
    (by rw [length, count, same, zeros])
  rw [decoded, length, count, same, unpack_join]

theorem decodeFrom_short (offset : Nat) {input : List UInt8} (short : input.length ≤ 4) :
    e.decodeFrom offset input = e.decodeSuffix offset input := by
  match input, short with
  | [], _ | [a], _ | [a, b], _ | [a, b, c], _ | [a, b, c, d], _ => rfl
  | a :: b :: c :: d :: next :: rest, short =>
    simp only [length_cons] at short
    omega

theorem decodeFrom_symbols {offset : Nat} {next : UInt8} {rest more : List UInt8} {num : Nat}
    (small : num < 16777216)
    (decoded : e.decodeFrom (offset + 4) (next :: rest) = .ok more) :
    e.decodeFrom offset ((sextets num).map e.symbol ++ next :: rest) = .ok (unpack num ++ more) := by
  have each : ∀ n ∈ sextets num, ∀ offset, e.morsel offset (e.symbol n) = .ok n := fun n mem offset => by
    rw [morsel, value_symbol (sextets_lt small n mem)]
  simp only [sextets, forall_mem_cons] at each
  obtain ⟨first, second, third, fourth, -⟩ := each
  have whole := pack_sextets num
  simp only [sextets, map_cons, map_nil, cons_append, nil_append, decodeFrom]
  rw [first, second, third, fourth, decoded]
  exact congrArg (fun n => Except.ok (unpack n ++ more)) whole

theorem eq_nil_of_encodeBytes {bytes : List UInt8} (none : e.encodeBytes bytes = []) : bytes = [] := by
  cases bytes using encodeBytes.induct with
  | case1 a b c rest => simp [encodeBytes, sextets] at none
  | case2 a b => simp [encodeBytes, sextets] at none
  | case3 a => simp [encodeBytes, sextets] at none
  | case4 => rfl

theorem decodeFrom_last (offset : Nat) (a b c : UInt8) :
    e.decodeFrom offset ((sextets (join a b c)).map e.symbol ++ []) = .ok [a, b, c] := by
  have unpadded : e.pads 0 = [] := by simp [pads]
  have all : join a b c % 256 ^ (3 - 3) = 0 := Nat.mod_one _
  have cut := e.decodeSuffix_cut offset (.inr (.inr rfl)) all
  rw [Nat.sub_self, unpadded] at cut
  exact cut

theorem decodeFrom_encodeBytes (offset : Nat) (bytes : List UInt8) :
    e.decodeFrom offset (e.encodeBytes bytes) = .ok bytes := by
  induction bytes using encodeBytes.induct generalizing offset with
  | case1 a b c rest ih =>
    rw [encodeBytes]
    cases more : e.encodeBytes rest with
    | nil =>
      rw [e.eq_nil_of_encodeBytes more]
      exact e.decodeFrom_last offset a b c
    | cons next rest' =>
      have decoded := ih (offset + 4)
      rw [more] at decoded
      rw [e.decodeFrom_symbols (join_lt a b c) decoded, unpack_join]
      rfl
  | case2 a b =>
    have short := e.length_pads 1
    have zeros : join a b 0 % 256 ^ (3 - 2) = 0 := by
      rw [join, UInt8.toNat_zero]
      omega
    rw [encodeBytes, e.decodeFrom_short offset (by simp; omega)]
    exact e.decodeSuffix_cut offset (.inr (.inl rfl)) zeros
  | case3 a =>
    have short := e.length_pads 2
    have zeros : join a 0 0 % 256 ^ (3 - 1) = 0 := by
      rw [join, UInt8.toNat_zero]
      omega
    rw [encodeBytes, e.decodeFrom_short offset (by simp; omega)]
    exact e.decodeSuffix_cut offset (.inl rfl) zeros
  | case4 => simp [encodeBytes, decodeFrom_short, decodeSuffix, readSuffix, finish, Except.bind, pack]

theorem length_encodeBytes (bytes : List UInt8) : (e.encodeBytes bytes).length % 4 ≠ 1 := by
  induction bytes using encodeBytes.induct with
  | case1 a b c rest ih =>
    rw [encodeBytes, length_append, length_map, show (sextets (join a b c)).length = 4 from rfl]
    omega
  | case2 a b =>
    rw [encodeBytes, length_append, length_map]
    rcases e.length_pads 1 with all | none
    · simp [all, sextets]
    · simp [none, sextets]
  | case3 a =>
    rw [encodeBytes, length_append, length_map]
    rcases e.length_pads 2 with all | none
    · simp [all, sextets]
    · simp [none, sextets]
  | case4 => simp [encodeBytes]

theorem ascii_encodeBytes (bytes : List UInt8) : ∀ b ∈ e.encodeBytes bytes, b < 0x80 := by
  have padding : ∀ count, ∀ b ∈ e.pads count, b < 0x80 := by
    intro count b mem
    rw [pads] at mem
    split at mem
    · rw [eq_of_mem_replicate mem]
      decide
    · cases mem
  have symbols : ∀ {num : Nat} (count : Nat), num < 16777216 →
      ∀ b ∈ ((sextets num).take count).map e.symbol, b < 0x80 := by
    intro num count small b mem
    obtain ⟨n, taken, rfl⟩ := mem_map.mp mem
    exact e.ascii _ (symbol_mem (sextets_lt small n (mem_of_mem_take taken)))
  induction bytes using encodeBytes.induct with
  | case1 a b c rest ih =>
    exact forall_mem_append.mpr ⟨symbols 4 (join_lt a b c), ih⟩
  | case2 a b =>
    exact forall_mem_append.mpr ⟨symbols 3 (join_lt a b 0), padding 1⟩
  | case3 a =>
    exact forall_mem_append.mpr ⟨symbols 2 (join_lt a 0 0), padding 2⟩
  | case4 => exact forall_mem_nil _

theorem toUtf8_encode (bytes : List UInt8) : toUtf8 (e.encode bytes) = e.encodeBytes bytes := by
  have back : ∀ b : UInt8, (Char.ofNat b.toNat).toNat.toUInt8 = b := fun b => by
    rw [toNat_ofNat_byte]
    exact UInt8.ofNat_toNat
  have ascii : ∀ c ∈ e.encode bytes, c.toNat < 128 := by
    intro c mem
    obtain ⟨b, written, rfl⟩ := mem_map.mp mem
    rw [toNat_ofNat_byte]
    exact e.ascii_encodeBytes bytes b written
  rw [toUtf8_ascii ascii, encode, map_map]
  exact map_id'' back _

theorem decode_encode (bytes : List UInt8) : e.decode (e.encode bytes) = .ok bytes := by
  rw [decode, toUtf8_encode]
  have whole := e.decodeFrom_encodeBytes 0 bytes
  cases (e.encodeBytes bytes).getLast? with
  | none => exact whole
  | some last =>
    simp only [length_encodeBytes]
    exact whole

theorem encode_ne_nil {bytes : List UInt8} (some_left : bytes ≠ []) : e.encode bytes ≠ [] := by
  intro none
  have back := e.decode_encode bytes
  have nothing := e.decode_encode []
  rw [none] at back
  exact some_left (Except.ok.inj (back.symm.trans nothing))

end

end Engine

end Gozarbin.Base64
