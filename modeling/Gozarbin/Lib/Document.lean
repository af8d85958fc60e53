import Gozarbin.Lib.Utf8Valid

/-! # Documents

A format writes records of one type as texts, and reads them back. It need not write every
record, and what it reads need not be something it wrote.
-/

namespace Gozarbin.Document

variable {α β : Type*}

structure Format (α : Type*) where
  write : α → Except String Text
  read : Text → Except String α
  reads_back : ∀ {a : α} {text : Text}, write a = .ok text → read text = .ok a

namespace Format

/-- Every record can be written. -/
def Total (format : Format α) : Prop := ∀ a, ∃ text, format.write a = .ok text

def via (format : Format β) (pack : α → β) (unpack : β → Except String α)
    (inverse : ∀ a, unpack (pack a) = .ok a) : Format α where
  write a := format.write (pack a)
  read text := (format.read text).bind unpack
  reads_back := by
    intro a text wrote
    rw [format.reads_back wrote]
    exact inverse a

theorem Total.via {format : Format β} (total : format.Total) {pack : α → β}
    {unpack : β → Except String α} (inverse : ∀ a, unpack (pack a) = .ok a) :
    (format.via pack unpack inverse).Total :=
  fun a => total (pack a)

end Format

/-! ## Lists of texts

The simplest format there is: a dot before each character and a semicolon behind each text.
-/

def writeTexts (texts : List Text) : Text :=
  texts.flatMap fun text => text.flatMap (fun c => ['.', c]) ++ [';']

def readTexts : (start : Text) → Text → Except String (List Text)
  | [], [] => .ok []
  | start, ';' :: rest => (readTexts [] rest).map (start :: ·)
  | start, '.' :: c :: rest => readTexts (start ++ [c]) rest
  | _, _ => .error "not a list of texts"

theorem readTexts_text (start text rest : Text) :
    readTexts start (text.flatMap (fun c => ['.', c]) ++ ';' :: rest) =
      (readTexts [] rest).map ((start ++ text) :: ·) := by
  induction text generalizing start with
  | nil => simp [readTexts]
  | cons c text ih => simp [readTexts, ih]

theorem readTexts_writeTexts (texts : List Text) : readTexts [] (writeTexts texts) = .ok texts := by
  induction texts with
  | nil => rfl
  | cons text texts ih =>
    have split : writeTexts (text :: texts) =
        text.flatMap (fun c => ['.', c]) ++ ';' :: writeTexts texts := by
      simp [writeTexts]
    rw [split, readTexts_text, ih]
    rfl

def texts : Format (List Text) where
  write := fun list => .ok (writeTexts list)
  read := readTexts []
  reads_back := by
    intro list text wrote
    cases wrote
    exact readTexts_writeTexts list

theorem texts_total : texts.Total := fun list => ⟨writeTexts list, rfl⟩

end Gozarbin.Document
