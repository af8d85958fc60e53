import Gozarbin.Masque.Capsule

/-! # The declared lengths of capsules

A capsule declares the length of its value with up to 62 bits, which the parser casts to a word
of the machine. On a machine of 32 bits a length beyond the word becomes a shorter one, and if
the buffer holds that many bytes, they are returned as the value.
-/

namespace Gozarbin.Masque

/-- The capsule at the front of a buffer declares a length; `rest` is what has arrived behind it. -/
def Declares (buffer : Bytes) (kind len : Nat) (rest : Bytes) : Prop :=
  ∃ more, Varint.decode buffer = some (kind, more) ∧ Varint.decode more = some (len, rest)

/-- What `next` does with a buffer if it goes by the declared length. -/
structure Honours (word : WordSize) (buffer : Bytes) : Prop where
  complete : ∀ kind len rest, Declares buffer kind len rest → len ≤ rest.length →
    (CapsuleParser.mk buffer).next word =
      ((decodeCapsule kind (rest.take len)).map some, ⟨rest.drop len⟩)
  incomplete : (∀ kind len rest, Declares buffer kind len rest → rest.length < len) →
    (CapsuleParser.mk buffer).next word = (.ok none, ⟨buffer⟩)

section
variable {word : WordSize} {buffer rest : Bytes} {kind len : Nat}

theorem Declares.unique {kind' len' : Nat} {rest' : Bytes} (declares : Declares buffer kind len rest)
    (declares' : Declares buffer kind' len' rest') : kind' = kind ∧ len' = len ∧ rest' = rest := by
  obtain ⟨more, first, second⟩ := declares
  obtain ⟨more', first', second'⟩ := declares'
  rw [first] at first'
  cases first'
  rw [second] at second'
  cases second'
  exact ⟨rfl, rfl, rfl⟩

theorem next_of_declares (declares : Declares buffer kind len rest) :
    (CapsuleParser.mk buffer).next word =
      if rest.length < word.asUsize len then (.ok none, ⟨buffer⟩)
      else ((decodeCapsule kind (rest.take (word.asUsize len))).map some,
        ⟨rest.drop (word.asUsize len)⟩) := by
  obtain ⟨more, first, second⟩ := declares
  rw [CapsuleParser.next_eq]
  simp only [readCapsule, first, second, Option.bind_some]
  by_cases short : rest.length < word.asUsize len
  · rw [if_pos short, if_pos short]
  · rw [if_neg short, if_neg short]

theorem next_of_not_declares (absent : ∀ kind len rest, ¬Declares buffer kind len rest) :
    (CapsuleParser.mk buffer).next word = (.ok none, ⟨buffer⟩) := by
  rw [CapsuleParser.next_eq]
  cases first : Varint.decode buffer with
  | none => simp only [readCapsule, first, Option.bind_none]
  | some quarter =>
    cases second : Varint.decode quarter.2 with
    | none => simp only [readCapsule, first, second, Option.bind_some, Option.bind_none]
    | some length => exact absurd ⟨quarter.2, first, second⟩ (absent quarter.1 length.1 length.2)

theorem map_some_ne {result : Except AetherError Capsule} : result.map some ≠ .ok none := by
  cases result with
  | error => exact fun same => by cases same
  | ok => exact fun same => by cases same

theorem honours_of_declares (declares : Declares buffer kind len rest) :
    Honours word buffer ↔ len < 2 ^ word.bits ∨ rest.length < word.asUsize len := by
  have result : (CapsuleParser.mk buffer).next word = _ := next_of_declares declares
  constructor
  · intro honours
    by_contra lost
    obtain ⟨large, enough⟩ := not_or.mp lost
    rw [if_neg enough] at result
    rcases Nat.lt_or_ge rest.length len with short | long
    · have waits := honours.incomplete fun kind' len' rest' declares' => by
        obtain ⟨rfl, rfl, rfl⟩ := declares.unique declares'
        exact short
      rw [waits] at result
      exact map_some_ne (Prod.mk.inj result).1.symm
    · have taken := honours.complete kind len rest declares long
      rw [taken] at result
      have left := congrArg (fun parser => parser.buf.length) (Prod.mk.inj result).2
      have less : word.asUsize len < len :=
        Nat.lt_of_lt_of_le (Nat.mod_lt _ (Nat.two_pow_pos _)) (Nat.not_lt.mp large)
      simp only [List.length_drop] at left
      omega
  · intro kept
    constructor
    · intro kind' len' rest' declares' complete
      obtain ⟨rfl, rfl, rfl⟩ := declares.unique declares'
      have same : word.asUsize len' = len' := by
        rcases kept with small | short
        · exact WordSize.asUsize_of_lt small
        · have less : word.asUsize len' ≤ len' := Nat.mod_le ..
          omega
      rw [result, same, if_neg (Nat.not_lt.mpr complete)]
    · intro incomplete
      have short := incomplete kind len rest declares
      rcases kept with small | waits
      · rw [result, WordSize.asUsize_of_lt small, if_pos short]
      · rw [result, if_pos waits]

theorem honours_of_forall (kept : ∀ kind len rest, Declares buffer kind len rest →
    len < 2 ^ word.bits ∨ rest.length < word.asUsize len) : Honours word buffer := by
  by_cases declared : ∃ kind len rest, Declares buffer kind len rest
  · obtain ⟨kind, len, rest, declares⟩ := declared
    exact (honours_of_declares declares).mpr (kept kind len rest declares)
  · have absent : ∀ kind len rest, ¬Declares buffer kind len rest := fun kind len rest declares =>
      declared ⟨kind, len, rest, declares⟩
    exact ⟨fun kind len rest declares => absurd declares (absent kind len rest),
      fun _ => next_of_not_declares absent⟩

end

/-- A declared length is honoured precisely if it fits a word, or what the word keeps of it is
    still more than has arrived. -/
theorem capsule_lengths_honoured_iff (word : WordSize) (buffer : Bytes) :
    Honours word buffer ↔ ∀ kind len rest, Declares buffer kind len rest →
      len < 2 ^ word.bits ∨ rest.length < len % 2 ^ word.bits :=
  ⟨fun honours _ _ _ declares => (honours_of_declares declares).mp honours, honours_of_forall⟩

theorem long_capsule_taken_for_empty :
    Declares [0, 0xc0, 0, 0, 1, 0, 0, 0, 0] 0 4294967296 [] ∧
      (CapsuleParser.mk [0, 0xc0, 0, 0, 1, 0, 0, 0, 0]).next .bits32 = (.ok (some (.datagram [])), .new) ∧
      ¬Honours .bits32 [0, 0xc0, 0, 0, 1, 0, 0, 0, 0] := by
  have declares : Declares [0, 0xc0, 0, 0, 1, 0, 0, 0, 0] 0 4294967296 [] :=
    ⟨[0xc0, 0, 0, 1, 0, 0, 0, 0], by decide +kernel, by decide +kernel⟩
  refine ⟨declares, by decide +kernel, fun honours => ?_⟩
  rcases (honours_of_declares declares).mp honours with small | short
  · exact absurd small (by decide)
  · cases short

end Gozarbin.Masque
