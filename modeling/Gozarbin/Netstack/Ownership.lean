import Gozarbin.Netstack.Run

/-! # Every socket has exactly one connection, and every connection its socket

`Owns` says which connection names which socket. A step changes that relation not at all
(`Owned.update`), by one connection with its socket less (`Owned.remove`), or by a new one more
(`Owned.add`), so ownership is kept along every run and no call through a handle panics.
-/

namespace Gozarbin.Netstack

inductive Kind where
  | tcp
  | udp
  deriving DecidableEq

def Socket.kind : Socket → Kind
  | .tcp _ => .tcp
  | .udp _ => .udp

def SocketSet.kind? (set : SocketSet) (h : SocketHandle) : Option Kind :=
  (set.get? h).map Socket.kind

namespace NetStack

/-- Connection `id` of the given kind names the socket with handle `h`. -/
def Owns (s : NetStack) : Kind → Nat → SocketHandle → Prop
  | .tcp, id, h => ∃ st, s.tcpConns.lookup id = some st ∧ st.handle = h
  | .udp, id, h => ∃ st, s.udpConns.lookup id = some st ∧ st.handle = h

/-- The ownership invariant. -/
structure Owned (s : NetStack) : Prop where
  named : ∀ {k id h}, s.Owns k id h → s.sockets.kind? h = some k
  unique : ∀ {k id k' id' h}, s.Owns k id h → s.Owns k' id' h → id = id'
  covered : ∀ {h k}, s.sockets.kind? h = some k → ∃ id, s.Owns k id h
  below : ∀ {k id h}, s.Owns k id h → id < s.nextId
  apart : ∀ {k k' id h h'}, s.Owns k id h → s.Owns k' id h' → k = k'

theorem initial_owned (iface : Iface) : (initial iface).Owned := by
  have nothing : ∀ k id h, ¬ (initial iface).Owns k id h := by
    intro k id h owns
    cases k <;> simp [Owns, initial] at owns
  exact {
    named := fun owns => absurd owns (nothing _ _ _)
    unique := fun owns => absurd owns (nothing _ _ _)
    covered := by simp [initial, SocketSet.kind?, SocketSet.get?]
    below := fun owns => absurd owns (nothing _ _ _)
    apart := fun owns => absurd owns (nothing _ _ _) }

variable {s t : NetStack}

theorem Owns.handle_eq {k id h h'} (first : s.Owns k id h) (second : s.Owns k id h') : h = h' := by
  cases k with
  | tcp =>
    obtain ⟨st, found, rfl⟩ := first
    obtain ⟨st', found', rfl⟩ := second
    rw [Option.some.inj (found.symm.trans found')]
  | udp =>
    obtain ⟨st, found, rfl⟩ := first
    obtain ⟨st', found', rfl⟩ := second
    rw [Option.some.inj (found.symm.trans found')]

theorem Owned.update (owned : s.Owned) (owns : ∀ k id h, t.Owns k id h ↔ s.Owns k id h)
    (kinds : ∀ h, t.sockets.kind? h = s.sockets.kind? h) (nextId : t.nextId = s.nextId) :
    t.Owned where
  named o := by rw [kinds]; exact owned.named ((owns _ _ _).mp o)
  unique o o' := owned.unique ((owns _ _ _).mp o) ((owns _ _ _).mp o')
  covered found := by
    rw [kinds] at found
    obtain ⟨id, o⟩ := owned.covered found
    exact ⟨id, (owns _ _ _).mpr o⟩
  below o := by rw [nextId]; exact owned.below ((owns _ _ _).mp o)
  apart o o' := owned.apart ((owns _ _ _).mp o) ((owns _ _ _).mp o')

theorem Owned.remove {k₀ id₀ h₀} (owned : s.Owned) (present : s.Owns k₀ id₀ h₀)
    (owns : ∀ k id h, t.Owns k id h ↔ s.Owns k id h ∧ ¬ (k = k₀ ∧ id = id₀))
    (gone : t.sockets.kind? h₀ = none)
    (kinds : ∀ h, h ≠ h₀ → t.sockets.kind? h = s.sockets.kind? h)
    (nextId : t.nextId = s.nextId) : t.Owned where
  named {k id h} o := by
    obtain ⟨old, other⟩ := (owns _ _ _).mp o
    have elsewhere : h ≠ h₀ := by
      rintro rfl
      have same := owned.unique old present
      subst same
      exact other ⟨owned.apart old present, rfl⟩
    rw [kinds h elsewhere]
    exact owned.named old
  unique o o' := owned.unique ((owns _ _ _).mp o).1 ((owns _ _ _).mp o').1
  covered {h k} found := by
    have elsewhere : h ≠ h₀ := by
      rintro rfl
      rw [gone] at found
      cases found
    rw [kinds h elsewhere] at found
    obtain ⟨id, o⟩ := owned.covered found
    refine ⟨id, (owns _ _ _).mpr ⟨o, ?_⟩⟩
    rintro ⟨rfl, rfl⟩
    exact elsewhere (o.handle_eq present)
  below o := by rw [nextId]; exact owned.below ((owns _ _ _).mp o).1
  apart o o' := owned.apart ((owns _ _ _).mp o).1 ((owns _ _ _).mp o').1

theorem Owned.add {k₀ h₀} (owned : s.Owned) (free : s.sockets.kind? h₀ = none)
    (owns : ∀ k id h, t.Owns k id h ↔ s.Owns k id h ∨ (k = k₀ ∧ id = s.nextId ∧ h = h₀))
    (here : t.sockets.kind? h₀ = some k₀)
    (kinds : ∀ h, h ≠ h₀ → t.sockets.kind? h = s.sockets.kind? h)
    (nextId : t.nextId = s.nextId + 1) : t.Owned := by
  have elsewhere : ∀ {k id h}, s.Owns k id h → h ≠ h₀ := by
    rintro k id h o rfl
    rw [owned.named o] at free
    cases free
  constructor
  case named =>
    intro k id h o
    rcases (owns _ _ _).mp o with old | ⟨rfl, rfl, rfl⟩
    · rw [kinds h (elsewhere old)]
      exact owned.named old
    · exact here
  case unique =>
    intro k id k' id' h o o'
    rcases (owns _ _ _).mp o with old | ⟨rfl, rfl, rfl⟩ <;>
      rcases (owns _ _ _).mp o' with old' | ⟨rfl, rfl, same⟩
    · exact owned.unique old old'
    · exact absurd same (elsewhere old)
    · exact absurd rfl (elsewhere old')
    · rfl
  case covered =>
    intro h k found
    by_cases same : h = h₀
    · subst same
      rw [here] at found
      cases found
      exact ⟨s.nextId, (owns _ _ _).mpr (.inr ⟨rfl, rfl, rfl⟩)⟩
    · rw [kinds h same] at found
      obtain ⟨id, o⟩ := owned.covered found
      exact ⟨id, (owns _ _ _).mpr (.inl o)⟩
  case below =>
    intro k id h o
    rw [nextId]
    rcases (owns _ _ _).mp o with old | ⟨rfl, rfl, rfl⟩
    · exact Nat.lt_succ_of_lt (owned.below old)
    · exact Nat.lt_succ_self _
  case apart =>
    intro k k' id h h' o o'
    rcases (owns _ _ _).mp o with old | ⟨rfl, rfl, rfl⟩ <;>
      rcases (owns _ _ _).mp o' with old' | ⟨rfl, same, rfl⟩
    · exact owned.apart old old'
    · exact absurd (same ▸ owned.below old) (Nat.lt_irrefl _)
    · exact absurd (owned.below old') (Nat.lt_irrefl _)
    · rfl

end NetStack

end Gozarbin.Netstack
