import Mathlib.Algebra.Group.Nat.Defs
import Gozarbin.Lib.Text
import Gozarbin.Net.Addr

/-! # A tunnel in a tunnel

With two hops the packets of the inner tunnel travel in the outer one. `mim_inner_budget` says
how large its datagrams may be, and the loop over the inner peers of `run_masque_in_masque`
warns when the outer link is too small; it counts the headers of IPv4 then, whatever the peer
is.
-/

namespace Gozarbin.Masque

open Text

def maxDatagramSize : Nat := 1350
def minDatagramSize : Nat := 1200
def tunnelMtu : Nat := 1280
def h2TunnelMtu : Nat := 1500
def masqueDatagramOverhead : Nat := maxDatagramSize - tunnelMtu

def clamp (n low high : Nat) : Nat := max low (min n high)

def masqueTunnelMtu (setting : Option Text) (h2 : Bool) : Nat :=
  let given := (setting.bind fun value => parseUnsigned (2 ^ 64) (trim value)).filter fun mtu =>
    576 ≤ mtu && mtu ≤ 1500
  given.getD (if h2 then h2TunnelMtu else tunnelMtu)

def packetHeaders (peer : SocketAddr) : Nat := if peer.ip.isIpv4 then 28 else 48

def mimInnerBudget (outerMtu : Nat) (innerPeer : SocketAddr) (h2 : Bool) : Nat × Nat :=
  if h2 then (maxDatagramSize, clamp (outerMtu - 100) 576 1500)
  else
    let datagram := clamp (outerMtu - packetHeaders innerPeer) minDatagramSize maxDatagramSize
    (datagram, clamp (datagram - masqueDatagramOverhead) 576 1500)

/-- What comes of trying an inner peer. -/
inductive InnerOutcome where
  | noForwarder
  | established
  | refused
  deriving DecidableEq

/-- A round of the loop. -/
structure InnerTry where
  innerPeer : SocketAddr
  innerDatagram : Nat
  innerMtu : Nat
  tooSmall : Bool

def tryInner (outerMtu : Nat) (h2 : Bool) (innerPeer : SocketAddr) : InnerTry :=
  let budget := mimInnerBudget outerMtu innerPeer h2
  { innerPeer
    innerDatagram := budget.1
    innerMtu := budget.2
    tooSmall := !h2 && budget.1 + 28 > outerMtu }

def innerTries (outerMtu : Nat) (h2 : Bool) : List (SocketAddr × InnerOutcome) → List InnerTry
  | [] => []
  | candidate :: rest =>
    tryInner outerMtu h2 candidate.1 ::
      match candidate.2 with
      | .refused => innerTries outerMtu h2 rest
      | .established | .noForwarder => []

def runMasqueInMasque (setting : Option Text) (h2 : Bool) (peer : SocketAddr)
    (innerPeers : List (SocketAddr × InnerOutcome)) : List InnerTry :=
  innerTries (masqueTunnelMtu setting h2) h2 (innerPeers.filter fun candidate => candidate.1.ip ≠ peer.ip)

def tooSmallMessage (outerMtu : Nat) : String :=
  "[-] the outer link carries " ++ toString outerMtu ++ " bytes, too little for an inner quic " ++
    "datagram; raise AETHER_MASQUE_MTU or use --h2 for both hops"

section
variable {outerMtu : Nat} {h2 : Bool} {candidates : List (SocketAddr × InnerOutcome)} {round : InnerTry}

theorem eq_tryInner (member : round ∈ innerTries outerMtu h2 candidates) :
    round = tryInner outerMtu h2 round.innerPeer := by
  induction candidates with
  | nil => cases member
  | cons candidate rest ih =>
    rcases List.mem_cons.mp member with rfl | later
    · rfl
    · cases outcome : candidate.2 with
      | refused =>
        rw [outcome] at later
        exact ih later
      | established =>
        rw [outcome] at later
        cases later
      | noForwarder =>
        rw [outcome] at later
        cases later

theorem innerDatagram_eq (outerMtu : Nat) (innerPeer : SocketAddr) :
    (tryInner outerMtu false innerPeer).innerDatagram =
      clamp (outerMtu - packetHeaders innerPeer) 1200 1350 := rfl

theorem innerDatagram_bounds (outerMtu : Nat) (innerPeer : SocketAddr) :
    1200 ≤ (tryInner outerMtu false innerPeer).innerDatagram ∧
      (tryInner outerMtu false innerPeer).innerDatagram ≤ 1350 := by
  rw [innerDatagram_eq, clamp]
  omega

theorem innerDatagram_fits (outerMtu : Nat) (innerPeer : SocketAddr) :
    (tryInner outerMtu false innerPeer).innerDatagram = 1200 ∨
      (tryInner outerMtu false innerPeer).innerDatagram + packetHeaders innerPeer ≤ outerMtu := by
  rw [innerDatagram_eq, clamp]
  omega

theorem innerMtu_le (outerMtu : Nat) (innerPeer : SocketAddr) :
    (tryInner outerMtu false innerPeer).innerMtu + masqueDatagramOverhead ≤
      (tryInner outerMtu false innerPeer).innerDatagram := by
  have bounds := innerDatagram_bounds outerMtu innerPeer
  have mtu : (tryInner outerMtu false innerPeer).innerMtu =
      clamp ((tryInner outerMtu false innerPeer).innerDatagram - masqueDatagramOverhead) 576 1500 := rfl
  rw [mtu, clamp, masqueDatagramOverhead, maxDatagramSize, tunnelMtu]
  omega

theorem tooSmall_eq_false (outerMtu : Nat) (innerPeer : SocketAddr) :
    (tryInner outerMtu false innerPeer).tooSmall = false ↔
      (tryInner outerMtu false innerPeer).innerDatagram + 28 ≤ outerMtu := by
  simp [tryInner]

theorem tryInner_fits_iff (outerMtu : Nat) (innerPeer : SocketAddr) :
    ((tryInner outerMtu false innerPeer).tooSmall = false →
      (tryInner outerMtu false innerPeer).innerDatagram + packetHeaders innerPeer ≤ outerMtu) ↔
        (1228 ≤ outerMtu → outerMtu < 1248 → innerPeer.ip.isIpv4 = true) := by
  have bounds := innerDatagram_bounds outerMtu innerPeer
  have fits := innerDatagram_fits outerMtu innerPeer
  rw [tooSmall_eq_false]
  cases four : innerPeer.ip.isIpv4 with
  | true =>
    have headers : packetHeaders innerPeer = 28 := by simp [packetHeaders, four]
    rw [headers]
    exact iff_of_true id fun _ _ => rfl
  | false =>
    have headers : packetHeaders innerPeer = 48 := by simp [packetHeaders, four]
    constructor
    · intro enough least most
      omega
    · intro outside enough
      by_contra large
      exact Bool.false_ne_true (outside (by omega) (by omega))

end

/-- Without a warning the inner datagrams fit exactly when no peer of IPv6 is tried over an
    outer link of 1228 to 1247 bytes. -/
theorem innerTries_fit_iff (outerMtu : Nat) (candidates : List (SocketAddr × InnerOutcome)) :
    ((∀ round ∈ innerTries outerMtu false candidates, round.tooSmall = false →
      round.innerDatagram + packetHeaders round.innerPeer ≤ outerMtu) ↔
        (1228 ≤ outerMtu → outerMtu < 1248 →
          ∀ round ∈ innerTries outerMtu false candidates, round.innerPeer.ip.isIpv4 = true)) ∧
      ∀ round ∈ innerTries outerMtu false candidates,
        round.innerMtu + masqueDatagramOverhead ≤ round.innerDatagram := by
  constructor
  · constructor
    · intro fit least most round member
      have here := fit round member
      rw [eq_tryInner member] at here
      exact (tryInner_fits_iff outerMtu round.innerPeer).mp here least most
    · intro four round member
      rw [eq_tryInner member]
      apply (tryInner_fits_iff outerMtu round.innerPeer).mpr
      intro least most
      exact four least most round member
  · intro round member
    rw [eq_tryInner member]
    exact innerMtu_le outerMtu round.innerPeer

theorem inner_datagram_too_large :
    ∃ round ∈ runMasqueInMasque (some "1240".toList) false ⟨.v4 ⟨0⟩, 443⟩ [(⟨.v6 ⟨1⟩, 443⟩, .refused)],
      round.tooSmall = false ∧ round.innerDatagram + packetHeaders round.innerPeer = 1248 ∧
        masqueTunnelMtu (some "1240".toList) false = 1240 := by
  refine ⟨tryInner 1240 false ⟨.v6 ⟨1⟩, 443⟩, ?_, by decide, by decide, by decide⟩
  exact List.mem_cons_self ..

end Gozarbin.Masque
