import RallyPoint.Lib.Word

/-!
# `Transport.History` — which of the peer's packets have arrived

The model of `transport/src/ack_manager/history.rs`: the peer's packet history in the shape of the wire's
ack fields. `mostRecent` is the newest packet seen; bit `N` of `ackBits` stands for packet `mostRecent -
(N + 1)`.
-/

namespace RallyPoint.Transport

open Lib

/-- The peer's received packets: the newest, the 32 before it, and a count of those that never came. -/
structure ReceivedPacketHistory where
  mostRecent : Option U32
  ackBits : BitVec 32
  lost : Nat
  first : Option U32

namespace ReceivedPacketHistory

/-- `ReceivedPacketHistory::default`. -/
def empty : ReceivedPacketHistory := ⟨none, 0, 0, none⟩

/-- Count the seqs an advance of `advanced` pushes out of the window unreceived. -/
def noteDeparted (h : ReceivedPacketHistory) (mostRecent advanced : Nat) : ReceivedPacketHistory :=
  match h.first with
  | none => h
  | some first =>
    let tracked := min advanced 32
    let unset := (List.range' (32 - tracked) tracked).countP fun age =>
      -- bit `age` holds `mostRecent - (age + 1)`; a seq before the connection's first is not a gap
      age + 1 ≤ mostRecent ∧ first ≤ mostRecent - (age + 1) ∧ h.ackBits.getLsbD age = false
    let neverTracked := advanced - 33
    { h with lost := saturatingAdd u64Max (saturatingAdd u64Max h.lost unset) neverTracked }

/-- A newer packet shifts the window forward, a late one sets its bit if it still has one. -/
def record (h : ReceivedPacketHistory) (seq : U32) : ReceivedPacketHistory :=
  match h.mostRecent with
  | none => { h with mostRecent := some seq, first := some seq }
  | some mostRecent =>
    if mostRecent < seq then
      let advanced : Nat := seq - mostRecent
      let h' := h.noteDeparted mostRecent advanced
      { h' with
          -- `checked_shl(32)` is `None`, and so reads 0, as a shift by the width does
          ackBits := if advanced ≤ 32 then (h.ackBits <<< advanced) ||| (1#32 <<< (advanced - 1)) else 0
          mostRecent := some seq }
    else if seq < mostRecent then
      let behind : Nat := mostRecent - seq
      if behind < 32 then { h with ackBits := h.ackBits ||| (1#32 <<< (behind - 1)) } else h
    else h

end ReceivedPacketHistory

end RallyPoint.Transport
