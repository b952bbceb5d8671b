import Mathlib.Data.List.Basic
import Mathlib.Order.Lattice

/-!
# `Client.Phase` — the client's slewing send delay

`client/src/phase.rs`. The applied delay walks toward the commanded one at a rate, as far as the time
since it last moved allows, in whole microseconds. What a walk leaves over of that time is dropped, so
the walk keeps to its rate only if nothing is left over (`Whole`); polled at other instants it falls
behind by up to a microsecond each time (`polled_slew_falls_behind`).

An instant is a number of nanoseconds. The product of time and rate is taken to be in range.
-/

namespace RallyPoint.Client

def defaultSlewUsPerS : Nat := 2000

def minSlewUsPerS : Nat := 100

def maxSlewUsPerS : Nat := 10000

def maxDelayUs : Nat := 100000

structure PhaseSlew where
  appliedUs : Nat
  targetUs : Nat
  rateUsPerS : Nat
  /-- When the applied delay last moved. -/
  lastAdvance : Nat

namespace PhaseSlew

variable (s : PhaseSlew) (now : Nat)

def new (now : Nat) : PhaseSlew := ⟨0, 0, defaultSlewUsPerS, now⟩

/-- The whole microseconds since the delay last moved. -/
def elapsedUs : Nat := (now - s.lastAdvance) / 1000

/-- How far the delay may move by now. -/
def step : Nat := s.elapsedUs now * s.rateUsPerS / 1000000

/-- `advance`; the delay it returns is the applied one. -/
def advance : PhaseSlew :=
  if 0 < s.step now then
    { s with
        lastAdvance := now
        appliedUs :=
          if s.appliedUs < s.targetUs then min (s.appliedUs + s.step now) s.targetUs
          else max (s.appliedUs - s.step now) s.targetUs }
  else s

/-- The time that has passed is walked under the old rate. -/
def retarget (delayUs slewUsPerS now : Nat) : PhaseSlew :=
  { s.advance now with
      targetUs := min delayUs maxDelayUs
      rateUsPerS := if slewUsPerS = 0 then defaultSlewUsPerS else max minSlewUsPerS (min slewUsPerS maxSlewUsPerS) }

def run (instants : List Nat) : PhaseSlew := instants.foldl advance s

/-- The time since the delay last moved is whole microseconds, and so is the movement it makes. -/
def Whole : Prop :=
  1000 ∣ now - s.lastAdvance ∧ (0 < s.step now → 1000000 ∣ s.elapsedUs now * s.rateUsPerS)

/-- Every advance of the run finds it so. -/
def AllWhole (s : PhaseSlew) : List Nat → Prop
  | [] => True
  | now :: instants => s.Whole now ∧ AllWhole (s.advance now) instants

/-- The delay has moved toward a target it has not reached, by what the time between the moves makes. -/
structure Moves (s s' : PhaseSlew) : Prop where
  target : s'.targetUs = s.targetUs
  rate : s'.rateUsPerS = s.rateUsPerS
  later : s.lastAdvance ≤ s'.lastAdvance
  moved : ∃ d, d * 1000000000 = s.rateUsPerS * (s'.lastAdvance - s.lastAdvance) ∧
    (s'.appliedUs = s.appliedUs + d ∧ s'.appliedUs < s.targetUs ∨ s.appliedUs = s'.appliedUs + d ∧ s.targetUs < s'.appliedUs)

variable {s s' s'' : PhaseSlew} {now t : Nat} {instants : List Nat}

theorem Moves.refl (h : s.appliedUs ≠ s.targetUs) : s.Moves s := ⟨rfl, rfl, le_rfl, 0, by simp, by omega⟩

theorem Moves.trans (h : s.Moves s') (h' : s'.Moves s'') : s.Moves s'' := by
  obtain ⟨d, hd, hside⟩ := h.moved
  obtain ⟨d', hd', hside'⟩ := h'.moved
  have htarget := h.target
  rw [htarget] at hside'
  refine ⟨h'.target.trans htarget, h'.rate.trans h.rate, h.later.trans h'.later, d + d', ?_, by omega⟩
  have hsplit : s''.lastAdvance - s.lastAdvance = (s'.lastAdvance - s.lastAdvance) + (s''.lastAdvance - s'.lastAdvance) := by
    have := h.later
    have := h'.later
    omega
  rw [hsplit, Nat.mul_add, Nat.add_mul, hd, hd', h.rate]

theorem advance_rate : (s.advance now).rateUsPerS = s.rateUsPerS := by
  unfold advance
  split <;> rfl

/-- A target once reached is kept. -/
theorem advance_reached (h : s.appliedUs = s.targetUs) : (s.advance now).appliedUs = (s.advance now).targetUs := by
  unfold advance
  split
  · simp [h]
  · exact h

theorem run_reached (instants : List Nat) (h : s.appliedUs = s.targetUs) :
    (s.run instants).appliedUs = (s.run instants).targetUs := by
  induction instants generalizing s with
  | nil => exact h
  | cons now instants ih => exact ih (advance_reached h)

/-- Time in nanoseconds against movement in microseconds. -/
theorem Whole.elapsed (h : s.Whole now) : s.rateUsPerS * (now - s.lastAdvance) = s.elapsedUs now * s.rateUsPerS * 1000 := by
  obtain ⟨k, hk⟩ := h.1
  rw [elapsedUs, hk, Nat.mul_div_cancel_left k (by decide), Nat.mul_left_comm, Nat.mul_comm 1000, Nat.mul_comm k]

/-- **One advance** that does not reach the target moves by what the time makes. -/
theorem Whole.moves (h : s.Whole now) (hlast : s.lastAdvance ≤ now)
    (hopen : (s.advance now).appliedUs ≠ (s.advance now).targetUs) : s.Moves (s.advance now) := by
  unfold advance at hopen ⊢
  split at hopen
  · rename_i hstep
    have hdiv : s.step now * 1000000 = s.elapsedUs now * s.rateUsPerS := Nat.div_mul_cancel (h.2 hstep)
    rw [if_pos hstep]
    refine ⟨rfl, rfl, hlast, s.step now, ?_, ?_⟩
    · rw [h.elapsed, ← hdiv, Nat.mul_assoc]
    · dsimp only at hopen ⊢
      split at hopen <;> rename_i hside <;> simp only [hside, if_true, if_false] <;> omega
  · rename_i hstep
    rw [if_neg hstep]
    exact .refl hopen

/-- What is left after an advance makes less than a microsecond. -/
theorem Whole.rest_lt (h : s.Whole now) (hlast : s.lastAdvance ≤ now) :
    (s.advance now).lastAdvance ≤ now ∧ s.rateUsPerS * (now - (s.advance now).lastAdvance) < 1000000000 := by
  unfold advance
  split
  · exact ⟨le_rfl, by simp⟩
  · rename_i hstep
    refine ⟨hlast, ?_⟩
    have hzero : s.elapsedUs now * s.rateUsPerS / 1000000 = 0 := Nat.eq_zero_of_not_pos hstep
    have helapsed := h.elapsed
    omega

/-- **A run**, by induction on its instants. -/
theorem AllWhole.moves (h : s.AllWhole (t :: instants)) (hlast : s.lastAdvance ≤ t)
    (hsorted : (t :: instants).Pairwise (· ≤ ·))
    (hopen : (s.run (t :: instants)).appliedUs ≠ (s.run (t :: instants)).targetUs) :
    (s.advance t).Moves (s.run (t :: instants)) ∧ t ≤ instants.getLastD t ∧
      (s.run (t :: instants)).lastAdvance ≤ instants.getLastD t ∧
      s.rateUsPerS * (instants.getLastD t - (s.run (t :: instants)).lastAdvance) < 1000000000 := by
  induction instants generalizing s t with
  | nil =>
    exact ⟨.refl hopen, le_rfl, h.1.rest_lt hlast⟩
  | cons u instants ih =>
    obtain ⟨hle, -⟩ := h.1.rest_lt hlast
    have hu : t ≤ u := (List.pairwise_cons.mp hsorted).1 u List.mem_cons_self
    have hfirst : ((s.advance t).advance u).appliedUs ≠ ((s.advance t).advance u).targetUs :=
      fun heq => hopen (run_reached instants heq)
    obtain ⟨hmoves, hends, hlater, hrest⟩ := ih h.2 (hle.trans hu) hsorted.of_cons hopen
    rw [advance_rate] at hrest
    rw [List.getLastD_cons]
    exact ⟨(h.2.1.moves (hle.trans hu) hfirst).trans hmoves, hu.trans hends, hlater, hrest⟩

/-- What moved is what the time makes, up to the two rests, and falls short of the target. -/
theorem Moves.near {u rate : Nat} (h : s.Moves s') (hrate : s.rateUsPerS = rate) (hends : t ≤ u) (hle : s.lastAdvance ≤ t)
    (hle' : s'.lastAdvance ≤ u) (hrest : rate * (t - s.lastAdvance) < 1000000000)
    (hrest' : rate * (u - s'.lastAdvance) < 1000000000) :
    ((s'.appliedUs : Int) - s.appliedUs).natAbs * 1000000000 < rate * (u - t) + 1000000000 ∧
    rate * (u - t) < ((s'.appliedUs : Int) - s.appliedUs).natAbs * 1000000000 + 1000000000 ∧
    rate * (u - t) < ((s'.targetUs : Int) - s.appliedUs).natAbs * 1000000000 := by
  obtain ⟨d, hd, hside⟩ := h.moved
  have htarget := h.target
  have hmoved : ((s'.appliedUs : Int) - s.appliedUs).natAbs = d := by omega
  have htime : u - t + (t - s.lastAdvance) = u - s'.lastAdvance + (s'.lastAdvance - s.lastAdvance) := by
    have := h.later
    omega
  have hsum : rate * (u - t) + rate * (t - s.lastAdvance) = rate * (u - s'.lastAdvance) + d * 1000000000 := by
    rw [hd, hrate, ← Nat.mul_add, ← Nat.mul_add, htime]
  rw [hmoved]
  omega

/-- **The slew keeps to its rate** while it has not reached the target, and time for the whole change
    covers it, if no advance leaves time over. -/
theorem slew_keeps_rate (s : PhaseSlew) (t : Nat) (instants : List Nat) (hlast : s.lastAdvance ≤ t)
    (hsorted : (t :: instants).Pairwise (· ≤ ·)) (hwhole : s.AllWhole (t :: instants)) :
    let start := s.advance t
    let stop := s.run (t :: instants)
    let moved := ((stop.appliedUs : Int) - start.appliedUs).natAbs * 1000000000
    let due := s.rateUsPerS * (instants.getLastD t - t)
    (stop.appliedUs ≠ stop.targetUs → moved < due + 1000000000 ∧ due < moved + 1000000000) ∧
    (((stop.targetUs : Int) - start.appliedUs).natAbs * 1000000000 ≤ due → stop.appliedUs = stop.targetUs) := by
  intro start stop moved due
  have hnear (hopen : stop.appliedUs ≠ stop.targetUs) := by
    obtain ⟨hle, hrest⟩ := hwhole.1.rest_lt hlast
    obtain ⟨hmoves, hends, hle', hrest'⟩ := hwhole.moves hlast hsorted hopen
    exact hmoves.near advance_rate hends hle hle' hrest hrest'
  refine ⟨fun hopen => ⟨(hnear hopen).1, (hnear hopen).2.1⟩, fun hcovers => ?_⟩
  by_contra hopen
  exact Nat.not_lt.mpr hcovers (hnear hopen).2.2

/-- Polled once a millisecond, a slew of two microseconds a millisecond: nothing is left over. -/
theorem slew_keeps_rate_polled_by_millisecond :
    let s := (new 0).retarget 10000 2000 0
    (s.run [0, 1000000, 2000000]).appliedUs = 4 ∧
      (4 * 1000000000 < 2000 * 2000000 + 1000000000 ∧ 2000 * 2000000 < 4 * 1000000000 + 1000000000) := by
  refine ⟨by decide, ?_⟩
  exact (slew_keeps_rate ((new 0).retarget 10000 2000 0) 0 [1000000, 2000000] (by decide) (by decide)
    (by simp only [AllWhole, Whole]; decide)).1 (by decide)

/-- **Polled between two microseconds of movement it falls behind**: an advance at 999 µs moves by one
    whole microsecond and drops the rest of its time; after 1998 µs, which make 3.996 µs, the delay has
    moved by 2. -/
theorem polled_slew_falls_behind :
    let s := (new 0).retarget 10000 2000 0
    (s.run [0, 999000, 1998000]).appliedUs = 2 ∧ (s.advance 0).appliedUs = 0 ∧
      (s.run [0, 999000, 1998000]).targetUs = 10000 ∧
      2 * 1000000000 + 1000000000 ≤ s.rateUsPerS * 1998000 := by
  decide

end PhaseSlew

end RallyPoint.Client
