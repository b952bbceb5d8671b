import Mathlib.Data.Finset.Max
import RallyPoint.Lib.OrdMap
import RallyPoint.Proto.Messages

/-!
# `Relay.ClockProgress` — counting the turns of a session joined late

`relay/src/consensus/clock_progress.rs`. A peer's clock gives a floor, and received turns fill every gap
above it. Whatever a slot's overflow drops, what is counted above the floor was received (`Sound`); a
slot that never overflowed has dropped nothing.

Counts are below `u64::MAX`: nothing saturates.
-/

namespace RallyPoint.Relay

open Lib

def aheadCap : Nat := 4096

structure SlotProgress where
  count : Nat
  ahead : Finset Nat
  overflowReported : Bool

namespace SlotProgress

/-- The loop of `absorb`; each round takes one out of `ahead`. -/
def absorbLoop : Nat → SlotProgress → SlotProgress
  | 0, s => s
  | fuel + 1, s =>
    if s.count ∈ s.ahead then absorbLoop fuel { s with count := s.count + 1, ahead := s.ahead.erase s.count } else s

def absorb (s : SlotProgress) : SlotProgress := s.absorbLoop s.ahead.card

def seed (s : SlotProgress) (count : Nat) : SlotProgress :=
  { s with count := max s.count count, ahead := s.ahead.filter (max s.count count ≤ ·) }.absorb

/-- `note` on the state of its slot; `floored` says whether there is a baseline. -/
def note (s : SlotProgress) (floored : Bool) (seq : Nat) : SlotProgress × Bool :=
  if seq < s.count then (s, false)
  else if seq = s.count then ({ s with count := s.count + 1 }.absorb, false)
  else
    let ahead := insert seq s.ahead
    if aheadCap < ahead.card then
      -- `pop_last` or `pop_first`
      let dropped := if floored then ahead.max.unbotD 0 else ahead.min.untopD 0
      ({ s with ahead := ahead.erase dropped, overflowReported := true }, !s.overflowReported)
    else ({ s with ahead }, false)

end SlotProgress

structure ClockProgress where
  baseline : Option Nat
  slots : OrdMap SlotId SlotProgress

namespace ClockProgress

variable (p : ClockProgress) (slot : SlotId)

/-- `ClockProgress::default`. -/
def empty : ClockProgress := ⟨none, .empty⟩

/-- The state of a slot; one not yet noted starts from the baseline. -/
def state : SlotProgress := (p.slots.get? slot).getD ⟨p.baseline.getD 0, ∅, false⟩

def note (seq : Nat) : ClockProgress × Bool :=
  let (s, overflowed) := (p.state slot).note p.baseline.isSome seq
  ({ p with slots := p.slots.insert slot s }, overflowed)

def seed (count : Nat) : ClockProgress :=
  let baseline := max (p.baseline.getD 0) count
  ⟨some baseline, p.slots.mapValues fun _ s => s.seed baseline⟩

def count : Nat := ((p.slots.get? slot).map SlotProgress.count).getD (p.baseline.getD 0)

end ClockProgress

/-! ## One slot -/

namespace SlotProgress

open Finset

variable {s : SlotProgress} {floor seq : Nat} {received : Set Nat} {lost lost' : Prop}

/-- A turn is counted or waits ahead. -/
def Holds (s : SlotProgress) (n : Nat) : Prop := n < s.count ∨ n ∈ s.ahead

/-- The count is the first gap. -/
def Gapped (s : SlotProgress) : Prop := ∀ n ∈ s.ahead, s.count < n

/-- What absorbing does to a state with nothing ahead below its count. -/
structure Absorbs (s s' : SlotProgress) : Prop where
  gapped : s'.Gapped
  count_le : s.count ≤ s'.count
  holds_iff : ∀ n, s'.Holds n ↔ s.Holds n

theorem absorbLoop_absorbs (fuel : Nat) (hfuel : s.ahead.card ≤ fuel) (hlow : ∀ n ∈ s.ahead, s.count ≤ n) :
    s.Absorbs (s.absorbLoop fuel) := by
  induction fuel generalizing s with
  | zero =>
    have hnil : s.ahead = ∅ := card_eq_zero.mp (Nat.le_zero.mp hfuel)
    exact ⟨by simp [absorbLoop, Gapped, hnil], le_rfl, fun _ => Iff.rfl⟩
  | succ fuel ih =>
    unfold absorbLoop
    split
    · next hnext =>
        have hcard := card_erase_of_mem hnext
        have hlow' : ∀ n ∈ s.ahead.erase s.count, s.count + 1 ≤ n := by
          intro n hn
          obtain ⟨hne, hn⟩ := mem_erase.mp hn
          exact lt_of_le_of_ne (hlow n hn) hne.symm
        have h := @ih { s with count := s.count + 1, ahead := s.ahead.erase s.count } (by dsimp only; omega) hlow'
        refine ⟨h.gapped, (Nat.le_succ _).trans h.count_le, fun n => (h.holds_iff n).trans ?_⟩
        by_cases hn : n = s.count
        · simp [Holds, hn, hnext]
        · simp only [Holds, mem_erase, ne_eq, hn, not_false_eq_true, true_and, Nat.lt_succ_iff_lt_or_eq, or_false]
    · next hnext =>
        refine ⟨fun n hn => lt_of_le_of_ne (hlow n hn) ?_, le_rfl, fun _ => Iff.rfl⟩
        rintro rfl
        exact hnext hn

theorem absorb_absorbs (hlow : ∀ n ∈ s.ahead, s.count ≤ n) : s.Absorbs s.absorb := absorbLoop_absorbs _ le_rfl hlow

/-- What a note does: it holds no other turn, and drops one only past the cap. -/
structure Notes (s : SlotProgress) (seq : Nat) (s' : SlotProgress) : Prop where
  gapped : s'.Gapped
  count_le : s.count ≤ s'.count
  holds : ∀ n, s'.Holds n → n = seq ∨ s.Holds n
  kept : (∀ n, n = seq ∨ s.Holds n → s'.Holds n) ∨ s.count < seq ∧ aheadCap < (insert seq s.ahead).card

theorem note_notes (hs : s.Gapped) (floored : Bool) (seq : Nat) : s.Notes seq (s.note floored seq).1 := by
  unfold note
  split
  · next hlt => exact ⟨hs, le_rfl, fun _ => .inr, .inl fun n hn => hn.elim (fun heq => .inl (heq ▸ hlt)) id⟩
  split
  · next heq =>
      have h : Absorbs { s with count := s.count + 1 } _ := absorb_absorbs hs
      have hiff (n : Nat) : Holds { s with count := s.count + 1 } n ↔ n = seq ∨ s.Holds n := by
        simp only [Holds, Nat.lt_succ_iff_lt_or_eq, heq]
        tauto
      exact ⟨h.gapped, (Nat.le_succ _).trans h.count_le, fun n hn => (hiff n).mp ((h.holds_iff n).mp hn),
        .inl fun n hn => (h.holds_iff n).mpr ((hiff n).mpr hn)⟩
  · next hge hne =>
      have hgap : Gapped { s with ahead := insert seq s.ahead } := by
        intro n hn
        obtain rfl | hn := mem_insert.mp hn
        · exact lt_of_le_of_ne (not_lt.mp hge) (Ne.symm hne)
        · exact hs n hn
      have hiff (n : Nat) : Holds { s with ahead := insert seq s.ahead } n ↔ n = seq ∨ s.Holds n := by
        simp only [Holds, mem_insert]
        tauto
      dsimp only
      split
      · next hcap =>
          -- whichever end is dropped
          refine ⟨fun n hn => hgap n (mem_of_mem_erase hn), le_rfl,
            fun n hn => (hiff n).mp (hn.imp_right mem_of_mem_erase), ?_⟩
          exact .inr ⟨hgap seq (mem_insert_self _ _), hcap⟩
      · exact ⟨hgap, le_rfl, fun n => (hiff n).mp, .inl fun n => (hiff n).mpr⟩

theorem seed_absorbs (s : SlotProgress) (count : Nat) :
    Absorbs { s with count := max s.count count, ahead := s.ahead.filter (max s.count count ≤ ·) } (s.seed count) :=
  absorb_absorbs fun _ hn => (mem_filter.mp hn).2

/-- A slot's state once the turns `received` were noted and `floor` was the highest count seeded; `lost`
    says that it once held more than the cap. -/
structure Sound (s : SlotProgress) (floor : Nat) (received : Set Nat) (lost : Prop) : Prop where
  gapped : s.Gapped
  floor_le : floor ≤ s.count
  noted : ∀ n, floor ≤ n → s.Holds n → n ∈ received
  kept : ¬ lost → ∀ n ∈ received, s.Holds n

theorem Sound.note (h : s.Sound floor received lost) (floored : Bool) (seq : Nat)
    (hlost : lost ∨ s.count < seq ∧ aheadCap < (insert seq s.ahead).card → lost') :
    (s.note floored seq).1.Sound floor (insert seq received) lost' := by
  have hnote := note_notes h.gapped floored seq
  refine ⟨hnote.gapped, h.floor_le.trans hnote.count_le, fun n hle hn => (hnote.holds n hn).imp_right (h.noted n hle), ?_⟩
  intro hnever n hn
  obtain hkept | hcap := hnote.kept
  · exact hkept n (hn.imp_right (h.kept (fun ho => hnever (hlost (.inl ho))) n))
  · exact absurd (hlost (.inr hcap)) hnever

theorem Sound.seed (h : s.Sound floor received lost) (count : Nat) (hlost : lost → lost') :
    (s.seed (max floor count)).Sound (max floor count) received lost' := by
  have hseed := s.seed_absorbs (max floor count)
  refine ⟨hseed.gapped, (le_max_right _ _).trans hseed.count_le, fun n hle hn => ?_, fun hnever n hn => ?_⟩
  · obtain hlt | hahead := (hseed.holds_iff n).mp hn
    · have hlt : n < max s.count (max floor count) := hlt
      exact h.noted n (by omega) (.inl (by omega))
    · exact h.noted n (by omega) (.inr (mem_filter.mp hahead).1)
  · refine (hseed.holds_iff n).mpr ?_
    obtain hlt | hahead := h.kept (mt hlost hnever) n hn
    · exact .inl (lt_max_of_lt_left hlt)
    · by_cases hle : max s.count (max floor count) ≤ n
      · exact .inr (mem_filter.mpr ⟨hahead, hle⟩)
      · exact .inl (not_le.mp hle)

end SlotProgress

/-! ## Whole runs -/

inductive ProgressCall
  | note (slot : SlotId) (seq : Nat)
  | seed (count : Nat)

namespace ClockProgress

open List
open SlotProgress (Gapped Holds note_notes seed_absorbs)

variable {p : ClockProgress} {slot : SlotId} {calls : List ProgressCall}

def apply (p : ClockProgress) : ProgressCall → ClockProgress
  | .note slot seq => (p.note slot seq).1
  | .seed count => p.seed count

def run (calls : List ProgressCall) : ClockProgress := calls.foldl apply empty

/-- The highest count seeded. -/
def floor (calls : List ProgressCall) : Nat :=
  calls.foldl (fun floor call => match call with | .seed count => max floor count | .note _ _ => floor) 0

/-- The turns noted for a slot. -/
def received (slot : SlotId) (calls : List ProgressCall) : Set Nat := {seq | .note slot seq ∈ calls}

/-- Some note of the run made the slot hold more turns ahead than the cap. -/
def Overflowed (slot : SlotId) (calls : List ProgressCall) : Prop :=
  ∃ before seq, before ++ [.note slot seq] <+: calls ∧ ((run before).state slot).count < seq ∧
    aheadCap < (insert seq ((run before).state slot).ahead).card

theorem count_eq : p.count slot = (p.state slot).count := by
  unfold count state
  cases p.slots.get? slot <;> rfl

theorem state_note (slot' : SlotId) (seq : Nat) : (p.note slot' seq).1.state slot =
    if slot = slot' then ((p.state slot').note p.baseline.isSome seq).1 else p.state slot := by
  simp only [note, state, OrdMap.get?_insert]
  split <;> rfl

theorem state_seed (count : Nat) : (p.seed count).state slot = (p.state slot).seed (max (p.baseline.getD 0) count) := by
  unfold seed state
  rw [OrdMap.get?_mapValues]
  cases p.slots.get? slot with
  | none => simp [SlotProgress.seed, SlotProgress.absorb, SlotProgress.absorbLoop]
  | some s => rfl

theorem run_snoc (call : ProgressCall) : run (calls ++ [call]) = (run calls).apply call := foldl_concat ..

theorem Overflowed.snoc (h : Overflowed slot calls) (call : ProgressCall) : Overflowed slot (calls ++ [call]) := by
  obtain ⟨before, seq, hpre, hlost⟩ := h
  exact ⟨before, seq, hpre.trans (prefix_append _ _), hlost⟩

/-- **Every run** keeps every slot sound, noted or not. -/
theorem run_sound (calls : List ProgressCall) : (run calls).baseline.getD 0 = floor calls ∧
    ∀ slot, ((run calls).state slot).Sound (floor calls) (received slot calls) (Overflowed slot calls) := by
  induction calls using reverseRecOn with
  | nil => exact ⟨rfl, fun _ => by constructor <;> simp [run, empty, state, received, floor, Holds, Gapped]⟩
  | append_singleton calls call ih =>
    obtain ⟨hbase, hsound⟩ := ih
    rw [run_snoc]
    cases call with
    | seed count =>
      have hfloor : floor (calls ++ [.seed count]) = max (floor calls) count := foldl_concat ..
      have hreceived (slot : SlotId) : received slot (calls ++ [.seed count]) = received slot calls := by simp [received]
      refine ⟨by rw [hfloor, ← hbase]; rfl, fun slot => ?_⟩
      rw [hfloor, hreceived, apply, state_seed, hbase]
      exact (hsound slot).seed count fun hlost => hlost.snoc _
    | note slot' seq =>
      have hfloor : floor (calls ++ [.note slot' seq]) = floor calls := foldl_concat ..
      refine ⟨by rw [hfloor, ← hbase]; rfl, fun slot => ?_⟩
      rw [hfloor, apply, state_note]
      by_cases heq : slot = slot'
      · subst heq
        have hreceived : received slot (calls ++ [.note slot seq]) = insert seq (received slot calls) := by
          ext n
          simp [received, or_comm]
        rw [if_pos rfl, hreceived]
        exact (hsound slot).note _ seq fun hlost => hlost.elim (·.snoc _) fun hcap => ⟨calls, seq, prefix_rfl, hcap⟩
      · have hreceived : received slot (calls ++ [.note slot' seq]) = received slot calls := by simp [received, heq]
        rw [if_neg heq, hreceived]
        exact ⟨(hsound slot).gapped, (hsound slot).floor_le, (hsound slot).noted,
          fun hnever => (hsound slot).kept fun ho => hnever (ho.snoc _)⟩

/-- **Progress counts only received turns above the floor.** A slot's count is at least the highest count
    seeded, every turn between them was received, no call lowers it and no other slot's note moves it;
    unless the slot held more turns ahead than the cap, it is the first one from the floor on that was
    not received. -/
theorem progress_counts_received (calls : List ProgressCall) (slot : SlotId) :
    let p := run calls
    floor calls ≤ p.count slot ∧
    (∀ n, floor calls ≤ n → n < p.count slot → n ∈ received slot calls) ∧
    (∀ call, p.count slot ≤ (p.apply call).count slot) ∧
    (¬ Overflowed slot calls → IsLeast {n | floor calls ≤ n ∧ n ∉ received slot calls} (p.count slot)) ∧
    ∀ slot' seq, slot' ≠ slot → (p.note slot' seq).1.count slot = p.count slot := by
  intro p
  have h : (p.state slot).Sound _ _ _ := (run_sound calls).2 slot
  simp only [count_eq]
  refine ⟨h.floor_le, fun n hle hlt => h.noted n hle (.inl hlt), fun call => ?_,
    fun hnever => ⟨⟨h.floor_le, fun hn => ?_⟩, fun n hn => ?_⟩, fun slot' seq hne => ?_⟩
  · cases call with
    | seed count =>
      rw [apply, state_seed]
      exact (le_max_left _ _).trans (seed_absorbs _ _).count_le
    | note slot' seq =>
      rw [apply, state_note]
      split
      · rename_i heq
        subst heq
        exact (note_notes h.gapped _ seq).count_le
      · exact le_rfl
  · -- the count would be waiting ahead of itself
    obtain hlt | hahead := h.kept hnever _ hn
    · exact lt_irrefl _ hlt
    · exact lt_irrefl _ (h.gapped _ hahead)
  · by_contra hlt
    exact hn.2 (h.noted n hn.1 (.inl (not_le.mp hlt)))
  · rw [state_note, if_neg hne.symm]

end ClockProgress

end RallyPoint.Relay
