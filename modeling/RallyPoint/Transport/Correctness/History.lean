import Mathlib.Algebra.Order.BigOperators.Group.Finset
import Mathlib.Data.Set.Card
import Mathlib.Order.Interval.Finset.Nat
import RallyPoint.Transport.History
import RallyPoint.Transport.SequenceBuffer

/-!
# `Transport.Correctness.History` — the rolling history is the ring, and counts what was lost

`Seen seqs s` says that `s` arrived while it was less than 32 behind everything that had arrived before:
the rule by which a ring of 33 entries takes it in. `Tracks` ties the rolling history to it: its bits are
the seen seqs of the window, and `lost` counts those that left the window unseen. `Holds` ties the ring
to it.

Both go over the arrivals from the left, so the inductions take the last arrival off.
-/

namespace RallyPoint.Transport

open Lib Function List

/-- `s` was recorded while it was the newest, or fewer than 32 behind the newest. -/
def Seen (seqs : List U32) (s : Nat) : Prop :=
  ∃ (before : List U32) (x : U32) (after : List U32), seqs = before ++ x :: after ∧ (x : Nat) = s ∧
    ∀ y ∈ before, (y : Nat) < s + 32

section Seen

variable {seqs : List U32} {x : U32} {s : Nat}

theorem not_seen_nil : ¬ Seen [] s := by
  rintro ⟨before, x, after, heq, -⟩
  cases before <;> cases heq

theorem seen_append : Seen (seqs ++ [x]) s ↔ Seen seqs s ∨ (x : Nat) = s ∧ ∀ y ∈ seqs, (y : Nat) < s + 32 := by
  constructor
  · rintro ⟨before, y, after, heq, hy, hbefore⟩
    rcases eq_nil_or_concat after with rfl | ⟨after', z, rfl⟩
    · obtain ⟨rfl, hlast⟩ := append_inj' heq rfl
      obtain rfl : x = y := by simpa using hlast
      exact .inr ⟨hy, hbefore⟩
    · rw [concat_eq_append, ← cons_append, ← append_assoc] at heq
      obtain ⟨rfl, -⟩ := append_inj' heq rfl
      exact .inl ⟨before, y, after', rfl, hy, hbefore⟩
  · rintro (⟨before, y, after, rfl, hy, hbefore⟩ | ⟨hx, hall⟩)
    · exact ⟨before, y, after ++ [x], by simp, hy, hbefore⟩
    · exact ⟨seqs, x, [], rfl, hx, hall⟩

theorem Seen.mem (h : Seen seqs s) : ∃ x ∈ seqs, (x : Nat) = s := by
  obtain ⟨before, x, after, rfl, hx, -⟩ := h
  exact ⟨x, by simp, hx⟩

end Seen

/-- The newest of the arrivals. -/
structure Newest (seqs : List U32) (m : U32) : Prop where
  mem : m ∈ seqs
  max : ∀ y ∈ seqs, y ≤ m

section Newest

variable {seqs : List U32} {m x : U32} {s : Nat}

theorem Newest.seen_self (h : Newest seqs m) : Seen seqs m := by
  obtain ⟨before, after, rfl⟩ := append_of_mem h.mem
  refine ⟨before, m, after, rfl, rfl, ?_⟩
  intro y hy
  have hle : (y : Nat) ≤ m := h.max y (mem_append_left _ hy)
  omega

theorem Seen.le (h : Seen seqs s) (hm : Newest seqs m) : s ≤ m := by
  obtain ⟨x, hx, rfl⟩ := h.mem
  exact hm.max x hx

section Newest

variable (h : Newest seqs m)
include h

/-- Everything that arrived is below a bound exactly when the newest is. -/
theorem Newest.forall_lt {n : Nat} : (∀ y ∈ seqs, (y : Nat) < n) ↔ (m : Nat) < n := by
  constructor
  · intro hall
    exact hall m h.mem
  · intro hm y hy
    exact lt_of_le_of_lt (h.max y hy) hm

theorem Newest.append_newer (hx : m < x) : Newest (seqs ++ [x]) x := by
  refine ⟨by simp, ?_⟩
  intro y hy
  rcases mem_append.mp hy with hy | hy
  · exact le_of_lt (lt_of_le_of_lt (h.max y hy) hx)
  · exact le_of_eq (mem_singleton.mp hy)

theorem Newest.append_older (hx : x ≤ m) : Newest (seqs ++ [x]) m := by
  refine ⟨mem_append_left _ h.mem, ?_⟩
  intro y hy
  rcases mem_append.mp hy with hy | hy
  · exact h.max y hy
  · exact mem_singleton.mp hy ▸ hx

/-- A newer arrival is seen, and changes nothing below it. -/
theorem Newest.seen_newer (hx : m < x) : Seen (seqs ++ [x]) s ↔ Seen seqs s ∨ (x : Nat) = s := by
  rw [seen_append, h.forall_lt]
  have hlt : (m : Nat) < x := hx
  constructor
  · rintro (hs | ⟨hxs, -⟩)
    · exact .inl hs
    · exact .inr hxs
  · rintro (hs | hxs)
    · exact .inl hs
    · exact .inr ⟨hxs, by omega⟩

theorem Newest.seen_older : Seen (seqs ++ [x]) s ↔ Seen seqs s ∨ (x : Nat) = s ∧ (m : Nat) < s + 32 := by
  rw [seen_append, h.forall_lt]

end Newest

end Newest

/-! ## The rolling history -/

namespace ReceivedPacketHistory

open Classical in
/-- The seqs from the first arrival on that have left the window of the newest, unseen. -/
noncomputable def missed (seqs : List U32) (first m : Nat) : Finset Nat :=
  (Finset.range (m - 32)).filter fun s => first ≤ s ∧ ¬ Seen seqs s

open Classical in
theorem mem_missed {seqs : List U32} {first m s : Nat} :
    s ∈ missed seqs first m ↔ s + 32 < m ∧ first ≤ s ∧ ¬ Seen seqs s := by
  rw [missed, Finset.mem_filter, Finset.mem_range, Nat.lt_sub_iff_add_lt]

/-- **The history is what arrived**, once something has. -/
structure Tracks (seqs : List U32) (m first : U32) (h : ReceivedPacketHistory) : Prop where
  newest : Newest seqs m
  head : seqs.head? = some first
  mostRecent : h.mostRecent = some m
  began : h.first = some first
  ackBits : ∀ age < 32, h.ackBits.getLsbD age = true ↔ age + 1 ≤ (m : Nat) ∧ Seen seqs (m - (age + 1))
  lost : h.lost = (missed seqs first m).card

variable {seqs : List U32} {m first x : U32} {h : ReceivedPacketHistory}

theorem Tracks.single (x : U32) : Tracks [x] x x (empty.record x) := by
  have hnewest : Newest [x] x := ⟨by simp, by simp⟩
  refine ⟨hnewest, rfl, rfl, rfl, ?_, ?_⟩
  · intro age _
    have hbit : (empty.record x).ackBits.getLsbD age = false := BitVec.getLsbD_zero
    rw [hbit]
    constructor
    · intro hfalse
      cases hfalse
    · rintro ⟨hle, hseen⟩
      obtain ⟨y, hy, heq⟩ := hseen.mem
      obtain rfl := mem_singleton.mp hy
      omega
  · show 0 = _
    symm
    rw [Finset.card_eq_zero, Finset.eq_empty_iff_forall_notMem]
    intro s hs
    obtain ⟨hlt, hfirst, -⟩ := mem_missed.mp hs
    omega

/-- The first arrival is no newer than the newest. -/
theorem Tracks.first_le (t : Tracks seqs m first h) : first ≤ m := t.newest.max first (mem_of_mem_head? t.head)

open Classical in
/-- There are fewer missed seqs than seqs. -/
theorem card_missed_le (seqs : List U32) (first m : Nat) : (missed seqs first m).card ≤ m := by
  calc (missed seqs first m).card
      ≤ (Finset.range (m - 32)).card := Finset.card_filter_le _ _
    _ ≤ m := by simp

/-! ### A newer packet -/

/-- What a newer packet adds to the missed seqs lies between the two windows. -/
theorem missed_newer (hm : Newest seqs m) (hx : m < x) (first : Nat) :
    (missed (seqs ++ [x]) first x).card = (missed seqs first m).card + (missed seqs first x \ missed seqs first m).card := by
  have hlt : (m : Nat) < x := hx
  have hsame : missed (seqs ++ [x]) first x = missed seqs first x := by
    ext s
    rw [mem_missed, mem_missed, hm.seen_newer hx]
    refine and_congr_right fun hrange => and_congr_right fun _ => not_congr ?_
    constructor
    · rintro (hseen | heq)
      · exact hseen
      · omega
    · exact .inl
  have hsub : missed seqs first m ⊆ missed seqs first x := by
    intro s hs
    obtain ⟨hrange, hrest⟩ := mem_missed.mp hs
    exact mem_missed.mpr ⟨lt_trans hrange hlt, hrest⟩
  have hcard := Finset.card_le_card hsub
  rw [hsame, Finset.card_sdiff_of_subset hsub]
  omega

/-- The ages at which seqs leave the window unseen, when it advances by `advanced`. -/
def departing (h : ReceivedPacketHistory) (first m advanced : Nat) : Finset Nat :=
  (Finset.Ico (32 - min advanced 32) 32).filter fun age => age + 1 ≤ m ∧ first ≤ m - (age + 1) ∧
    h.ackBits.getLsbD age = false

/-- Between two windows: what had a bit that was never set, and what never had one. -/
theorem Tracks.missed_sdiff (t : Tracks seqs m first h) (hx : m < x) :
    missed seqs first x \ missed seqs first m =
      (departing h first m ((x : Nat) - m)).image (fun age => (m : Nat) - (age + 1)) ∪
        Finset.Ico ((m : Nat) + 1) (x - 32) := by
  have hlt : (m : Nat) < x := hx
  have hfirst : (first : Nat) ≤ m := t.first_le
  have hbit : ∀ age < 32, h.ackBits.getLsbD age = false ↔ ¬ (age + 1 ≤ (m : Nat) ∧ Seen seqs (m - (age + 1))) := by
    intro age hage
    rw [← t.ackBits age hage, Bool.not_eq_true]
  ext s
  rw [Finset.mem_sdiff, mem_missed, mem_missed, Finset.mem_union, Finset.mem_image, Finset.mem_Ico]
  constructor
  · rintro ⟨⟨hrange, hle, hnot⟩, hout⟩
    have hold : (m : Nat) ≤ s + 32 := by
      by_contra hlt'
      exact hout ⟨not_le.mp hlt', hle, hnot⟩
    rcases lt_trichotomy s (m : Nat) with hs | hs | hs
    · have hage : (m : Nat) - (m - s - 1 + 1) = s := by omega
      refine .inl ⟨m - s - 1, ?_, hage⟩
      rw [departing, Finset.mem_filter, Finset.mem_Ico]
      refine ⟨⟨by omega, by omega⟩, by omega, by omega, (hbit _ (by omega)).mpr ?_⟩
      rintro ⟨-, hseen⟩
      exact hnot (hage ▸ hseen)
    · -- the newest itself was seen
      exact absurd (hs ▸ t.newest.seen_self) hnot
    · exact .inr ⟨hs, by omega⟩
  · rintro (⟨age, hage, rfl⟩ | ⟨hs, hrange⟩)
    · rw [departing, Finset.mem_filter, Finset.mem_Ico] at hage
      obtain ⟨⟨hlow, hhigh⟩, hle, hle', hclear⟩ := hage
      have hnot : ¬ Seen seqs (m - (age + 1)) := fun hseen => (hbit age hhigh).mp hclear ⟨hle, hseen⟩
      refine ⟨⟨by omega, hle', hnot⟩, ?_⟩
      rintro ⟨hrange, -⟩
      omega
    · refine ⟨⟨by omega, by omega, ?_⟩, ?_⟩
      · intro hseen
        have := hseen.le t.newest
        omega
      · rintro ⟨hrange', -⟩
        omega

theorem Tracks.card_sdiff (t : Tracks seqs m first h) (hx : m < x) :
    (missed seqs first x \ missed seqs first m).card = (departing h first m ((x : Nat) - m)).card +
      ((x : Nat) - m - 33) := by
  have hinj : Set.InjOn (fun age => (m : Nat) - (age + 1)) (departing h first m ((x : Nat) - m)) := by
    intro a ha b hb heq
    have ha' := (Finset.mem_filter.mp (Finset.mem_coe.mp ha)).2.1
    have hb' := (Finset.mem_filter.mp (Finset.mem_coe.mp hb)).2.1
    have heq' : (m : Nat) - (a + 1) = m - (b + 1) := heq
    omega
  have hdisjoint : Disjoint ((departing h first m ((x : Nat) - m)).image fun age => (m : Nat) - (age + 1))
      (Finset.Ico ((m : Nat) + 1) (x - 32)) := by
    rw [Finset.disjoint_left]
    intro s hs hs'
    obtain ⟨age, -, rfl⟩ := Finset.mem_image.mp hs
    have := (Finset.mem_Ico.mp hs').1
    omega
  rw [t.missed_sdiff hx, Finset.card_union_of_disjoint hdisjoint, Finset.card_image_of_injOn hinj, Nat.card_Ico]
  omega

/-- `note_departed` counts them. -/
theorem lost_noteDeparted (h : ReceivedPacketHistory) (hfirst : h.first = some first) (m advanced : Nat)
    (hfits : h.lost + (departing h first m advanced).card + (advanced - 33) ≤ u64Max) :
    (h.noteDeparted m advanced).lost = h.lost + (departing h first m advanced).card + (advanced - 33) := by
  have hcount : (range' (32 - min advanced 32) (min advanced 32)).countP (fun age =>
      age + 1 ≤ m ∧ (first : Nat) ≤ m - (age + 1) ∧
        h.ackBits.getLsbD age = false) = (departing h first m advanced).card := by
    have hages : departing h first m advanced = ((range' (32 - min advanced 32) (min advanced 32)).filter fun age =>
        decide (age + 1 ≤ m ∧ (first : Nat) ≤ m - (age + 1) ∧ h.ackBits.getLsbD age = false)).toFinset := by
      ext age
      simp only [departing, Finset.mem_filter, Finset.mem_Ico, mem_toFinset, mem_filter, mem_range'_1, decide_eq_true_eq]
      refine and_congr_left fun _ => ?_
      omega
    rw [hages, toFinset_card_of_nodup (List.Nodup.filter _ nodup_range'), countP_eq_length_filter]
  unfold noteDeparted
  rw [hfirst]
  dsimp only
  rw [hcount]
  unfold saturatingAdd
  omega

/-- A single bit. -/
theorem getLsbD_bit {k age : Nat} (hage : age < 32) : (1#32 <<< k).getLsbD age = decide (age = k) := by
  rw [BitVec.getLsbD_shiftLeft, BitVec.getLsbD_one]
  by_cases hk : age < k
  · simp [hk, ne_of_lt hk]
  · simp only [hage, hk, decide_true, decide_false, Bool.not_false, Bool.true_and]
    simp only [Nat.zero_lt_succ, decide_true, Bool.true_and, decide_eq_decide]
    omega

/-- The window moves up by `advanced`, and the packet that was newest gets its bit. -/
theorem getLsbD_advance (bits : BitVec 32) {advanced age : Nat} (hpos : 0 < advanced) (hage : age < 32) :
    ((bits <<< advanced) ||| (1#32 <<< (advanced - 1))).getLsbD age =
      if age + 1 < advanced then false else if age + 1 = advanced then true else bits.getLsbD (age - advanced) := by
  rw [BitVec.getLsbD_or, BitVec.getLsbD_shiftLeft, getLsbD_bit hage]
  by_cases hlow : age + 1 < advanced
  · have hne : age ≠ advanced - 1 := by omega
    have hlt : age < advanced := by omega
    simp [hlow, hne, hlt]
  · rw [if_neg hlow]
    by_cases heq : age + 1 = advanced
    · rw [if_pos heq, decide_eq_true (show age = advanced - 1 by omega), Bool.or_true]
    · have hne : age ≠ advanced - 1 := by omega
      have hge : ¬ age < advanced := by omega
      simp [heq, hne, hge, hage]

/-- **A newer packet.** -/
theorem Tracks.newer (t : Tracks seqs m first h) (hx : m < x) : Tracks (seqs ++ [x]) x first (h.record x) := by
  have hlt : (m : Nat) < x := hx
  have hrecord : h.record x = { h.noteDeparted m ((x : Nat) - m) with
      ackBits := if (x : Nat) - m ≤ 32 then (h.ackBits <<< ((x : Nat) - m)) ||| (1#32 <<< ((x : Nat) - m - 1)) else 0
      mostRecent := some x } := by
    unfold record
    rw [t.mostRecent]
    exact if_pos hx
  have hfirst : (h.noteDeparted m ((x : Nat) - m)).first = some first := by
    unfold noteDeparted
    rw [t.began]
  rw [hrecord]
  refine ⟨t.newest.append_newer hx, ?_, rfl, hfirst, ?_, ?_⟩
  · rw [head?_append, t.head]
    rfl
  · intro age hage
    dsimp only
    rw [t.newest.seen_newer hx]
    by_cases hnear : (x : Nat) - m ≤ 32
    · rw [if_pos hnear, getLsbD_advance _ (by omega) hage]
      by_cases hlow : age + 1 < (x : Nat) - m
      · -- between the old and the new newest
        rw [if_pos hlow]
        refine ⟨fun hfalse => absurd hfalse Bool.false_ne_true, ?_⟩
        rintro ⟨-, hseen | heq⟩
        · have := hseen.le t.newest
          omega
        · omega
      · rw [if_neg hlow]
        by_cases hat : age + 1 = (x : Nat) - m
        · rw [if_pos hat]
          have hself : (x : Nat) - (age + 1) = m := by omega
          exact ⟨fun _ => ⟨by omega, .inl (hself ▸ t.newest.seen_self)⟩, fun _ => rfl⟩
        · rw [if_neg hat, t.ackBits _ (by omega)]
          have hshift : (x : Nat) - (age + 1) = m - (age - ((x : Nat) - m) + 1) := by omega
          constructor
          · rintro ⟨hle, hseen⟩
            exact ⟨by omega, .inl (hshift ▸ hseen)⟩
          · rintro ⟨hle, hseen | heq⟩
            · refine ⟨?_, hshift ▸ hseen⟩
              have := hseen.le t.newest
              omega
            · omega
    · -- the whole old window has gone
      rw [if_neg hnear]
      refine ⟨fun hset => absurd hset (by simp), ?_⟩
      rintro ⟨-, hseen | heq⟩
      · have := hseen.le t.newest
        omega
      · omega
  · have hcard := missed_newer t.newest hx (first : Nat)
    rw [t.card_sdiff hx] at hcard
    have hle := card_missed_le (seqs ++ [x]) first x
    have hmax : (x : Nat) ≤ u64Max := le_trans (Nat.le_of_lt x.isLt) (by decide)
    show (h.noteDeparted m ((x : Nat) - m)).lost = _
    rw [lost_noteDeparted h t.began, t.lost, hcard, Nat.add_assoc]
    rw [t.lost]
    omega

/-! ### A packet that is not newer -/

theorem Tracks.missed_older (t : Tracks seqs m first h) : missed (seqs ++ [x]) first m = missed seqs first m := by
  ext s
  rw [mem_missed, mem_missed, t.newest.seen_older]
  refine and_congr_right fun hrange => and_congr_right fun _ => not_congr ?_
  constructor
  · rintro (hseen | ⟨-, hlt⟩)
    · exact hseen
    · omega
  · exact .inl

/-- **A packet that is not newer.** -/
theorem Tracks.older (t : Tracks seqs m first h) (hx : x ≤ m) : Tracks (seqs ++ [x]) m first (h.record x) := by
  have hle : (x : Nat) ≤ m := hx
  have hhead : (seqs ++ [x]).head? = some first := by
    rw [head?_append, t.head]
    rfl
  have hlost : h.lost = (missed (seqs ++ [x]) first m).card := by
    rw [t.missed_older]
    exact t.lost
  have hrecord : h.record x = if (x : Nat) < m then
      if (m : Nat) - x < 32 then { h with ackBits := h.ackBits ||| (1#32 <<< ((m : Nat) - x - 1)) } else h else h := by
    unfold record
    rw [t.mostRecent]
    dsimp only
    rw [if_neg (not_lt.mpr hx)]
    rfl
  rw [hrecord]
  by_cases hlt : (x : Nat) < m
  · rw [if_pos hlt]
    by_cases hnear : (m : Nat) - x < 32
    · rw [if_pos hnear]
      refine ⟨t.newest.append_older hx, hhead, t.mostRecent, t.began, ?_, hlost⟩
      intro age hage
      dsimp only
      rw [BitVec.getLsbD_or, getLsbD_bit hage, Bool.or_eq_true, t.ackBits age hage, decide_eq_true_eq, t.newest.seen_older]
      constructor
      · rintro (⟨hle', hseen⟩ | hage')
        · exact ⟨hle', .inl hseen⟩
        · exact ⟨by omega, .inr ⟨by omega, by omega⟩⟩
      · rintro ⟨hle', hseen | ⟨heq, -⟩⟩
        · exact .inl ⟨hle', hseen⟩
        · exact .inr (by omega)
    · rw [if_neg hnear]
      refine ⟨t.newest.append_older hx, hhead, t.mostRecent, t.began, ?_, hlost⟩
      intro age hage
      rw [t.ackBits age hage, t.newest.seen_older]
      refine and_congr_right fun hle' => ⟨.inl, ?_⟩
      rintro (hseen | ⟨heq, hwindow⟩)
      · exact hseen
      · omega
  · rw [if_neg hlt]
    refine ⟨t.newest.append_older hx, hhead, t.mostRecent, t.began, ?_, hlost⟩
    intro age hage
    rw [t.ackBits age hage, t.newest.seen_older]
    refine and_congr_right fun hle' => ⟨.inl, ?_⟩
    rintro (hseen | ⟨heq, -⟩)
    · exact hseen
    · omega

/-- The history of a run of arrivals. -/
def recordAll (seqs : List U32) : ReceivedPacketHistory := seqs.foldl record empty

/-- **The history tracks every run.** -/
theorem recordAll_tracks (seqs : List U32) : (seqs = [] ∧ recordAll seqs = empty) ∨ ∃ m first,
    Tracks seqs m first (recordAll seqs) := by
  induction seqs using reverseRecOn with
  | nil => exact .inl ⟨rfl, rfl⟩
  | append_singleton seqs x ih =>
    have hstep : recordAll (seqs ++ [x]) = (recordAll seqs).record x := by
      unfold recordAll
      rw [foldl_append]
      rfl
    right
    rw [hstep]
    rcases ih with ⟨rfl, hempty⟩ | ⟨m, first, t⟩
    · rw [hempty]
      exact ⟨x, x, .single x⟩
    · rcases lt_or_ge m x with hx | hx
      · exact ⟨x, first, t.newer hx⟩
      · exact ⟨m, first, t.older hx⟩

end ReceivedPacketHistory

/-! ## The ring -/

namespace SequenceBuffer

/-- The ring of 33 entries that the history stands for. -/
abbrev Ring := SequenceBuffer Unit 33

/-- The ring after a run of arrivals. -/
def insertAll (seqs : List U32) : Ring := seqs.foldl (fun b (x : U32) => b.insert (x : Nat) ()) withCapacity

/-- Two sequence numbers share an entry when they differ by whole rotations. -/
theorem index_eq {s t : Nat} : (index s : Fin 33) = index t ↔ s % 33 = t % 33 := by
  rw [Fin.ext_iff]
  rfl

/-- **The ring holds what was seen**: the cursor is past every arrival, an entry holds a seen seq, if
    any, and each seen seq of the last rotation has its entry. -/
structure Holds (seqs : List U32) (b : Ring) : Prop where
  cursor : ∀ n, (∀ y ∈ seqs, (y : Nat) < n) ↔ b.sequence ≤ n
  sound : ∀ i, b.entrySequences i = -1 ∨ ∃ s : Nat, Seen seqs s ∧ b.entrySequences i = s
  holds : ∀ s, Seen seqs s → b.sequence ≤ s + 33 → b.entrySequences (index s) = s

variable {seqs : List U32} {x : U32} {b : Ring}

theorem Holds.nil : Holds [] withCapacity := by
  refine ⟨?_, fun _ => .inl rfl, ?_⟩
  · intro n
    exact ⟨fun _ => Nat.zero_le n, fun _ y hy => by cases hy⟩
  · intro s hs
    exact absurd hs not_seen_nil

section Holds

variable (h : Holds seqs b)
include h

theorem Holds.lt_cursor {s : Nat} (hs : Seen seqs s) : s < b.sequence := by
  obtain ⟨y, hy, rfl⟩ := hs.mem
  exact (h.cursor b.sequence).mpr le_rfl y hy

theorem Holds.seen_append {s : Nat} : Seen (seqs ++ [x]) s ↔ Seen seqs s ∨ (x : Nat) = s ∧ b.sequence ≤ s + 32 := by
  rw [Transport.seen_append, h.cursor]

theorem Holds.cursor_append (n : Nat) : (∀ y ∈ seqs ++ [x], (y : Nat) < n) ↔ b.sequence ≤ n ∧ (x : Nat) < n := by
  rw [forall_mem_append, h.cursor, forall_mem_singleton]

/-- No entry holds a seq the cursor has not passed, so there is nothing to remove. -/
theorem Holds.remove {s : Nat} (hs : b.sequence ≤ s) : (b.remove s).1 = b := by
  unfold SequenceBuffer.remove
  rw [if_neg]
  intro heq
  rcases h.sound (index s) with hnone | ⟨s', hseen, hs'⟩
  · omega
  · have := h.lt_cursor hseen
    omega

theorem Holds.removeAll (l : List Nat) (hl : ∀ s ∈ l, b.sequence ≤ s) : l.foldl (fun b s => (b.remove s).1) b = b := by
  induction l with
  | nil => rfl
  | cons s l ih =>
    rw [foldl_cons, h.remove (hl s mem_cons_self)]
    exact ih fun s' hs' => hl s' (mem_cons_of_mem s hs')

/-- An arrival at or past the cursor. -/
theorem Holds.insert_ahead (hx : b.sequence ≤ (x : Nat)) : Holds (seqs ++ [x]) (b.insert (x : Nat) ()) := by
  have hadvance : (b.advanceTo (x : Nat)).entrySequences =
    (if 33 ≤ (x : Nat) - b.sequence then fun _ => -1 else b.entrySequences) ∧
      (b.advanceTo (x : Nat)).sequence = x + 1 := by
    unfold advanceTo
    rw [if_pos (by omega)]
    refine ⟨?_, rfl⟩
    unfold removeEntriesInclusive
    rw [if_neg (by omega)]
    split
    · rfl
    · rw [h.removeAll]
      intro s hs
      exact (mem_range'_1.mp hs).1
  have hinsert : (b.insert (x : Nat) ()).entrySequences =
      update (if 33 ≤ (x : Nat) - b.sequence then fun _ => -1 else b.entrySequences) (index (x : Nat)) x ∧
      (b.insert (x : Nat) ()).sequence = x + 1 := by
    unfold insert
    rw [if_neg (by omega)]
    exact ⟨by rw [← hadvance.1], hadvance.2⟩
  refine ⟨?_, ?_, ?_⟩
  · intro n
    rw [h.cursor_append, hinsert.2]
    omega
  · intro i
    rw [hinsert.1]
    by_cases hi : i = index (x : Nat)
    · subst hi
      rw [update_self]
      exact .inr ⟨x, h.seen_append.mpr (.inr ⟨rfl, by omega⟩), rfl⟩
    · rw [update_of_ne hi]
      split
      · exact .inl rfl
      · rcases h.sound i with hnone | ⟨s, hseen, hs⟩
        · exact .inl hnone
        · exact .inr ⟨s, h.seen_append.mpr (.inl hseen), hs⟩
  · intro s hs hwindow
    rw [hinsert.2] at hwindow
    rw [hinsert.1]
    rcases h.seen_append.mp hs with hseen | ⟨rfl, -⟩
    · have hlt := h.lt_cursor hseen
      have hi : (index s : Fin 33) ≠ index (x : Nat) := by
        rw [ne_eq, index_eq]
        omega
      rw [update_of_ne hi, if_neg (by omega)]
      exact h.holds s hseen (by omega)
    · rw [update_self]

/-- An arrival behind the cursor, by less than a rotation or by more. -/
theorem Holds.insert_behind (hx : (x : Nat) < b.sequence) : Holds (seqs ++ [x]) (b.insert (x : Nat) ()) := by
  have hcursor : ∀ n, (∀ y ∈ seqs ++ [x], (y : Nat) < n) ↔ b.sequence ≤ n := by
    intro n
    rw [h.cursor_append]
    omega
  unfold insert
  by_cases hold : 33 ≤ b.sequence - (x : Nat)
  · rw [if_pos ⟨hx, hold⟩]
    have hsame : ∀ s, Seen (seqs ++ [x]) s ↔ Seen seqs s := by
      intro s
      rw [h.seen_append]
      refine ⟨?_, .inl⟩
      rintro (hseen | ⟨rfl, hle⟩)
      · exact hseen
      · omega
    refine ⟨hcursor, ?_, ?_⟩
    · intro i
      rcases h.sound i with hnone | ⟨s, hseen, hs⟩
      · exact .inl hnone
      · exact .inr ⟨s, (hsame s).mpr hseen, hs⟩
    · intro s hs
      exact h.holds s ((hsame s).mp hs)
  · have hstay : b.advanceTo (x : Nat) = b := by
      unfold advanceTo
      exact if_neg (by omega)
    rw [if_neg fun hboth => hold hboth.2, hstay]
    refine ⟨hcursor, ?_, ?_⟩
    · intro i
      dsimp only
      by_cases hi : i = index (x : Nat)
      · subst hi
        rw [update_self]
        exact .inr ⟨x, h.seen_append.mpr (.inr ⟨rfl, by omega⟩), rfl⟩
      · rw [update_of_ne hi]
        rcases h.sound i with hnone | ⟨s, hseen, hs⟩
        · exact .inl hnone
        · exact .inr ⟨s, h.seen_append.mpr (.inl hseen), hs⟩
    · intro s hs hwindow
      dsimp only at hwindow ⊢
      by_cases heq : s = (x : Nat)
      · rw [heq, update_self]
      · rcases h.seen_append.mp hs with hseen | ⟨rfl, -⟩
        · have hlt := h.lt_cursor hseen
          have hi : (index s : Fin 33) ≠ index (x : Nat) := by
            rw [ne_eq, index_eq]
            omega
          rw [update_of_ne hi]
          exact h.holds s hseen hwindow
        · exact absurd rfl heq

end Holds

theorem insertAll_holds (seqs : List U32) : Holds seqs (insertAll seqs) := by
  induction seqs using reverseRecOn with
  | nil => exact .nil
  | append_singleton seqs x ih =>
    have hstep : insertAll (seqs ++ [x]) = (insertAll seqs).insert (x : Nat) () := by
      unfold insertAll
      rw [foldl_append]
      rfl
    rw [hstep]
    rcases lt_or_ge (x : Nat) (insertAll seqs).sequence with hx | hx
    · exact ih.insert_behind hx
    · exact ih.insert_ahead hx

/-- Within a rotation of the newest, the ring answers what was seen. -/
theorem Holds.exists_iff (h : Holds seqs b) {s : Nat} (hwindow : b.sequence ≤ s + 33) :
    b.exists_ s = true ↔ Seen seqs s := by
  unfold exists_
  rw [decide_eq_true_eq]
  constructor
  · intro heq
    rcases h.sound (index s) with hnone | ⟨s', hseen, hs'⟩
    · omega
    · obtain rfl : s = s' := by omega
      exact hseen
  · intro hseen
    exact h.holds s hseen hwindow

end SequenceBuffer

open ReceivedPacketHistory SequenceBuffer in
/-- **The rolling history is the 33-entry ring, and its loss count is exact.** After any run of arrivals:
    the most recent is the newest; bit `N` is set exactly when the seq `N + 1` below it was seen, which
    is when the ring holds it; and `lost` counts the seqs from the first arrival on, more than 32 below
    the newest, that were never seen. -/
theorem history_is_ring (seqs : List U32) :
    (∀ m, (recordAll seqs).mostRecent = some m ↔ Newest seqs m) ∧
    ∀ m, Newest seqs m →
      (∀ N < 32, ((recordAll seqs).ackBits.getLsbD N = true ↔ N + 1 ≤ (m : Nat) ∧ Seen seqs (m - (N + 1))) ∧
        ((recordAll seqs).ackBits.getLsbD N = true ↔ N + 1 ≤ (m : Nat) ∧
          (insertAll seqs).exists_ ((m : Nat) - (N + 1)) = true)) ∧
      ∀ first, seqs.head? = some first →
        (recordAll seqs).lost = Set.ncard {s : Nat | (first : Nat) ≤ s ∧ s + 32 < (m : Nat) ∧ ¬ Seen seqs s} := by
  rcases recordAll_tracks seqs with ⟨rfl, -⟩ | ⟨m, first, t⟩
  · have hnone : ∀ m, ¬ Newest [] m := fun m h => by cases h.mem
    exact ⟨fun m => iff_of_false (fun h => by cases h) (hnone m), fun m h => absurd h (hnone m)⟩
  have hring := insertAll_holds seqs
  have hcursor : (insertAll seqs).sequence ≤ (m : Nat) + 1 := by
    rw [← hring.cursor, t.newest.forall_lt]
    exact Nat.lt_succ_self _
  have hmost : ∀ m', (recordAll seqs).mostRecent = some m' ↔ Newest seqs m' := by
    intro m'
    rw [t.mostRecent, Option.some_inj]
    refine ⟨fun h => h ▸ t.newest, fun h => ?_⟩
    exact Fin.ext (Nat.le_antisymm (h.max m t.newest.mem) (t.newest.max m' h.mem))
  refine ⟨hmost, fun m' hm' => ?_⟩
  obtain rfl : m = m' := Option.some.inj (t.mostRecent.symm.trans ((hmost m').mpr hm'))
  refine ⟨fun N hN => ⟨t.ackBits N hN, ?_⟩, fun first' hfirst => ?_⟩
  · rw [t.ackBits N hN]
    refine and_congr_right fun hle => ?_
    rw [hring.exists_iff]
    omega
  · obtain rfl := Option.some.inj (t.head.symm.trans hfirst)
    have hset : {s : Nat | (first : Nat) ≤ s ∧ s + 32 < (m : Nat) ∧ ¬ Seen seqs s} = ↑(missed seqs first m) := by
      ext s
      rw [Finset.mem_coe, mem_missed]
      exact and_left_comm
    rw [t.lost, hset, Set.ncard_coe_finset]

/-- A late arrival, then one far ahead. -/
theorem history_is_ring_after_jump : Newest [0, 2, 1, 40] 40 ∧ (ReceivedPacketHistory.recordAll [0, 2, 1, 40]).lost =
      Set.ncard {s : Nat | ((0 : U32) : Nat) ≤ s ∧ s + 32 < ((40 : U32) : Nat) ∧ ¬ Seen [0, 2, 1, 40] s} := by
  have hnewest : Newest [0, 2, 1, 40] 40 := ⟨by simp, by simp⟩
  exact ⟨hnewest, ((history_is_ring [0, 2, 1, 40]).2 40 hnewest).2 0 rfl⟩

end RallyPoint.Transport
