import RallyPoint.Relay.Sync.Tracker

/-!
# `Relay.Correctness.SyncTurns` — an honest origin's checksums get their own generations

An honest origin's checksum generations start below the ring's size and move by at most a bounded step
from one checksum to the next. `Origin` states that; `lastGen` is the generation of the last checksum
before a turn, which is all the ordering keeps of the past. While the ordering has not failed, it has
consumed exactly the turns below `next`, and its state is what those turns determine (`Follows`).
-/

namespace RallyPoint.Relay

open Lib Option

/-! ## An honest origin -/

/-- A payload's seq stays below this. -/
def seqEnd : Nat := 2 ^ 63

/-- The generation of the last checksum among the turns before `n`. -/
def lastGen (gen : Nat → Option Nat) : Nat → Option Nat
  | 0 => none
  | n + 1 => gen n <|> lastGen gen n

/-- How far a checksum may be from the one before it. -/
def genStep : SyncMode → Nat
  | .legacy => 1
  | .enhanced => gameSyncSafeBufferMax

/-- The native generations of an honest origin's checksums: `gen n` is the one turn `n` carries, if any. -/
structure Origin where
  mode : SyncMode
  gen : Nat → Option Nat
  /-- The first checksum is below the ring's size. -/
  first : ∀ n < seqEnd, ∀ g, gen n = some g → lastGen gen n = none → g < syncRingModulus
  /-- A later one repeats the last or moves on by a bounded step. -/
  later : ∀ n < seqEnd, ∀ g y, gen n = some g → lastGen gen n = some y → y ≤ g ∧ g ≤ y + genStep mode
  /-- The all-ones generation is reserved. -/
  below : mode = .enhanced → ∀ n < seqEnd, ∀ g, gen n = some g → g < u64Max

/-- The turn the origin emits as its `n`-th, before it is given an ordinal. -/
structure Origin.Emits (o : Origin) (value : Nat → SyncValue) (n : Nat) (turn : SyncTurn) : Prop where
  command : turn.command = (o.gen n).map fun g => ⟨g % syncRingModulus, expectedKindForOrdinal g, value g⟩
  generation : turn.generation.map Fin.val = if o.mode = .enhanced then o.gen n else none
  ordinal : turn.ordinal = none

/-- A legacy origin's generations are bounded by the turns it has sent. -/
theorem Origin.legacy_le (o : Origin) (hmode : o.mode = .legacy) :
    ∀ n ≤ seqEnd, ∀ y, lastGen o.gen n = some y → y ≤ syncRingModulus + n := by
  intro n
  induction n with
  | zero => intro _ y hy; cases hy
  | succ n ih =>
    intro hn y hy
    cases hg : o.gen n with
    | none =>
      rw [lastGen, hg] at hy
      exact (ih (by omega) y hy).trans (by omega)
    | some g =>
      rw [lastGen, hg] at hy
      cases hy
      cases hl : lastGen o.gen n with
      | none => exact (o.first n hn _ hg hl).le.trans (Nat.le_add_right _ _)
      | some z =>
        have hz := ih (by omega) z hl
        have hstep := (o.later n hn _ z hg hl).2
        rw [hmode] at hstep
        exact hstep.trans (by show z + 1 ≤ _; omega)

namespace SlotTurns

variable {s : SlotTurns} {o : Origin} {value : Nat → SyncValue} {turn : SyncTurn} {n : Nat}

/-! ## Consuming a turn -/

/-- The state is what the origin's first `next` turns determine. -/
structure Caught (o : Origin) (s : SlotTurns) : Prop where
  next : s.next ≤ seqEnd
  ordinal : s.ordinal = lastGen o.gen s.next
  mode : s.mode = if s.ordinal.isSome then some o.mode else none

/-- The ring alone tells a repeat from a step. -/
theorem unwrapLegacyOrdinal_spec {y g : Nat} (hle : y ≤ g) (hstep : g ≤ y + 1) (hmax : g ≤ u64Max) :
    unwrapLegacyOrdinal (some y) (g % syncRingModulus) = .ok g := by
  unfold unwrapLegacyOrdinal
  simp only
  obtain rfl | rfl : g = y ∨ g = y + 1 := by omega
  · rw [if_pos rfl]
  · have hne : ¬ y % syncRingModulus = (y + 1) % syncRingModulus := by unfold syncRingModulus; omega
    have heq : (y % syncRingModulus + 1) % syncRingModulus = (y + 1) % syncRingModulus := by
      unfold syncRingModulus; omega
    rw [if_neg hne, if_pos heq, checkedAdd_of_le hmax]

/-- The generations between two tags, where there are any. -/
def gapAfter (last tag : Nat) : Option SyncGap := if 1 < tag - last then some ⟨last + 1, tag⟩ else none

variable {generation : Option U64} {tag : U64} {g : Nat}

/-- The first tag of an origin is taken when it is its own ring. -/
theorem assign_first (hmode : s.mode = none) (hbelow : (tag : Nat) < u64Max)
    (hfirst : (tag : Nat) < syncRingModulus) : s.assign (tag % syncRingModulus) (some tag) = .ok (tag, none) := by
  unfold SlotTurns.assign
  rw [hmode]
  simp [Nat.mod_eq_of_lt hfirst, hbelow.ne]

/-- A later one is taken when it is not too far ahead, and names the generations it skips. -/
theorem assign_next (hmode : s.mode = some .enhanced) {last : Nat} (hlast : s.ordinal = some last)
    (hbelow : (tag : Nat) < u64Max) (hle : last ≤ tag) (hstep : (tag : Nat) ≤ last + gameSyncSafeBufferMax) :
    s.assign (tag % syncRingModulus) (some tag) = .ok (tag, gapAfter last tag) := by
  have hjump : ¬ gameSyncSafeBufferMax < (tag : Nat) - last := by omega
  unfold SlotTurns.assign gapAfter
  rw [hmode, hlast]
  simp only [hbelow.ne, if_false, ne_eq, not_true, checkedSub_of_le hle, hjump]
  split
  · rw [checkedAdd_of_le (by omega)]
  · rfl

/-- **A checksum gets its own generation.** -/
theorem Caught.assign (h : s.Caught o) (hn : s.next < seqEnd) (hg : o.gen s.next = some g)
    (hgen : generation.map Fin.val = if o.mode = .enhanced then some g else none) :
    ∃ gap, s.assign (g % syncRingModulus) generation = .ok (g, gap) := by
  have hstate := h.mode
  cases hmode : o.mode with
  | legacy =>
    -- steps of at most one: the ring position tells the generation
    rw [hmode, if_neg (by decide)] at hgen
    obtain rfl : generation = none := map_eq_none_iff.mp hgen
    have hmax : g ≤ u64Max := by
      have hle := o.legacy_le hmode (s.next + 1) hn g (by rw [lastGen, hg]; rfl)
      exact hle.trans (by unfold syncRingModulus; unfold seqEnd at hn; unfold u64Max; omega)
    unfold SlotTurns.assign
    rw [hstate, h.ordinal, hmode]
    cases hl : lastGen o.gen s.next with
    | none =>
      have hfirst := o.first s.next hn g hg hl
      exact ⟨none, by simp [unwrapLegacyOrdinal, Except.map, Nat.mod_eq_of_lt hfirst]⟩
    | some y =>
      have hstep := o.later s.next hn g y hg hl
      rw [hmode] at hstep
      exact ⟨none, by simp [unwrapLegacyOrdinal_spec hstep.1 hstep.2 hmax, Except.map]⟩
  | enhanced =>
    -- the tag is the generation, and the checks on it pass
    rw [hmode, if_pos rfl] at hgen
    obtain ⟨tag, rfl, rfl⟩ := map_eq_some_iff.mp hgen
    have hbelow := o.below hmode s.next hn _ hg
    rw [h.ordinal, hmode] at hstate
    cases hl : lastGen o.gen s.next with
    | none =>
      rw [hl] at hstate
      exact ⟨none, assign_first hstate hbelow (o.first s.next hn _ hg hl)⟩
    | some y =>
      rw [hl] at hstate
      obtain ⟨hle, hstep⟩ := o.later s.next hn _ y hg hl
      rw [hmode] at hstep
      exact ⟨_, assign_next hstate (h.ordinal.trans hl) hbelow hle hstep⟩

/-- The first checksum fixes the origin's own mode. -/
theorem Caught.modeAfter (h : s.Caught o)     (hgen : generation.map Fin.val = if o.mode = .enhanced then some g else none) :
    s.modeAfter generation = o.mode := by
  unfold SlotTurns.modeAfter
  rw [h.mode]
  split
  · rfl
  · cases hmode : o.mode with
    | legacy =>
      rw [hmode, if_neg (by decide)] at hgen
      rw [map_eq_none_iff.mp hgen]; rfl
    | enhanced =>
      rw [hmode, if_pos rfl] at hgen
      obtain ⟨tag, rfl, -⟩ := map_eq_some_iff.mp hgen
      rfl

/-- **Consuming the origin's next turn** succeeds, with the turn's own generation as its ordinal. -/
theorem Caught.consume (h : s.Caught o) (hn : s.next < seqEnd) (ht : o.Emits value s.next turn) :
    ∃ turn', s.consume s.next turn = ({ s with
        next := s.next + 1
        ordinal := lastGen o.gen (s.next + 1)
        mode := if (lastGen o.gen (s.next + 1)).isSome then some o.mode else none }, .ok turn') ∧
      turn'.ordinal = o.gen s.next ∧ turn'.command = turn.command ∧ turn'.frame = turn.frame := by
  have hnext : checkedAdd u64Max s.next 1 = some (s.next + 1) :=
    checkedAdd_of_le (by unfold seqEnd at hn; unfold u64Max; omega)
  unfold SlotTurns.consume
  rw [hnext]
  have hcommand := ht.command
  cases hg : o.gen s.next with
  | none =>
    rw [hg, map_none] at hcommand
    have hgen : turn.generation = none := by
      have := ht.generation
      rw [hg, ite_self] at this
      exact map_eq_none_iff.mp this
    refine ⟨turn, ?_, ht.ordinal, rfl, rfl⟩
    have hlast : lastGen o.gen (s.next + 1) = s.ordinal := by rw [lastGen, hg, h.ordinal]; rfl
    simp only [hcommand, hgen, hlast, isSome_none, Bool.false_eq_true, if_false]
    rw [← h.mode]
  | some g =>
    rw [hg, map_some] at hcommand
    have hgen := ht.generation
    rw [hg] at hgen
    obtain ⟨gap, hassign⟩ := h.assign hn hg hgen
    have hlast : lastGen o.gen (s.next + 1) = some g := by rw [lastGen, hg]; rfl
    refine ⟨{ turn with ordinal := some g, skipped := gap <|> turn.skipped }, ?_, rfl, rfl, rfl⟩
    simp only [hcommand, hassign, hlast, h.modeAfter hgen, isSome_some, if_true]

/-! ## Any order of arrival -/

/-- Until it fails, the ordering has caught up to `next` and holds turns of the origin; it fails only for
    a gap or for want of room. -/
structure Follows (o : Origin) (value : Nat → SyncValue) (s : SlotTurns) : Prop where
  caught : s.failure = none → s.Caught o
  pending : s.failure = none → ∀ n t, s.pending.get? n = some t → n < seqEnd ∧ o.Emits value n t
  failed : ∀ f, s.failure = some f → s.pending = .empty ∧ (f.reason = .sequenceGap ∨ f.reason = .metadataCapacity)

theorem empty_follows : Follows o value empty := ⟨fun _ => ⟨Nat.zero_le _, rfl, rfl⟩, fun _ n t h => (by cases h), nofun⟩

theorem Follows.refuse {reason : SyncFailureReason} (hr : reason = .sequenceGap ∨ reason = .metadataCapacity) (seq : Nat)
    (turn : SyncTurn) : Follows o value (s.refuse reason seq turn (α := Option SyncTurn)).1 := by
  refine ⟨nofun, nofun, ?_⟩
  rintro f ⟨⟩
  exact ⟨rfl, hr⟩

/-- A consumed turn: the turn of the origin with the seq `n`, and the ordinal that is its generation. -/
structure Placed (o : Origin) (value : Nat → SyncValue) (n : Nat) (turn : SyncTurn) : Prop where
  ordinal : turn.ordinal = o.gen n
  command : turn.command = (o.gen n).map fun g => ⟨g % syncRingModulus, expectedKindForOrdinal g, value g⟩

/-- Consuming the turn at `next`, from the queue or on arrival. -/
theorem Follows.consume (h : Follows o value s) (hopen : s.failure = none) (hn : s.next < seqEnd)
    (ht : o.Emits value s.next turn) :
    ∃ turn', (s.consume s.next turn).2 = .ok turn' ∧ Placed o value s.next turn' ∧
      Follows o value (s.consume s.next turn).1 := by
  obtain ⟨turn', heq, hord, hcmd, -⟩ := (h.caught hopen).consume hn ht
  rw [heq]
  refine ⟨turn', rfl, ⟨hord, hcmd.trans ht.command⟩, ⟨fun _ => ⟨hn, rfl, rfl⟩, fun _ => h.pending hopen, ?_⟩⟩
  intro f hf
  cases hopen.symm.trans hf

/-- **A turn arrives.** -/
theorem Follows.push (h : Follows o value s) {seq : Nat} (hn : seq < seqEnd) (ht : o.Emits value seq turn) :
    Follows o value (s.push seq turn).1 ∧ ∀ turn', (s.push seq turn).2 = .ok (some turn') → Placed o value seq turn' := by
  unfold SlotTurns.push
  split
  · exact ⟨h, nofun⟩
  · rename_i hearly
    rw [not_or] at hearly
    have hopen : s.failure = none := by simpa using hearly.1
    split
    · rename_i heq
      subst heq
      obtain ⟨turn', hres, hplaced, hfollows⟩ := h.consume hopen hn ht
      refine ⟨hfollows, ?_⟩
      intro turn'' hr
      simp only [hres] at hr
      cases hr
      exact hplaced
    · split
      · -- an unfilled gap, or no room: the two ways an honest slot's ordering fails
        exact ⟨.refuse (Or.inl rfl) seq turn, nofun⟩
      · split
        · exact ⟨.refuse (Or.inr rfl) seq turn, nofun⟩
        · split
          · exact ⟨h, nofun⟩
          · have hc := h.caught hopen
            refine ⟨⟨fun _ => ⟨hc.next, hc.ordinal, hc.mode⟩, fun _ n t hget => ?_, fun f hf => ?_⟩, nofun⟩
            · rcases OrdMap.get?_insert_eq_some.mp hget with ⟨rfl, rfl⟩ | ⟨-, hget⟩
              · exact ⟨hn, ht⟩
              · exact h.pending hopen n t hget
            · cases hopen.symm.trans hf

/-- **The turn at `next` leaves the queue.** -/
theorem Follows.popReady (h : Follows o value s) :
    Follows o value s.popReady.1 ∧ ∀ turn', s.popReady.2 = .ok (some turn') → Placed o value s.next turn' := by
  unfold SlotTurns.popReady
  split
  · exact ⟨h, nofun⟩
  · rename_i turn hget
    have hopen : s.failure = none := by
      by_contra hne
      obtain ⟨f, hf⟩ := ne_none_iff_exists'.mp hne
      rw [(h.failed f hf).1] at hget
      cases hget
    obtain ⟨hn, ht⟩ := h.pending hopen s.next turn hget
    have herased : Follows o value { s with pending := s.pending.erase s.next } := by
      have hc := h.caught hopen
      refine ⟨fun _ => ⟨hc.next, hc.ordinal, hc.mode⟩, ?_, fun f hf => by cases hopen.symm.trans hf⟩
      intro _ n t hnt
      exact h.pending hopen n t (OrdMap.get?_erase_eq_some.mp hnt).2
    obtain ⟨turn', hres, hplaced, hfollows⟩ := herased.consume hopen hn ht
    refine ⟨hfollows, ?_⟩
    intro turn'' hr
    simp only [hres] at hr
    cases hr
    exact hplaced

end SlotTurns

end RallyPoint.Relay
