import RallyPoint.Client.Correctness.Retention
import RallyPoint.Relay.Correctness.Seen
import RallyPoint.Relay.Resume

/-!
# `Relay.Correctness.Resume` — a resume at the same relay neither loses nor wedges a turn

A client that dials its relay again promises its slot's stream from an anchor on. It re-sends only what
is unacked or too large for a datagram; every other seq must be one the relay has a receipt for. The
relay's receipts are in two stores that it reads one after the other, while a drain moves turns from the
one to the other.
-/

namespace RallyPoint.Relay

open Lib Transport Client List Driver SlotSeen MeshSeen

/-! ## The stores -/

section Journal

variable {pen : SessionPen} {slot : SlotId} {n : Nat}

theorem mem_heldTurnSeqs : n ∈ pen.heldTurnSeqs slot ↔ (slot, n) ∈ turnIdentities pen.phase.queue ∨
    (slot, n) ∈ pen.inFlightTurns := by
  unfold SessionPen.heldTurnSeqs
  rw [mem_map, ← mem_append]
  constructor
  · rintro ⟨⟨s, m⟩, hmem, rfl⟩
    obtain ⟨hin, hslot⟩ := mem_filter.mp hmem
    obtain rfl : s = slot := by simpa using hslot
    exact hin
  · intro h
    exact ⟨(slot, n), mem_filter.mpr ⟨h, by simp⟩, rfl⟩

@[simp] theorem turnIdentities_nil : turnIdentities [] = [] := rfl

theorem turnIdentities_cons (entry : PennedIngress) (rest : List PennedIngress) :
    turnIdentities (entry :: rest) = entry.turnIdentity.toList ++ turnIdentities rest := by
  unfold turnIdentities
  cases h : entry.turnIdentity <;> simp [h]

theorem turnIdentities_concat (queue : List PennedIngress) (entry : PennedIngress) :
    turnIdentities (queue ++ [entry]) = turnIdentities queue ++ entry.turnIdentity.toList := by
  unfold turnIdentities
  rw [filterMap_append]
  cases h : entry.turnIdentity <;> simp [h]

/-- Compacting the departures of a slot leaves the turns. -/
theorem turnIdentities_compacted (slot : SlotId) (queue : List PennedIngress) :
    turnIdentities (queue.filter fun queued => !queued.isDepartureOf slot) = turnIdentities queue := by
  induction queue with
  | nil => rfl
  | cons entry rest ih =>
    rw [filter_cons]
    split
    · rw [turnIdentities_cons, turnIdentities_cons, ih]
    · rename_i hdropped
      have hnone : entry.turnIdentity = none := by
        cases entry with
        | turn s payload => exact absurd rfl hdropped
        | lobby | gameStarted | departure => rfl
      rw [turnIdentities_cons, hnone, ih]
      rfl

variable {phase : SessionPen.Phase}

theorem queue_withQueue (h : phase ≠ .resolved) (queue : List PennedIngress) : (phase.withQueue queue).queue = queue := by
  cases phase with
  | gathering _ => rfl
  | draining _ => rfl
  | resolved => exact absurd rfl h

theorem withQueue_ne_resolved (h : phase ≠ .resolved) (queue : List PennedIngress) : phase.withQueue queue ≠ .resolved := by
  cases phase with
  | gathering | draining => exact fun heq => by cases heq
  | resolved => exact absurd rfl h

/-- What a deposit does to the turns: at most it queues its own. -/
structure Deposited (pen pen' : SessionPen) (entry : PennedIngress) : Prop where
  inFlight : pen'.inFlightTurns = pen.inFlightTurns
  queued : turnIdentities pen'.phase.queue = turnIdentities pen.phase.queue ∨
    turnIdentities pen'.phase.queue = turnIdentities pen.phase.queue ++ entry.turnIdentity.toList

theorem enqueue_deposited (h : pen.phase ≠ .resolved) (entry : PennedIngress) : Deposited pen (pen.enqueue entry) entry := by
  refine ⟨rfl, .inr ?_⟩
  show turnIdentities (pen.phase.withQueue _).queue = _
  rw [queue_withQueue h, turnIdentities_concat]

theorem hold_deposited (pen : SessionPen) (overBudget : Bool) (entry : PennedIngress) :
    Deposited pen (pen.hold overBudget entry).1 entry := by
  have hsame : ∀ pen' : SessionPen, pen'.inFlightTurns = pen.inFlightTurns → pen'.phase = pen.phase →
      Deposited pen pen' entry := fun pen' h₁ h₂ => ⟨h₁, Or.inl (by rw [h₂])⟩
  have hput : ∀ pen₁ : SessionPen, pen.phase ≠ .resolved → pen₁.inFlightTurns = pen.inFlightTurns →
      pen₁.phase = pen.phase → Deposited pen (pen₁.enqueue entry) entry := by
    intro pen₁ hphase h₁ h₂
    obtain ⟨hflight, hqueued⟩ := enqueue_deposited (h₂ ▸ hphase) entry
    exact ⟨hflight.trans h₁, h₂ ▸ hqueued⟩
  by_cases hphase : pen.phase = .resolved
  · unfold SessionPen.hold
    rw [hphase]
    exact hsame pen rfl rfl
  · have hhold : pen.hold overBudget entry = pen.deposit overBudget entry := by
      unfold SessionPen.hold
      split
      · rename_i heq
        exact absurd heq hphase
      · rfl
    rw [hhold]
    unfold SessionPen.deposit
    cases entry with
    | turn | lobby | gameStarted =>
      simp only
      split
      · exact hsame _ rfl rfl
      · exact hput _ hphase rfl rfl
    | departure slot reason epoch revision =>
      refine ⟨rfl, .inl ?_⟩
      show turnIdentities ((pen.phase.withQueue _).withQueue _).queue = _
      rw [queue_withQueue (withQueue_ne_resolved hphase _), queue_withQueue hphase,
        turnIdentities_concat, turnIdentities_compacted]
      simp [PennedIngress.turnIdentity]

end Journal

namespace ReceiptStores

variable {s s' : ReceiptStores} {slot own : SlotId} {label : Option SlotId}

/-- The seqs the gate has recorded for the slot, everything up to the top of its prefix included. -/
def recorded (s : ReceiptStores) (slot : SlotId) : Set Nat := (s.gate.entry slot).seqs.mem

/-- The seqs the relay has a receipt for. -/
def held (s : ReceiptStores) (slot : SlotId) : Set Nat := {n | n ∈ s.journal.heldTurnSeqs slot} ∪ s.recorded slot

/-- What holds of the stores at every moment: the gate is sound, and a turn in flight is in the drainer's
    batch, has passed the gate or is of a slot whose leave is decided. -/
structure Consistent (s : ReceiptStores) : Prop where
  gate : ∀ slot, ∃ M, (s.gate.entry slot).Keeps M ∧ (s.gate.entry slot).ahead.card ≤ sparseSeenCap
  flight : ∀ t ∈ s.journal.inFlightTurns, t ∈ turnIdentities s.batch ∨ t.2 ∈ s.recorded t.1 ∨ t.1 ∈ s.decided
  batch : ∀ t ∈ turnIdentities s.batch, t ∈ s.journal.inFlightTurns

theorem new_consistent : new.Consistent := by
  refine ⟨fun slot => ⟨∅, pristine_keeps, Nat.zero_le _⟩, ?_, ?_⟩
  · exact fun t ht => absurd ht not_mem_nil
  · exact fun t ht => absurd ht not_mem_nil

/-! ### Passing the gate -/

/-- The stores after `(slot, seq)` passed the gate. -/
def passed (s : ReceiptStores) (slot : SlotId) (seq : Nat) : ReceiptStores :=
  { s with gate := (s.gate.markForwarded slot seq).1 }

theorem Consistent.passed_gate (h : s.Consistent) (slot : SlotId) (seq : U64) :
    ∀ slot', ∃ M, ((s.passed slot seq).gate.entry slot').Keeps M ∧
      ((s.passed slot seq).gate.entry slot').ahead.card ≤ sparseSeenCap := by
  intro slot'
  unfold passed
  by_cases hs : slot' = slot
  · subst hs
    obtain ⟨M, hkeeps, hcap⟩ := h.gate slot'
    obtain ⟨M', -, hkeeps', hcap'⟩ := hkeeps.markForwarded hcap (U64.le_max seq)
    rw [markForwarded_entry_self]
    exact ⟨M', hkeeps', hcap'⟩
  · rw [markForwarded_entry_of_ne hs]
    exact h.gate slot'

theorem passed_recorded_of_ne {slot' : SlotId} {seq : Nat} (h : slot' ≠ slot) :
    (s.passed slot seq).recorded slot' = s.recorded slot' := by
  unfold recorded passed
  rw [markForwarded_entry_of_ne h]

/-- Passing the gate records the seq, and forgets nothing. -/
theorem Consistent.subset_passed (h : s.Consistent) (slot : SlotId) (seq : U64) :
    (seq : Nat) ∈ (s.passed slot seq).recorded slot ∧ ∀ slot', s.recorded slot' ⊆ (s.passed slot seq).recorded slot' := by
  obtain ⟨M, hkeeps, -⟩ := h.gate slot
  have hmem := (hkeeps.markForwarded_mem (U64.le_max seq)).1
  have hself : (s.passed slot seq).recorded slot = ((s.gate.entry slot).markForwarded seq).1.seqs.mem := by
    unfold recorded passed
    rw [markForwarded_entry_self]
  rw [← hself] at hmem
  refine ⟨hmem (.inl rfl), ?_⟩
  intro slot'
  by_cases hs : slot' = slot
  · subst hs
    exact fun n hn => hmem (.inr hn)
  · rw [passed_recorded_of_ne hs]

variable {N a : Nat} {seq : U64}

/-- **The collapse stays below a window.** With all receipts below `N`, it swallows only what is more
    than the sparse bound below it. -/
theorem Consistent.passed_subset (h : s.Consistent) (hN : N ≤ a + sparseSeenCap)
    (hrecorded : ∀ n ∈ s.recorded slot, n < N) (hseq : (seq : Nat) < N) :
    ∀ n ∈ (s.passed slot seq).recorded slot, n = seq ∨ n ∈ s.recorded slot ∨ n < a := by
  obtain ⟨M, hkeeps, -⟩ := h.gate slot
  intro n hn
  unfold recorded passed at hn
  rw [markForwarded_entry_self] at hn
  obtain hin | ⟨above, hsub, hcard, hlt⟩ := (hkeeps.markForwarded_mem (U64.le_max seq)).2 n hn
  · obtain heq | hin := hin
    · exact .inl heq
    · exact .inr (.inl hin)
  · -- the sparse seqs above `n` fit between it and `N`
    have hbetween : above ⊆ Finset.Ioo n N := by
      intro m hm
      refine Finset.mem_Ioo.mpr ⟨hlt m hm, ?_⟩
      obtain rfl | hm := Finset.mem_insert.mp (hsub hm)
      · exact hseq
      · exact hrecorded m (.inr hm)
    have hle := Finset.card_le_card hbetween
    rw [Nat.card_Ioo] at hle
    have hcap : 0 < sparseSeenCap := by decide
    exact .inr (.inr (by omega))

/-! ### Steps and runs -/

/-- What `continue_drain` does with the turns: those queued go in flight, those in flight are done. -/
theorem continueDrain_turns (pen : SessionPen) :
    pen.continueDrain.1.inFlightTurns = turnIdentities (pen.continueDrain.2.getD []) ∧
      ∀ t, (t ∈ turnIdentities pen.continueDrain.1.phase.queue ∨ t ∈ pen.continueDrain.1.inFlightTurns) ↔
        t ∈ turnIdentities pen.phase.queue := by
  unfold SessionPen.continueDrain
  split
  · rename_i hphase
    rw [hphase]
    exact ⟨rfl, fun t => by simp [SessionPen.Phase.queue]⟩
  · rename_i batch _ hphase
    rw [hphase]
    exact ⟨rfl, fun t => by simp [SessionPen.Phase.queue]⟩
  · exact ⟨rfl, fun t => by simp⟩

theorem beginDrain_turns {pen pen' : SessionPen} {batch : List PennedIngress} (h : pen.beginDrain = some (pen', batch)) :
    pen'.inFlightTurns = turnIdentities batch ∧
      ∀ t, (t ∈ turnIdentities pen'.phase.queue ∨ t ∈ pen'.inFlightTurns) ↔ t ∈ turnIdentities pen.phase.queue := by
  unfold SessionPen.beginDrain at h
  split at h
  · rename_i queue hphase
    cases h
    rw [hphase]
    exact ⟨rfl, fun t => by simp [SessionPen.Phase.queue]⟩
  · cases h

theorem turnIdentities_of_turn {payload : Payload} {rest : List PennedIngress} (h : s.batch = .turn slot payload :: rest) :
    turnIdentities s.batch = (slot, (payload.seq : Nat)) :: turnIdentities rest := by
  rw [h, turnIdentities_cons]
  rfl

/-- A batch that has just been taken is in flight as a whole. -/
theorem Consistent.taken (h : s.Consistent) {journal : SessionPen} {batch : List PennedIngress}
    (hflight : journal.inFlightTurns = turnIdentities batch) : Consistent { s with journal, batch } := by
  refine ⟨h.gate, ?_, ?_⟩
  · intro t ht
    exact .inl (hflight ▸ ht)
  · intro t ht
    exact hflight.symm ▸ ht

/-- A step lemma: the stores stay consistent whatever happens to them. -/
theorem Consistent.step (h : s.Consistent) (hstep : Step s label s') : s'.Consistent := by
  cases hstep with
  | hold overBudget entry =>
    have hflight := (hold_deposited s.journal overBudget entry).inFlight
    refine ⟨h.gate, ?_, ?_⟩
    · intro t ht
      exact h.flight t (hflight ▸ ht)
    · intro t ht
      exact hflight.symm ▸ h.batch t ht
  | forward slot seq =>
    refine ⟨h.passed_gate slot seq, ?_, h.batch⟩
    intro t ht
    exact (h.flight t ht).imp_right (Or.imp_left fun hin => (h.subset_passed slot seq).2 t.1 hin)
  | decide slot =>
    refine ⟨h.gate, ?_, h.batch⟩
    intro t ht
    exact (h.flight t ht).imp_right (Or.imp_right Finset.mem_insert_of_mem)
  | beginDrain hidle hbegin => exact h.taken (beginDrain_turns hbegin).1
  | @replayTurn slot payload rest hbatch =>
    have hids := turnIdentities_of_turn hbatch
    refine ⟨h.passed_gate slot payload.seq, ?_, ?_⟩
    · intro t ht
      have hflight := h.flight t ht
      rw [hids, mem_cons] at hflight
      obtain (rfl | hin) | hin | hdecided := hflight
      · exact .inr (.inl (h.subset_passed slot payload.seq).1)
      · exact .inl hin
      · exact .inr (.inl ((h.subset_passed slot payload.seq).2 t.1 hin))
      · exact .inr (.inr hdecided)
    · intro t ht
      exact h.batch t (hids ▸ mem_cons_of_mem _ ht)
  | @replayFenced slot payload rest hbatch hdecided =>
    have hids := turnIdentities_of_turn hbatch
    refine ⟨h.gate, ?_, ?_⟩
    · intro t ht
      have hflight := h.flight t ht
      rw [hids, mem_cons] at hflight
      obtain (rfl | hin) | hpassed := hflight
      · exact .inr (.inr hdecided)
      · exact .inl hin
      · exact .inr hpassed
    · intro t ht
      exact h.batch t (hids ▸ mem_cons_of_mem _ ht)
  | @replayOther entry rest hbatch hentry =>
    have hids : turnIdentities s.batch = turnIdentities rest := by
      rw [hbatch, turnIdentities_cons, hentry]
      rfl
    exact ⟨h.gate, fun t ht => hids ▸ h.flight t ht, fun t ht => h.batch t (hids.symm ▸ ht)⟩
  | continueDrain hdone => exact h.taken (continueDrain_turns s.journal).1

/-- Any number of steps. -/
abbrev Run : ReceiptStores → ReceiptStores → Prop := Relation.ReflTransGen fun s s' => ∃ label, Step s label s'

/-- **The stores of every run are consistent.** -/
theorem reached_consistent (hrun : Run new s) : s.Consistent := by
  induction hrun with
  | refl => exact new_consistent
  | tail _ hstep ih =>
    obtain ⟨label, hstep⟩ := hstep
    exact ih.step hstep

theorem mem_held {n : Nat} : n ∈ s.held slot ↔
    ((slot, n) ∈ turnIdentities s.journal.phase.queue ∨ (slot, n) ∈ s.journal.inFlightTurns) ∨ n ∈ s.recorded slot := by
  rw [← mem_heldTurnSeqs]
  exact Iff.rfl

/-- Between two batches everything in flight of an undecided slot has passed the gate. -/
theorem Consistent.mem_held_idle (h : s.Consistent) (hidle : s.batch = []) (hslot : slot ∉ s.decided) {n : Nat} :
    n ∈ s.held slot ↔ (slot, n) ∈ turnIdentities s.journal.phase.queue ∨ n ∈ s.recorded slot := by
  rw [mem_held]
  have hflight : (slot, n) ∈ s.journal.inFlightTurns → n ∈ s.recorded slot := by
    intro hin
    obtain hin | hin | hdecided := h.flight _ hin
    · rw [hidle] at hin
      exact absurd hin not_mem_nil
    · exact hin
    · exact absurd hdecided hslot
  tauto

/-- A leave that is decided stays so. -/
theorem Step.decided_subset (h : Step s label s') : s.decided ⊆ s'.decided := by
  cases h with
  | decide slot => exact Finset.subset_insert slot s.decided
  | _ => exact subset_rfl

/-- A step lemma: a turn of an undecided slot leaves the journal only once it has passed the gate. -/
theorem Consistent.held_subset (h : s.Consistent) (hstep : Step s label s') (hown : own ∉ s'.decided) :
    s.held own ⊆ s'.held own := by
  intro n hn
  cases hstep with
  | hold overBudget entry =>
    obtain ⟨hflight, hqueued⟩ := hold_deposited s.journal overBudget entry
    refine mem_held.mpr ((mem_held.mp hn).imp_left fun hin => hin.imp (fun hqueue => ?_) fun hin => hflight.symm ▸ hin)
    obtain heq | heq := hqueued
    · exact heq.symm ▸ hqueue
    · exact heq.symm ▸ mem_append_left _ hqueue
  | forward slot seq => exact hn.imp_right fun hin => (h.subset_passed slot seq).2 own hin
  | beginDrain hidle hbegin =>
    rw [h.mem_held_idle hidle hown, ← (beginDrain_turns hbegin).2] at hn
    exact mem_held.mpr hn
  | @replayTurn slot payload rest hbatch => exact hn.imp_right fun hin => (h.subset_passed slot payload.seq).2 own hin
  | decide | replayFenced | replayOther => exact hn
  | continueDrain hdone =>
    rw [h.mem_held_idle hdone hown, ← (continueDrain_turns s.journal).2] at hn
    exact mem_held.mpr hn

/-- **A receipt of a slot whose leave is not decided is never lost**: what is held of it only grows,
    though a drain moves its turns from the journal to the gate. -/
theorem receipts_never_lost (hrun : Run new s) (hlater : Run s s') {slot : SlotId} (hslot : slot ∉ s'.decided) :
    s.held slot ⊆ s'.held slot := by
  induction hlater with
  | refl => exact subset_rfl
  | tail hmid hstep ih =>
    obtain ⟨_, hstep⟩ := hstep
    have hbefore := ih fun hdecided => hslot (hstep.decided_subset hdecided)
    exact hbefore.trans ((reached_consistent (hrun.trans hmid)).held_subset hstep hslot)

/-- A turn that was held when it passed the gate adds no receipt: the collapse swallowed below `a`. -/
theorem Consistent.passed_held (h : s.Consistent) (hseq : (seq : Nat) ∈ s.held slot)
    (hN : N ≤ a + sparseSeenCap) (hbelow : ∀ n ∈ s.held own, n < N) (hfull : ∀ n < a, n ∈ s.held own) :
    (s.passed slot seq).held own = s.held own := by
  refine Set.Subset.antisymm ?_ ?_
  · rintro n (hn | hn)
    · exact .inl hn
    · by_cases hs : own = slot
      · subst hs
        obtain rfl | hin | hlow := h.passed_subset hN (fun m hm => hbelow m (.inr hm)) (hbelow _ hseq) n hn
        · exact hseq
        · exact .inr hin
        · exact hfull n hlow
      · rw [passed_recorded_of_ne hs] at hn
        exact .inr hn
  · rintro n (hn | hn)
    · exact .inl hn
    · exact .inr ((h.subset_passed slot seq).2 own hn)

/-- **While the slot's link is down its receipts stay what they are**, though they move from the journal
    to the gate: all are below `N`, everything below `a` is among them, and `N` is at most the gate's
    sparse bound above `a`. -/
theorem Consistent.moves (h : s.Consistent) (hown : own ∉ s.decided) (hmoves : Moves own s s') (hN : N ≤ a + sparseSeenCap)
    (hbelow : ∀ n ∈ s.held own, n < N) (hfull : ∀ n < a, n ∈ s.held own) :
    s'.held own = s.held own ∧ s.recorded own ⊆ s'.recorded own := by
  obtain ⟨label, hlabel, hstep⟩ := hmoves
  cases hstep with
  | hold overBudget entry =>
    obtain ⟨hflight, hqueued⟩ := hold_deposited s.journal overBudget entry
    refine ⟨Set.ext fun n => ?_, subset_rfl⟩
    have hmem : (own, n) ∈ turnIdentities (s.journal.hold overBudget entry).1.phase.queue ↔
        (own, n) ∈ turnIdentities s.journal.phase.queue := by
      obtain heq | heq := hqueued
      · rw [heq]
      · rw [heq, mem_append, or_iff_left]
        intro hin
        -- the deposited turn is not one of this slot
        rw [Option.mem_toList] at hin
        exact hlabel (by rw [Option.mem_def.mp hin]; rfl)
    rw [mem_held, mem_held]
    show (_ ∈ turnIdentities (s.journal.hold overBudget entry).1.phase.queue ∨
      _ ∈ (s.journal.hold overBudget entry).1.inFlightTurns) ∨ n ∈ s.recorded own ↔ _
    rw [hmem, hflight]
  | forward slot seq =>
    have hne : own ≠ slot := fun heq => hlabel (heq ▸ rfl)
    have hsame : (s.passed slot seq).recorded own = s.recorded own := passed_recorded_of_ne hne
    refine ⟨?_, hsame.symm.subset⟩
    show {n | n ∈ s.journal.heldTurnSeqs own} ∪ (s.passed slot seq).recorded own = _
    rw [hsame]
    rfl
  | @beginDrain journal batch hidle hbegin =>
    refine ⟨Set.ext fun n => ?_, subset_rfl⟩
    rw [h.mem_held_idle hidle hown, mem_held, (beginDrain_turns hbegin).2]
    exact Iff.rfl
  | @replayTurn slot payload rest hbatch =>
    have hseq : (payload.seq : Nat) ∈ s.held slot := by
      refine mem_held.mpr (.inl (.inr (h.batch _ ?_)))
      rw [hbatch, turnIdentities_cons]
      exact mem_cons_self
    exact ⟨h.passed_held hseq hN hbelow hfull, (h.subset_passed slot payload.seq).2 own⟩
  | decide | replayFenced | replayOther => exact ⟨rfl, subset_rfl⟩
  | continueDrain hdone =>
    refine ⟨Set.ext fun n => ?_, subset_rfl⟩
    rw [h.mem_held_idle hdone hown, mem_held, (continueDrain_turns s.journal).2]
    exact Iff.rfl

/-- The slot's own leave is not decided meanwhile. -/
theorem Moves.undecided (hmoves : Moves own s s') (hown : own ∉ s.decided) : own ∉ s'.decided := by
  obtain ⟨label, hlabel, hstep⟩ := hmoves
  cases hstep with
  | decide slot =>
    intro hin
    obtain rfl | hin := Finset.mem_insert.mp hin
    · exact hlabel rfl
    · exact hown hin
  | _ => exact hown

/-- The same over any number of moves. -/
theorem Consistent.moves_run (h : s.Consistent) (hown : own ∉ s.decided) (hrun : Relation.ReflTransGen (Moves own) s s')
    (hN : N ≤ a + sparseSeenCap) (hbelow : ∀ n ∈ s.held own, n < N) (hfull : ∀ n < a, n ∈ s.held own) :
    s'.Consistent ∧ own ∉ s'.decided ∧ s'.held own = s.held own ∧ s.recorded own ⊆ s'.recorded own := by
  induction hrun with
  | refl => exact ⟨h, hown, rfl, subset_rfl⟩
  | tail _ hmoves ih =>
    obtain ⟨hcons, hown, hheld, hsub⟩ := ih
    obtain ⟨hheld', hsub'⟩ := hcons.moves hown hmoves hN (hheld ▸ hbelow) (hheld ▸ hfull)
    have hown' := hmoves.undecided hown
    obtain ⟨label, -, hstep⟩ := hmoves
    exact ⟨hcons.step hstep, hown', hheld'.trans hheld, hsub.trans hsub'⟩

end ReceiptStores

/-! ## Seeding -/

section Seeding

variable {w : Nat} {link : Link} {D : Delivered} (slot : SlotId)

theorem seedDelivered_all (h : Dedup.Refines w link.dedup D) (seqs : List Nat) (hmax : ∀ n ∈ seqs, n ≤ u64Max) :
    ∃ link', seqs.foldlM (fun (l : Link) seq => l.seedDelivered slot seq) link = some link' ∧
      Dedup.Refines w link'.dedup (D.add slot {n | n ∈ seqs}) := by
  induction seqs generalizing link D with
  | nil => exact ⟨link, rfl, by simpa using h⟩
  | cons seq rest ih =>
    obtain ⟨entry, hmark, hmarked⟩ := h.markDelivered slot (hmax seq mem_cons_self)
    have href : Dedup.Refines w ({ link with dedup := link.dedup.setSlot slot entry } : Link).dedup
      (D.add slot {seq}) := hmarked
    obtain ⟨link', hrun, href'⟩ := ih href fun n hn => hmax n (mem_cons_of_mem _ hn)
    refine ⟨link', by simpa [Link.seedDelivered, hmark] using hrun, ?_⟩
    rw [Delivered.add_add] at href'
    have hset : {seq} ∪ {n | n ∈ rest} = {n | n ∈ seq :: rest} := by
      ext n
      simp
    rwa [hset] at href'

theorem receipts_eq (gate : MeshSeen) :
    gate.receipts slot = ⟨(gate.entry slot).forwardedThrough, (gate.entry slot).ahead.sort (· ≤ ·)⟩ := by
  unfold receipts entry
  cases gate.slots slot with
  | none => simp [pristine]
  | some state => rfl

/-- Seeding the prefix of a gate entry. -/
theorem seedPrefix (h : Dedup.Refines w link.dedup D) {s : SlotSeen} (hs : s.seqs.Within u64Max) :
    Dedup.Refines w (match s.forwardedThrough with
      | some through => link.seedDeliveredThrough slot through
      | none => link).dedup (D.add slot {n | n < s.base}) := by
  obtain ⟨_ | through, ahead, collapsed⟩ := s
  · have hnone : {n : Nat | n < base ⟨none, ahead, collapsed⟩} = ∅ := by
      ext n
      simp [base, seqs]
    rw [hnone, Delivered.add_empty]
    exact h
  · have hle : through ≤ u64Max := hs through (.inl (Nat.lt_succ_self through))
    have hset : {n : Nat | n < base ⟨some through, ahead, collapsed⟩} = {n | n ≤ through} :=
      Set.ext fun n => Nat.lt_succ_iff
    rw [hset]
    exact h.markDeliveredThrough slot hle

/-- **A fresh window stores exactly what it is seeded with.** -/
theorem seedReceiveWindow_refines (hfresh : link.dedup = .new) {anchor : Nat} (hanchor : anchor ≤ u64Max)
    {held : List Nat} (hheld : ∀ n ∈ held, n ≤ u64Max) {gate : MeshSeen} (hgate : (gate.entry slot).seqs.Within u64Max) :
    ∃ link', seedReceiveWindow link slot anchor held (gate.receipts slot) = some link' ∧
      Dedup.Refines receiveWindow link'.dedup
        (Delivered.none.add slot ({n | n < anchor} ∪ ({n | n ∈ held} ∪ (gate.entry slot).seqs.mem))) := by
  have hbased : Dedup.Refines receiveWindow (link.anchorReceiveWindow slot anchor).dedup
    (Delivered.none.add slot {n | n < anchor}) := by
    show Dedup.Refines receiveWindow (link.dedup.anchor slot anchor) _
    rw [hfresh]
    exact Dedup.new_anchor_refines slot hanchor
  obtain ⟨journaled, hrun, hjournaled⟩ := seedDelivered_all slot hbased held hheld
  have hthrough := seedPrefix slot hjournaled hgate
  obtain ⟨link', hrun', href⟩ := seedDelivered_all slot hthrough ((gate.entry slot).ahead.sort (· ≤ ·))
    fun n hn => hgate n (.inr ((Finset.mem_sort _).mp hn))
  refine ⟨link', ?_, ?_⟩
  · unfold seedReceiveWindow
    rw [receipts_eq, hrun]
    exact hrun'
  · rw [Delivered.add_add, Delivered.add_add, Delivered.add_add] at href
    have hset : {n | n < (gate.entry slot).base} ∪ {n | n ∈ (gate.entry slot).ahead.sort (· ≤ ·)} =
      (gate.entry slot).seqs.mem := by
      ext n
      simp only [Set.mem_union, Set.mem_ofPred_eq, Finset.mem_sort, PrefixSet.mem_iff]
      exact Iff.rfl
    rwa [hset] at href

end Seeding

/-! ## The resume -/

section Resume

variable {sizes : WireSizes} {own : SlotId} {d : Driver} {s : ReceiptStores}

/-- What a resume starts from. The client's turns are numbered below its next seq
    (`Driver.reached_sound`) and the stores are consistent (`ReceiptStores.reached_consistent`). The
    slot's leave is not decided. The relay's receipts are of turns the client sent; every turn it has
    none for is one the client will re-send; and the oldest of those is within a receive window of the
    next seq. -/
structure Resumable (sizes : WireSizes) (own : SlotId) (d : Driver) (s : ReceiptStores) : Prop where
  client : d.Numbered own
  stores : s.Consistent
  undecided : own ∉ s.decided
  sent : ∀ n ∈ s.held own, n < d.next
  covered : ∀ n < d.next, n ∉ s.held own → n ∈ d.toResend sizes own
  window : ∀ a, IsLeast (d.toResend sizes own) a → d.next - a < receiveWindow

section Resumable

variable (h : Resumable sizes own d s)
include h

theorem Resumable.ownAnchor_le : d.ownAnchor sizes own ≤ d.next := by
  obtain hleast | ⟨-, heq⟩ := d.ownAnchor_spec sizes own
  · exact le_of_lt (h.client.toResend_lt hleast.1)
  · exact heq.le

theorem Resumable.next_lt : d.next < d.ownAnchor sizes own + receiveWindow := by
  have hpos : 0 < receiveWindow := by decide
  obtain hleast | ⟨-, heq⟩ := d.ownAnchor_spec sizes own
  · have := h.window _ hleast
    omega
  · omega

/-- Below the anchor the relay has every receipt. -/
theorem Resumable.held_below {n : Nat} (hn : n < d.ownAnchor sizes own) : n ∈ s.held own := by
  by_contra hnot
  have hin := h.covered n (lt_of_lt_of_le hn h.ownAnchor_le) hnot
  obtain hleast | ⟨hempty, -⟩ := d.ownAnchor_spec sizes own
  · exact absurd (hleast.2 hin) (not_le.mpr hn)
  · rw [hempty] at hin
    exact absurd hin (Set.notMem_empty n)

/-- **The two reads together give every receipt**, whatever moved between them, and nothing else. -/
theorem Resumable.seeded_eq {s₁ s₂ : ReceiptStores}
    (hbefore : Relation.ReflTransGen (ReceiptStores.Moves own) s s₁)
    (hbetween : Relation.ReflTransGen (ReceiptStores.Moves own) s₁ s₂) :
    s₂.Consistent ∧ s₁.held own = s.held own ∧
      {n | n < d.ownAnchor sizes own} ∪ ({n | n ∈ s₁.journal.heldTurnSeqs own} ∪ s₂.recorded own) = s.held own := by
  have hcap : d.next ≤ d.ownAnchor sizes own + sparseSeenCap := le_of_lt h.next_lt
  have hbelow : ∀ n < d.ownAnchor sizes own, n ∈ s.held own := fun n hn => h.held_below hn
  obtain ⟨hcons₁, hown₁, hheld₁, -⟩ := h.stores.moves_run h.undecided hbefore hcap h.sent hbelow
  obtain ⟨hcons₂, -, hheld₂, hmono⟩ := hcons₁.moves_run hown₁ hbetween hcap (hheld₁ ▸ h.sent) (hheld₁ ▸ hbelow)
  refine ⟨hcons₂, hheld₁, Set.Subset.antisymm ?_ ?_⟩
  · rintro n (hn | hn | hn)
    · exact hbelow n hn
    · exact hheld₁ ▸ .inl hn
    · have hin : n ∈ s₂.held own := .inr hn
      rwa [hheld₂, hheld₁] at hin
  · intro n hn
    rw [← hheld₁] at hn
    obtain hn | hn := hn
    · exact .inr (.inl hn)
    · exact .inr (.inr (hmono hn))

end Resumable

/-- Once a slot has delivered exactly the seqs below `N`, its prefix ends at `N - 1`. -/
theorem deliveredThrough_of_all {w N : Nat} {window : Dedup} {D : Delivered} (h : Dedup.Refines w window D)
    (hall : D own = {n | n < N}) (hN : 0 < N) : window.deliveredThrough own = some (N - 1) := by
  have hleast := h.base_isLeast own
  have hbase : (window.entry own).base = N := by
    refine hleast.unique ⟨?_, ?_⟩
    · rw [hall]
      exact lt_irrefl N
    · intro n hn
      rw [hall] at hn
      exact not_lt.mp hn
  have htop : (window.entry own).deliveredThrough = if (window.entry own).base = 0 then none
    else some ((window.entry own).base - 1) :=
    PrefixSet.top_eq (s := (window.entry own).seqs)
  rw [Dedup.deliveredThrough_eq_entry, htop, hbase, if_neg (Nat.ne_of_gt hN)]

/-! The window after the resume: the relay's receipts are delivered in it, and what of the re-sent seqs has arrived. -/

section Window

variable {window : Dedup} {arrived : Set Nat}

theorem Resumable.arrivals (h : Resumable sizes own d s)
    (hwindow : Dedup.Refines receiveWindow window (Delivered.none.add own (s.held own))) {arrivals : List U64}
    (harrivals : ∀ seq ∈ arrivals, (seq : Nat) ∈ d.toResend sizes own) :
    ∃ window', window.acceptAll (arrivals.map (own, ·)) = some window' ∧ Dedup.Refines receiveWindow window'
      (Delivered.none.add own (s.held own ∪ {n | ∃ seq ∈ arrivals, (seq : Nat) = n})) := by
  have hlow : ∀ n < d.ownAnchor sizes own, n ∈ (Delivered.none.add own (s.held own)) own := by
    intro n hn
    rw [Delivered.none_add_self]
    exact h.held_below hn
  rw [← Delivered.add_add]
  exact hwindow.acceptAll_within hlow arrivals fun seq hseq => lt_trans (h.client.toResend_lt (harrivals seq hseq)) h.next_lt

/-- A seq the relay has no receipt for is new when it arrives first. -/
theorem Resumable.first_arrival (h : Resumable sizes own d s)
    (hwindow : Dedup.Refines receiveWindow window (Delivered.none.add own (s.held own ∪ arrived))) {seq : U64}
    (hseq : (seq : Nat) < d.next) (hfirst : (seq : Nat) ∉ s.held own ∪ arrived) :
    ∃ window', window.accept own seq = some (window', .new) := by
  have hlow : ∀ n < d.ownAnchor sizes own, n ∈ (Delivered.none.add own (s.held own ∪ arrived)) own := by
    intro n hn
    rw [Delivered.none_add_self]
    exact .inl (h.held_below hn)
  obtain ⟨window', answer, haccept, -, hnew⟩ := hwindow.accept_within hlow (lt_trans hseq h.next_lt)
  rw [Delivered.none_add_self] at hnew
  exact ⟨window', hnew hfirst ▸ haccept⟩

/-- Once every re-sent seq has arrived, nothing the client ever sent is missing. -/
theorem Resumable.all_arrived (h : Resumable sizes own d s) (hnext : 0 < d.next)
    (hwindow : Dedup.Refines receiveWindow window (Delivered.none.add own (s.held own ∪ arrived)))
    (harrived : arrived = d.toResend sizes own) : window.deliveredThrough own = some (d.next - 1) := by
  subst harrived
  refine deliveredThrough_of_all hwindow ?_ hnext
  rw [Delivered.none_add_self]
  ext n
  constructor
  · rintro (hin | hin)
    · exact h.sent n hin
    · exact h.client.toResend_lt hin
  · intro hn
    by_cases hin : n ∈ s.held own
    · exact .inl hin
    · exact .inr (h.covered n hn hin)

end Window

/-- **A resume at the same relay neither loses nor wedges the client's own turns.**  The client declares
    the least seq it will re-send, or the next one, and re-sends all it said. The relay's fresh strict
    window, anchored there and seeded from the journal as it is at one moment and the gate as it is at a
    later one, holds every seq from the anchor on that the client will not send again. Whatever of the
    re-sent seqs has arrived, in any order and any number of times, a seq the relay has no receipt for is
    new when it arrives first; and once all have arrived, the delivered prefix ends at the last turn
    sent. -/
theorem same_relay_resume_keeps_turns (connection : Connection) (peers : List (SlotId × Nat)) {s₁ s₂ : ReceiptStores}
    (h : Resumable sizes own d s) (hnext : 0 < d.next) (hagree : ∀ turn ∈ d.state.retention.turns,
      Link.payloadFits sizes connection turn = .ok (sizes.fitsGuaranteedDatagram turn))
    (hbefore : Relation.ReflTransGen (ReceiptStores.Moves own) s s₁)
    (hbetween : Relation.ReflTransGen (ReceiptStores.Moves own) s₁ s₂) :
    ∃ anchor, sameRelayResumeCursors peers (d.link.oldestReplayableSeq own) (d.state.retention.oldestOversizeSeq sizes) own
        d.next = peers ++ [(own, anchor)] ∧
      (IsLeast (d.toResend sizes own) anchor ∨ d.toResend sizes own = ∅ ∧ anchor = d.next) ∧
      (∀ n ∈ d.toResend sizes own, (d.resumeSameRelay sizes connection).Resends ⟨own, n⟩) ∧
      ∃ link, seedReceiveWindow (.withIngressSlot own) own anchor (s₁.journal.heldTurnSeqs own) (s₂.gate.receipts own) =
          some link ∧
        (∀ cursors : SlotId → Option Nat, cursors own = some anchor → anchor ≤ maxSaneResumeAnchor →
          applyResumeAnchor (.withIngressSlot own) own cursors (s₁.journal.heldTurnSeqs own) (s₂.gate.receipts own) =
            some (.goOn link, Function.update cursors own none)) ∧
        (∀ n, anchor ≤ n → n < d.next → n ∈ (link.dedup.entry own).delivered ∨ n ∈ d.toResend sizes own) ∧
        ∀ arrivals : List U64, (∀ seq ∈ arrivals, (seq : Nat) ∈ d.toResend sizes own) →
          ∃ window, link.dedup.acceptAll (arrivals.map (own, ·)) = some window ∧
            (∀ seq : U64, (seq : Nat) < d.next → (seq : Nat) ∉ s.held own → seq ∉ arrivals →
              ∃ window', window.accept own seq = some (window', .new)) ∧
            ((∀ n ∈ d.toResend sizes own, ∃ seq ∈ arrivals, (seq : Nat) = n) →
              window.deliveredThrough own = some (d.next - 1)) := by
  have hmax : d.next ≤ u64Max := U64.le_max d.state.nextOutboundSeq
  obtain ⟨hcons₂, hheld₁, hseeded⟩ := h.seeded_eq hbefore hbetween
  have hjournal : ∀ n ∈ s₁.journal.heldTurnSeqs own, n ≤ u64Max := by
    intro n hn
    have hin : n ∈ s.held own := hheld₁ ▸ .inl hn
    exact le_of_lt (lt_of_lt_of_le (h.sent n hin) hmax)
  obtain ⟨M, hkeeps, -⟩ := hcons₂.gate own
  obtain ⟨link, hlink, href⟩ := seedReceiveWindow_refines own (show (Link.withIngressSlot own).dedup = .new from rfl)
    (le_trans h.ownAnchor_le hmax) hjournal hkeeps.within
  -- the window stores exactly the receipts
  have hset : {n | n < d.ownAnchor sizes own} ∪ ({n | n ∈ s₁.journal.heldTurnSeqs own} ∪ (s₂.gate.entry own).seqs.mem) =
      s.held own := hseeded
  rw [hset] at href
  refine ⟨d.ownAnchor sizes own, rfl, d.ownAnchor_spec sizes own,
    fun n hn => h.client.resends_all hagree hn, link, hlink, ?_, ?_, ?_⟩
  · intro cursors hcursor hsane
    unfold applyResumeAnchor
    simp only [hcursor, if_neg (not_lt.mpr hsane), hlink]
    rfl
  · intro n _ hn
    rw [href.delivered own, Delivered.none_add_self]
    by_cases hin : n ∈ s.held own
    · exact .inl hin
    · exact .inr (h.covered n hn hin)
  · intro arrivals harrivals
    obtain ⟨window, hrun, hwindow⟩ := h.arrivals href harrivals
    refine ⟨window, hrun, ?_, ?_⟩
    · intro seq hseq hnot hfirst
      refine h.first_arrival hwindow hseq ?_
      rintro (hin | ⟨seq', hseq', heq⟩)
      · exact hnot hin
      · exact hfirst (Fin.val_injective heq ▸ hseq')
    · intro hall
      refine h.all_arrived hnext hwindow (Set.Subset.antisymm ?_ hall)
      rintro n ⟨seq, hseq, rfl⟩
      exact harrivals seq hseq

/-! ### A resume in the middle of a drain

The client of `Driver.sampleDriver` has sent `0..6`; seqs 1, 3 and 4 are unacked and seq 6 is too large for a datagram. The
gate has seqs 0 and 2, the journal seq 5. The drain replays seq 5 after the journal was read and before the gate is. -/

def sampleStores : ReceiptStores where
  journal := (SessionPen.gathering.hold false (.turn 3 (Driver.sampleTurn 5 [0]))).1
  batch := []
  gate := ((MeshSeen.new.markForwarded 3 0).1.markForwarded 3 2).1
  decided := ∅

def sampleDraining : ReceiptStores :=
  { sampleStores with
      journal := { sampleStores.journal with phase := .draining [], turnCount := 0, inFlightTurns := [(3, 5)] }
      batch := [.turn 3 (Driver.sampleTurn 5 [0])] }

def sampleDrained : ReceiptStores := { sampleDraining with batch := [], gate := (sampleDraining.gate.markForwarded 3 5).1 }

theorem sampleStores_consistent : sampleStores.Consistent :=
  ((ReceiptStores.new_consistent.step (.forward _ 3 0)).step (.forward _ 3 2)).step
    (.hold _ false (.turn 3 (sampleTurn 5 [0])))

theorem sampleStores_moves : ReceiptStores.Moves 3 sampleStores sampleDraining ∧
    ReceiptStores.Moves 3 sampleDraining sampleDrained := by
  have hbatch : sampleDraining.batch = .turn 3 (sampleTurn 5 [0]) :: [] := rfl
  exact ⟨⟨none, by decide, .beginDrain rfl rfl⟩, ⟨none, by decide, .replayTurn hbatch⟩⟩

/-- Seq 5, which the drain has moved from the journal to the gate. -/
theorem receipts_never_lost_drained : 5 ∈ sampleStores.held 3 ∧ 5 ∈ sampleDrained.held 3 := by
  obtain ⟨⟨_, -, hbegin⟩, _, -, hreplay⟩ := sampleStores_moves
  have hheld : 5 ∈ sampleStores.held 3 := .inl (by decide)
  exact ⟨hheld,
    ReceiptStores.receipts_never_lost (.tail (.tail (.single ⟨_, .forward _ 3 0⟩) ⟨_, .forward _ 3 2⟩) ⟨_, .hold _ false _⟩)
    (.tail (.single ⟨_, hbegin⟩) ⟨_, hreplay⟩) (by decide) hheld⟩

theorem sample_turns : Driver.sampleDriver.state.retention.turns =
    [Driver.sampleTurn 5 [0], Driver.sampleTurn 6 [0, 0]] := rfl

theorem sample_unacked {n : Nat} : n ∈ Driver.sampleDriver.link.acks.unacked 3 ↔ n = 1 ∨ n = 3 ∨ n = 4 := by
  have hseqs : sampleDriver.link.acks.slotSeqs 3 = [1, 3, 4] := by decide
  rw [← AckManager.mem_slotSeqs, hseqs]
  simp

theorem sample_toResend {n : Nat} : n ∈ Driver.sampleDriver.toResend Driver.sampleSizes 3 ↔
    n = 1 ∨ n = 3 ∨ n = 4 ∨ n = 6 := by
  have hoversize : n ∈ oversize sampleSizes sampleDriver.state.retention ↔ n = 6 := by
    unfold oversize
    rw [sample_turns]
    have hfive : sampleSizes.fitsGuaranteedDatagram (sampleTurn 5 [0]) = true := by decide
    have hsix : sampleSizes.fitsGuaranteedDatagram (sampleTurn 6 [0, 0]) = false := by decide
    simp only [mem_cons, not_mem_nil, or_false, exists_eq_or_imp, exists_eq_left, Set.mem_ofPred_eq, hfive, hsix,
      Bool.true_eq_false, false_and, false_or, true_and]
    exact eq_comm
  unfold toResend
  rw [Set.mem_union, sample_unacked, hoversize]
  omega

theorem sample_resumable : Resumable Driver.sampleSizes 3 Driver.sampleDriver sampleStores := by
  have hjournal : sampleStores.journal.heldTurnSeqs 3 = [5] := by decide
  have hbase : (sampleStores.gate.entry 3).base = 1 := by decide
  have hahead : (sampleStores.gate.entry 3).ahead = {2} := by decide
  have hnext : sampleDriver.next = 7 := rfl
  have hwindow : receiveWindow = 4096 := rfl
  have hheld : ∀ n, n ∈ sampleStores.held 3 ↔ n = 5 ∨ n < 1 ∨ n = 2 := by
    intro n
    show n ∈ sampleStores.journal.heldTurnSeqs 3 ∨ n < (sampleStores.gate.entry 3).base ∨
      n ∈ (sampleStores.gate.entry 3).ahead ↔ _
    rw [hjournal, hbase, hahead, mem_singleton, Finset.mem_singleton]
  refine ⟨⟨?_, ?_⟩, sampleStores_consistent, Finset.notMem_empty 3, ?_, ?_, ?_⟩
  · intro n hn
    rw [sample_unacked] at hn
    omega
  · intro turn hturn
    rw [sample_turns, mem_pair] at hturn
    obtain rfl | rfl := hturn
    · exact ⟨5, by decide, rfl⟩
    · exact ⟨6, by decide, rfl⟩
  · intro n hn
    rw [hheld] at hn
    omega
  · intro n hn hnot
    rw [hheld] at hnot
    rw [sample_toResend]
    omega
  · intro a _
    omega

/-- The client declares seq 1. The window is seeded with 5, 0 and 2, and once 1, 3, 4 and 6 have arrived
    its prefix ends at 6. -/
theorem same_relay_resume_keeps_turns_example :
    ∃ link window, seedReceiveWindow (.withIngressSlot 3) 3 1 (sampleDraining.journal.heldTurnSeqs 3)
      (sampleDrained.gate.receipts 3) =
        some link ∧
      link.dedup.acceptAll (([4, 1, 6, 4, 3] : List U64).map ((3 : SlotId), ·)) = some window ∧
      window.deliveredThrough 3 = some 6 := by
  have hagree : ∀ turn ∈ sampleDriver.state.retention.turns, Link.payloadFits sampleSizes sampleConnection turn =
        .ok (sampleSizes.fitsGuaranteedDatagram turn) := by
    intro turn hturn
    rw [sample_turns, mem_pair] at hturn
    obtain rfl | rfl := hturn <;> rfl
  obtain ⟨anchor, hcursors, -, -, link, hlink, -, -, hall⟩ :=
    same_relay_resume_keeps_turns sampleConnection [] sample_resumable (by decide) hagree
      (.single sampleStores_moves.1) (.single sampleStores_moves.2)
  have hanchor : anchor = 1 := by
    have hdeclared : sameRelayResumeCursors [] (sampleDriver.link.oldestReplayableSeq 3)
        (sampleDriver.state.retention.oldestOversizeSeq sampleSizes) 3 sampleDriver.next = [(3, 1)] := by decide
    rw [hdeclared] at hcursors
    simpa using hcursors.symm
  subst hanchor
  obtain ⟨window, hrun, -, hthrough⟩ := hall [4, 1, 6, 4, 3] (fun seq hseq => by
    rw [sample_toResend]
    simp only [mem_cons, not_mem_nil, or_false] at hseq
    obtain rfl | rfl | rfl | rfl | rfl := hseq <;> decide)
  refine ⟨link, window, hlink, hrun, hthrough fun n hn => ?_⟩
  rw [sample_toResend] at hn
  obtain rfl | rfl | rfl | rfl := hn
  · exact ⟨1, by decide, rfl⟩
  · exact ⟨3, by decide, rfl⟩
  · exact ⟨4, by decide, rfl⟩
  · exact ⟨6, by decide, rfl⟩

end Resume

end RallyPoint.Relay
