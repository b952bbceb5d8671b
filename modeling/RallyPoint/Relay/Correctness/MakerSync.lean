import RallyPoint.Relay.Correctness.MakerSteps
import RallyPoint.Relay.Correctness.SyncTracker
import RallyPoint.Relay.Correctness.SyncTurns

/-!
# `Relay.Correctness.MakerSync` — no false accusation, over whole runs of the maker

The honest slots of a session emit checksums of one simulation; at most one slot does not. Whatever order
their turns reach the relay in, and whatever else the maker is called for in between, the turns it
consumes get their own generations (`Correctness/SyncTurns`) and the verdicts it returns accuse none of
them (`Correctness/SyncTracker`).

- `HonestPlay`: who is honest, and what the honest slots emit.
- `Sound`: the ordering follows each honest origin and the comparator is fair.
- `Sound.apply`: one call keeps it, and what the call returns is sound.
-/

namespace RallyPoint.Relay

open Lib Lib.Trace List MakerOp

/-- The honest slots of a session and what they emit. -/
structure HonestPlay where
  honest : SlotId → Prop
  /-- At most one slot is not honest. -/
  others : ∀ a b, ¬ honest a → ¬ honest b → a = b
  /-- The checksum of a generation, the same for every honest slot. -/
  value : Nat → SyncValue
  origin : SlotId → Origin

/-- A call that delivers a turn of an honest slot delivers one it emitted. -/
def MakerOp.Delivers (p : HonestPlay) : MakerOp → Prop
  | observeSync slot seq frame commands generation =>
    p.honest slot → seq < seqEnd ∧ (p.origin slot).Emits p.value seq ⟨frame, none, parseSync commands, generation, none⟩
  | _ => True

/-- The slot whose turn a call delivers. -/
def MakerOp.origin : MakerOp → Option SlotId
  | observeSync slot .. => some slot
  | _ => none

variable {turn : SyncTurn}

/-- A consumed checksum is reported with the value of its ordinal. -/
theorem SlotTurns.Placed.value {o : Origin} {value : Nat → SyncValue} {n ordinal : Nat}
    {command : SyncCommand} (h : Placed o value n turn) (hcommand : turn.command = some command)
    (hordinal : turn.ordinal = some ordinal) : command.value = value ordinal := by
  have hgen : o.gen n = some ordinal := h.ordinal.symm.trans hordinal
  have hsome := hcommand.symm.trans h.command
  rw [hgen] at hsome
  cases hsome
  rfl

namespace DecisionMaker

open SlotTurns SyncTracker

variable {m : DecisionMaker} {p : HonestPlay} {slot : SlotId}

/-- The ordering follows every honest origin, and the comparator is fair to them. -/
structure Sound (p : HonestPlay) (m : DecisionMaker) : Prop where
  fair : m.sync.Fair p.honest p.value
  follows : ∀ slot, p.honest slot → Follows (p.origin slot) p.value (m.syncTurns.entry slot)

theorem create_sound (bounds : BufferBounds) (authority : Authority) (observers : Finset SlotId)
    (finalizedDrops rollback : Bool) : Sound p (create bounds authority observers finalizedDrops rollback) :=
  ⟨empty_fair, fun _ _ => empty_follows⟩

/-- The turns are those of `slot`'s origin, if it is honest. -/
def Sourced (p : HonestPlay) (slot : SlotId) (seq : Nat) (turn : SyncTurn) : Prop :=
  p.honest slot → Placed (p.origin slot) p.value seq turn

/-! ## Observing a checksum -/

variable {op : MakerOp} {m' : DecisionMaker} {ops : List MakerOp} {seq : Nat}

theorem Sound.compareSyncTurn (h : m.Sound p) (hturn : Sourced p slot seq turn) :
    (m.compareSyncTurn slot turn).1.Sound p ∧
      Outcome p.honest m.sync (m.compareSyncTurn slot turn).1.sync (m.compareSyncTurn slot turn).2 := by
  unfold DecisionMaker.compareSyncTurn
  split
  · exact ⟨h, .silent rfl⟩
  · -- the bounds may switch the comparator off, which leaves what it holds as it is
    dsimp only
    generalize hm' : (if syncAbsurdBufferMax ≤ m.bounds.max then
      { m with sync := m.sync.disableForAbsurdBounds } else m) = m'
    have hkept : m'.Sound p ∧ m'.sync.excluded = m.sync.excluded := by
      rw [← hm']
      split
      · exact ⟨⟨⟨h.fair.reports, h.fair.excluded⟩, h.follows⟩, rfl⟩
      · exact ⟨h, rfl⟩
    split
    · exact ⟨hkept.1, .silent hkept.2⟩
    · split
      · rename_i command ordinal hcommand hordinal
        obtain ⟨hfair, hout⟩ := hkept.1.fair.record p.others slot ordinal ⟨command.value, command.kind, turn.frame⟩
          turn.skipped (syncEvalMargin m'.bounds.max) (fun hh => (hturn hh).value hcommand hordinal)
        have hquiet : Outcome p.honest m.sync m'.sync none := .silent hkept.2
        exact ⟨⟨hfair, hkept.1.follows⟩, hquiet.trans hout⟩
      · exact ⟨hkept.1, .silent hkept.2⟩

/-- Replacing one slot's ordering state. -/
theorem Sound.setSlot (h : m.Sound p) {s : SlotTurns} (hs : p.honest slot → Follows (p.origin slot) p.value s) :
    Sound p { m with syncTurns := m.syncTurns.setSlot slot s } := by
  refine ⟨h.fair, fun other hh => ?_⟩
  unfold SyncTurns.entry SyncTurns.setSlot
  by_cases heq : other = slot
  · subst heq
    simp only [Function.update_self, Option.getD_some]
    exact hs hh
  · simp only [Function.update_of_ne heq]
    exact h.follows other hh

theorem Sound.popSyncTurn (h : m.Sound p) :
    (m.popSyncTurn slot).1.Sound p ∧ ∀ turn, (m.popSyncTurn slot).2.2 = .ok (some turn) →
      Sourced p slot (m.popSyncTurn slot).2.1 turn := by
  unfold DecisionMaker.popSyncTurn SyncTurns.popReady
  cases hs : m.syncTurns.slots slot with
  | none => exact ⟨h, nofun⟩
  | some s =>
    have hentry : m.syncTurns.entry slot = s := by rw [SyncTurns.entry, hs]; rfl
    refine ⟨h.setSlot (fun hh => ?_), fun turn hturn hh => ?_⟩
    · exact (hentry ▸ h.follows slot hh).popReady.1
    · have hplaced := (h.follows slot hh).popReady.2 turn (by rw [hentry]; exact hturn)
      exact hplaced

/-- What an observation returns: the turns it consumed are placed, and its verdict is sound. -/
structure SoundReply (p : HonestPlay) (m : DecisionMaker) (slot : SlotId) (r : DecisionMaker × SyncObserved) : Prop where
  sound : r.1.Sound p
  outcome : Outcome p.honest m.sync r.1.sync r.2.divergence
  consumed : ∀ e ∈ r.2.consumed, Sourced p slot e.1 e.2

/-- **The draining loop**, by induction on its rounds. -/
theorem Sound.drainSync (fuel : Nat) (h : m.Sound p) {ready : Ready}
    (hready : ∀ turn, ready.2 = .ok (some turn) → Sourced p slot ready.1 turn) :
    SoundReply p m slot (drainSync slot fuel m ready) := by
  have hfailed : SoundReply p m slot ({ m with sync := m.sync.removeMember slot }, ⟨none, []⟩) :=
    ⟨⟨h.fair.forgets (removeMember_forgets _ _), h.follows⟩, .silent rfl, nofun⟩
  have hidle : SoundReply p m slot (m, ⟨none, []⟩) := ⟨h, .silent rfl, nofun⟩
  induction fuel generalizing m ready with
  | zero =>
    obtain ⟨seq, _ | _ | turn⟩ := ready
    · exact hfailed
    · exact hidle
    · obtain ⟨hsound, hout⟩ := h.compareSyncTurn (hready turn rfl)
      refine ⟨hsound, hout, ?_⟩
      rintro e he
      cases mem_singleton.mp he
      exact hready turn rfl
  | succ fuel ih =>
    obtain ⟨seq, _ | _ | turn⟩ := ready
    · exact hfailed
    · exact hidle
    · obtain ⟨hsound, hout⟩ := h.compareSyncTurn (hready turn rfl)
      unfold DecisionMaker.drainSync
      split
      · rename_i heq
        rw [heq] at hsound hout
        refine ⟨hsound, hout, ?_⟩
        rintro e he
        cases mem_singleton.mp he
        exact hready turn rfl
      · -- no verdict yet: the next queued turn is compared in the state this one left
        rename_i m₁ heq
        rw [heq] at hsound hout
        obtain ⟨hpop, hpopped⟩ := hsound.popSyncTurn
        have hrest := ih hpop hpopped ⟨⟨hpop.fair.forgets (removeMember_forgets _ _), hpop.follows⟩, .silent rfl, nofun⟩
          ⟨hpop, .silent rfl, nofun⟩
        refine ⟨hrest.sound, hout.trans hrest.outcome, ?_⟩
        rintro e he
        obtain rfl | he := mem_cons.mp he
        · exact hready turn rfl
        · exact hrest.consumed e he

theorem Sound.observeSync (h : m.Sound p) {frame : Option U32} {commands : List UInt8} {generation : Option U64}
    (hop : (MakerOp.observeSync slot seq frame commands generation).Delivers p) :
    SoundReply p m slot (m.observeSyncWithGeneration slot seq frame commands generation) := by
  unfold observeSyncWithGeneration
  split
  · exact ⟨h, .silent rfl, nofun⟩
  · split
    · exact ⟨h, .silent rfl, nofun⟩
    · have hpush := fun hh => (h.follows slot hh).push (hop hh).1 (hop hh).2
      have hsound := h.setSlot (fun hh => (hpush hh).1)
      have hready : ∀ turn, ((seq, (m.syncTurns.push slot seq ⟨frame, none, parseSync commands, generation, none⟩).2) :
          Ready).2 = .ok (some turn) → Sourced p slot seq turn :=
        fun turn hturn hh => (hpush hh).2 turn hturn
      dsimp only
      split
      · obtain ⟨hpop, hpopped⟩ := hsound.popSyncTurn
        have hrest (fuel : Nat) := hpop.drainSync fuel hpopped
        exact ⟨(hrest _).sound, (hrest _).outcome, (hrest _).consumed⟩
      · have hrest (fuel : Nat) := hsound.drainSync fuel hready
        exact ⟨(hrest _).sound, (hrest _).outcome, (hrest _).consumed⟩

/-! ## Every other call -/

/-- What any other change does to the comparator: it forgets, or a promotion starts it afresh. -/
theorem Step.forgets {e : List MakerEvent} (h : Step m e m') (hne : MakerEvent.compared ∉ e) :
    m'.syncTurns = m.syncTurns ∧ (Forgets m.sync m'.sync ∨ m'.sync = .empty ∧ MakerEvent.handover .selfRelay ∈ e) := by
  cases h with
  | compare => exact absurd (mem_singleton_self _) hne
  | handover authority =>
    refine ⟨rfl, ?_⟩
    cases authority with
    | selfRelay => exact .inr ⟨rfl, mem_singleton_self _⟩
    | peer => exact .inl (.refl _)
  | depart => exact ⟨rfl, .inl (removeMember_forgets _ _)⟩
  | setObservers observers =>
    refine ⟨rfl, .inl ?_⟩
    refine foldlRecOn (motive := Forgets m.sync) _ SyncTracker.removeMember (.refl _) ?_
    intro t ht s _
    exact ht.trans (removeMember_forgets t s)
  | _ => exact ⟨rfl, .inl (.refl _)⟩

/-- A call that compares nothing keeps the maker sound, and without a promotion nobody's exclusion
    changes. -/
theorem Sound.steps {es : List MakerEvent} (hs : Steps Step m es m') (h : m.Sound p) (hne : MakerEvent.compared ∉ es) :
    m'.Sound p ∧ (MakerEvent.handover .selfRelay ∉ es → m'.sync.excluded = m.sync.excluded) := by
  induction hs with
  | refl => exact ⟨h, fun _ => rfl⟩
  | head hstep _ ih =>
    rw [mem_append, not_or] at hne
    obtain ⟨hturns, hsync⟩ := hstep.forgets hne.1
    obtain hforgets | ⟨hempty, hpromoted⟩ := hsync
    · obtain ⟨hsound, hex⟩ := ih ⟨h.fair.forgets hforgets, fun s hh => hturns ▸ h.follows s hh⟩ hne.2
      refine ⟨hsound, fun hno => ?_⟩
      rw [mem_append, not_or] at hno
      exact (hex hno.2).trans hforgets.excluded
    · obtain ⟨hsound, -⟩ := ih ⟨hempty ▸ empty_fair, fun s hh => hturns ▸ h.follows s hh⟩ hne.2
      exact ⟨hsound, fun hno => absurd (mem_append_left _ hpromoted) hno⟩

/-- A call that delivers no turn compares nothing. -/
theorem events_of_no_origin (h : op.origin = none) (reply : MakerReply) : MakerEvent.compared ∉ op.events m reply := by
  cases op with
  | observeSync => cases h
  | observeLeave | resolveReconnectWith | reinstateSlot | finishFinalize | finalizeDrop =>
    unfold events
    dsimp only
    split <;> simp
  | _ => simp [events]

theorem reply_of_no_origin (h : op.origin = none) : (op.apply m).2.consumed = [] ∧ (op.apply m).2.divergence = none := by
  cases op with
  | observeSync => cases h
  | _ => exact ⟨rfl, rfl⟩

/-- Without a promotion the events show none. -/
theorem not_handover_of_not_promotes (h : ¬ op.promotes m) (reply : MakerReply) :
    MakerEvent.handover .selfRelay ∉ op.events m reply := by
  intro hmem
  have hhands : ∀ a, a ∈ op.handsTo.filter (m.authority ≠ ·) → a ≠ .selfRelay := by
    rintro a ha rfl
    obtain ⟨hto, hne⟩ := Option.mem_filter_iff.mp ha
    refine h ⟨?_, hto⟩
    cases hm : m.authority with
    | peer => rfl
    | selfRelay => rw [hm] at hne; simp at hne
  cases op with
  | observeSync | seedResumed => simp [events] at hmem
  | observeLeave | resolveReconnectWith | reinstateSlot | finishFinalize | finalizeDrop =>
    unfold events at hmem
    dsimp only at hmem
    split at hmem <;> simp at hmem
  | _ =>
    simp only [events, mem_append, mem_map, Option.mem_toList] at hmem
    obtain ⟨a, ha, heq⟩ | ⟨_, _, heq⟩ := hmem
    · exact hhands a ha (MakerEvent.handover.inj heq)
    · cases heq

/-! ## Whole runs -/

/-- What a call replied is sound: the turns have their places, and the verdict accuses no honest slot. -/
structure FairCall (p : HonestPlay) (call : MakerOp × MakerReply) : Prop where
  consumed : ∀ slot, call.1.origin = some slot → ∀ e ∈ call.2.consumed, Sourced p slot e.1 e.2
  diverged : ∀ slot ∈ call.2.diverged, ¬ p.honest slot

/-- What one call gives: a sound maker and a sound reply, which accuses nobody again unless the call
    promotes. -/
structure SoundCall (p : HonestPlay) (m : DecisionMaker) (op : MakerOp) : Prop where
  sound : (op.apply m).1.Sound p
  reply : FairCall p (op, (op.apply m).2)
  outcome : ¬ op.promotes m → Outcome p.honest m.sync (op.apply m).1.sync (op.apply m).2.divergence

theorem mem_diverged {reply : MakerReply} (h : slot ∈ reply.diverged) :
    ∃ d, reply.divergence = some d ∧ slot ∈ d.diverged := by
  unfold MakerReply.diverged at h
  cases hd : reply.divergence with
  | none => rw [hd] at h; simp at h
  | some d => rw [hd] at h; exact ⟨d, rfl, h⟩

/-- **One call.** -/
theorem Sound.apply (h : m.Sound p) (hop : op.Delivers p) : SoundCall p m op := by
  cases horigin : op.origin with
  | none =>
    obtain ⟨hconsumed, hdivergence⟩ := reply_of_no_origin (m := m) horigin
    obtain ⟨hsound, hexcluded⟩ := h.steps (apply_steps op) (events_of_no_origin horigin _)
    refine ⟨hsound, ⟨?_, ?_⟩, ?_⟩
    · intro slot hslot e he
      dsimp only at he
      rw [hconsumed] at he
      cases he
    · intro slot hslot
      obtain ⟨d, hd, -⟩ := mem_diverged hslot
      cases hdivergence.symm.trans hd
    · intro hno
      rw [hdivergence]
      exact .silent (hexcluded (not_handover_of_not_promotes hno _))
  | some slot =>
    cases op with
    | observeSync s seq frame commands generation =>
      cases horigin
      have hreply := h.observeSync hop
      refine ⟨hreply.sound, ⟨?_, ?_⟩, fun _ => hreply.outcome⟩
      · rintro _ ⟨⟩ e he
        exact hreply.consumed e he
      · intro s hs
        obtain ⟨d, hd, hin⟩ := mem_diverged hs
        exact hreply.outcome.fair d hd s hin
    | _ => cases horigin

/-- The slots the verdicts of a run accuse, in order. -/
def accused (m : DecisionMaker) (ops : List MakerOp) : List SlotId := (m.log ops).flatMap (·.2.diverged)

/-- No call of the run is a promotion. -/
def NoPromotion : DecisionMaker → List MakerOp → Prop
  | _, [] => True
  | m, op :: ops => ¬ op.promotes m ∧ NoPromotion (op.apply m).1 ops

/-- **Between promotions nobody is accused twice**, and nobody who was excluded before. -/
theorem Sound.accused_nodup (h : m.Sound p) (hops : ∀ op ∈ ops, op.Delivers p)
    (hno : m.NoPromotion ops) : (m.accused ops).Nodup ∧ ∀ slot ∈ m.accused ops, slot ∉ m.sync.excluded := by
  induction ops generalizing m with
  | nil => exact ⟨nodup_nil, nofun⟩
  | cons op ops ih =>
    have hcall := h.apply (hops op mem_cons_self)
    have hout := hcall.outcome hno.1
    obtain ⟨hnodup, hfresh⟩ := ih hcall.sound (fun o ho => hops o (mem_cons_of_mem _ ho)) hno.2
    have hcons : m.accused (op :: ops) = (op.apply m).2.diverged ++ (op.apply m).1.accused ops := by
      unfold accused log
      rw [run_cons, flatMap_cons]
    rw [hcons]
    refine ⟨nodup_append.mpr ⟨?_, hnodup, ?_⟩, ?_⟩
    · unfold MakerReply.diverged
      cases hd : (op.apply m).2.divergence with
      | none => exact nodup_nil
      | some d => exact hout.nodup d hd
    · rintro a ha b hb rfl
      obtain ⟨d, hd, hin⟩ := mem_diverged ha
      exact hfresh a hb (hout.barred d hd a hin)
    · intro slot hslot hex
      obtain hslot | hslot := mem_append.mp hslot
      · obtain ⟨d, hd, hin⟩ := mem_diverged hslot
        exact hout.fresh d hd slot hin hex
      · exact hfresh slot hslot (hout.grows hex)

/-- **A run** keeps the maker sound, and every reply in it is. -/
theorem Sound.run (h : m.Sound p) (hops : ∀ op ∈ ops, op.Delivers p) :
    (m.after ops).Sound p ∧ ∀ call ∈ m.log ops, FairCall p call := by
  unfold after log
  refine run_invariant (I := fun (m : DecisionMaker) log => m.Sound p ∧ ∀ call ∈ log, FairCall p call) ops ⟨h, by simp⟩ ?_
  rintro m log op hop ⟨hm, hlog⟩
  have hcall := hm.apply (hops op hop)
  refine ⟨hcall.sound, ?_⟩
  intro call hmem
  obtain hmem | hmem := mem_append.mp hmem
  · exact hlog call hmem
  · cases mem_singleton.mp hmem
    exact hcall.reply

/-- **No false desync accusation.** Over every run of a session's maker in which the honest slots' turns
    are delivered in any order, with any losses and repeats, between any other calls: a turn of an honest
    slot that is consumed has its own generation as its ordinal, no verdict accuses an honest slot, an
    honest slot's ordering fails only for an unfilled gap or for want of room, and between promotions no
    slot is accused twice. -/
theorem no_false_desync_accusation (p : HonestPlay) (bounds : BufferBounds) (authority : Authority)
    (observers : Finset SlotId) (finalizedDrops rollback : Bool) (earlier later : List MakerOp)
    (hops : ∀ op ∈ earlier ++ later, op.Delivers p) :
    let m := create bounds authority observers finalizedDrops rollback
    (∀ call ∈ m.log (earlier ++ later),
      (∀ slot, call.1.origin = some slot → p.honest slot → ∀ e ∈ call.2.consumed, e.2.ordinal = (p.origin slot).gen e.1) ∧
      ∀ slot ∈ call.2.diverged, ¬ p.honest slot) ∧
    (∀ slot, p.honest slot → ∀ failure, (m.after (earlier ++ later)).syncTurns.failure slot = some failure →
      failure.reason = .sequenceGap ∨ failure.reason = .metadataCapacity) ∧
    ((m.after earlier).NoPromotion later → ((m.after earlier).accused later).Nodup) := by
  intro m
  have hsound : m.Sound p := create_sound _ _ _ _ _
  obtain ⟨hfinal, hlog⟩ := hsound.run hops
  obtain ⟨hmid, -⟩ := hsound.run fun op hop => hops op (mem_append_left _ hop)
  refine ⟨?_, ?_, ?_⟩
  · intro call hcall
    refine ⟨?_, (hlog call hcall).diverged⟩
    intro slot horigin hh e he
    exact ((hlog call hcall).consumed slot horigin e he hh).ordinal
  · intro slot hh failure hfailure
    obtain ⟨s, hs, hf⟩ := Option.bind_eq_some_iff.mp hfailure
    have hfollows := hfinal.follows slot hh
    rw [SyncTurns.entry, hs] at hfollows
    exact (hfollows.failed failure hf).2
  · intro hno
    exact (hmid.accused_nodup (fun op hop => hops op (mem_append_right _ hop)) hno).1

/-- An origin that puts a checksum in every turn. -/
def everyTurn : Origin where
  mode := .legacy
  gen := some
  first := by
    rintro (_ | n) _ g ⟨⟩ hlast
    · decide
    · cases hlast
  later := by
    rintro (_ | n) _ g y ⟨⟩ hlast
    · cases hlast
    · cases hlast
      exact ⟨Nat.le_succ n, le_rfl⟩
  below := nofun

/-- Every slot but the third is honest. -/
def examplePlay : HonestPlay where
  honest slot := slot ≠ 2
  others _ _ ha hb := (not_not.mp ha).trans (not_not.mp hb).symm
  value _ := (7, 9)
  origin _ := everyTurn

/-- Two turns of an honest slot out of order, a turn of the third slot, and a departure. -/
def exampleOps : List MakerOp :=
  [.observeSync 0 1 none [0x37, 0x12, 7, 9, 0, 0, 0] none, .observeSync 2 0 none [0x37, 0x01, 1, 1, 0, 0, 0] none,
    .observeSync 0 0 none [0x37, 0x01, 7, 9, 0, 0, 0] none, .recordDeparture 1 {} leaveReasonLeft]

theorem exampleOps_delivers : ∀ op ∈ exampleOps ++ [], op.Delivers examplePlay := by
  intro op hop
  simp only [exampleOps, append_nil, mem_cons, not_mem_nil, or_false] at hop
  rcases hop with rfl | rfl | rfl | rfl
  · exact fun _ => ⟨by decide, ⟨by decide, rfl, rfl⟩⟩
  · exact fun hh => absurd rfl hh
  · exact fun _ => ⟨by decide, ⟨by decide, rfl, rfl⟩⟩
  · trivial

theorem no_false_desync_accusation_reordered :
    let m := create ⟨1, 8⟩ .selfRelay ∅ false false
    (m.log exampleOps).map (·.2.consumed.length) = [0, 1, 2, 0] ∧ ∀ call ∈ m.log (exampleOps ++ []),
      ∀ slot ∈ call.2.diverged, ¬ slot ≠ 2 :=
  ⟨by decide +kernel, fun call hcall =>
    ((no_false_desync_accusation examplePlay ⟨1, 8⟩ .selfRelay ∅ false false exampleOps []
      exampleOps_delivers).1 call hcall).2⟩

end DecisionMaker

end RallyPoint.Relay
