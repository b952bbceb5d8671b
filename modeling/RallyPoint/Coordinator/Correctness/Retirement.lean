import RallyPoint.Coordinator.Correctness.Ledger
import RallyPoint.Coordinator.Correctness.Drain

/-!
# `Coordinator.Correctness.Retirement` — a drained relay never serves again

A drain writes the tombstone of a relay's id while it holds the assignment lock, and enrollments read it
under the same lock.

* `Rowed` — whoever is enrolled, or has been authorized to, has a row in the ledger, so its tombstone is
  written.
* `Tracks` — what the loop's snapshot still says of the registry: an entry of a generation keeps its
  region, and a relay that the snapshot has as draining is draining.
* `Spent` — a drained relay is retired, serves nothing, and has no entry but the one it was drained
  under; and the loop will not take its mark back.
-/

namespace RallyPoint.Coordinator

open Lib Proto Function List World OrdMap RelayRegistry

variable {δ : Type} {s s' : SessionSetup} {l l' : RelayLedger δ} {relay : RelayId} {generation : Nat}
  {enrolls : RelayHello → Prop} {clears : RelayId → Nat → Prop}

/-! ## The ledger only grows -/

namespace RelayLedger

variable {l'' : RelayLedger δ}

/-- Rows are only extended. -/
structure Grows (l l' : RelayLedger δ) : Prop where
  valid : l'.Valid
  extend : ∀ id row, l.rows id = some row → ∃ row', l'.rows id = some row' ∧ row.Extends row'

theorem Grows.refl (hvalid : l.Valid) : Grows l l := ⟨hvalid, fun _ row h => ⟨row, h, .refl row⟩⟩

theorem Grows.apply [DecidableEq δ] (hvalid : l.Valid) (tokenHash : String → δ) (op : LedgerOp) :
    Grows l (op.apply tokenHash l) := by
  have hchange := apply_change tokenHash l op
  exact ⟨hchange.valid hvalid, fun _ _ hrow => hchange.extends hvalid hrow⟩

variable {id : RelayId}

theorem Grows.isSome (h : Grows l l') (hrow : (l.rows id).isSome = true) : (l'.rows id).isSome = true := by
  obtain ⟨row, hrow⟩ := Option.isSome_iff_exists.mp hrow
  obtain ⟨row', hrow', -⟩ := h.extend id row hrow
  rw [hrow']
  rfl

/-- **A tombstone stands.** -/
theorem Grows.isRetired (h : Grows l l') (hretired : l.isRetired id = true) : l'.isRetired id = true := by
  unfold RelayLedger.isRetired at hretired ⊢
  cases hrow : l.rows id with
  | none =>
    rw [hrow] at hretired
    cases hretired
  | some row =>
    rw [hrow] at hretired
    obtain ⟨row', hrow', hextends⟩ := h.extend id row hrow
    rw [hrow']
    exact hextends.retired hretired

/-- The tombstone of an id that has a row is written. -/
theorem isRetired_retire (now : U64) (hrow : (l.rows relay).isSome = true) :
    (l.retire false now relay).1.isRetired relay = true := by
  obtain ⟨row, hrow⟩ := Option.isSome_iff_exists.mp hrow
  show (l.updateRow relay fun row => { row with retiredAt := row.retiredAt <|> some now }).isRetired relay = true
  unfold isRetired
  rw [updateRow_rows, if_pos rfl, hrow]
  cases hretired : row.retiredAt <;> simp [hretired]

end RelayLedger

/-! ## What a piece does to the ledger -/

section Ledger

variable {now : U64}

open SessionSetup RelayLedger

variable {drained : Bool}

theorem SessionSetup.TryDrain.ledger {region : RegionId} {target : Nat}
    (h : TryDrain s l now region target relay generation (s', l', drained)) :
    l' = l ∨ l' = (l.retire false now relay).1 := by
  cases h with
  | left => exact .inl rfl
  | spared => exact .inl rfl
  | drained => exact .inr rfl

theorem SessionSetup.RetireAged.ledger {replacements : List RelayId} {relay : EnrolledRelay} {tombstoned : Option Bool}
    (h : RetireAged s l now replacements relay (s', l', tombstoned)) :
    l' = l ∨ l' = (l.retire false now relay.relayId).1 := by
  cases h with
  | left => exact .inl rfl
  | marked => exact .inl rfl
  | drained => exact .inr rfl

theorem SessionSetup.FinishDrain.ledger {relay : EnrolledRelay} (h : FinishDrain s l now relay (s', l', drained)) :
    l' = l ∨ l' = (l.retire false now relay.relayId).1 := by
  cases h with
  | left => exact .inl rfl
  | drained => exact .inr rfl

theorem ProvisionLoop.LoopStep.ledger {p p' : ProvisionLoop} {drained : Option RelayId}
    (h : p.LoopStep s l (p', s', l', drained)) :
    l' = l ∨ ∃ now relay, l' = (l.retire false now relay).1 := by
  have hor : ∀ {now relay}, l' = l ∨ l' = (l.retire false now relay).1 → l' = l ∨ ∃ now relay,
    l' = (l.retire false now relay).1 := by
    rintro now relay (h | h)
    · exact .inl h
    · exact .inr ⟨now, relay, h⟩
  cases h with
  | mark _ _ _ hretire | retire _ _ _ _ hretire => exact hor hretire.ledger
  | spare _ hdrain | drain _ _ hdrain => exact hor hdrain.ledger
  | finish panics hpoint hfinish => exact hor hfinish.ledger
  | _ => exact .inl rfl

end Ledger

namespace CoordinatorTask

variable [DecidableEq δ] (sha256 : Sha256) (tokenHash : String → δ)

open RelayLedger

/-- **No piece undoes what a row says.** -/
theorem next_ledger (task : CoordinatorTask) {s : CoordinatorState δ} (hl : s.ledger = some l) (hvalid : l.Valid) :
    ∃ l', (next sha256 tokenHash task s).1.ledger = some l' ∧ Grows l l' := by
  have hsame : ∃ l', s.ledger = some l' ∧ Grows l l' := ⟨l, hl, .refl hvalid⟩
  cases task with
  | authorize hello faults now peerIp readFails =>
    show ∃ l', (s.authorize sha256 tokenHash hello faults now peerIp readFails).1.ledger = some l' ∧ Grows l l'
    rw [s.authorize_eq]
    dsimp only
    rw [hl]
    exact ⟨_, rfl, .apply hvalid tokenHash _⟩
  | enroll hello readFails =>
    show ∃ l', (s.enroll sha256 hello readFails).1.ledger = some l' ∧ Grows l l'
    rcases s.enroll_cases sha256 hello readFails with ⟨close, h⟩ | ⟨enrolled, -, -, h⟩ <;> rw [h] <;> exact hsame
  | evictEvidence _ _ keys | evict _ _ keys => cases keys <;> exact hsame
  | ledger op =>
    refine ⟨op.apply tokenHash l, ?_, .apply hvalid tokenHash op⟩
    show s.ledger.map (op.apply tokenHash) = _
    rw [hl]
    rfl
  | retireRelay relay fails now =>
    show ∃ l', (s.retireRelay relay fails now).ledger = some l' ∧ Grows l l'
    unfold CoordinatorState.retireRelay
    rw [hl]
    dsimp only
    rcases s.setup.tombstoneLocked_cases l fails now relay with h | h <;> rw [h]
    · exact ⟨l, rfl, .refl hvalid⟩
    · exact ⟨_, rfl, .apply hvalid tokenHash (.retire false now relay)⟩
  | reconcile input =>
    show ∃ l', (s.reconcile input).1.ledger = some l' ∧ Grows l l'
    obtain ⟨provision, setup, l', drained, hstep, hresult⟩ := s.reconcile_cases input hl
    rw [hresult]
    refine ⟨l', rfl, ?_⟩
    rcases hstep.ledger with rfl | ⟨now, relay, rfl⟩
    · exact .refl hvalid
    · exact .apply hvalid tokenHash (.retire false now relay)
  | _ => exact hsame

/-- An enrollment comes after its authorization. -/
theorem next_enroll {task : CoordinatorTask} {s : CoordinatorState δ} (hl : s.ledger = some l) {hello : RelayHello}
    {readFails : Bool} (h : (next sha256 tokenHash task s).2 = .going (.enroll hello readFails)) :
    (l.rows hello.relayId).isSome = true := by
  cases task with
  | authorize hello₀ faults now peerIp readFails₀ =>
    replace h : (s.authorize sha256 tokenHash hello₀ faults now peerIp readFails₀).2 = .going (.enroll hello readFails) := h
    unfold CoordinatorState.authorize at h
    rw [hl] at h
    dsimp only at h
    rcases hresult : l.authorizeEnrollAt tokenHash faults now hello₀.relayId (sha256 hello₀.certDer)
      hello₀.enrollToken peerIp with
      ⟨l', refusal | authorized⟩
    · rw [hresult] at h
      cases h
    · rw [hresult] at h
      obtain ⟨row, hrow, -⟩ := authorize_eq_ok (congrArg Prod.snd hresult)
      cases h
      show (l.rows hello₀.relayId).isSome = true
      rw [hrow]
      rfl
  | enroll hello₀ readFails₀ =>
    replace h : (s.enroll sha256 hello₀ readFails₀).2 = .going (.enroll hello readFails) := h
    rcases s.enroll_cases sha256 hello₀ readFails₀ with ⟨close, hresult⟩ | ⟨enrolled, -, -, hresult⟩ <;>
      rw [hresult] at h <;> cases h
  | evictEvidence relay generation keys mismatched =>
    cases keys with
    | nil => cases h
    | cons key keys =>
      replace h : (if (s.setup.rehomeSession sha256 s.lifecycle key relay).2.2 = .unavailable
        then CoordinatorTask.retireUnevidenced relay generation key keys mismatched
        else .evictEvidence relay generation keys mismatched) = .enroll hello readFails := Progress.going.inj h
      by_cases hunavailable : (s.setup.rehomeSession sha256 s.lifecycle key relay).2.2 = .unavailable
      · rw [if_pos hunavailable] at h
        cases h
      · rw [if_neg hunavailable] at h
        cases h
  | evict relay generation keys => cases keys <;> cases h
  | fireWebhookReap key =>
    replace h : (if (s.lifecycle.fireWebhookReap key).2 then Progress.going (CoordinatorTask.retireReaped key)
      else .done TaskResult.done) = .going (.enroll hello readFails) := h
    split at h <;> cases h
  | _ => cases h

end CoordinatorTask

section Rowed

open CoordinatorTask RelayLedger

variable [DecidableEq δ] {sha256 : Sha256} {tokenHash : String → δ} {w : CoordinatorWorld δ}
  {l : RelayLedger δ}

/-- Whoever is enrolled, or about to be, has a row. -/
structure Rowed (w : CoordinatorWorld δ) (l : RelayLedger δ) : Prop where
  ledger : w.shared.ledger = some l
  valid : l.Valid
  entries : ∀ id r, w.shared.setup.registry.registered id = some r → (l.rows id).isSome = true
  pending : ∀ hello readFails, .going (.enroll hello readFails) ∈ w.tasks → (l.rows hello.relayId).isSome = true

theorem Rowed.move (h : Rowed w l) {m : Move CoordinatorTask} (hentry : ∀ task, m = .start task → task.isEntry = true) :
    ∃ l', Rowed (w.move (next sha256 tokenHash) m) l' := by
  refine move_cases (I := fun w => ∃ l', Rowed w l') m ⟨l, h⟩ ?_ ?_
  · intro task hm
    refine ⟨l, h.ledger, h.valid, h.entries, ?_⟩
    intro hello readFails hmem
    rcases mem_append.mp hmem with hmem | hmem
    · exact h.pending hello readFails hmem
    · -- no task starts in the middle of an enrollment
      obtain rfl := Progress.going.inj (mem_singleton.mp hmem)
      cases hentry _ hm
  · intro i task _ _ hi
    obtain ⟨l', hl', hgrows⟩ := next_ledger sha256 tokenHash task h.ledger h.valid
    refine ⟨l', hl', hgrows.valid, ?_, ?_⟩
    · intro id r hr
      refine hgrows.isSome ?_
      rcases (next_registry sha256 tokenHash task w.shared).entry hr
        with ⟨hello, ⟨⟨readFails, rfl⟩, -⟩, rfl, -⟩ | ⟨r₀, draining, hr₀, -⟩
      · exact h.pending hello readFails (mem_of_getElem? hi)
      · exact h.entries id r₀ hr₀
    · intro hello readFails hmem
      refine hgrows.isSome ?_
      rcases mem_of_mem_set hmem with hprogress | hmem
      · exact next_enroll sha256 tokenHash h.ledger hprogress.symm
      · exact h.pending hello readFails hmem

end Rowed

/-! ## The snapshot -/

namespace RelayRegistry

variable (reg : RelayRegistry)

theorem isAvailable_iff {id : RelayId} : reg.isAvailable id = true ↔ ∃ r, reg.registered id = some r ∧
    r.draining = false := by
  unfold isAvailable
  cases reg.registered id with
  | none => simp
  | some r => simp

/-- A mark that was applied is there. -/
theorem draining_of_markDraining (happlied : (reg.markDraining relay generation).2 = true)
    {r : Registered} (hr : (reg.markDraining relay generation).1.registered relay = some r) : r.draining = true := by
  obtain ⟨r₀, hr₀, rfl⟩ := (reg.setDraining_applied true relay generation).mp happlied
  rw [markDraining, registered_setDraining, hr₀, Option.map_some, if_pos ⟨rfl, rfl⟩] at hr
  rw [← Option.some.inj hr]

theorem mem_enrolledRelays {e : EnrolledRelay} :
    e ∈ reg.enrolledRelays ↔ ∃ r, reg.registered e.relayId = some r ∧
      e = ⟨r.entry.relayId, r.entry.region, r.generation, r.draining⟩ := by
  unfold enrolledRelays
  rw [mem_map]
  constructor
  · rintro ⟨r, hr, rfl⟩
    obtain ⟨id, hget⟩ := mem_values.mp hr
    refine ⟨r, ?_, rfl⟩
    dsimp only
    rw [registered, reg.keyed id r hget]
    exact hget
  · rintro ⟨r, hr, rfl⟩
    exact ⟨r, mem_values.mpr ⟨_, hr⟩, rfl⟩

theorem enrolledRelays_nodup : (reg.enrolledRelays.map (·.relayId)).Nodup := by
  have hkeys : reg.enrolledRelays.map (·.relayId) = reg.relays.entries.map Prod.fst := by
    unfold enrolledRelays values
    rw [map_map, map_map]
    refine map_congr_left ?_
    intro e he
    exact reg.keyed e.1 e.2 (get?_eq_some.mpr he)
  rw [hkeys]
  exact pairwise_map.mpr (reg.relays.sorted.imp fun h => ne_of_lt h)

end RelayRegistry

namespace ProvisionLoop

variable (p : ProvisionLoop)

theorem filterMap_fst_sublist {α β : Type} {f : α → Option (α × β)} (hf : ∀ a x, f a = some x → x.1 = a) (l : List α) :
    ((l.filterMap f).map Prod.fst).Sublist l := by
  induction l with
  | nil => exact .slnil
  | cons a l ih =>
    cases hfa : f a with
    | none =>
      rw [filterMap_cons_none hfa]
      exact ih.cons a
    | some x =>
      rw [filterMap_cons_some hfa, map_cons, hf a x hfa]
      exact ih.cons_cons a

/-- A relay of the region with the time since it was idle, if that is long enough ago. -/
def idleFor (r : EnrolledRelay) : Option (EnrolledRelay × Nat) := do
  let since ← p.idleSince r.relayId
  if p.config.idleGrace ≤ p.now - since then some (r, p.now - since) else none

theorem idleFor_eq_some {r : EnrolledRelay} {x : EnrolledRelay × Nat} (h : p.idleFor r = some x) :
    x.1 = r ∧ (p.idleSince r.relayId).isSome = true := by
  unfold idleFor at h
  obtain ⟨since, hsince, h⟩ := Option.bind_eq_some_iff.mp h
  split at h
  · obtain rfl := Option.some.inj h
    rw [hsince]
    exact ⟨rfl, rfl⟩
  · cases h

variable {region : RegionId}

/-- The candidates are relays of the snapshot, not draining and idle. -/
theorem mem_scaleDownCandidates {c : RelayId × Nat} (h : c ∈ p.scaleDownCandidates region) :
    ∃ e ∈ p.enrolled, e.draining = false ∧ c = (e.relayId, e.generation) ∧ (p.idleSince e.relayId).isSome = true := by
  obtain ⟨x, hx, rfl⟩ := mem_map.mp h
  rw [mem_insertionSort] at hx
  obtain ⟨e, he, hidle⟩ := mem_filterMap.mp hx
  obtain ⟨hmem, hlive⟩ := mem_filter.mp he
  obtain ⟨rfl, hsince⟩ := p.idleFor_eq_some hidle
  refine ⟨x.1, hmem, ?_, rfl, hsince⟩
  unfold live at hlive
  simpa using (Bool.and_eq_true_iff.mp hlive).1

theorem scaleDownCandidates_nodup (region : RegionId) (h : (p.enrolled.map (·.relayId)).Nodup) :
    ((p.scaleDownCandidates region).map Prod.fst).Nodup := by
  have hids : (p.scaleDownCandidates region).map Prod.fst =
      ((((p.enrolled.filter (live region)).filterMap p.idleFor).insertionSort fun a b => b.2 ≤
        a.2).map Prod.fst).map (·.relayId) := by
    unfold scaleDownCandidates
    rw [map_map, map_map]
    rfl
  rw [hids]
  have hperm := (perm_insertionSort (fun a b : EnrolledRelay × Nat => b.2 ≤ a.2)
    ((p.enrolled.filter (live region)).filterMap p.idleFor)).map Prod.fst
  refine ((hperm.map (·.relayId)).nodup_iff).mpr (h.sublist (List.Sublist.map _ ?_))
  exact (filterMap_fst_sublist (fun _ _ h => (p.idleFor_eq_some h).1) _).trans filter_sublist

/-- Where the loop stands, what it has left to do comes from the snapshot. -/
def Place : Prop :=
  match p.point with
  | .retiring region _ replacements relays _ =>
    (∀ id ∈ replacements, id ∉ p.aged ∧ ∃ e ∈ p.enrolled, e.relayId = id ∧ e.region = some region) ∧
      ∀ x ∈ relays, ∃ e ∈ p.enrolled, e.relayId = x.relayId ∧ e.generation = x.generation ∧ e.region = x.region ∧
        (x.draining = true → e.draining = true)
  | .scaling _ _ _ candidates _ =>
    (candidates.map Prod.fst).Nodup ∧ ∀ c ∈ candidates, ∃ e ∈ p.enrolled, e.draining = false ∧ c = (e.relayId, e.generation)
  | _ => True

/-- **What the snapshot still says of the registry.** -/
structure Tracks (p : ProvisionLoop) (reg : RelayRegistry) : Prop where
  fenced : Fenced reg
  nodup : (p.enrolled.map (·.relayId)).Nodup
  issued : ∀ e ∈ p.enrolled, e.generation < reg.nextGeneration
  marked : ∀ e ∈ p.enrolled, e.draining = true → ∀ r, reg.registered e.relayId = some r →
    r.generation = e.generation → r.draining = true
  place : p.Place

section Tracks

variable {p} {p' : ProvisionLoop} {reg reg' : RelayRegistry}

/-- A relay occurs once in the snapshot. -/
theorem Tracks.unique (h : p.Tracks reg) {e f : EnrolledRelay} (he : e ∈ p.enrolled) (hf : f ∈ p.enrolled)
    (hid : e.relayId = f.relayId) : e = f :=
  inj_on_of_nodup_map h.nodup he hf hid

/-- The loop goes on with the same snapshot. -/
theorem Tracks.goOn (h : p.Tracks reg) (henrolled : p'.enrolled = p.enrolled) (hplace : p'.Place) : p'.Tracks reg :=
  ⟨h.fenced, henrolled ▸ h.nodup, henrolled ▸ h.issued, henrolled ▸ h.marked, hplace⟩

/-- The registry changes. A mark taken back is of a relay the snapshot does not have as draining. -/
theorem Tracks.registry (h : p.Tracks reg) (hstep : RegistryStep enrolls clears reg reg')
    (hclears : ∀ relay generation, clears relay generation → ∀ e ∈ p.enrolled, e.relayId = relay → e.draining = false) :
    p.Tracks reg' := by
  refine ⟨h.fenced.registry hstep, h.nodup, fun e he => lt_of_lt_of_le (h.issued e he) hstep.nextGeneration_le, ?_, h.place⟩
  intro e he hdraining r hr hgeneration
  rcases hstep.entry hr with ⟨hello, -, -, -, hissued, -⟩ | ⟨r₀, draining, hr₀, rfl, hmark⟩
  · -- the snapshot has an earlier generation
    exact absurd hgeneration (ne_of_gt (lt_of_lt_of_le (h.issued e he) hissued))
  · rcases hmark with rfl | rfl | hclear
    · exact h.marked e he hdraining r₀ hr₀ hgeneration
    · rfl
    · cases (hclears _ _ hclear e he rfl).symm.trans hdraining

theorem Tracks.snapshot (hfenced : Fenced reg) (henrolled : p'.enrolled = reg.enrolledRelays)
    (hplace : p'.Place) : p'.Tracks reg := by
  refine ⟨hfenced, henrolled ▸ reg.enrolledRelays_nodup, ?_, ?_, hplace⟩
  · intro e he
    rw [henrolled] at he
    obtain ⟨r, hr, heq⟩ := reg.mem_enrolledRelays.mp he
    rw [heq]
    exact hfenced _ r hr
  · intro e he hdraining r hr _
    rw [henrolled] at he
    obtain ⟨r', hr', heq⟩ := reg.mem_enrolledRelays.mp he
    obtain rfl := Option.some.inj (hr'.symm.trans hr)
    rw [heq] at hdraining
    exact hdraining

/-- An entry that is noted as draining. -/
theorem mem_noteDraining {e' : EnrolledRelay} (h : e' ∈ (p.noteDraining relay).enrolled) :
    ∃ e ∈ p.enrolled, e'.relayId = e.relayId ∧ e'.generation = e.generation ∧ e'.region = e.region ∧
      (e'.draining = true → e.draining = true ∨ e.relayId = relay) := by
  obtain ⟨e, he, rfl⟩ := mem_map.mp h
  refine ⟨e, he, ?_⟩
  split
  · rename_i hid
    exact ⟨rfl, rfl, rfl, fun _ => .inr hid⟩
  · exact ⟨rfl, rfl, rfl, .inl⟩

variable {regions : List RegionId} {replacements : List RelayId} {relays : List EnrolledRelay}
  {e : EnrolledRelay} {target : Nat}

theorem exists_noteDraining (relay : RelayId) (h : e ∈ p.enrolled) :
    ∃ e' ∈ (p.noteDraining relay).enrolled, e'.relayId = e.relayId ∧ e'.generation = e.generation ∧ e'.region = e.region ∧
      (e.draining = true → e'.draining = true) := by
  refine ⟨_, mem_map.mpr ⟨e, h, rfl⟩, ?_⟩
  split
  · exact ⟨rfl, rfl, rfl, fun _ => rfl⟩
  · exact ⟨rfl, rfl, rfl, id⟩

theorem noteDraining_ids (relay : RelayId) : (p.noteDraining relay).enrolled.map
    (·.relayId) = p.enrolled.map (·.relayId) := by
  unfold noteDraining
  rw [map_map]
  refine map_congr_left ?_
  intro e _
  show (if e.relayId = relay then { e with draining := true } else e).relayId = e.relayId
  split <;> rfl

/-- A relay of the snapshot is draining, and is noted so. -/
theorem Tracks.noteDraining (h : p.Tracks reg)
    (hdraining : ∀ e ∈ p.enrolled, e.relayId = relay → ∀ r, reg.registered relay = some r → r.generation = e.generation →
      r.draining = true) (henrolled : p'.enrolled =
        (p.noteDraining relay).enrolled) (hplace : p'.Place) : p'.Tracks reg := by
  refine ⟨h.fenced, ?_, ?_, ?_, hplace⟩
  · rw [henrolled, noteDraining_ids]
    exact h.nodup
  · intro e' he'
    rw [henrolled] at he'
    obtain ⟨e, he, -, hgeneration, -⟩ := mem_noteDraining he'
    exact hgeneration ▸ h.issued e he
  · intro e' he' hnoted r hr hgeneration
    rw [henrolled] at he'
    obtain ⟨e, he, hid, hgen, -, hor⟩ := mem_noteDraining he'
    rw [hid] at hr
    rw [hgen] at hgeneration
    rcases hor hnoted with hold | hrelay
    · exact h.marked e he hold r hr hgeneration
    · exact hdraining e he hrelay r (hrelay ▸ hr) hgeneration

/-- A relay that `try_drain_one` looks at was not draining in the snapshot. -/
theorem Tracks.tries (h : p.Tracks reg) (htries : p.Tries relay generation)
    (he : e ∈ p.enrolled) (hid : e.relayId = relay) : e.draining = false := by
  obtain ⟨region, target, live, candidates, regions, hpoint⟩ := htries
  have hplace := h.place
  unfold Place at hplace
  rw [hpoint] at hplace
  obtain ⟨e₀, he₀, hdraining, hcandidate⟩ := hplace.2 _ mem_cons_self
  obtain ⟨rfl, rfl⟩ := Prod.mk.inj hcandidate
  rwa [h.unique he he₀ hid]

/-- A relay that `retire_aged` looks at is in the snapshot. -/
theorem Tracks.retiring (h : p.Tracks reg) {relay : EnrolledRelay}
        (hpoint : p.point = .retiring region target replacements (relay :: relays) regions) :
    ∃ e ∈ p.enrolled, e.relayId = relay.relayId ∧ e.generation = relay.generation ∧ e.region = relay.region ∧
      (relay.draining = true → e.draining = true) := by
  have hplace := h.place
  unfold Place at hplace
  rw [hpoint] at hplace
  exact hplace.2 relay mem_cons_self

/-- `retire_aged` goes on to the next relay. -/
theorem Place.retiring_tail {relay : EnrolledRelay} (h : p.Place)
    (hpoint : p.point = .retiring region target replacements (relay :: relays) regions)
    (hpoint' : p'.point = .retiring region target replacements relays regions) (haged : p'.aged = p.aged)
    (henrolled : ∀ e ∈ p.enrolled, ∃ e' ∈ p'.enrolled, e'.relayId = e.relayId ∧ e'.generation = e.generation ∧
      e'.region = e.region ∧ (e.draining = true → e'.draining = true)) : p'.Place := by
  unfold Place at h ⊢
  rw [hpoint] at h
  rw [hpoint', haged]
  refine ⟨?_, ?_⟩
  · intro id hid
    obtain ⟨hold, e, he, heid, hregion⟩ := h.1 id hid
    obtain ⟨e', he', hid', -, hregion', -⟩ := henrolled e he
    exact ⟨hold, e', he', hid'.trans heid, hregion'.trans hregion⟩
  · intro x hx
    obtain ⟨e, he, hid, hgeneration, hregion, hdraining⟩ := h.2 x (mem_cons_of_mem _ hx)
    obtain ⟨e', he', hid', hgeneration', hregion', hdraining'⟩ := henrolled e he
    exact ⟨e', he', hid'.trans hid, hgeneration'.trans hgeneration, hregion'.trans hregion,
      fun hx => hdraining' (hdraining hx)⟩

/-- `scale_down` goes on to the next candidate. -/
theorem Place.scaling_tail {live live' : Nat} {candidate : RelayId × Nat}
    {candidates : List (RelayId × Nat)} (h : p.Place)
    (hpoint : p.point = .scaling region target live (candidate :: candidates) regions)
    (hpoint' : p'.point = .scaling region target live' candidates regions)
    (henrolled : p'.enrolled = p.enrolled) : p'.Place := by
  unfold Place at h ⊢
  rw [hpoint] at h
  rw [hpoint', henrolled]
  exact ⟨(nodup_cons.mp h.1).2, fun c hc => h.2 c (mem_cons_of_mem _ hc)⟩

/-- **The snapshot stays true over a step of the loop.** -/
theorem Tracks.step (h : p.Tracks s.registry) {drained : Option RelayId} (hstep : p.LoopStep s l (p', s', l', drained)) :
    p'.Tracks s'.registry := by
  have hafter : p.Tracks s'.registry := h.registry hstep.registry fun _ _ htries e he hid => h.tries htries he hid
  have hunchanged : ∀ e ∈ p.enrolled, ∃ e' ∈ p.enrolled, e'.relayId = e.relayId ∧ e'.generation = e.generation ∧
      e'.region = e.region ∧ (e.draining = true → e'.draining = true) := fun e he => ⟨e, he, rfl, rfl, rfl, id⟩
  -- the relay that is noted has been marked
  have hnote : ∀ {region target replacements} {relay : EnrolledRelay} {relays regions now tombstoned},
      p.point = .retiring region target replacements (relay :: relays) regions →
      SessionSetup.RetireAged s l now replacements relay (s', l', some tombstoned) →
      ∀ e ∈ p.enrolled, e.relayId = relay.relayId → ∀ r, s'.registry.registered relay.relayId = some r →
        r.generation = e.generation → r.draining = true := by
    intro region target replacements relay relays regions now tombstoned hpoint hretire e he hid r hr hgeneration
    obtain ⟨e₀, he₀, hid₀, hgeneration₀, -⟩ := h.retiring hpoint
    obtain rfl := h.unique he he₀ (hid.trans hid₀.symm)
    have hgeneration' := hgeneration.trans hgeneration₀
    cases hretire with
    | marked _ hmark | drained _ hmark => exact (Announced.marked h.fenced hmark).draining r hr hgeneration'
  cases hstep with
  | sleep | refresh | age | leaveRegions | leaveScaling | listDraining => exact hafter.goOn rfl trivial
  | snapshot now => exact .snapshot h.fenced rfl trivial
  | enterRegion target hpoint =>
    refine hafter.goOn rfl ⟨?_, hunchanged⟩
    intro id hid
    obtain ⟨e, he, rfl⟩ := mem_map.mp hid
    obtain ⟨hmem, hlive⟩ := mem_filter.mp he
    simp only [live, Bool.and_eq_true, decide_eq_true_eq] at hlive
    exact ⟨by simpa using hlive.2, e, hmem, rfl, hlive.1.2⟩
  | skip hpoint => exact hafter.goOn rfl (hafter.place.retiring_tail hpoint rfl rfl hunchanged)
  | @mark region target replacements relay relays regions now s' l' hpoint hregion haged hretire =>
    exact hafter.noteDraining (hnote hpoint hretire) rfl
      (hafter.place.retiring_tail hpoint rfl rfl fun e he => exists_noteDraining relay.relayId he)
  | @retire region target replacements relay relays regions now s' l' panics hpoint hregion haged hretire =>
    refine hafter.noteDraining (hnote hpoint hretire) ?_ ?_
    · cases panics <;> rfl
    · cases panics with
      | true => trivial
      | false => exact hafter.place.retiring_tail hpoint rfl rfl fun e he => exists_noteDraining relay.relayId he
  | enterScaling live hpoint hcandidates =>
    refine hafter.goOn rfl ?_
    rcases hcandidates with rfl | rfl
    · exact ⟨nodup_nil, by simp⟩
    · refine ⟨p.scaleDownCandidates_nodup _ h.nodup, ?_⟩
      intro c hc
      obtain ⟨e, he, hdraining, rfl, -⟩ := p.mem_scaleDownCandidates hc
      exact ⟨e, he, hdraining, rfl⟩
  | spare hpoint hdrain => exact hafter.goOn rfl (hafter.place.scaling_tail hpoint rfl rfl)
  | drain panics hpoint hdrain =>
    cases panics with
    | true => exact hafter.goOn rfl trivial
    | false => exact hafter.goOn rfl (hafter.place.scaling_tail hpoint rfl rfl)
  | finish panics hpoint hfinish =>
    cases panics <;> exact hafter.goOn rfl trivial

end Tracks

/-! ## The loop has passed a relay -/

/-- The snapshot has the relay as draining. -/
def Notes (relay : RelayId) : Prop := ∀ e ∈ p.enrolled, e.relayId = relay → e.draining = true

/-- The loop will not try the relay before it takes another snapshot. -/
def Passed (relay : RelayId) : Prop :=
  match p.point with
  | .snapshotted => p.Notes relay
  | .refreshed | .regions _ | .retiring .. => p.Notes relay ∨ p.idleSince relay = none
  | .scaling _ _ _ candidates _ => (p.Notes relay ∨ p.idleSince relay = none) ∧ ∀ c ∈ candidates, c.1 ≠ relay
  | _ => True

section Passed

variable {p} {p' : ProvisionLoop}

theorem Passed.not_tries (h : p.Passed relay) (generation : Nat) : ¬ p.Tries relay generation := by
  rintro ⟨region, target, live, candidates, regions, hpoint⟩
  unfold Passed at h
  rw [hpoint] at h
  exact h.2 _ mem_cons_self rfl

theorem Notes.noteDraining (h : p.Notes relay) (other : RelayId) : (p.noteDraining other).Notes relay := by
  intro e' he' hid'
  obtain ⟨e, he, rfl⟩ := mem_map.mp he'
  split
  · rfl
  · rename_i hother
    rw [if_neg hother] at hid'
    exact h e he hid'

theorem notes_noteDraining (relay : RelayId) : (p.noteDraining relay).Notes relay := by
  intro e' he' hid'
  obtain ⟨e, he, rfl⟩ := mem_map.mp he'
  split
  · rfl
  · rename_i hother
    rw [if_neg hother] at hid'
    exact absurd hid' hother

theorem update_eq_none {other : RelayId} (h : p.idleSince relay = none) : update p.idleSince other none relay = none := by
  rw [update_apply]
  split
  · rfl
  · exact h

/-- **The loop does not come back to a relay that is draining.** -/
theorem Passed.step (h : p.Passed relay) {drained : Option RelayId} (hstep : p.LoopStep s l (p', s', l', drained))
    (hdraining : ∀ r, s.registry.registered relay = some r → r.draining = true) : p'.Passed relay := by
  unfold Passed at h
  cases hstep with
  | sleep | leaveRegions | listDraining => trivial
  | snapshot now =>
    intro e he hid
    obtain ⟨r, hr, heq⟩ := s.registry.mem_enrolledRelays.mp he
    rw [heq]
    exact hdraining r (hid ▸ hr)
  | refresh hpoint =>
    rw [hpoint] at h
    exact .inl h
  | age _ hpoint | enterRegion _ hpoint | skip hpoint =>
    rw [hpoint] at h
    exact h
  | mark hpoint hregion haged hretire =>
    rw [hpoint] at h
    exact h.imp (·.noteDraining _) id
  | retire panics hpoint hregion haged hretire =>
    rw [hpoint] at h
    cases panics with
    | true => trivial
    | false => exact h.imp (·.noteDraining _) update_eq_none
  | enterScaling live hpoint hcandidates =>
    rw [hpoint] at h
    refine ⟨h, ?_⟩
    rintro c hc rfl
    rcases hcandidates with rfl | rfl
    · cases hc
    · obtain ⟨e, he, hlive, rfl, hidle⟩ := p.mem_scaleDownCandidates hc
      rcases h with hnotes | hnone
      · cases hlive.symm.trans (hnotes e he rfl)
      · rw [hnone] at hidle
        cases hidle
  | leaveScaling hpoint =>
    rw [hpoint] at h
    exact h.1
  | spare hpoint hdrain =>
    rw [hpoint] at h
    exact ⟨h.1, fun c hc => h.2 c (mem_cons_of_mem _ hc)⟩
  | drain panics hpoint hdrain =>
    rw [hpoint] at h
    cases panics with
    | true => trivial
    | false => exact ⟨h.1.imp id update_eq_none, fun c hc => h.2 c (mem_cons_of_mem _ hc)⟩
  | finish panics hpoint hfinish => cases panics <;> trivial

/-- **A drain passes the relay it drains.** -/
theorem Passed.drained {reg : RelayRegistry} (h : p.Tracks reg)
    (hstep : p.LoopStep s l (p', s', l', some relay)) : p'.Passed relay := by
  cases hstep with
  | retire panics hpoint hregion haged hretire =>
    cases panics with
    | true => trivial
    | false => exact .inl (notes_noteDraining _)
  | drain panics hpoint hdrain =>
    cases panics with
    | true => trivial
    | false =>
      have hplace := h.place
      unfold Place at hplace
      rw [hpoint] at hplace
      refine ⟨.inr (update_self ..), ?_⟩
      rintro c hc rfl
      exact (nodup_cons.mp hplace.1).1 (mem_map.mpr ⟨c, hc, rfl⟩)
  | finish panics hpoint hfinish => cases panics <;> trivial

end Passed

end ProvisionLoop

/-! ## A drained relay -/

namespace CoordinatorTask

variable [DecidableEq δ] (sha256 : Sha256) (tokenHash : String → δ)

/-- Only the loop moves the loop. -/
theorem next_provision {task : CoordinatorTask} (h : ∀ input, task ≠ .reconcile input) (s : CoordinatorState δ) :
    (next sha256 tokenHash task s).1.provision = s.provision := by
  cases task with
  | authorize hello faults now peerIp readFails =>
    show (s.authorize sha256 tokenHash hello faults now peerIp readFails).1.provision = _
    rw [s.authorize_eq]
  | enroll hello readFails =>
    show (s.enroll sha256 hello readFails).1.provision = _
    rcases s.enroll_cases sha256 hello readFails with ⟨close, h⟩ | ⟨enrolled, -, -, h⟩ <;> rw [h]
  | evictEvidence _ _ keys | evict _ _ keys => cases keys <;> rfl
  | retireRelay relay fails now =>
    show (s.retireRelay relay fails now).provision = _
    unfold CoordinatorState.retireRelay
    cases s.ledger <;> rfl
  | reconcile input => exact absurd rfl (h input)
  | _ => rfl

end CoordinatorTask

section Spent

open CoordinatorTask SessionSetup RelayLedger

variable [DecidableEq δ] {sha256 : Sha256} {tokenHash : String → δ} {s : CoordinatorState δ}

theorem Tracks.next (h : s.provision.Tracks s.setup.registry) (task : CoordinatorTask) :
    (next sha256 tokenHash task s).1.provision.Tracks (next sha256 tokenHash task s).1.setup.registry := by
  by_cases hloop : ∃ input, task = .reconcile input
  · obtain ⟨input, rfl⟩ := hloop
    exact s.reconcile_keeps (P := ProvisionLoop.Tracks) input h h.step
  · rw [next_provision sha256 tokenHash (not_exists.mp hloop)]
    refine h.registry (next_registry sha256 tokenHash task s) ?_
    rintro relay generation ⟨hinput, -⟩
    exact absurd hinput hloop

/-- **What a drain leaves behind**: the relay is retired, serves no session, and has no entry but the
    draining one it was drained under. -/
structure Spent (relay : RelayId) (entry : Option Registered) (s : CoordinatorState δ) : Prop where
  retired : ∃ l, s.ledger = some l ∧ l.Valid ∧ l.isRetired relay = true
  unserved : ∀ key, relay ∉ s.setup.servingRelays key
  entry : ∀ r, s.setup.registry.registered relay = some r → entry = some r ∧ r.draining = true
  passed : s.provision.Passed relay

theorem RegistryStep.unchanged {reg reg' : RelayRegistry}
    (hstep : RegistryStep enrolls clears reg reg') (henrolls : ∀ hello, enrolls hello → hello.relayId ≠ relay)
    (hclears : ∀ generation, ¬ clears relay generation) (hdraining : ∀ r, reg.registered relay = some r → r.draining = true)
    {r : Registered} (hr : reg'.registered relay = some r) : reg.registered relay = some r := by
  rcases hstep.entry hr with ⟨hello, henroll, rfl, -⟩ | ⟨r₀, draining, hr₀, rfl, hmark⟩
  · exact absurd rfl (henrolls hello henroll)
  · -- it was draining already
    rcases hmark with rfl | rfl | hclear
    · exact hr₀
    · rw [hr₀, ← hdraining r₀ hr₀]
    · exact absurd hclear (hclears _)

omit [DecidableEq δ] in
/-- **What a drain of the loop does.** -/
theorem ProvisionLoop.LoopStep.drained {p p' : ProvisionLoop} {s : SessionSetup}
    (h : p.LoopStep s l (p', s', l', some relay)) :
    (∃ now, l' = (l.retire false now relay).1) ∧ s.sessionCountForRelay relay = 0 ∧ s'.sessionRelays = s.sessionRelays ∧
      (∃ r, s.registry.registered relay = some r) ∧ ∀ r, s'.registry.registered relay = some r → r.draining = true := by
  have hregistered : ∀ {generation}, (s.registry.markDraining relay generation).2 = true →
    ∃ r, s.registry.registered relay = some r := by
    intro generation hmark
    obtain ⟨r, hr, -⟩ := (s.registry.setDraining_applied true relay generation).mp hmark
    exact ⟨r, hr⟩
  cases h with
  | retire panics hpoint hregion haged hretire =>
    cases hretire with
    | drained hreplaced hmark hidle =>
      exact ⟨⟨_, rfl⟩, hidle, rfl, hregistered hmark, fun r hr => s.registry.draining_of_markDraining hmark hr⟩
  | drain panics hpoint hdrain =>
    cases hdrain with
    | drained hover hmark hidle =>
      exact ⟨⟨_, rfl⟩, hidle, rfl, hregistered hmark, fun r hr => s.registry.draining_of_markDraining hmark hr⟩
  | finish panics hpoint hfinish =>
    cases hfinish with
    | drained hdraining hidle =>
      obtain ⟨r, hr, hat⟩ := Option.any_eq_true _ _ |>.mp hdraining
      refine ⟨⟨_, rfl⟩, hidle, rfl, ⟨r, hr⟩, ?_⟩
      intro r' hr'
      obtain rfl := Option.some.inj (hr.symm.trans hr')
      exact (Bool.and_eq_true_iff.mp hat).2

/-- A relay without sessions is in no serving set. -/
theorem unserved_of_sessionCount {s : SessionSetup} (h : s.sessionCountForRelay relay = 0) (key : SessionKey) :
    relay ∉ s.servingRelays key := by
  intro hserves
  obtain ⟨relays, hget, hmem⟩ := mem_servingRelays.mp hserves
  have hnone := countP_eq_zero.mp h relays (mem_values.mpr ⟨key, hget⟩)
  exact hnone (contains_iff_mem.mpr hmem)

/-- **A drain leaves the relay spent.** -/
theorem Spent.drained {w : CoordinatorWorld δ} (hrowed : Rowed w l)
    (htracks : w.shared.provision.Tracks w.shared.setup.registry) {input : LoopInput}
    (hdrained : (w.shared.reconcile input).2 = some relay) :
    let s := (next sha256 tokenHash (.reconcile input) w.shared).1
    Spent relay (s.setup.registry.registered relay) s := by
  show Spent relay ((w.shared.reconcile input).1.setup.registry.registered relay) (w.shared.reconcile input).1
  obtain ⟨provision, setup, l', drained, hstep, hresult⟩ := w.shared.reconcile_cases input hrowed.ledger
  rw [hresult] at hdrained ⊢
  obtain rfl : drained = some relay := hdrained
  obtain ⟨⟨now, rfl⟩, hidle, hsessions, ⟨r, hr⟩, hdraining⟩ := hstep.drained
  refine ⟨⟨_, rfl, ?_, isRetired_retire now (hrowed.entries relay r hr)⟩, ?_,
    fun r hr => ⟨hr, hdraining r hr⟩, .drained htracks hstep⟩
  · exact (Grows.apply hrowed.valid tokenHash (.retire false now relay)).valid
  · intro key
    refine unserved_of_sessionCount ?_ key
    show setup.sessionRelays.values.countP _ = 0
    rw [hsessions]
    exact hidle

/-- **No piece undoes a drain.** -/
theorem Spent.next {entry : Option Registered} (h : Spent relay entry s) (task : CoordinatorTask) :
    Spent relay entry (next sha256 tokenHash task s).1 := by
  obtain ⟨l, hl, hvalid, hretired⟩ := h.retired
  have hdraining : ∀ r, s.setup.registry.registered relay = some r → r.draining = true := fun r hr => (h.entry r hr).2
  refine ⟨?_, ?_, ?_, ?_⟩
  · obtain ⟨l', hl', hgrows⟩ := next_ledger sha256 tokenHash task hl hvalid
    exact ⟨l', hl', hgrows.valid, hgrows.isRetired hretired⟩
  · intro key hserves
    rcases (next_change sha256 tokenHash task s).newHome hserves with hserved | havailable
    · exact h.unserved key hserved
    · -- it is draining, if it is enrolled at all
      obtain ⟨r, hr, hfree⟩ := s.setup.registry.isAvailable_iff.mp havailable
      cases hfree.symm.trans (hdraining r hr)
  · intro r hr
    refine h.entry r ((next_registry sha256 tokenHash task s).unchanged ?_ ?_ hdraining hr)
    · rintro hello ⟨-, hlive⟩ rfl
      rw [hl] at hlive
      cases hretired.symm.trans hlive
    · rintro generation ⟨-, htries⟩
      exact h.passed.not_tries generation htries
  · by_cases hloop : ∃ input, task = .reconcile input
    · obtain ⟨input, rfl⟩ := hloop
      show (s.reconcile input).1.provision.Passed relay
      obtain ⟨provision, setup, l', drained, hstep, hresult⟩ := s.reconcile_cases input hl
      rw [hresult]
      exact h.passed.step hstep hdraining
    · rw [next_provision sha256 tokenHash (not_exists.mp hloop)]
      exact h.passed

end Spent

/-! ## What is left of a region -/

namespace SessionSetup

/-- **`try_drain_one` leaves a region its target.** -/
theorem TryDrain.target_le {now : U64} {region : RegionId} {target : Nat}
    {drained : Bool} (h : TryDrain s l now region target relay generation (s', l', drained))
    (hfewer : s'.registry.availableInRegion region < s.registry.availableInRegion region) :
    target ≤ s'.registry.availableInRegion region := by
  cases h with
  | left => exact absurd hfewer (lt_irrefl _)
  | spared hover hmark =>
    -- a relay that is spared is available
    refine absurd hfewer (not_lt.mpr (countP_values_mono ?_))
    intro id r hr havailable
    have hregistered := s.registry.registered_spare relay generation id
    rw [show s.registry.registered id = some r from hr, Option.map_some] at hregistered
    refine ⟨_, hregistered, ?_⟩
    split
    · simpa using (Bool.and_eq_true_iff.mp havailable).2
    · exact havailable
  | drained hover hmark hidle =>
    have hone : s.registry.availableInRegion region ≤
      (s.registry.markDraining relay generation).1.availableInRegion region + 1 := by
      refine countP_values_le_succ relay ?_
      intro id r hne hr havailable
      have hregistered := s.registry.registered_setDraining true relay generation id
      rw [show s.registry.registered id = some r from hr, Option.map_some, if_neg fun h => hne h.1] at hregistered
      exact ⟨r, hregistered, havailable⟩
    exact Nat.le_of_lt_succ (lt_of_lt_of_le hover hone)

end SessionSetup

namespace ProvisionLoop

variable (p : ProvisionLoop)

/-- The loop goes by its snapshot. -/
def counting : Bool :=
  match p.point with
  | .sleeping | .bound _ | .finishing _ => false
  | _ => true

/-- As long as the loop goes by its snapshot, the relays of it are where it has them. -/
def Homed (reg : RelayRegistry) : Prop :=
  p.counting = true → ∀ e ∈ p.enrolled, ∀ r, reg.registered e.relayId = some r → r.entry.region = e.region

section Homed

variable {p} {p' : ProvisionLoop} {reg reg' : RelayRegistry}

theorem Homed.registry (h : p.Homed reg) (hstep : RegistryStep enrolls clears reg reg')
    (henrolls : ∀ hello, enrolls hello → p.counting = true → ∀ e ∈ p.enrolled,
      e.relayId = hello.relayId → hello.region = e.region) :
    p.Homed reg' := by
  intro hcounting e he r hr
  rcases hstep.entry hr with ⟨hello, henroll, hid, hentry, -⟩ | ⟨r₀, draining, hr₀, rfl, -⟩
  · rw [hentry]
    exact henrolls hello henroll hcounting e he hid
  · exact h hcounting e he r₀ hr₀

/-- The snapshot is the same but for marks. -/
theorem Homed.goOn (h : p.Homed reg) (hcounting : p'.counting = true → p.counting = true)
    (henrolled : ∀ e' ∈ p'.enrolled, ∃ e ∈ p.enrolled, e'.relayId = e.relayId ∧ e'.region = e.region) : p'.Homed reg := by
  intro hcounting' e' he' r hr
  obtain ⟨e, he, hid, hregion⟩ := henrolled e' he'
  exact (h (hcounting hcounting') e he r (hid ▸ hr)).trans hregion.symm

variable {drained : Option RelayId}

theorem Homed.step (h : p.Homed s.registry)
    (hstep : p.LoopStep s l (p', s', l', drained)) : p'.Homed s'.registry := by
  have hafter : p.Homed s'.registry := h.registry hstep.registry fun _ hfalse => hfalse.elim
  have hunchanged : ∀ e' ∈ p.enrolled, ∃ e ∈ p.enrolled, e'.relayId = e.relayId ∧ e'.region = e.region :=
    fun e he => ⟨e, he, rfl, rfl⟩
  have hnoted : ∀ relay, ∀ e' ∈ (p.noteDraining relay).enrolled, ∃ e ∈ p.enrolled,
    e'.relayId = e.relayId ∧ e'.region = e.region := by
    intro relay e' he'
    obtain ⟨e, he, hid, -, hregion, -⟩ := mem_noteDraining he'
    exact ⟨e, he, hid, hregion⟩
  have hcounting : ∀ {point}, p.point = point → counting { p with point } = true → p.counting = true := by
    rintro _ rfl hcounting
    exact hcounting
  cases hstep with
  | sleep | leaveRegions | listDraining => exact hafter.goOn (fun h => by cases h) hunchanged
  | snapshot now =>
    intro _ e he r hr
    obtain ⟨r', hr', heq⟩ := s.registry.mem_enrolledRelays.mp he
    obtain rfl := Option.some.inj (hr'.symm.trans hr)
    rw [heq]
  | refresh hpoint | age _ hpoint | enterRegion _ hpoint | skip hpoint | enterScaling _ hpoint
  | leaveScaling hpoint | spare hpoint =>
      exact hafter.goOn (fun _ => hcounting hpoint rfl) hunchanged
  | mark hpoint hregion haged hretire => exact hafter.goOn (fun _ => hcounting hpoint rfl) (hnoted _)
  | retire panics hpoint hregion haged hretire =>
    cases panics <;> exact hafter.goOn (fun _ => hcounting hpoint rfl) (hnoted _)
  | drain panics hpoint hdrain =>
    cases panics <;> exact hafter.goOn (fun _ => hcounting hpoint rfl) hunchanged
  | finish panics hpoint hfinish =>
    cases panics <;> exact hafter.goOn (fun h => by cases h) hunchanged

/-- `retire_aged` is at work. -/
def Retiring (p : ProvisionLoop) : Prop :=
  ∃ region target replacements relays regions, p.point = .retiring region target replacements relays regions

/-- **`retire_aged` leaves a relay in the region**, if the relays are where the snapshot has them. -/
theorem LoopStep.another
    (hstep : p.LoopStep s l (p', s', l', drained)) (htracks : p.Tracks s.registry) (hhomed : p.Homed s.registry)
    (hretiring : p.Retiring) {r r' : Registered} (hr : s.registry.registered relay = some r)
    (hfree : r.draining = false) (hr' : s'.registry.registered relay = some r') (hmarked : r'.draining = true) :
    ∃ region other r'', r'.entry.region = some region ∧ other ≠ relay ∧ s'.registry.registered other = some r'' ∧
      r''.draining = false ∧ r''.entry.region = some region := by
  have hsame : s'.registry = s.registry → False := by
    intro hregistry
    rw [hregistry] at hr'
    obtain rfl := Option.some.inj (hr.symm.trans hr')
    cases hfree.symm.trans hmarked
  have hretired : ∀ {region target replacements} {e : EnrolledRelay} {relays regions now tombstoned},
      p.point = .retiring region target replacements (e :: relays) regions → e.region = some region → e.relayId ∈ p.aged →
      SessionSetup.RetireAged s l now replacements e (s', l', some tombstoned) →
      ∃ region other r'', r'.entry.region = some region ∧ other ≠ relay ∧ s'.registry.registered other = some r'' ∧
        r''.draining = false ∧ r''.entry.region = some region := by
    intro region target replacements e relays regions now tombstoned hpoint hregion haged hretire
    have hcounting : p.counting = true := by
      unfold counting
      rw [hpoint]
    obtain ⟨hreplaced, hregistered⟩ :
        (e.draining = true ∨ ∃ id ∈ replacements, s.registry.isAvailable id = true) ∧
          ∀ id, s'.registry.registered id = (s.registry.registered id).map fun r =>
            if id = e.relayId ∧ r.generation = e.generation then { r with draining := true } else r := by
      cases hretire with
      | marked hreplaced | drained hreplaced =>
        exact ⟨hreplaced, s.registry.registered_setDraining true e.relayId e.generation⟩
    -- the relay is the one that was looked at
    rw [hregistered, hr, Option.map_some] at hr'
    have hit : relay = e.relayId ∧ r.generation = e.generation := by
      by_contra hother
      rw [if_neg hother] at hr'
      obtain rfl := Option.some.inj hr'
      cases hfree.symm.trans hmarked
    obtain ⟨rfl, hgeneration⟩ := hit
    rw [if_pos ⟨rfl, hgeneration⟩] at hr'
    obtain rfl := Option.some.inj hr'
    obtain ⟨e₀, he₀, hid₀, hgeneration₀, hregion₀, hdraining₀⟩ := htracks.retiring hpoint
    have hhome : r.entry.region = some region := (hhomed hcounting e₀ he₀ r (hid₀ ▸ hr)).trans (hregion₀.trans hregion)
    rcases hreplaced with hdraining | ⟨id, hid, havailable⟩
    · -- a relay that the snapshot has as draining is not marked anew
      cases hfree.symm.trans (htracks.marked e₀ he₀ (hdraining₀ hdraining) r (hid₀ ▸ hr)
        (hgeneration.trans hgeneration₀.symm))
    · have hplace := htracks.place
      unfold Place at hplace
      rw [hpoint] at hplace
      obtain ⟨hyoung, e₁, he₁, rfl, hregion₁⟩ := hplace.1 id hid
      obtain ⟨r'', hr'', hfree''⟩ := s.registry.isAvailable_iff.mp havailable
      have hne : e₁.relayId ≠ e.relayId := fun heq => hyoung (heq ▸ haged)
      refine ⟨region, e₁.relayId, r'', hhome, hne, ?_, hfree'', (hhomed hcounting e₁ he₁ r'' hr'').trans hregion₁⟩
      rw [hregistered, hr'', Option.map_some, if_neg fun h => hne h.1]
  obtain ⟨region, target, replacements, relays, regions, hpoint⟩ := hretiring
  cases hstep with
  | mark hpoint hregion haged hretire | retire _ hpoint hregion haged hretire => exact hretired hpoint hregion haged hretire
  | spare hpoint' | drain _ hpoint' | finish _ hpoint' => cases hpoint.symm.trans hpoint'
  | _ => exact (hsame rfl).elim

end Homed

end ProvisionLoop

/-! ## Drains in every schedule -/

section Drains

open CoordinatorTask SessionSetup RelayLedger

variable [DecidableEq δ]

/-- A relay that enrolls while the loop goes by its snapshot is in the region the snapshot has it in. -/
def CoordinatorTask.keepsRegion (s : CoordinatorState δ) : CoordinatorTask → Bool
  | enroll hello _ =>
    !s.provision.counting || s.provision.enrolled.all fun e => !(e.relayId == hello.relayId) || hello.region == e.region
  | _ => true

/-- No task starts in its middle. -/
def CoordinatorTask.enters : Move CoordinatorTask → Bool
  | .start task => task.isEntry
  | .advance _ => true

theorem Homed.next {sha256 : Sha256} {tokenHash : String → δ} {s : CoordinatorState δ}
    (h : s.provision.Homed s.setup.registry) {task : CoordinatorTask} (hok : keepsRegion s task = true) :
    (next sha256 tokenHash task s).1.provision.Homed (next sha256 tokenHash task s).1.setup.registry := by
  by_cases hloop : ∃ input, task = .reconcile input
  · obtain ⟨input, rfl⟩ := hloop
    exact s.reconcile_keeps (P := ProvisionLoop.Homed) input h h.step
  · rw [next_provision sha256 tokenHash (not_exists.mp hloop)]
    refine h.registry (next_registry sha256 tokenHash task s) ?_
    rintro hello ⟨⟨readFails, rfl⟩, -⟩ hcounting e he hid
    simp only [keepsRegion, hcounting, Bool.not_true, Bool.false_or, all_eq_true] at hok
    simpa [hid] using hok e he

section Runs

variable (sha256 : Sha256) (tokenHash : String → δ) {w : CoordinatorWorld δ} {moves : List (Move CoordinatorTask)}

theorem Rowed.run (h : Rowed w l) (hentry : ∀ m ∈ moves, enters m = true) :
    ∃ l, Rowed (w.run (next sha256 tokenHash) moves) l := by
  have hobeys : World.Obeys (next sha256 tokenHash) (fun _ m => ∀ task, m = .start task → task.isEntry = true) w moves := by
    refine World.Obeys.of_forall ?_
    rintro m hm task rfl
    exact hentry _ hm
  refine run_invariant (I := fun w => ∃ l, Rowed w l) ?_ ⟨l, h⟩ hobeys
  rintro w m ⟨l, h⟩ hm
  exact h.move hm

theorem ProvisionLoop.Tracks.run (h : w.shared.provision.Tracks w.shared.setup.registry) :
    (w.run (next sha256 tokenHash) moves).shared.provision.Tracks
      (w.run (next sha256 tokenHash) moves).shared.setup.registry :=
  shared_invariant (P := fun s : CoordinatorState δ =>
    s.provision.Tracks s.setup.registry) (fun _ task h => Tracks.next h task) h

/-- A relay that a move has drained is spent from then on. -/
theorem spent_run (hrowed : Rowed w l) (htracks : w.shared.provision.Tracks w.shared.setup.registry)
    {m : Move CoordinatorTask} {input : LoopInput} (hpoint : w.pointOf m = some (.reconcile input))
    (hdrained : (w.shared.reconcile input).2 = some relay) (later : List (Move CoordinatorTask)) :
    Spent relay ((w.run (next sha256 tokenHash) [m]).shared.setup.registry.registered relay)
      ((w.run (next sha256 tokenHash) [m]).run (next sha256 tokenHash) later).shared := by
  refine shared_invariant (fun s task h => Spent.next h task) ?_
  show Spent relay ((w.move (next sha256 tokenHash) m).shared.setup.registry.registered relay)
    (w.move (next sha256 tokenHash) m).shared
  rw [shared_move_of_pointOf hpoint]
  exact .drained hrowed htracks hdrained

end Runs

/-- **A drained relay never serves again.** In every schedule: a relay that a drain has tombstoned is in
    no serving set, then or later, and has no entry but the one it was drained under; `try_drain_one`
    leaves a region its target; and `retire_aged` marks no last relay of a region, as long as relays that
    enroll during a tick are in the region the tick's snapshot has them in. -/
theorem drained_relay_never_serves (sha256 : Sha256) (tokenHash : String → δ) (tenants : TenantStore)
    (firstSessionId : SessionId) (createHold sessionCeiling : Option Nat) (finalizeFeature : Bool) (pairRtts : PairRtts)
    (ops : List LedgerOp) (config : ProvisionConfig) (moves : List (Move CoordinatorTask))
    (hentry : ∀ m ∈ moves, enters m = true) :
    let start : CoordinatorWorld δ :=
      .init (.new (.new .new tenants firstSessionId createHold sessionCeiling finalizeFeature pairRtts)
        (some (ledgerAfter tokenHash ops)) config)
    let s := (start.run (next sha256 tokenHash) moves).shared
    (∀ earlier m later input relay, moves = earlier ++ m :: later →
      (start.run (next sha256 tokenHash) earlier).pointOf m = some (.reconcile input) →
      ((start.run (next sha256 tokenHash) earlier).shared.reconcile input).2 = some relay →
      (∀ key, relay ∉ s.setup.servingRelays key) ∧ ∀ r, s.setup.registry.registered relay = some r →
          (start.run (next sha256 tokenHash) (earlier ++ [m])).shared.setup.registry.registered relay = some r) ∧
    (∀ (setup : SessionSetup) (l : RelayLedger δ) fails now region target relay generation,
      let setup' := (setup.tryDrainOne l fails now region target relay generation).1
      setup'.registry.availableInRegion region < setup.registry.availableInRegion region →
        target ≤ setup'.registry.availableInRegion region) ∧
    (World.Obeys (next sha256 tokenHash) (World.Each keepsRegion) start moves → s.provision.Retiring →
      ∀ input relay r r', s.setup.registry.registered relay = some r → r.draining = false →
        (s.reconcile input).1.setup.registry.registered relay = some r' → r'.draining = true →
        ∃ region other r'', r'.entry.region = some region ∧ other ≠ relay ∧
          (s.reconcile input).1.setup.registry.registered other = some r'' ∧ r''.draining = false ∧
          r''.entry.region = some region) := by
  intro start s
  have hrowed : Rowed start (ledgerAfter tokenHash ops) := by
    refine ⟨rfl, ledgerAfter_valid tokenHash ops, ?_, ?_⟩
    · intro id r hr
      cases hr
    · intro hello readFails hmem
      cases hmem
  have htracks : start.shared.provision.Tracks start.shared.setup.registry := by
    refine ⟨?_, nodup_nil, ?_, ?_, trivial⟩
    · intro id r hr
      cases hr
    · intro e he
      cases he
    · intro e he
      cases he
  refine ⟨?_, ?_, ?_⟩
  · intro earlier m later input relay hmoves hpoint hdrained
    obtain ⟨l, hrowed⟩ := hrowed.run sha256 tokenHash fun m' hm' => hentry m' (hmoves ▸ mem_append_left _ hm')
    have hspent := spent_run sha256 tokenHash hrowed (htracks.run sha256 tokenHash) hpoint hdrained later
    have hs : start.run (next sha256 tokenHash) (earlier ++ m :: later) =
      start.run (next sha256 tokenHash) moves := by rw [hmoves]
    rw [← run_append, ← run_append, append_assoc, singleton_append, hs] at hspent
    exact ⟨hspent.unserved, fun r hr => (hspent.entry r hr).1⟩
  · intro setup l fails now region target relay generation
    exact (setup.tryDrainOne_cases l fails now region target relay generation).target_le
  · intro hobeys hretiring input relay r r' hr hfree hr' hmarked
    have hhomed : s.provision.Homed s.setup.registry := by
      refine shared_invariant_of (P := fun s : CoordinatorState δ => s.provision.Homed s.setup.registry)
        (fun s task hok h => Homed.next h hok) ?_ hobeys
      intro _ e he
      cases he
    obtain ⟨l, hrowed⟩ := hrowed.run sha256 tokenHash hentry
    obtain ⟨provision, setup, l', drained, hstep, hresult⟩ := s.reconcile_cases input hrowed.ledger
    rw [hresult] at hr' ⊢
    exact hstep.another (htracks.run sha256 tokenHash) hhomed hretiring hr hfree hr' hmarked

end Drains

namespace Demo

open CoordinatorTask

/-- Two relays of one region are launched, the second long after the first. -/
def agingOps : List LedgerOp :=
  [.mintAt (some "t") false 0 (some "eu") 9, .mintAt (some "t") false 9 (some "eu") 9,
    .recordTask false 1 "arn" [] [⟨.v4 0, 0⟩], .recordTask false 2 "arn" [] [⟨.v4 0, 0⟩]]

/-- A coordinator that retires relays at the age of 5 seconds. -/
def aging : CoordinatorWorld Unit := .init (.new setup (some (ledgerAfter (fun _ => ()) agingOps)) ⟨["eu", "us"], 0, some 5⟩)

/-- The relays enroll, and the loop comes to `retire_aged` of the region. -/
def retires : List (Move CoordinatorTask) :=
  solo 0 (joins 1) 4 ++ solo 1 (joins 2) 4 ++
    (List.range 4).flatMap fun j => solo (2 + j) (.reconcile ⟨10, 1, false, false, false⟩) 1

/-- The loop's next step. -/
def agingStep : LoopInput := ⟨10, 1, false, false, false⟩

/-- The first relay is marked, and the second is left. -/
theorem retire_aged_leaves_second : ∃ region other r'', other ≠ 1 ∧
    ((go retires aging).shared.reconcile agingStep).1.setup.registry.registered other = some r'' ∧ r''.draining = false ∧
    r''.entry.region = some region := by
  obtain ⟨r, hr, hfree⟩ : ∃ r, (go retires aging).shared.setup.registry.registered 1 = some r ∧ r.draining = false :=
    (isAvailable_iff _).mp (by decide)
  obtain ⟨r', hr', hmarked⟩ : ∃ r', ((go retires aging).shared.reconcile agingStep).1.setup.registry.registered 1 = some r' ∧
      r'.draining = true :=
    Option.any_eq_true _ _ |>.mp
      (show (((go retires aging).shared.reconcile agingStep).1.setup.registry.registered 1).any
        (·.draining) = true by decide)
  obtain ⟨region, other, r'', -, hne, hother, hfree'', hregion⟩ :=
    (drained_relay_never_serves digest (fun _ => ()) (tenants "k") 1 none none false
      (fun _ _ => none) agingOps ⟨["eu", "us"], 0, some 5⟩
      retires (by decide)).2.2 (by decide) ⟨_, _, _, _, _, rfl⟩ agingStep 1 r r' hr hfree hr' hmarked
  exact ⟨region, other, r'', hne, hother, hfree'', hregion⟩

/-- The second relay reconnects, as one of another region. -/
def movesAway : List (Move CoordinatorTask) :=
  solo 6 (.disconnect 2 1) 1 ++
    solo 7 (.authorize { hello 2 [2] [] with region := some "us", enrollToken := some "t" } {} 0 none false) 4

/-- The replacement that `retire_aged` finds is in another region by then: the last available relay of
    the first region is marked. -/
theorem retire_aged_marks_last :
    let s := (go (retires ++ movesAway) aging).shared
    s.setup.registry.availableInRegion "eu" = 1 ∧ s.setup.registry.isAvailable 1 = true ∧
      (s.reconcile agingStep).1.setup.registry.isDrainingAt 1 0 = true ∧
      (s.reconcile agingStep).1.setup.registry.availableInRegion "eu" = 0 := by
  decide

end Demo

end RallyPoint.Coordinator
