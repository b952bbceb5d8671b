import RallyPoint.Relay.Correctness.MakerSteps

/-!
# `Relay.Correctness.Fencing` — a connection generation does not come back

Generations are opaque numbers, so "older" is not a comparison: it is membership in the set of retired
ones. A generation that was down, or was replaced, is behind the fence for good; a slot that has named a
generation no longer answers to calls that name none; and only the current generation can be taken down.

- `visited`: the makers a run passes through, those inside a batch of activations included.
- `Fenced`: the generation is retired, or it is the current one and down. Every change keeps it.
- `Current`: the current generation is not itself retired. Every change keeps it, so a fenced generation
  is never up.
-/

namespace RallyPoint.Relay

open Lib Lib.Trace List MakerOp Option OrdMap

/-- The slot and generation a call admitted. -/
def MakerOp.admittedEpoch : MakerOp → MakerReply → Option (SlotId × Option Nat)
  | activateConnectionEpoch slot epoch, .flag true => some (slot, some epoch)
  | admitConnectionUp slot observed, .flag true => some (slot, observed)
  | resolveReconnectWith slot observed _, .transition ⟨.admitted _, _⟩ => some (slot, observed)
  | _, _ => none

/-- The slot and generation a call took down. -/
def MakerOp.downedEpoch : MakerOp → MakerReply → Option (SlotId × Option Nat)
  | markConnectionDown slot observed, .flag true => some (slot, observed)
  | recordDepartureForEpoch slot _ _ epoch, .flag true => some (slot, epoch)
  | _, _ => none

/-- The call names the generation `epoch` of the slot. -/
def MakerOp.Names (slot : SlotId) (epoch : Nat) : MakerOp → Prop
  | activateConnectionEpoch s e => s = slot ∧ e = epoch
  | admitConnectionUp s observed => s = slot ∧ observed = some epoch
  | resolveReconnectWith s observed _ => s = slot ∧ observed = some epoch
  | markConnectionDown s observed => s = slot ∧ observed = some epoch
  | recordDepartureForEpoch s _ _ e => s = slot ∧ e = some epoch
  | ingestLocal conditions => ∃ c ∈ conditions, SlotId.ofWire c.slot = some slot ∧ c.connectionEpoch.map Fin.val = some epoch
  | _ => False

/-- The makers between the activations of a batch. -/
def DecisionMaker.activationStates (m : DecisionMaker) : List SlotConditions → List DecisionMaker
  | [] => [m]
  | c :: cs => m :: (m.activateLocalEpochs [c]).activationStates cs

/-- The makers a call passes through. Only a batch of activations moves a generation more than once. -/
def MakerOp.visits (m : DecisionMaker) : MakerOp → List DecisionMaker
  | ingestLocal conditions => m.activationStates conditions ++ [m.ingestLocal conditions]
  | op => [(op.apply m).1]

namespace DecisionMaker

/-- The makers a run passes through, in order. -/
def visited (m : DecisionMaker) : List MakerOp → List DecisionMaker
  | [] => [m]
  | op :: ops => m :: op.visits m ++ (op.apply m).1.visited ops

/-- The generation the slot last named. -/
def currentEpoch (m : DecisionMaker) (slot : SlotId) : Option Nat := (m.connectionStates.get? slot).map (·.epoch)

/-- In `history` the generation was down, or was current and then was not. -/
def Spent (history : List DecisionMaker) (slot : SlotId) (e : Nat) : Prop :=
  (∃ m ∈ history, m.connectionStates.get? slot = some (.down e)) ∨
    ∃ m m', [m, m'].Sublist history ∧ m.currentEpoch slot = some e ∧ m'.currentEpoch slot ≠ some e

/-- The generation is behind the fence. -/
def Fenced (m : DecisionMaker) (slot : SlotId) (e : Nat) : Prop :=
  e ∈ m.retiredConnectionEpochs slot ∨ m.connectionStates.get? slot = some (.down e)

/-- A slot's current generation is not retired; without one nothing is. -/
structure Current (m : DecisionMaker) : Prop where
  fresh : ∀ slot state, m.connectionStates.get? slot = some state → state.epoch ∉ m.retiredConnectionEpochs slot
  blank : ∀ slot, m.connectionStates.get? slot = none → m.retiredConnectionEpochs slot = ∅

variable {m m' : DecisionMaker} {slot : SlotId} {e : Nat} {es : List MakerEvent}

theorem create_current (bounds : BufferBounds) (authority : Authority) (observers : Finset SlotId)
    (finalizedDrops rollback : Bool) : Current (create bounds authority observers finalizedDrops rollback) :=
  ⟨nofun, fun _ _ => rfl⟩

/-! ## What one change does to a slot's generations -/

/-- **A change leaves a slot's generations, brings a new one up, or takes the current one down.** -/
theorem Step.connection (hstep : Step m es m') (slot : SlotId) :
    (m'.connectionStates.get? slot = m.connectionStates.get? slot ∧
      m'.retiredConnectionEpochs slot = m.retiredConnectionEpochs slot) ∨
    (∃ epoch, m'.connectionStates.get? slot = some (.up epoch) ∧ m'.retiredConnectionEpochs slot = m.retiredAfter slot ∧
      epoch ∉ m.retiredConnectionEpochs slot ∧ m.currentEpoch slot ≠ some epoch) ∨
    ∃ epoch, m'.connectionStates.get? slot = some (.down epoch) ∧
      m'.retiredConnectionEpochs slot = m.retiredConnectionEpochs slot ∧
      (m.connectionStates.get? slot = none ∨ m.connectionStates.get? slot = some (.up epoch)) := by
  cases hstep with
  | up s epoch hd hu hr hc =>
    by_cases heq : slot = s
    · subst heq
      refine .inr (.inl ⟨epoch, get?_insert_self _ _ _, Function.update_self _ _ _, hr, ?_⟩)
      intro hcurrent
      obtain ⟨state, hstate, hepoch⟩ := map_eq_some_iff.mp hcurrent
      exact hc state hstate hepoch
    · refine .inl ⟨?_, Function.update_of_ne heq _ _⟩
      show (m.connectionStates.insert s (.up epoch)).get? slot = _
      rw [get?_insert, if_neg heq]
  | down s epoch hc =>
    by_cases heq : slot = s
    · subst heq
      exact .inr (.inr ⟨epoch, get?_insert_self _ _ _, rfl, hc⟩)
    · refine .inl ⟨?_, rfl⟩
      show (m.connectionStates.insert s (.down epoch)).get? slot = _
      rw [get?_insert, if_neg heq]
  | _ => exact .inl ⟨rfl, rfl⟩

theorem mem_retiredAfter (h : e ∈ m.retiredConnectionEpochs slot ∨ m.currentEpoch slot = some e) :
    e ∈ m.retiredAfter slot := by
  unfold retiredAfter
  unfold currentEpoch at h
  cases hstate : m.connectionStates.get? slot with
  | none =>
    rw [hstate] at h
    simpa using h
  | some state =>
    rw [hstate] at h
    simp only [map_some, some.injEq] at h
    rw [Finset.mem_insert]
    exact h.symm.imp Eq.symm id

theorem of_mem_retiredAfter (h : e ∈ m.retiredAfter slot) :
    e ∈ m.retiredConnectionEpochs slot ∨ m.currentEpoch slot = some e := by
  unfold retiredAfter at h
  unfold currentEpoch
  cases hstate : m.connectionStates.get? slot with
  | none =>
    rw [hstate] at h
    exact .inl h
  | some state =>
    rw [hstate] at h
    obtain rfl | h := Finset.mem_insert.mp h
    · exact .inr rfl
    · exact .inl h

section Step

variable (hstep : Step m es m')
include hstep

theorem Step.current (h : m.Current) : m'.Current := by
  constructor
  · intro slot state hstate
    rcases hstep.connection slot with ⟨hsame, hretired⟩ | ⟨epoch, hup, hretired, hfresh, hother⟩ |
      ⟨epoch, hdown, hretired, hwas⟩
    · rw [hretired]
      exact h.fresh slot state (hsame ▸ hstate)
    · cases hup.symm.trans hstate
      rw [hretired]
      intro hin
      exact (of_mem_retiredAfter hin).elim hfresh hother
    · cases hdown.symm.trans hstate
      rw [hretired]
      rcases hwas with hnone | hup
      · rw [h.blank slot hnone]
        exact Finset.notMem_empty _
      · exact h.fresh slot (.up epoch) hup
  · intro slot hnone
    rcases hstep.connection slot with ⟨hsame, hretired⟩ | ⟨epoch, hup, _⟩ | ⟨epoch, hdown, _⟩
    · rw [hretired]
      exact h.blank slot (hsame ▸ hnone)
    · cases hup.symm.trans hnone
    · cases hdown.symm.trans hnone

/-- **The fence only moves forward.** -/
theorem Step.fenced (h : m.Fenced slot e) : m'.Fenced slot e := by
  rcases hstep.connection slot with ⟨hsame, hretired⟩ | ⟨epoch, _, hretired, _⟩ | ⟨epoch, hdown, hretired, hwas⟩
  · unfold Fenced
    rwa [hsame, hretired]
  · refine .inl (hretired ▸ mem_retiredAfter (h.imp id fun hdown => ?_))
    rw [currentEpoch, hdown]
    rfl
  · rcases h with h | h
    · exact .inl (hretired ▸ h)
    · rcases hwas with hwas | hwas <;> cases hwas.symm.trans h

/-- A current generation stays current, or goes behind the fence. -/
theorem Step.supersedes (h : m.currentEpoch slot = some e) : m'.currentEpoch slot = some e ∨ m'.Fenced slot e := by
  rcases hstep.connection slot with ⟨hsame, _⟩ | ⟨epoch, _, hretired, _⟩ | ⟨epoch, hdown, _, hwas⟩
  · refine .inl ?_
    unfold currentEpoch
    rw [hsame]
    exact h
  · exact .inr (.inl (hretired ▸ mem_retiredAfter (.inr h)))
  · refine .inl ?_
    unfold currentEpoch at h ⊢
    rcases hwas with hwas | hwas
    · rw [hwas] at h
      cases h
    · rw [hwas] at h
      rw [hdown]
      exact h

/-- A slot that has named a generation keeps naming one. -/
theorem Step.keeps_epoch (h : m.connectionStates.get? slot ≠ none) : m'.connectionStates.get? slot ≠ none := by
  rcases hstep.connection slot with ⟨hsame, _⟩ | ⟨epoch, hup, _⟩ | ⟨epoch, hdown, _⟩
  · rwa [hsame]
  · simp [hup]
  · simp [hdown]

end Step

/-! ## From one maker of a run to a later one -/

/-- `m'` is reached from `m` by changes. -/
def Leads (m m' : DecisionMaker) : Prop := ∃ es, Steps Step m es m'

theorem Leads.refl (m : DecisionMaker) : Leads m m := ⟨[], .refl m⟩

theorem Leads.trans {m'' : DecisionMaker} (h₁ : Leads m m') (h₂ : Leads m' m'') : Leads m m'' :=
  ⟨_, h₁.choose_spec.trans h₂.choose_spec⟩

theorem Leads.keeps {I : DecisionMaker → Prop} (h : Leads m m')
    (hstep : ∀ m e m', Step m e m' → I m → I m') (h0 : I m) : I m' := by
  obtain ⟨es, hsteps⟩ := h
  exact hsteps.keeps (I := fun m _ => I m) (fun m _ e m' hs => hstep m e m' hs) [] h0

theorem leads_apply (op : MakerOp) : Leads m (op.apply m).1 := ⟨_, apply_steps op⟩

/-- The batch goes on from every maker it passes through. -/
theorem activationStates_leads (conditions : List SlotConditions) :
    (m.activationStates conditions).Pairwise Leads ∧
      ∀ s ∈ m.activationStates conditions, Leads m s ∧ Leads s (m.activateLocalEpochs conditions) := by
  induction conditions generalizing m with
  | nil =>
    refine ⟨pairwise_singleton _ _, ?_⟩
    intro s hs
    cases mem_singleton.mp hs
    exact ⟨.refl m, .refl m⟩
  | cons c cs ih =>
    obtain ⟨hpair, hends⟩ := ih (m := m.activateLocalEpochs [c])
    have hfirst : Leads m (m.activateLocalEpochs [c]) := ⟨[], activateLocalEpochs_steps [c]⟩
    constructor
    · exact pairwise_cons.mpr ⟨fun s hs => hfirst.trans (hends s hs).1, hpair⟩
    · intro s hs
      rcases mem_cons.mp hs with rfl | hs
      · exact ⟨.refl _, ⟨[], activateLocalEpochs_steps (c :: cs)⟩⟩
      · exact ⟨hfirst.trans (hends s hs).1, (hends s hs).2⟩

theorem visits_leads (op : MakerOp) : (op.visits m).Pairwise Leads ∧ ∀ s ∈ op.visits m,
    Leads m s ∧ Leads s (op.apply m).1 := by
  cases op with
  | ingestLocal conditions =>
    obtain ⟨hpair, hends⟩ := activationStates_leads (m := m) conditions
    have hlast : ∀ s ∈ m.activationStates conditions, Leads s (m.ingestLocal conditions) :=
      fun s hs => (hends s hs).2.trans ⟨[], ingestSlots_steps conditions⟩
    constructor
    · refine pairwise_append.mpr ⟨hpair, pairwise_singleton _ _, ?_⟩
      intro s hs s' hs'
      cases mem_singleton.mp hs'
      exact hlast s hs
    · intro s hs
      rcases mem_append.mp hs with hs | hs
      · exact ⟨(hends s hs).1, hlast s hs⟩
      · cases mem_singleton.mp hs
        exact ⟨leads_apply (.ingestLocal conditions), .refl _⟩
  | _ =>
    refine ⟨pairwise_singleton _ _, ?_⟩
    intro s hs
    cases mem_singleton.mp hs
    exact ⟨leads_apply _, .refl _⟩

theorem start_mem_visited (m : DecisionMaker) (ops : List MakerOp) : m ∈ m.visited ops := by
  cases ops <;> exact mem_cons_self

theorem after_mem_visited (m : DecisionMaker) (ops : List MakerOp) : m.after ops ∈ m.visited ops := by
  induction ops generalizing m with
  | nil => exact mem_cons_self
  | cons op ops ih =>
    rw [after_cons]
    exact mem_cons_of_mem m (mem_append_right _ (ih _))

/-- **A run goes on from every maker it passes through.** -/
theorem visited_leads (ops : List MakerOp) : (m.visited ops).Pairwise Leads ∧ ∀ s ∈ m.visited ops,
    Leads m s ∧ Leads s (m.after ops) := by
  induction ops generalizing m with
  | nil =>
    refine ⟨pairwise_singleton _ _, ?_⟩
    intro s hs
    cases mem_singleton.mp hs
    exact ⟨.refl m, .refl m⟩
  | cons op ops ih =>
    obtain ⟨hpair, hends⟩ := ih (m := (op.apply m).1)
    obtain ⟨hop, hopEnds⟩ := visits_leads (m := m) op
    have hrest : Leads (op.apply m).1 (m.after (op :: ops)) := by
      rw [after_cons]
      exact (hends _ (start_mem_visited _ ops)).2
    constructor
    · refine pairwise_cons.mpr ⟨?_, pairwise_append.mpr ⟨hop, hpair, ?_⟩⟩
      · intro s hs
        rcases mem_append.mp hs with hs | hs
        · exact (hopEnds s hs).1
        · exact (leads_apply op).trans (hends s hs).1
      · exact fun s hs s' hs' => (hopEnds s hs).2.trans (hends s' hs').1
    · intro s hs
      rcases mem_cons.mp hs with rfl | hs
      · exact ⟨.refl _, (leads_apply op).trans hrest⟩
      · rcases mem_append.mp hs with hs | hs
        · exact ⟨(hopEnds s hs).1, (hopEnds s hs).2.trans hrest⟩
        · rw [after_cons]
          exact ⟨(leads_apply op).trans (hends s hs).1, (hends s hs).2⟩

/-! ## Behind the fence -/

theorem Leads.fenced (h : Leads m m') (hf : m.Fenced slot e) : m'.Fenced slot e := h.keeps (fun _ _ _ hs => hs.fenced) hf

/-- **What was spent is fenced from then on.** -/
theorem fenced_of_spent {ops : List MakerOp} (h : Spent (m.visited ops) slot e) : (m.after ops).Fenced slot e := by
  obtain ⟨hpair, hends⟩ := visited_leads (m := m) ops
  rcases h with ⟨s, hs, hdown⟩ | ⟨s, s', hsub, hcurrent, hother⟩
  · exact (hends s hs).2.fenced (.inr hdown)
  · have hleads : Leads s s' := (pairwise_cons.mp (hpair.sublist hsub)).1 s' mem_cons_self
    have hkept : s'.currentEpoch slot = some e ∨ s'.Fenced slot e :=
      hleads.keeps (I := fun m => m.currentEpoch slot = some e ∨ m.Fenced slot e)
        (fun _ _ _ hs h => h.elim hs.supersedes fun hf => .inr (hs.fenced hf)) (.inl hcurrent)
    exact (hends s' (hsub.subset (by simp))).2.fenced (hkept.resolve_left hother)

theorem Current.not_up (h : m.Current) (hf : m.Fenced slot e) : m.connectionStates.get? slot ≠ some (.up e) := by
  intro hup
  rcases hf with hf | hf
  · exact h.fresh slot _ hup hf
  · cases hup.symm.trans hf

theorem activateConnectionEpoch_fenced (hf : m.Fenced slot e) (h : m.Current) :
    (m.activateConnectionEpoch slot e).2 = false := by
  unfold activateConnectionEpoch
  split
  · rfl
  · split
    · rfl
    · rename_i hretired
      rw [if_neg (h.not_up hf), if_pos (hf.resolve_left hretired)]

theorem connectionActivation_fenced (hf : m.Fenced slot e) : m.connectionActivation slot (some e) = .rejected := by
  unfold connectionActivation
  split
  · rfl
  · split
    · rfl
    · rename_i hretired
      have hdown : m.connectionStates.get? slot = some (.down e) := hf.resolve_left (by simpa using hretired)
      simp [hdown]

/-- A slot that has named a generation rejects a connection that names none. -/
theorem connectionActivation_absent (h : m.connectionStates.get? slot ≠ none) :
    m.connectionActivation slot none = .rejected := by
  obtain ⟨state, hstate⟩ := ne_none_iff_exists'.mp h
  unfold connectionActivation
  split
  · rfl
  · simp [hstate]

variable {observed : Option Nat} {conditions : List SlotConditions} {s : SlotId}

theorem resolveReconnectWith_rejected (h : m.connectionActivation slot observed = .rejected)
    (hold : Bool) : (m.resolveReconnectWith slot observed hold).2.admission = .rejected := by
  unfold resolveReconnectWith
  split
  · rfl
  · split
    · rfl
    · split
      · rfl
      · simp

theorem markConnectionDown_absent (h : m.connectionStates.get? slot ≠ none) :
    m.markConnectionDown slot none = (m, false) := by
  obtain ⟨state, hstate⟩ := ne_none_iff_exists'.mp h
  unfold markConnectionDown
  rw [hstate]
  cases state <;> rfl

/-! ## Calls -/

/-- A generation each of the admitting functions refuses is admitted by no call. -/
theorem not_admittedEpoch
    (hactivate : ∀ epoch, observed = some epoch → (m.activateConnectionEpoch slot epoch).2 = false)
    (hopened : (m.admitConnectionUp slot observed).2 = false)
    (hresolve : ∀ hold, (m.resolveReconnectWith slot observed hold).2.admission = .rejected) (op : MakerOp) :
    op.admittedEpoch (op.apply m).2 ≠ some (slot, observed) := by
  intro h
  cases op with
  | activateConnectionEpoch | admitConnectionUp =>
    simp only [apply, Prod.map, admittedEpoch] at h
    split at h <;> simp_all
  | resolveReconnectWith s o hold =>
    simp only [apply, Prod.map, admittedEpoch] at h
    have hrejected := hresolve hold
    split at h <;> simp_all
  | _ => simp [admittedEpoch] at h

theorem fenced_not_admitted (hf : m.Fenced slot e) (h : m.Current) (op : MakerOp) :
    op.admittedEpoch (op.apply m).2 ≠ some (slot, some e) := by
  refine not_admittedEpoch ?_ ?_ (resolveReconnectWith_rejected (connectionActivation_fenced hf)) op
  · rintro epoch ⟨⟩
    exact activateConnectionEpoch_fenced hf h
  · unfold admitConnectionUp
    split
    · rfl
    · exact activateConnectionEpoch_fenced hf h

theorem absent_not_admitted (h : m.connectionStates.get? slot ≠ none) (op : MakerOp) :
    op.admittedEpoch (op.apply m).2 ≠ some (slot, none) := by
  refine not_admittedEpoch (by simp) ?_ (resolveReconnectWith_rejected (connectionActivation_absent h)) op
  unfold admitConnectionUp
  split
  · rfl
  · simpa [isSome_iff_ne_none] using h

theorem absent_not_downed (h : m.connectionStates.get? slot ≠ none) (op : MakerOp) :
    op.downedEpoch (op.apply m).2 ≠ some (slot, none) := by
  intro hdowned
  have hrefused := markConnectionDown_absent h
  cases op with
  | markConnectionDown s o =>
    simp only [apply, Prod.map, downedEpoch] at hdowned
    split at hdowned <;> simp_all
  | recordDepartureForEpoch s stamps reason o =>
    simp only [apply, Prod.map, downedEpoch, recordDepartureForEpoch] at hdowned
    split at hdowned <;> simp_all
  | _ => simp [downedEpoch] at hdowned

/-! ## Only its own generation takes a link down -/

theorem activateConnectionEpoch_not_down {epoch : Nat} (h : m.connectionStates.get? slot ≠ some (.down e)) :
    (m.activateConnectionEpoch s epoch).1.connectionStates.get? slot ≠ some (.down e) := by
  unfold activateConnectionEpoch
  split
  · exact h
  · split
    · exact h
    · split
      · exact h
      · split
        · exact h
        · show (m.connectionStates.insert s (.up epoch)).get? slot ≠ _
          rw [get?_insert]
          split
          · simp
          · exact h

theorem admitConnectionUp_not_down (h : m.connectionStates.get? slot ≠ some (.down e)) :
    (m.admitConnectionUp s observed).1.connectionStates.get? slot ≠ some (.down e) := by
  unfold admitConnectionUp
  split
  · exact h
  · split
    · exact activateConnectionEpoch_not_down h
    · exact h

theorem resolveReconnectWith_not_down {hold : Bool} (h : m.connectionStates.get? slot ≠ some (.down e)) :
    (m.resolveReconnectWith s observed hold).1.connectionStates.get? slot ≠ some (.down e) := by
  have hrestored : (m.reinstateSlot s).1.connectionStates.get? slot ≠ some (.down e) := by rwa [reinstateSlot_frame.2.1]
  unfold resolveReconnectWith
  iterate 5
    split
    · exact h
  dsimp only
  cases m.departed s with
  | true =>
    simp only [if_true]
    split
    · exact hrestored
    · exact admitConnectionUp_not_down hrestored
  | false => exact admitConnectionUp_not_down h

theorem activateLocalEpochs_not_down (h : m.connectionStates.get? slot ≠ some (.down e)) :
    (m.activateLocalEpochs conditions).connectionStates.get? slot ≠ some (.down e) := by
  induction conditions generalizing m with
  | nil => exact h
  | cons c cs ih =>
    refine ih ?_
    dsimp only
    split
    · split
      · exact activateConnectionEpoch_not_down h
      · exact h
    · exact h

theorem ingestSlots_connectionStates (conditions : List SlotConditions) :
    (m.ingestSlots conditions).connectionStates = m.connectionStates := by
  induction conditions generalizing m with
  | nil => rfl
  | cons c cs ih =>
    refine ih.trans ?_
    dsimp only
    split
    · split <;> rfl
    · rfl

theorem ingestLocal_not_down (h : m.connectionStates.get? slot ≠ some (.down e)) :
    (m.ingestLocal conditions).connectionStates.get? slot ≠ some (.down e) := by
  unfold ingestLocal
  rw [ingestSlots_connectionStates]
  exact activateLocalEpochs_not_down h

/-- **A call that names another generation does not take the current one down.** -/
theorem names_other_not_down {op : MakerOp} {current : Nat} (hnames : op.Names slot e)
    (hup : m.connectionStates.get? slot = some (.up current)) (hother : e ≠ current) :
    (op.apply m).1.connectionStates.get? slot ≠ some (.down current) := by
  have hnotDown : m.connectionStates.get? slot ≠ some (.down current) := by simp [hup]
  have hmark : m.markConnectionDown slot (some e) = (m, false) := by
    unfold markConnectionDown
    simp [hup, hother.symm]
  cases op with
  | activateConnectionEpoch => exact activateConnectionEpoch_not_down hnotDown
  | admitConnectionUp => exact admitConnectionUp_not_down hnotDown
  | resolveReconnectWith => exact resolveReconnectWith_not_down hnotDown
  | ingestLocal => exact ingestLocal_not_down hnotDown
  | markConnectionDown s observed =>
    obtain ⟨rfl, rfl⟩ := hnames
    simpa [apply, hmark] using hnotDown
  | recordDepartureForEpoch s stamps reason observed =>
    obtain ⟨rfl, rfl⟩ := hnames
    simpa [apply, recordDepartureForEpoch, hmark] using hnotDown
  | _ => exact hnames.elim

/-! ## Whole runs -/

/-- **Generations are fenced.** Over any run from a new maker: a generation that was down or was replaced
    is not up in any maker from then on, and no call admits it; a slot that has named a generation
    refuses every admission and every down call that names none; and a call that names another generation
    than the current one does not take that one down. -/
theorem generations_are_fenced (bounds : BufferBounds) (authority : Authority) (observers : Finset SlotId)
    (finalizedDrops rollback : Bool) (earlier later : List MakerOp) (slot : SlotId) :
    let start := create bounds authority observers finalizedDrops rollback
    let m := start.after (earlier ++ later)
    (∀ e, Spent (start.visited earlier) slot e →
      (∀ s ∈ (start.after earlier).visited later, s.connectionStates.get? slot ≠ some (.up e)) ∧
        ∀ op : MakerOp, op.admittedEpoch (op.apply m).2 ≠ some (slot, some e)) ∧
    ((∃ s ∈ start.visited earlier, s.connectionStates.get? slot ≠ none) →
      ∀ op : MakerOp, op.admittedEpoch (op.apply m).2 ≠ some (slot, none) ∧
        op.downedEpoch (op.apply m).2 ≠ some (slot, none)) ∧
    ∀ (op : MakerOp) (e current : Nat), op.Names slot e → m.connectionStates.get? slot = some (.up current) → e ≠ current →
      (op.apply m).1.connectionStates.get? slot ≠ some (.down current) := by
  intro start m
  obtain ⟨_, hearlier⟩ := visited_leads (m := start) earlier
  obtain ⟨_, hlater⟩ := visited_leads (m := start.after earlier) later
  have hcurrent : ∀ s, Leads start s → s.Current :=
    fun s hs => hs.keeps (fun _ _ _ hs => hs.current) (create_current bounds authority observers finalizedDrops rollback)
  have hstart : Leads start (start.after earlier) := (hearlier start (start_mem_visited start earlier)).2
  have hend : Leads (start.after earlier) m := by
    show Leads _ (start.after (earlier ++ later))
    rw [after_append]
    exact (hlater _ (start_mem_visited _ later)).2
  refine ⟨fun e hspent => ⟨fun s hs => ?_, fun op => ?_⟩, ?_, ?_⟩
  · have hleads := (hlater s hs).1
    exact (hcurrent s (hstart.trans hleads)).not_up (hleads.fenced (fenced_of_spent hspent))
  · exact fenced_not_admitted (hend.fenced (fenced_of_spent hspent)) (hcurrent m (hstart.trans hend)) op
  · rintro ⟨s, hs, hnamed⟩ op
    have hkept : m.connectionStates.get? slot ≠ none :=
      ((hearlier s hs).2.trans hend).keeps (fun _ _ _ hs => hs.keeps_epoch) hnamed
    exact ⟨absent_not_admitted hkept op, absent_not_downed hkept op⟩
  · exact fun op e current hnames hup hother => names_other_not_down hnames hup hother

/-- A link drops, a newer one comes back, and the old one is replayed. -/
theorem generations_are_fenced_replay :
    let start := create ⟨1, 8⟩ .peer ∅ false false
    let dropped : List MakerOp := [.admitConnectionUp 3 (some 10),
      .recordDepartureForEpoch 3 {} leaveReasonDropped (some 10)]
    let m := start.after (dropped ++ [.resolveReconnectWith 3 (some 11) true])
    (start.after dropped).connectionStates.get? 3 = some (.down 10) ∧ m.connectionStates.get? 3 = some (.up 11) ∧
      ((m.admitConnectionUp 3 (some 10)).2 = false ∧ (m.markConnectionDown 3 none).2 = false) ∧
      (m.markConnectionDown 3 (some 10)).1.connectionStates.get? 3 ≠ some (.down 11) := by
  intro start dropped m
  have hdown : (start.after dropped).connectionStates.get? 3 = some (.down 10) := by decide +kernel
  have hup : m.connectionStates.get? 3 = some (.up 11) := by decide +kernel
  obtain ⟨hspent, hnamed, hother⟩ := generations_are_fenced ⟨1, 8⟩ .peer ∅ false false dropped
    [.resolveReconnectWith 3 (some 11) true] 3
  have hold := (hspent 10 (.inl ⟨_, after_mem_visited start dropped, hdown⟩)).2 (.admitConnectionUp 3 (some 10))
  have hnone := (hnamed ⟨_, after_mem_visited start dropped, by simp [hdown]⟩ (.markConnectionDown 3 none)).2
  have hkept := hother (.markConnectionDown 3 (some 10)) 10 11 ⟨rfl, rfl⟩ hup (by decide)
  refine ⟨hdown, hup, ⟨?_, ?_⟩, ?_⟩
  · cases hopened : (m.admitConnectionUp 3 (some 10)).2 with
    | false => rfl
    | true => exact absurd (by simp [apply, admittedEpoch, hopened, m, start]) hold
  · cases hmark : (m.markConnectionDown 3 none).2 with
    | false => rfl
    | true => exact absurd (by simp [apply, downedEpoch, hmark, m, start]) hnone
  · rwa [apply, Prod.map_fst, id] at hkept

end DecisionMaker

end RallyPoint.Relay
