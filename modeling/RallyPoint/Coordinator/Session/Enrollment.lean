import RallyPoint.Coordinator.Session.Rehome

/-!
# `Coordinator.Session.Enrollment` — a relay enrolls while it may be serving

The part of `enroll` (`coordinator/src/api/control_enroll.rs`) that runs under the assignment lock, as
far as it acts on the session setup: the registry gets the entry, the descriptors of the relay are
restaged under the policy it now supports, and the sessions it no longer fits are listed. They are moved
after the lock is given up.
-/

namespace RallyPoint.Coordinator

open Lib Proto

/-- What an enrollment found. -/
structure Enrolled where
  generation : Nat
  lineage : BootLineage
  /-- Sessions across the finalized-drop boundary, or that roll back on a relay that cannot. -/
  evict : List SessionKey
  /-- Sessions that require evidence the relay no longer gives. -/
  evidenceEvict : List SessionKey

def RelayHello.has (hello : RelayHello) (c : Capability) : Bool := hello.capabilities.contains c

namespace SessionSetup

variable (sha256 : Sha256) (s : SessionSetup) (hello : RelayHello)

/-- The descriptor under the evidence policy of a relay that samples periodically, or does not. -/
def withPolicy (capable : Bool) (d : SessionDescriptor) : SessionDescriptor :=
  { d with periodicEvidence := capable && (s.sessionRefs d.key).any (·.periodicEvidence) }

/-- The restaging loop. -/
def restage (relay : RelayId) : SessionSetup :=
  let capable := (s.registry.entry relay).any (·.has .periodicEvidenceV1)
  { s with
    descriptors := (s.descriptors.currentFor relay).foldl (fun ds d =>
      ds.record relay (s.withPolicy capable d)) s.descriptors }

/-- The sessions staged for a relay that its capabilities no longer fit. -/
def mismatched : List SessionKey :=
  ((s.descriptors.currentFor hello.relayId).filter fun d =>
    (s.sessionCapableCohort d.key).any (· ≠ hello.has .finalizedDropV1) ||
      (d.rollback && !hello.has .rollbackV1)).map (·.key)

/-- The sessions staged for a relay that require evidence, if it gives none. -/
def unevidenced : List SessionKey :=
  if hello.has .evidenceV1 then []
  else ((s.descriptors.currentFor hello.relayId).filter (!·.requiredEvidenceSlots.isEmpty)).map (·.key)

/-- The enrollment under the assignment lock, without the lifecycle. -/
def enrollLocked : SessionSetup × Except EnrollConflict Enrolled :=
  match s.registry.tryEnroll sha256 hello with
  | (_, .error conflict) => (s, .error conflict)
  | (registry, .ok generation) =>
    let (registry, lineage) := registry.noteBootId hello.relayId hello.bootId
    let s := { s with registry }.restage hello.relayId
    let evict := s.mismatched hello
    -- an incapable build must take no new capable work
    let drained :=
      if evict ≠ [] ∧ !hello.has .finalizedDropV1 then
        { s with registry := (s.registry.markDraining hello.relayId generation).1 }
      else s
    (drained, .ok ⟨generation, lineage, evict, drained.unevidenced hello⟩)

/-! ## What restaging keeps -/

section Restage

variable (s : SessionSetup) (relay : RelayId)

/-- A descriptor and its restaged form. -/
def Restaged (d d' : SessionDescriptor) : Prop := ∃ periodicEvidence, d' = { d with periodicEvidence }

theorem restage_foldl (capable : Bool) (ds : RelayDescriptors) (staged : List SessionDescriptor)
    (hstaged : ∀ d ∈ staged, s.descriptors.currentDescriptor relay d.key = some d)
    (hds : ∀ r key, (s.descriptors.currentDescriptor r key = none ∧ ds.currentDescriptor r key = none) ∨
      ∃ d d', s.descriptors.currentDescriptor r key = some d ∧ ds.currentDescriptor r key = some d' ∧ Restaged d d')
    (r : RelayId) (key : SessionKey) :
    (s.descriptors.currentDescriptor r key = none ∧
      (staged.foldl (fun ds d => ds.record relay (s.withPolicy capable d)) ds).currentDescriptor r key = none) ∨
      ∃ d d', s.descriptors.currentDescriptor r key = some d ∧
        (staged.foldl (fun ds d => ds.record relay (s.withPolicy capable d)) ds).currentDescriptor r key = some d' ∧
        Restaged d d' := by
  induction staged generalizing ds with
  | nil => exact hds r key
  | cons d staged ih =>
    refine ih _ (fun d' hd' => hstaged d' (List.mem_cons_of_mem _ hd')) ?_
    intro r key
    rw [RelayDescriptors.currentDescriptor_record]
    split
    · rename_i h
      obtain ⟨rfl, rfl⟩ := h
      exact .inr ⟨d, s.withPolicy capable d, hstaged d List.mem_cons_self, rfl, _, rfl⟩
    · exact hds r key

/-- **Restaging changes nothing but the evidence policy of a descriptor.** -/
theorem currentDescriptor_restage (r : RelayId) (key : SessionKey) :
    (s.descriptors.currentDescriptor r key = none ∧ (s.restage relay).descriptors.currentDescriptor r key = none) ∨
      ∃ d d', s.descriptors.currentDescriptor r key = some d ∧
        (s.restage relay).descriptors.currentDescriptor r key = some d' ∧
        Restaged d d' := by
  refine restage_foldl s relay _ s.descriptors _ ?_ ?_ r key
  · intro d hd
    exact (s.descriptors.mem_currentFor).mp hd
  · intro r key
    cases h : s.descriptors.currentDescriptor r key with
    | none => exact .inl ⟨rfl, rfl⟩
    | some d => exact .inr ⟨d, d, rfl, rfl, d.periodicEvidence, rfl⟩

end Restage

/-! ## What an enrollment does -/

/-- The setup after an enrollment: the relay has a fresh entry, and its descriptors are restaged. -/
structure EnrolledAs (s : SessionSetup) (hello : RelayHello) (draining : Bool) (s' : SessionSetup) : Prop where
  same : s' = { s with registry := s'.registry, descriptors := s'.descriptors }
  registered : ∀ id, s'.registry.registered id =
    if id = hello.relayId then some ⟨hello.entry, s.registry.nextGeneration, sha256 hello.certDer, draining⟩
    else s.registry.registered id
  nextGeneration : s'.registry.nextGeneration = s.registry.nextGeneration + 1
  restaged : ∀ r key,
    (s.descriptors.currentDescriptor r key = none ∧ s'.descriptors.currentDescriptor r key = none) ∨
      ∃ d d', s.descriptors.currentDescriptor r key = some d ∧
        s'.descriptors.currentDescriptor r key = some d' ∧ Restaged d d'

/-- **An enrollment is refused and changes nothing, or installs the relay.** -/
theorem enrollLocked_cases : (∃ conflict, s.enrollLocked sha256 hello = (s, .error conflict)) ∨
      ∃ enrolled draining, (s.enrollLocked sha256 hello).2 = .ok enrolled ∧ enrolled.generation = s.registry.nextGeneration ∧
        EnrolledAs sha256 s hello draining (s.enrollLocked sha256 hello).1 := by
  unfold enrollLocked RelayRegistry.tryEnroll
  split_ifs
  · exact .inl ⟨_, rfl⟩
  · refine .inr ?_
    dsimp only
    set registry := ((s.registry.insertLocked sha256 hello).1.noteBootId hello.relayId hello.bootId).1 with hregistry
    have hregistered : ∀ id, registry.registered id =
        if id = hello.relayId then some ⟨hello.entry, s.registry.nextGeneration, sha256 hello.certDer, false⟩
        else s.registry.registered id := fun _ => RelayRegistry.registered_put _ _ _
    have hrestaged := currentDescriptor_restage { s with registry } hello.relayId
    split_ifs
    · refine ⟨_, true, rfl, rfl, rfl, ?_, ?_, hrestaged⟩
      · intro id
        refine (registry.registered_setDraining true hello.relayId s.registry.nextGeneration id).trans ?_
        rw [hregistered]
        by_cases hid : id = hello.relayId
        · simp [hid]
        · cases s.registry.registered id <;> simp [hid]
      · exact registry.nextGeneration_setDraining true hello.relayId s.registry.nextGeneration
    · exact ⟨_, false, rfl, rfl, rfl, hregistered, rfl, hrestaged⟩

end SessionSetup

end RallyPoint.Coordinator
