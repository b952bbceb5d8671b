import RallyPoint.Coordinator.Correctness.Sessions

/-!
# `Coordinator.Correctness.Rehome` — where a re-home sends its clients

A client that is sent to a relay must find the session there, behind the certificate the session has on
record for it (`Usable`). A fresh move gives such an answer. An answer from the aliases recorded earlier
is looked up by the relay's id alone, so it stays right only as long as the relay an alias names keeps
its certificate: `KeepsPins` is that condition on an enrollment, and `Pinned` the invariant it keeps.
-/

namespace RallyPoint.Coordinator

open Lib Proto Function Option

namespace SessionSetup

variable (sha256 : Sha256)
variable (registry : RelayRegistry) (tenants : TenantStore) (firstSessionId : SessionId)
  (createHold sessionCeiling : Option Nat)
  (finalizeFeature : Bool) (pairRtts : PairRtts)

/-- The answer names a relay that serves the session, under the certificate recorded for it. -/
def Usable (s : SessionSetup) (key : SessionKey) (e : RelayEndpoint) : Prop :=
  e.relayId ∈ s.servingRelays key ∧ ∃ refs, s.sessionRefs key = some refs ∧
    refs.relayCerts e.relayId = some (sha256 e.certDer)

/-- A relay that a recorded re-home names enrolls only under the certificate that the session pinned. -/
def KeepsPins (s : SessionSetup) : SetupOp → Prop
  | .enroll hello =>
    ∀ key dead, s.rehomes key dead = some hello.relayId → s.certMatchesPin sha256 key hello.relayId hello.certDer = true
  | _ => True

/-- **The relay an alias names presents the certificate on record.** -/
structure Pinned (closing : Closing) (s : SessionSetup) : Prop where
  sound : Sound closing s
  pinned : ∀ key dead target refs, s.rehomes key dead = some target → s.sessionRefs key = some refs →
    ∃ fingerprint, refs.relayCerts target = some fingerprint ∧ ∀ e, s.registry.entry target = some e →
      sha256 e.certDer = fingerprint

namespace Pinned

variable {sha256} {closing : Closing} {s : SessionSetup}

theorem new :
    Pinned sha256 none (.new registry tenants firstSessionId createHold sessionCeiling finalizeFeature pairRtts) := by
  refine ⟨.new .., ?_⟩
  intro key dead target refs ht
  cases ht

variable {op : SetupOp}

theorem quiet (h : Pinned sha256 closing s) {s' : SessionSetup} (hquiet : Quiet op s s') : Pinned sha256 closing s' := by
  refine ⟨h.sound.quiet hquiet, ?_⟩
  intro key dead target refs ht hrefs
  rw [hquiet.rehomes] at ht
  rcases hquiet.sessionRefs key with hsame | ⟨old, hold, hnew⟩
  · obtain ⟨fingerprint, hpin, hentry⟩ := h.pinned key dead target refs ht (hsame ▸ hrefs)
    exact ⟨fingerprint, hpin, fun e he => hentry e (hquiet.registry.entry_eq he)⟩
  · obtain rfl := some.inj (hnew.symm.trans hrefs)
    obtain ⟨fingerprint, hpin, hentry⟩ := h.pinned key dead target old ht hold
    exact ⟨fingerprint, hpin, fun e he => hentry e (hquiet.registry.entry_eq he)⟩

/-- A session that is created has no aliases. -/
theorem commitCreate (h : Pinned sha256 none s) {request : SessionRequest} {placement : Placement}
    (hsound : Sound none (s.commitCreate request placement)) : Pinned sha256 none (s.commitCreate request placement) := by
  refine ⟨hsound, ?_⟩
  rw [commitCreate_eq]
  intro key dead target refs ht hrefs
  have hkey : key ≠ ⟨request.tenant, s.nextSession⟩ := by
    rintro rfl
    cases ((h.sound.fresh (le_refl _)).unanswered dead).symm.trans ht
  exact h.pinned key dead target refs ht ((update_of_ne hkey _ _).symm.trans hrefs)

/-- **A move pins the certificate its target presents**, for the aliases that are re-pointed too. -/
theorem commitRehome (h : Pinned sha256 closing s) {σ : Type} (view : σ) {key : SessionKey}
    {dead : RelayId} {newEntry : RelayEntry}
    (revisions : List (SlotId × Nat)) {members : List RelayId} (readDeparted : σ → List DepartedSlot)
    (assignmentCommitted : RelayId → σ → σ) (hmembers : s.sessionRelays.get? key = some members) (hdead : dead ∈ members)
    (hentry : s.registry.entry newEntry.relayId = some newEntry) :
    Pinned sha256 closing (s.commitRehome sha256 view key dead newEntry revisions members
      readDeparted assignmentCommitted).1 := by
  refine ⟨h.sound.commitRehome sha256 view newEntry revisions readDeparted assignmentCommitted hmembers hdead, ?_⟩
  rw [commitRehome_eq]
  have hnew : ∀ refs, ∃ fingerprint, (moveRefs sha256 refs dead newEntry revisions).relayCerts
    newEntry.relayId = some fingerprint ∧
      ∀ e, s.registry.entry newEntry.relayId = some e → sha256 e.certDer = fingerprint := by
    intro refs
    refine ⟨sha256 newEntry.certDer, update_self _ _ _, ?_⟩
    intro e he
    obtain rfl := some.inj (hentry.symm.trans he)
    rfl
  intro key' x target refs ht hrefs
  dsimp only at ht hrefs ⊢
  by_cases hkey : key' = key
  · subst hkey
    rw [update_self] at ht hrefs
    obtain ⟨old, hold, rfl⟩ := map_eq_some_iff.mp hrefs
    by_cases hx : x = dead
    · rw [hx, update_self] at ht
      obtain rfl := some.inj ht
      exact hnew old
    · rw [update_of_ne hx] at ht
      obtain ⟨t, hold', rfl⟩ := map_eq_some_iff.mp ht
      unfold moveTo
      split
      · exact hnew old
      · rename_i hdead
        by_cases htarget : t = newEntry.relayId
        · rw [htarget]
          exact hnew old
        · -- neither left nor chosen: its record is as it was
          obtain ⟨fingerprint, hpin, hpresents⟩ := h.pinned key' x t old hold' hold
          refine ⟨fingerprint, ?_, hpresents⟩
          unfold moveRefs
          dsimp only
          rw [update_of_ne htarget, update_of_ne hdead]
          exact hpin
  · rw [update_of_ne hkey] at ht hrefs
    exact h.pinned key' x target refs ht hrefs

theorem take (h : Pinned sha256 none s) (key : SessionKey) :
    Pinned sha256 (some (key, s.servingRelays key)) (s.takeSessionMembership key).1 := by
  refine ⟨h.sound.take key, ?_⟩
  rw [takeSessionMembership_eq]
  intro key' dead target refs ht hrefs
  dsimp only at ht hrefs ⊢
  have hkey : key' ≠ key := by
    rintro rfl
    rw [update_self] at hrefs
    cases hrefs
  rw [update_of_ne hkey] at hrefs
  exact h.pinned key' dead target refs ht hrefs

theorem drop {key : SessionKey} {taken : List RelayId} (h : Pinned sha256 (some (key, taken)) s) :
    Pinned sha256 none (s.dropTaken key taken) := by
  refine ⟨h.sound.drop, ?_⟩
  intro key' dead target refs ht hrefs
  refine h.pinned key' dead target refs ?_ hrefs
  unfold dropTaken forgetRehomes at ht
  dsimp only at ht
  by_cases hkey : key' = key
  · rw [hkey, update_self] at ht
    cases ht
  · rwa [update_of_ne hkey] at ht

/-- An enrollment under the pinned certificate. -/
theorem enroll (h : Pinned sha256 none s) {hello : RelayHello}
    (hkeeps : s.KeepsPins sha256 (.enroll hello)) {draining : Bool}
    (has : EnrolledAs sha256 s hello draining (s.enrollLocked sha256 hello).1) :
    Pinned sha256 none (s.enrollLocked sha256 hello).1 := by
  refine ⟨h.sound.apply sha256 (.enroll hello), ?_⟩
  have hregistered := has.registered
  rw [has.same]
  intro key dead target refs ht hrefs
  obtain ⟨fingerprint, hpin, hpresents⟩ := h.pinned key dead target refs ht hrefs
  refine ⟨fingerprint, hpin, ?_⟩
  intro e he
  obtain ⟨r, hr, rfl⟩ := map_eq_some_iff.mp he
  replace hr := (hregistered target).symm.trans hr
  split at hr
  · rename_i htarget
    obtain rfl := some.inj hr
    -- the relay the alias names enrolls anew, under the certificate that is pinned
    have hmatch := hkeeps key dead (htarget ▸ ht)
    unfold certMatchesPin at hmatch
    rw [hrefs, bind_some, ← htarget, hpin] at hmatch
    have hsame : fingerprint = sha256 hello.certDer := by simpa using hmatch
    exact hsame.symm
  · exact hpresents r.entry (by rw [RelayRegistry.entry, hr]; rfl)

theorem commits : Commits sha256 op (Pinned sha256) where
  quiet hquiet h := h.quiet hquiet
  unminted hop hreplay hplace htenant hmint h :=
    h.commitCreate ((Sound.commits sha256).unminted hop hreplay hplace htenant hmint h.sound)
  created {s request _ _ placement _} hop hreplay hplace hsession h := by
    obtain ⟨hnonempty, hnodup, -⟩ := placeByRegion_ok hplace
    refine ⟨(Sound.commits sha256).created hop hreplay hplace hsession h.sound, ?_⟩
    rw [recordCreate_eq]
    exact (h.commitCreate (h.sound.commitCreate request hnonempty hnodup)).pinned
  moved view revisions readDeparted assignmentCommitted _ _ hmembers hdead hentry h :=
    h.commitRehome view revisions readDeparted assignmentCommitted hmembers hdead hentry
  take key h := h.take key
  drop h := h.drop

theorem apply (h : Pinned sha256 none s) (op : SetupOp) (hkeeps : s.KeepsPins sha256 op) :
    Pinned sha256 none (s.apply sha256 op).1 := by
  refine commits.keeps h ?_
  rintro hello draining rfl has
  exact h.enroll hkeeps has

theorem run (h : Pinned sha256 none s) {ops : List SetupOp}
    (hobeys : Trace.Obeys (SessionSetup.apply sha256) (KeepsPins sha256) s ops) :
    Pinned sha256 none (s.run sha256 ops).1 :=
  Trace.run_invariant_of_obeys h (fun _ op hs hkeeps => hs.apply op hkeeps) hobeys

end Pinned

section Answers

variable {s : SessionSetup} {key : SessionKey}

variable {dead : RelayId} {e : RelayEndpoint} {σ : Type} {s' : SessionSetup}

/-- An answer from the aliases. -/
theorem recordedRehome_usable (hpinned : Pinned sha256 none s) (h : s.recordedRehome key dead = some e) :
    s.Usable sha256 key e := by
  unfold recordedRehome at h
  obtain ⟨target, htarget, h⟩ := bind_eq_some_iff.mp h
  obtain ⟨entry, hentry, h⟩ := bind_eq_some_iff.mp h
  split at h
  · obtain rfl := some.inj h
    have hid : entry.relayId = target := by
      obtain ⟨r, hr, rfl⟩ := map_eq_some_iff.mp hentry
      exact s.registry.registered_id hr
    have hserving : target ∈ s.servingRelays key := by
      rcases hpinned.sound.aliased key dead target htarget with hserving | ⟨taken, hc⟩
      · exact hserving
      · cases hc
    obtain ⟨relays, hrelays, -⟩ := mem_servingRelays.mp hserving
    obtain ⟨refs, hrefs⟩ : ∃ refs, s.sessionRefs key = some refs := by
      have hsome := hpinned.sound.refs key
      rw [hrelays] at hsome
      exact isSome_iff_exists.mp hsome
    obtain ⟨fingerprint, hpin, hpresents⟩ := hpinned.pinned key dead target refs htarget hrefs
    have hendpoint : entry.endpoint.relayId = target := hid
    refine ⟨hendpoint ▸ hserving, refs, hrefs, ?_⟩
    rw [hendpoint, hpin, ← hpresents entry hentry]
    rfl
  · cases h

/-- The answer of a move. -/
theorem commitRehome_usable (hsound : Sound none s) (view : σ) {newEntry : RelayEntry}
    (revisions : List (SlotId × Nat)) {members : List RelayId} (readDeparted : σ → List DepartedSlot)
    (assignmentCommitted : RelayId → σ → σ) (hmembers : s.sessionRelays.get? key = some members) (hdead : dead ∈ members) :
    (s.commitRehome sha256 view key dead newEntry revisions members readDeparted assignmentCommitted).1.Usable sha256 key
      newEntry.endpoint := by
  rw [commitRehome_eq]
  obtain ⟨refs, hrefs⟩ : ∃ refs, s.sessionRefs key = some refs := by
    have hsome := hsound.refs key
    rw [hmembers] at hsome
    exact isSome_iff_exists.mp hsome
  refine ⟨?_, moveRefs sha256 refs dead newEntry revisions, ?_, update_self _ _ _⟩
  · exact mem_servingRelays.mpr ⟨_, OrdMap.get?_insert_self _ _ _, (mem_moveMembers hdead _).mpr (.inl rfl)⟩
  · dsimp only
    rw [update_self, hrefs]
    rfl

variable {assignmentCommitted : RelayId → σ → σ} {readDeparted : σ → List DepartedSlot} {allowStay : Bool} {view view' : σ}

/-- **Every answer of a re-home is usable**, recorded or new. -/
theorem rehomeInner_usable (hpinned : Pinned sha256 none s)
    (h : s.rehomeInner sha256 view key dead allowStay readDeparted Prod.mk assignmentCommitted = (s', view', .newTarget e)) :
    s'.Usable sha256 key e := by
  have hcases := s.rehomeInner_cases sha256 key view dead allowStay readDeparted Prod.mk assignmentCommitted
  rw [h] at hcases
  cases hcases with
  | recorded _ _ hrecorded => exact recordedRehome_usable sha256 hpinned hrecorded
  | moved newEntry revisions members _ _ hmembers hdead =>
    exact commitRehome_usable sha256 hpinned.sound view revisions readDeparted assignmentCommitted hmembers hdead

/-- **An eviction moves the session**, if no answer is on record for the relay and it is no candidate
    itself. -/
theorem rehomeInner_leaves (hrecorded : s.recordedRehome key dead = none)
    (hcandidates : ∀ c ∈ s.candidates key, c.relayId ≠ dead)
    (h : s.rehomeInner sha256 view key dead allowStay readDeparted Prod.mk assignmentCommitted = (s', view', .newTarget e)) :
    e.relayId ≠ dead ∧ dead ∉ s'.servingRelays key := by
  have hcases := s.rehomeInner_cases sha256 key view dead allowStay readDeparted Prod.mk assignmentCommitted
  rw [h] at hcases
  cases hcases with
  | recorded _ _ hsome => cases hrecorded.symm.trans hsome
  | moved newEntry revisions members _ hcandidate hmembers hdead =>
    have hne : newEntry.relayId ≠ dead := hcandidates newEntry hcandidate
    refine ⟨hne, ?_⟩
    intro hmem
    rw [commitRehome_eq] at hmem
    obtain ⟨relays, hrelays, hmem⟩ := mem_servingRelays.mp hmem
    obtain rfl := some.inj ((OrdMap.get?_insert_self _ _ _).symm.trans hrelays)
    rcases (mem_moveMembers hdead dead).mp hmem with hself | ⟨-, hself⟩
    · exact hne hself.symm
    · exact hself rfl

end Answers

/-- **A re-home answer is usable, and an eviction moves the session**: as long as a relay that a recorded
    re-home names keeps the certificate pinned for it, and for an eviction, if nothing is on record for
    the relay and it is no candidate itself. -/
theorem rehome_answers_usable (ops : List SetupOp) (hpins : Trace.Obeys (apply sha256) (KeepsPins sha256)
      (.new registry tenants firstSessionId createHold sessionCeiling finalizeFeature pairRtts) ops) :
    let s := ((SessionSetup.new registry tenants firstSessionId createHold sessionCeiling finalizeFeature
      pairRtts).run sha256 ops).1
    ∀ key relay departedSlots,
      (∀ e, s.recordedRehome key relay = some e → s.Usable sha256 key e) ∧
      (∀ s' e, s.rehome sha256 key relay departedSlots = (s', .newTarget e) → s'.Usable sha256 key e) ∧
      ∀ s' e, s.rehomeEvicting sha256 key relay departedSlots = (s', .newTarget e) → s'.Usable sha256 key e ∧
        (s.recordedRehome key relay = none → (∀ c ∈ s.candidates key, c.relayId ≠ relay) →
          e.relayId ≠ relay ∧ relay ∉ s'.servingRelays key) := by
  intro s key relay departedSlots
  have hpinned : Pinned sha256 none s :=
    (Pinned.new ..).run hpins
  refine ⟨?_, ?_, ?_⟩
  · intro e he
    exact recordedRehome_usable sha256 hpinned he
  · intro s' e he
    unfold rehome at he
    rcases hinner : s.rehomeInner sha256 () key relay true (fun _ => departedSlots) Prod.mk (fun _ => id)
      with ⟨s₁, u, outcome⟩
    rw [hinner] at he
    obtain ⟨rfl, rfl⟩ : s₁ = s' ∧ outcome = .newTarget e := by simpa using he
    exact rehomeInner_usable sha256 hpinned hinner
  · intro s' e he
    unfold rehomeEvicting at he
    rcases hinner : s.rehomeInner sha256 () key relay false (fun _ => departedSlots) Prod.mk
      (fun _ => id) with ⟨s₁, u, outcome⟩
    rw [hinner] at he
    obtain ⟨rfl, rfl⟩ : s₁ = s' ∧ outcome = .newTarget e := by simpa using he
    refine ⟨rehomeInner_usable sha256 hpinned hinner, ?_⟩
    intro hrecorded hcandidates
    exact rehomeInner_leaves sha256 hrecorded hcandidates hinner

end SessionSetup

namespace Demo

/-- Relay 1 goes and its session moves to relay 2, which comes back without a capability it needs. -/
def movedTwice : List SetupOp :=
  [.enroll (hello 1 [1] [.finalizedDropV1]), .create (request none) 0 .immediate, .enroll (hello 2 [2] [.finalizedDropV1]),
    .disconnect 1 0, .rehome ⟨"t", 1⟩ 1 true [] none, .enroll (hello 3 [3] [.finalizedDropV1]), .enroll (hello 2 [2] [])]

/-- The one alias on record, when the last two relays enroll. -/
theorem aliased_once {key : SessionKey} {dead target : RelayId} {n : Nat} (hn : n = 5 ∨ n = 6)
    (h : (setup.run digest (movedTwice.take n)).1.rehomes key dead = some target) :
    key = ⟨"t", 1⟩ ∧ dead = 1 ∧ target = 2 := by
  have hrehomes : (setup.run digest (movedTwice.take n)).1.rehomes =
      update (fun _ _ => none) ⟨"t", 1⟩ (update (fun _ => none) 1 (some 2)) := by
    rcases hn with rfl | rfl <;> rfl
  rw [hrehomes] at h
  by_cases hkey : key = ⟨"t", 1⟩
  · by_cases hdead : dead = 1
    · subst hkey hdead
      cases h
      exact ⟨rfl, rfl, rfl⟩
    · rw [hkey, update_self, update_of_ne hdead] at h
      cases h
  · rw [update_of_ne hkey] at h
    cases h

/-- The alias of relay 1 is answered with relay 2, under the pinned certificate; relay 2 is evicted to
    relay 3. -/
theorem rehome_answers_usable_evicted :
    let s := (setup.run digest movedTwice).1
    (∃ e, s.recordedRehome ⟨"t", 1⟩ 1 = some e ∧ e.relayId = 2 ∧ s.Usable digest ⟨"t", 1⟩ e) ∧
    ∃ e, (s.rehomeEvicting digest ⟨"t", 1⟩ 2 []).2 = .newTarget e ∧ e.relayId = 3 ∧
      (s.rehomeEvicting digest ⟨"t", 1⟩ 2 []).1.Usable digest ⟨"t", 1⟩ e ∧
      2 ∉ (s.rehomeEvicting digest ⟨"t", 1⟩ 2 []).1.servingRelays ⟨"t", 1⟩ := by
  intro s
  have hanswers := SessionSetup.rehome_answers_usable digest .new (tenants "k") 1 none none
    false (fun _ _ => none) movedTwice ?_ ⟨"t", 1⟩
  · obtain ⟨husable, hleaves⟩ := (hanswers 2 []).2.2 _ _ rfl
    exact ⟨⟨_, rfl, rfl, (hanswers 1 []).1 _ rfl⟩, _, rfl, rfl, husable, (hleaves rfl (by decide)).2⟩
  · refine ⟨?_, trivial, ?_, trivial, trivial, ?_, ?_, trivial⟩
    · intro key dead h
      cases h
    · intro key dead h
      cases h
    · intro key dead h
      obtain ⟨-, -, ⟨⟩⟩ := aliased_once (.inl rfl) h
    · intro key dead h
      obtain ⟨rfl, rfl, -⟩ := aliased_once (.inr rfl) h
      decide

/-- A relay that restarted twice under its id, and lost a capability: the eviction is answered from the
    alias of the first restart. The client is sent to the relay it is evicted from, under a certificate
    that is not the one on record. -/
theorem eviction_answered_by_alias :
    let s :=
      (setup.run digest [.enroll (hello 1 [1] [.finalizedDropV1]), .create (request none) 0 .immediate, .disconnect 1 0,
      .enroll (hello 1 [2] [.finalizedDropV1]), .rehome ⟨"t", 1⟩ 1 true [] none, .disconnect 1 1,
        .enroll (hello 1 [3] [])]).1
    s.mismatched (hello 1 [3] []) = [⟨"t", 1⟩] ∧
      ∃ e, s.recordedRehome ⟨"t", 1⟩ 1 = some e ∧ s.rehome digest ⟨"t", 1⟩ 1 [] = (s, .newTarget e) ∧
        s.rehomeEvicting digest ⟨"t", 1⟩ 1 [] = (s, .newTarget e) ∧ e.relayId = 1 ∧ 1 ∈ s.servingRelays ⟨"t", 1⟩ ∧
        (s.sessionRefs ⟨"t", 1⟩).any (fun refs => refs.relayCerts e.relayId ≠ some (digest e.certDer)) = true := by
  intro s
  exact ⟨by decide, _, rfl, rfl, rfl, rfl, by decide, by decide⟩

end Demo

end RallyPoint.Coordinator
