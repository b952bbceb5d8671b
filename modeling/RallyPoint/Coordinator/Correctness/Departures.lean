import RallyPoint.Coordinator.Correctness.Lifecycle

/-!
# `Coordinator.Correctness.Departures` — resumed descriptors carry the departures

A departure is recorded under the session lock, and the descriptors of a session that was moved are
staged under the assignment lock.

* `ResumedFrom`, `ResumedAs` — what a call does to the resumed descriptors of a session: each comes from
  one staged before, or they are all built anew from one list.
* `next_departed` — the departures on record change only where a refresh of the descriptors follows, or
  with the session's end.
* `Folded` — the invariant of the world: the resumed descriptors carry what is on record, or a task is
  under way that will see to it.

The eviction of a mismatched session reads the departures before it asks for the assignment lock, so for
it that list must still be the one on record (`readsCurrent`).
-/

namespace RallyPoint.Coordinator

open Lib Proto Option

/-! ## Staged descriptors -/

namespace SessionSetup

/-- The resumed descriptors of the session were there before, with the same departures. -/
def ResumedFrom (s s' : SessionSetup) (key : SessionKey) : Prop :=
  ∀ relay d', s'.descriptors.currentDescriptor relay key = some d' → d'.resumed = true →
    ∃ d, s.descriptors.currentDescriptor relay key = some d ∧ d.resumed = true ∧ d.departedSlots = d'.departedSlots

/-- The resumed descriptors of the session carry these departures. -/
def ResumedAs (s : SessionSetup) (key : SessionKey) (departedSlots : List DepartedSlot) : Prop :=
  ∀ relay d, s.descriptors.currentDescriptor relay key = some d → d.resumed = true → d.departedSlots = departedSlots

/-- The tenants of the sessions that are assigned are known. -/
def TenantsKnown (s : SessionSetup) : Prop :=
  ∀ key relays, s.sessionRelays.get? key = some relays → (s.tenants key.tenant).isSome

section Resumed

variable {s s' s'' : SessionSetup} {key : SessionKey} {departedSlots : List DepartedSlot}

theorem ResumedFrom.refl (s : SessionSetup) (key : SessionKey) : ResumedFrom s s key :=
  fun _ d' hd' hresumed => ⟨d', hd', hresumed, rfl⟩

theorem ResumedFrom.trans (h : ResumedFrom s s' key) (h' : ResumedFrom s' s'' key) : ResumedFrom s s'' key := by
  intro relay d'' hd'' hresumed''
  obtain ⟨d', hd', hresumed', hslots'⟩ := h' relay d'' hd'' hresumed''
  obtain ⟨d, hd, hresumed, hslots⟩ := h relay d' hd' hresumed'
  exact ⟨d, hd, hresumed, hslots.trans hslots'⟩

/-- Nothing is staged that was not. -/
theorem ResumedFrom.of_subset
    (h : ∀ relay d, s'.descriptors.currentDescriptor relay key = some d →
      s.descriptors.currentDescriptor relay key = some d) :
    ResumedFrom s s' key :=
  fun relay d' hd' hresumed => ⟨d', h relay d' hd', hresumed, rfl⟩

theorem ResumedAs.from (h : ResumedAs s key departedSlots) (hfrom : ResumedFrom s s' key) :
    ResumedAs s' key departedSlots := by
  intro relay d' hd' hresumed
  obtain ⟨d, hd, hresumed, hslots⟩ := hfrom relay d' hd' hresumed
  exact hslots.symm.trans (h relay d hd hresumed)

/-- A session that is not assigned has no descriptors. -/
theorem ResumedAs.of_unassigned (hsound : Sound none s) (hnone : s.sessionRelays.get? key = none)
    (departedSlots : List DepartedSlot) : ResumedAs s key departedSlots := by
  intro relay d hd _
  rcases hsound.staged relay key d hd with hserves | ⟨taken, hclosing, -⟩
  · obtain ⟨relays, hget, -⟩ := mem_servingRelays.mp hserves
    cases hnone.symm.trans hget
  · cases hclosing

/-- What is staged anew is not resumed. -/
theorem ResumedFrom.of_staged (h : ∀ relay d, s'.descriptors.currentDescriptor relay key = some d →
    s.descriptors.currentDescriptor relay key = some d ∨ d.resumed = false) : ResumedFrom s s' key := by
  intro relay d' hd' hresumed
  rcases h relay d' hd' with hold | hfresh
  · exact ⟨d', hold, hresumed, rfl⟩
  · cases hfresh.symm.trans hresumed

/-- **A call that stages no resumed descriptor.** -/
theorem ResumedFrom.apply (sha256 : Sha256) (s : SessionSetup) {op : SetupOp} (hresumes : op.resumes = false)
    (key : SessionKey) : ResumedFrom s (s.apply sha256 op).1 key := by
  have hcommit : ∀ (s : SessionSetup) (request : SessionRequest) (placement : Placement),
      ResumedFrom s (s.commitCreate request placement) key := by
    intro s request placement
    refine of_staged fun relay d hd => ?_
    exact ((s.assign request placement).staged_stage _ false [] hd).imp id fun hnew => hnew.2.2
  refine Commits.keeps (P := fun _ s' => ResumedFrom s s' key) ⟨?_, ?_, ?_, ?_, ?_, ?_⟩ (refl s key) ?_
  · intro s₁ s₂ hquiet h
    refine h.trans (of_staged fun relay d hd => ?_)
    exact (hquiet.staged relay key d hd).imp id fun hnew => by simpa [hresumes] using hnew.2
  · intro s₁ request expiresAt policy placement e _ _ _ _ _ h
    exact h.trans (hcommit s₁ request placement)
  · intro s₁ request expiresAt policy placement response _ _ _ _ h
    rw [recordCreate_eq]
    exact h.trans (hcommit s₁ request placement)
  · intro _ _ _ _ _ _ _ _ _ _ _ hop
    cases hresumes.symm.trans hop
  · intro s₁ key' h
    rw [takeSessionMembership_eq]
    exact h
  · intro s₁ key' taken h
    refine h.trans (of_subset fun relay d hd => ?_)
    replace hd := (currentDescriptor_foldl_remove key' s₁.descriptors taken relay key).symm.trans hd
    split at hd
    · cases hd
    · exact hd
  · intro hello draining _ has relay d' hd' hresumed
    rcases has.restaged relay key with ⟨-, hnone⟩ | ⟨d, d'', hd, hd'', periodicEvidence, rfl⟩
    · cases hnone.symm.trans hd'
    · obtain rfl := some.inj (hd''.symm.trans hd')
      exact ⟨d, hd, hresumed, rfl⟩

theorem Calls.resumedFrom {sha256 : Sha256} {allowed : SetupOp → Prop} (h : Calls sha256 allowed s s')
    (hresumes : ∀ op, allowed op → op.resumes = false) (key : SessionKey) : ResumedFrom s s' key :=
  h.keeps (P := fun s' => ResumedFrom s s' key) (.refl s key) fun s' op hop hs =>
    hs.trans (.apply sha256 s' (hresumes op hop) key)

/-- **A re-home leaves the descriptors, or builds them all from what it reads after its hook.** -/
theorem rehomeInner_resumed (sha256 : Sha256) {σ : Type} (hsound : Sound none s)
    (hknown : TenantsKnown s) (view : σ) (key : SessionKey) (dead : RelayId)
    (allowStay : Bool) (readDeparted : σ → List DepartedSlot) (assignmentCommitted : RelayId → σ → σ) (key' : SessionKey) :
    let result := s.rehomeInner sha256 view key dead allowStay readDeparted Prod.mk assignmentCommitted
    ResumedFrom s result.1 key' ∨ key' = key ∧ ResumedAs result.1 key (readDeparted result.2.1) := by
  intro result
  have hcases := s.rehomeInner_cases sha256 key view dead allowStay readDeparted Prod.mk assignmentCommitted
  change RehomeStep sha256 s key view dead allowStay readDeparted Prod.mk assignmentCommitted result at hcases
  generalize result = result at hcases ⊢
  cases hcases with
  | unavailable | stay | recorded | closed => exact .inl (.refl s key')
  | moved newEntry revisions members hrecorded hcandidate hmembers hdead =>
    by_cases hkey : key' = key
    · subst hkey
      refine .inr ⟨rfl, ?_⟩
      intro relay d hd _
      rw [currentDescriptor_commitRehome, if_pos rfl] at hd
      split at hd
      · -- whoever serves has a new descriptor, since the tenant is known
        obtain ⟨tenant, htenant⟩ := isSome_iff_exists.mp (hknown key' members hmembers)
        obtain ⟨built, hbuilt⟩ :=
          (s.moveAssignment sha256 key' dead newEntry revisions members).buildDescriptor_isSome key' true
          (readDeparted (assignmentCommitted newEntry.relayId view)) htenant (OrdMap.get?_insert_self _ _ _) relay
        replace hd : (SessionSetup.buildDescriptor _ key' relay true
          (readDeparted (assignmentCommitted newEntry.relayId view)) <|> _) =
          some d := hd
        rw [hbuilt] at hd
        obtain rfl := some.inj hd
        exact (buildDescriptor_eq_some _ _ _ _ hbuilt).2.2
      · -- whoever does not serve has none
        rename_i hserves
        split at hd
        · cases hd
        · rename_i hne
          rcases hsound.staged relay key' d hd with hmem | ⟨taken, hclosing, -⟩
          · rw [servingRelays_eq hmembers] at hmem
            exact absurd ((mem_moveMembers hdead relay).mpr (.inr ⟨hmem, hne⟩)) hserves
          · cases hclosing
    · left
      refine .of_subset ?_
      intro relay d hd
      rw [currentDescriptor_commitRehome, if_neg hkey] at hd
      exact hd

/-- **A refresh leaves no resumed descriptor of the session with other departures.** -/
theorem refreshResumedDescriptors_resumed (hsound : Sound none s) (hknown : TenantsKnown s)
    (departedSlots : List DepartedSlot) :
    ResumedAs (s.refreshResumedDescriptors key departedSlots) key departedSlots := by
  have hserves : ∀ relay d, s.descriptors.currentDescriptor relay key = some d → relay ∈ s.servingRelays key := by
    intro relay d hd
    rcases hsound.staged relay key d hd with hmem | ⟨taken, hclosing, -⟩
    · exact hmem
    · cases hclosing
  unfold refreshResumedDescriptors
  dsimp only
  split
  · intro relay d hd _
    rw [currentDescriptor_stage] at hd
    split at hd
    · rename_i h
      obtain ⟨relays, hget, -⟩ := mem_servingRelays.mp h.1
      obtain ⟨tenant, htenant⟩ := isSome_iff_exists.mp (hknown key relays hget)
      obtain ⟨built, hbuilt⟩ := s.buildDescriptor_isSome key true departedSlots htenant hget relay
      rw [hbuilt] at hd
      obtain rfl := some.inj hd
      exact (s.buildDescriptor_eq_some _ _ _ hbuilt).2.2
    · rename_i h
      exact absurd ⟨hserves relay d hd, rfl⟩ h
  · rename_i hnone
    intro relay d hd hresumed
    -- the descriptor would have been found
    refine absurd (List.any_eq_true.mpr ⟨relay, hserves relay d hd, List.any_eq_true.mpr ⟨d, ?_, ?_⟩⟩) hnone
    · refine s.descriptors.mem_currentFor.mpr ?_
      rw [s.descriptors.currentDescriptor_key hd]
      exact hd
    · simp [s.descriptors.currentDescriptor_key hd, hresumed]

theorem refreshResumedDescriptors_other {key' : SessionKey} (hkey : key' ≠ key) (departedSlots : List DepartedSlot) :
    ResumedFrom s (s.refreshResumedDescriptors key departedSlots) key' := by
  unfold refreshResumedDescriptors
  dsimp only
  split
  · refine .of_subset ?_
    intro relay d hd
    rw [currentDescriptor_stage, if_neg fun h => hkey h.2] at hd
    exact hd
  · exact .refl s key'

end Resumed

end SessionSetup

/-! ## Departures on record -/

namespace Lifecycle

variable {lc lc' : Lifecycle} {key : SessionKey}

theorem departedSlots_congr (h : (lc'.stateFor key).departures = (lc.stateFor key).departures) :
    lc'.departedSlots key = lc.departedSlots key := by
  have heq : ∀ lc : Lifecycle, lc.departedSlots key = (lc.stateFor key).departures.entries.map fun e =>
      (⟨e.1, e.2.kind, e.2.finalTurnCount, e.2.finalized⟩ : DepartedSlot) := by
    intro lc
    unfold departedSlots stateFor
    cases lc.sessions key <;> rfl
  rw [heq, heq, h]

theorem departedSlots_onRehome (dead rNew : RelayId) (key' : SessionKey) :
    (lc.onRehome key' dead rNew).departedSlots key = lc.departedSlots key := by
  refine departedSlots_congr ?_
  unfold stateFor
  rw [sessions_onRehome]
  split
  · rename_i hkey
    rw [hkey]
    cases lc.sessions key' with
    | none => rfl
    | some st => exact SessionState.rehomed_leaves.2.2
  · rfl

theorem departedSlots_registerSession (key' : SessionKey) (relays : List RelayId) :
    (lc.registerSession key' relays).departedSlots key = lc.departedSlots key := by
  refine departedSlots_congr ?_
  unfold registerSession
  rw [stateFor, sessions_put]
  split
  · rename_i hkey
    rw [hkey]
    rfl
  · rfl

end Lifecycle

/-! ## Pieces -/

namespace CoordinatorTask

open SessionSetup

variable {δ : Type} [DecidableEq δ] (sha256 : Sha256) (tokenHash : String → δ)

variable {task : CoordinatorTask}

/-- **The departures on record change only where a refresh of the descriptors or the session's end
    follows.** -/
theorem next_departed (hresumes : task.resumes = false) (s : CoordinatorState δ) (key : SessionKey) :
    (next sha256 tokenHash task s).1.lifecycle.departedSlots key = s.lifecycle.departedSlots key ∨
      (next sha256 tokenHash task s).1.setup.sessionRelays.get? key = none ∨
      (next sha256 tokenHash task s).2 = .going (.refreshResumed key) ∨
      (next sha256 tokenHash task s).2 = .going (.retireReaped key) := by
  cases task with
  | create request expiresAt policy =>
    left
    show (s.setup.createSession sha256 s.lifecycle request expiresAt policy).2.1.departedSlots key = _
    rcases s.setup.createSession_cases sha256 s.lifecycle request expiresAt policy
      with ⟨-, hlc⟩ | ⟨key', relays, -, hlc | hlc⟩ <;> rw [hlc]
    exact Lifecycle.departedSlots_registerSession key' relays
  | rehome | evictEvidence | rehomeEvicting => cases hresumes
  | _ => exact ((next_keeps sha256 tokenHash rfl s).departures key).imp Lifecycle.departedSlots_congr id

/-- An eviction of a mismatched session has read the departures that are still on record. -/
def readsCurrent (s : CoordinatorState δ) : CoordinatorTask → Bool
  | rehomeEvicting _ _ key departedSlots _ => departedSlots = s.lifecycle.departedSlots key
  | _ => true

/-- What a piece leaves of the agreement between the descriptors and the departures of a session. -/
inductive Folds (s s' : CoordinatorState δ) (progress : Progress CoordinatorTask TaskResult) (key : SessionKey) : Prop where
  | anew (h : ResumedAs s'.setup key (s'.lifecycle.departedSlots key))
  | kept (hfrom : ResumedFrom s.setup s'.setup key) (hsame : s'.lifecycle.departedSlots key = s.lifecycle.departedSlots key)
  | refreshes (h : progress = .going (.refreshResumed key))
  | retires (h : progress = .going (.retireReaped key))

omit [DecidableEq δ] in
/-- A re-home that reads the departures after its hook. -/
theorem Folds.rehomed {s s' : CoordinatorState δ} {progress : Progress CoordinatorTask TaskResult}
    (hsound : Sound none s.setup) (hknown : TenantsKnown s.setup) {key : SessionKey}
    {dead : RelayId} (hsetup : s'.setup = (s.setup.rehomeSession sha256 s.lifecycle key dead).1)
    (hlc : s'.lifecycle = (s.setup.rehomeSession sha256 s.lifecycle key dead).2.1) (key' : SessionKey) :
    Folds s s' progress key' := by
  have hsame : s'.lifecycle.departedSlots key' = s.lifecycle.departedSlots key' := by
    rw [hlc]
    rcases s.setup.rehomeInner_moves sha256 s.lifecycle key dead true (·.departedSlots key)
      fun rNew lc => lc.onRehome key dead rNew
      with ⟨-, hview⟩ | ⟨newEntry, -, members, -, hview⟩
    · exact congrArg (·.departedSlots key') hview
    · exact (congrArg (·.departedSlots key') hview).trans (Lifecycle.departedSlots_onRehome dead newEntry.relayId key)
  rcases s.setup.rehomeInner_resumed sha256 hsound hknown s.lifecycle key dead true (·.departedSlots key)
    (fun rNew lc => lc.onRehome key dead rNew) key' with hfrom | ⟨rfl, has⟩
  · exact .kept (hsetup ▸ hfrom) hsame
  · refine .anew ?_
    rw [hsetup, hlc]
    exact has

theorem next_folds {s : CoordinatorState δ} (hsound : Sound none s.setup) (hknown : TenantsKnown s.setup)
    (hok : readsCurrent s task = true) (key : SessionKey) :
    Folds s (next sha256 tokenHash task s).1 (next sha256 tokenHash task s).2 key := by
  by_cases hresumes : task.resumes = false
  · have hcalls := next_run sha256 tokenHash task s
    rcases next_departed sha256 tokenHash hresumes s key with hsame | hnone | hrefresh | hretire
    · exact .kept (hcalls.resumedFrom (fun op hop => hop.resumes hresumes) key) hsame
    · exact .anew (.of_unassigned (hcalls.sound hsound) hnone _)
    · exact .refreshes hrefresh
    · exact .retires hretire
  cases task with
  | rehome key' dead => exact .rehomed sha256 hsound hknown rfl rfl key
  | evictEvidence relay generation keys mismatched =>
    cases keys with
    | nil => exact .kept (.refl _ key) rfl
    | cons key' keys => exact .rehomed sha256 hsound hknown rfl rfl key
  | rehomeEvicting relay generation key' departedSlots keys =>
    have hread : departedSlots = s.lifecycle.departedSlots key' := by simpa [readsCurrent] using hok
    rcases s.setup.rehomeInner_resumed sha256 hsound hknown () key' relay false (fun _ => departedSlots)
      (fun _ => id) key with
      hfrom | ⟨rfl, has⟩
    · exact .kept hfrom rfl
    · refine .anew ?_
      show ResumedAs _ key (s.lifecycle.departedSlots key)
      rw [← hread]
      exact has
  | refreshResumed key' =>
    by_cases hkey : key = key'
    · subst hkey
      exact .anew (refreshResumedDescriptors_resumed hsound hknown _)
    · exact .kept (refreshResumedDescriptors_other hkey _) rfl
  | _ => exact absurd rfl hresumes

theorem next_tenantsKnown {s : CoordinatorState δ} (h : TenantsKnown s.setup) (task : CoordinatorTask) :
    TenantsKnown (next sha256 tokenHash task s).1.setup := by
  have hmove : ∀ {key dead rNew members}, Moved s.setup (next sha256 tokenHash task s).1.setup key dead rNew members →
      TenantsKnown (next sha256 tokenHash task s).1.setup := by
    intro key dead rNew members hmoved key' relays hget
    rw [hmoved.tenants]
    rw [hmoved.sessionRelays] at hget
    rcases OrdMap.get?_insert_eq_some.mp hget with ⟨rfl, -⟩ | ⟨-, hget⟩
    · exact h _ members hmoved.served
    · exact h key' relays hget
  cases next_change sha256 tokenHash task s with
  | stays loses hstays hkeeps =>
    intro key relays hget
    rw [hstays.tenants]
    exact h key relays (hstays.sessionRelays key relays hget)
  | assigned hassigned hlc =>
    intro key relays hget
    rw [hassigned.tenants]
    rw [hassigned.sessionRelays] at hget
    rcases OrdMap.get?_insert_eq_some.mp hget with ⟨rfl, -⟩ | ⟨-, hget⟩
    · exact hassigned.known
    · exact h key relays hget
  | moved hmoved | evicted _ _ hmoved => exact hmove hmoved

end CoordinatorTask

/-! ## Runs -/

section Runs

open CoordinatorTask SessionSetup

variable {δ : Type} [DecidableEq δ] {sha256 : Sha256} {tokenHash : String → δ}

/-- **Resumed descriptors carry the departures on record**, or a task will see to it. -/
structure Folded (w : CoordinatorWorld δ) : Prop where
  sound : Sound none w.shared.setup
  known : TenantsKnown w.shared.setup
  folded : ∀ key, ResumedAs w.shared.setup key (w.shared.lifecycle.departedSlots key) ∨
    .going (.refreshResumed key) ∈ w.tasks ∨ .going (.retireReaped key) ∈ w.tasks

/-- The piece that sees to it. -/
theorem Folds.of_pending {s : CoordinatorState δ} (hsound : Sound none s.setup) (hknown : TenantsKnown s.setup)
    {task : CoordinatorTask} {key : SessionKey} (hpending : task = .refreshResumed key ∨ task = .retireReaped key) :
    ResumedAs (next sha256 tokenHash task s).1.setup key ((next sha256 tokenHash task s).1.lifecycle.departedSlots key) := by
  rcases hpending with rfl | rfl
  · exact refreshResumedDescriptors_resumed hsound hknown _
  · have hfinished : Finished key (s.setup.closeAndRetire s.lifecycle key) := closeAndRetire_finished
    exact .of_unassigned (hsound.apply sha256 (.retire key)) hfinished.1 _

theorem Folded.move {w : CoordinatorWorld δ} (h : Folded w) {m : Move CoordinatorTask} (hok : w.Each readsCurrent m) :
    Folded (w.move (next sha256 tokenHash) m) := by
  refine World.move_cases m h ?_ ?_
  · intro task _
    refine ⟨h.sound, h.known, ?_⟩
    intro key
    rcases h.folded key with has | hrefresh | hretire
    · exact .inl has
    · exact .inr (.inl (List.mem_append_left _ hrefresh))
    · exact .inr (.inr (List.mem_append_left _ hretire))
  · intro i task _ hpoint hi
    have hread : readsCurrent w.shared task = true := by
      unfold World.Each at hok
      rw [hpoint] at hok
      exact hok
    refine ⟨(next_run sha256 tokenHash task w.shared).sound h.sound, next_tenantsKnown sha256 tokenHash h.known task, ?_⟩
    intro key
    -- a task that stands elsewhere still does
    have hstands : ∀ {pending}, .going pending ∈ w.tasks → task ≠ pending →
        .going pending ∈ w.tasks.set i (next sha256 tokenHash task w.shared).2 := by
      intro pending hmem hne
      refine World.mem_set_of_ne hi hmem ?_
      rintro heq
      exact hne (Progress.going.inj heq).symm
    rcases h.folded key with has | hrefresh | hretire
    · cases next_folds sha256 tokenHash h.sound h.known hread key with
      | anew h => exact .inl h
      | kept hfrom hsame =>
        left
        show ResumedAs _ key ((next sha256 tokenHash task w.shared).1.lifecycle.departedSlots key)
        rw [hsame]
        exact has.from hfrom
      | refreshes h => exact .inr (.inl (h ▸ World.mem_set_self hi))
      | retires h => exact .inr (.inr (h ▸ World.mem_set_self hi))
    · by_cases htask : task = .refreshResumed key
      · exact .inl (Folds.of_pending h.sound h.known (.inl htask))
      · exact .inr (.inl (hstands hrefresh htask))
    · by_cases htask : task = .retireReaped key
      · exact .inl (Folds.of_pending h.sound h.known (.inr htask))
      · exact .inr (.inr (hstands hretire htask))

/-- **Resumed descriptors carry every recorded departure**, in every schedule whose evictions of
    mismatched sessions read the departures still on record when they get the lock: whenever neither a
    departure of the session nor its reap is under way, what is staged of it names the departures on
    record. -/
theorem resumed_descriptors_carry_departures (sha256 : Sha256) (tokenHash : String → δ) (registry : RelayRegistry)
    (tenants : TenantStore) (firstSessionId : SessionId) (createHold sessionCeiling : Option Nat) (finalizeFeature : Bool)
    (pairRtts : PairRtts) (ledger : Option (RelayLedger δ)) (config : ProvisionConfig) (moves : List (Move CoordinatorTask))
    (hobeys : World.Obeys (next sha256 tokenHash) (World.Each readsCurrent)
      (.init (.new (.new registry tenants firstSessionId createHold sessionCeiling finalizeFeature pairRtts)
        ledger config)) moves) :
    let start : CoordinatorWorld δ :=
      .init (.new (.new registry tenants firstSessionId createHold sessionCeiling finalizeFeature pairRtts) ledger config)
    let w := start.run (next sha256 tokenHash) moves
    ∀ key, .going (.refreshResumed key) ∉ w.tasks → .going (.retireReaped key) ∉ w.tasks →
      ∀ relay d, w.shared.setup.descriptors.currentDescriptor relay key = some d → d.resumed = true →
        ∀ departed, departed ∈ d.departedSlots ↔ departed ∈ w.shared.lifecycle.departedSlots key := by
  intro start w key hrefresh hretire relay d hd hresumed departed
  have hsound : Sound none start.shared.setup := .new ..
  have hnone : ∀ key, start.shared.setup.sessionRelays.get? key = none := fun _ => rfl
  have hstart : Folded start := by
    refine ⟨hsound, ?_, fun key => .inl (.of_unassigned hsound (hnone key) _)⟩
    intro key relays hget
    cases (hnone key).symm.trans hget
  have hfolded : Folded w := World.run_invariant (fun _ _ h hok => h.move hok) hstart hobeys
  have has := (hfolded.folded key).resolve_right (by simp [hrefresh, hretire])
  rw [has relay d hd hresumed]

end Runs

namespace Demo

open CoordinatorTask

/-- A slot leaves, the session is moved, and another slot leaves before the first departure is folded in. -/
def departsAround : List (Move CoordinatorTask) :=
  twoRelays ++ [.start (.onDeparture key ⟨0, .left, some 5, false⟩), .advance 3] ++ solo 4 (.disconnect 1 0) 1 ++
    solo 5 (.rehome key 1) 1 ++ solo 6 (.onDeparture key ⟨1, .left, some 7, false⟩) 2 ++ [.advance 3]

/-- Both departures are in the descriptor of the relay that took over. -/
theorem resumed_descriptors_carry_both :
    ∃ d, (go departsAround idle).shared.setup.descriptors.currentDescriptor 2 key = some d ∧ d.resumed = true ∧
      (⟨0, .left, some 5, false⟩ : DepartedSlot) ∈ d.departedSlots ∧
        (⟨1, .left, some 7, false⟩ : DepartedSlot) ∈ d.departedSlots := by
  obtain ⟨d, hd⟩ : ∃ d, (go departsAround idle).shared.setup.descriptors.currentDescriptor 2 key = some d := ⟨_, rfl⟩
  have hresumed : d.resumed = true := by
    have h : ((go departsAround idle).shared.setup.descriptors.currentDescriptor 2 key).map (·.resumed) =
      some true := by decide
    rw [hd] at h
    exact some.inj h
  have hidle : (go departsAround idle).Idle := by decide
  have hcarries := resumed_descriptors_carry_departures digest (fun _ => ()) .new (tenants "k")
    1 none none false (fun _ _ => none)
    none ⟨[], 0, none⟩ departsAround (by decide) key (hidle _) (hidle _) 2 d hd hresumed
  exact ⟨d, hd, hresumed, (hcarries _).mpr (by decide), (hcarries _).mpr (by decide)⟩

/-- Relay 1 enrolls again without what the session needs; a slot leaves between the eviction's read and
    its lock. -/
def departsBeforeEviction : List (Move CoordinatorTask) :=
  twoRelays ++ solo 3 (dials 1 [1] []) 4 ++ solo 4 (.onDeparture key ⟨0, .left, some 5, false⟩) 2 ++ [.advance 3, .advance 3]

/-- No task is under way, and relay 2 holds a resumed descriptor that misses the departure on record. -/
theorem eviction_misses_departure :
    let w := go departsBeforeEviction idle
    w.Idle ∧ (w.shared.setup.descriptors.currentDescriptor 2 key).map (fun d =>
      (d.resumed, d.departedSlots)) = some (true, []) ∧
      w.shared.lifecycle.departedSlots key = [⟨0, .left, some 5, false⟩] := by
  decide

end Demo

end RallyPoint.Coordinator
