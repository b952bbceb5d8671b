import RallyPoint.Coordinator.Session.Runs

/-!
# `Coordinator.Correctness.Sessions` — the maps over sessions agree

`Sound` is the relation between the maps while the assignment lock is free: a session is assigned exactly
when something is recorded of it, under an id that was issued; whoever has its descriptor staged serves
it, and so does whoever answers for a relay it was moved off. A close that has begun is exempted by name,
so that the same lemmas serve in the middle of a re-home.

* `Sound.commitCreate`, `Sound.commitRehome`, `Sound.take`, `Sound.drop` — what each commit does to it;
* `Sound.apply`, `Sound.run` — the step and the run;
* `Gone` — nothing of a session is left, and `Gone.run`: of an id that was issued nothing comes back.
-/

namespace RallyPoint.Coordinator

open Lib Proto Function OrdMap Option

/-! ## Moves -/

section Move

variable {dead rNew : RelayId} {members : List RelayId}

/-- **Who serves after a move**: the replacement, and everyone else. -/
theorem mem_moveMembers (hdead : dead ∈ members) (id : RelayId) :
    id ∈ moveMembers dead rNew members ↔ id = rNew ∨ id ∈ members ∧ id ≠ dead := by
  unfold moveMembers
  by_cases hsame : dead = rNew
  · rw [if_pos hsame]
    subst hsame
    by_cases hid : id = dead
    · simp [hid, hdead]
    · simp [hid]
  rw [if_neg hsame]
  by_cases hnew : rNew ∈ members
  · rw [if_pos hnew, List.mem_filter]
    by_cases hid : id = rNew
    · subst hid
      simpa [hnew] using Ne.symm hsame
    · simp [hid]
  · rw [if_neg hnew, List.mem_map]
    unfold moveTo
    constructor
    · rintro ⟨x, hx, rfl⟩
      split
      · exact .inl rfl
      · rename_i hne
        exact .inr ⟨hx, hne⟩
    · rintro (rfl | ⟨hid, hne⟩)
      · exact ⟨dead, hdead, if_pos rfl⟩
      · exact ⟨id, hid, if_neg hne⟩

theorem moveMembers_ne_nil (hdead : dead ∈ members) : moveMembers dead rNew members ≠ [] :=
  List.ne_nil_of_mem ((mem_moveMembers hdead rNew).mpr (.inl rfl))

theorem moveMembers_nodup (hnodup : members.Nodup) : (moveMembers dead rNew members).Nodup := by
  unfold moveMembers
  split
  · exact hnodup
  · split
    · exact hnodup.filter _
    · rename_i hnew
      refine (List.nodup_map_iff_inj_on hnodup).mpr ?_
      intro x hx y hy hxy
      unfold moveTo at hxy
      split at hxy <;> split at hxy
      · rename_i hxd hyd
        rw [hxd, hyd]
      · exact absurd (hxy ▸ hy) hnew
      · exact absurd (hxy ▸ hx) hnew
      · exact hxy

end Move

namespace SessionSetup

/-- **How the maps over sessions fit together.** -/
structure Sound (closing : Closing) (s : SessionSetup) : Prop where
  /-- Ids are issued in order. -/
  issued : ∀ key relays, s.sessionRelays.get? key = some relays → key.session < s.nextSession
  serving : ∀ key relays, s.sessionRelays.get? key = some relays → relays ≠ [] ∧ relays.Nodup
  /-- Membership and refs come and go together. -/
  refs : ∀ key, (s.sessionRefs key).isSome = (s.sessionRelays.get? key).isSome
  staged : ∀ relay key d, s.descriptors.currentDescriptor relay key = some d →
    relay ∈ s.servingRelays key ∨ ∃ taken, closing = some (key, taken) ∧ relay ∈ taken
  aliased : ∀ key dead target, s.rehomes key dead = some target → target ∈ s.servingRelays key ∨
    ∃ taken, closing = some (key, taken)
  closed : ∀ key taken, closing = some (key, taken) → s.sessionRelays.get? key = none

theorem mem_servingRelays {s : SessionSetup} {key : SessionKey} {relay : RelayId} :
    relay ∈ s.servingRelays key ↔ ∃ relays, s.sessionRelays.get? key = some relays ∧ relay ∈ relays := by
  unfold servingRelays
  cases s.sessionRelays.get? key <;> simp

theorem servingRelays_eq {s : SessionSetup} {key : SessionKey} {relays : List RelayId}
    (h : s.sessionRelays.get? key = some relays) : s.servingRelays key = relays := by
  unfold servingRelays
  rw [h]
  rfl

/-- Nothing is left of a session: not staged, not served, not recorded, and nobody is sent anywhere. -/
structure Gone (s : SessionSetup) (key : SessionKey) : Prop where
  unassigned : s.sessionRelays.get? key = none
  forgotten : s.sessionRefs key = none
  unstaged : ∀ relay, s.descriptors.currentDescriptor relay key = none
  unanswered : ∀ dead, s.rehomes key dead = none

namespace Sound

variable {closing : Closing} {s s' : SessionSetup} {key : SessionKey}

/-- What has no part in the relation may change, and a serving relay may have its descriptor staged. -/
theorem of_same (h : Sound closing s) (hnext : s'.nextSession = s.nextSession) (hrelays : s'.sessionRelays = s.sessionRelays)
    (hrefs : ∀ key, (s'.sessionRefs key).isSome = (s.sessionRefs key).isSome) (hrehomes : s'.rehomes = s.rehomes)
    (hstaged : ∀ relay key d, s'.descriptors.currentDescriptor relay key = some d →
      (∃ d, s.descriptors.currentDescriptor relay key = some d) ∨ relay ∈ s.servingRelays key) : Sound closing s' := by
  have hserving : s'.servingRelays = s.servingRelays := by
    funext key
    unfold servingRelays
    rw [hrelays]
  constructor
  · rw [hrelays, hnext]
    exact h.issued
  · rw [hrelays]
    exact h.serving
  · intro key
    rw [hrefs, hrelays]
    exact h.refs key
  · intro relay key d hd
    rw [hserving]
    rcases hstaged relay key d hd with ⟨d, hd⟩ | hserves
    · exact h.staged relay key d hd
    · exact .inl hserves
  · rw [hrehomes, hserving]
    exact h.aliased
  · rw [hrelays]
    exact h.closed

variable {placement : Placement} {op : SetupOp}

theorem quiet (h : Sound closing s) (hquiet : Quiet op s s') : Sound closing s' := by
  refine h.of_same hquiet.nextSession hquiet.sessionRelays ?_ hquiet.rehomes ?_
  · intro key
    rcases hquiet.sessionRefs key with hsame | ⟨refs, hold, hnew⟩
    · rw [hsame]
    · rw [hold, hnew]
      rfl
  · intro relay key d hd
    exact (hquiet.staged relay key d hd).imp (fun hold => ⟨d, hold⟩) And.left

/-- Of a session that is not assigned, nothing is left. -/
theorem gone (h : Sound none s) (hnone : s.sessionRelays.get? key = none) : Gone s key := by
  have hserving : s.servingRelays key = [] := by
    unfold servingRelays
    rw [hnone]
    rfl
  refine ⟨hnone, ?_, ?_, ?_⟩
  · have hrefs := h.refs key
    rw [hnone] at hrefs
    simpa using hrefs
  · intro relay
    cases hd : s.descriptors.currentDescriptor relay key with
    | none => rfl
    | some d =>
      rcases h.staged relay key d hd with hmem | ⟨taken, hc, -⟩
      · simp [hserving] at hmem
      · cases hc
  · intro dead
    cases ht : s.rehomes key dead with
    | none => rfl
    | some target =>
      rcases h.aliased key dead target ht with hmem | ⟨taken, hc⟩
      · simp [hserving] at hmem
      · cases hc

/-- Whatever is recorded is served. -/
theorem live (h : Sound closing s) (hrefs : (s.sessionRefs key).isSome) : s.servingRelays key ≠ [] := by
  rw [h.refs key] at hrefs
  obtain ⟨relays, hrelays⟩ := isSome_iff_exists.mp hrefs
  rw [servingRelays_eq hrelays]
  exact (h.serving key relays hrelays).1

/-- Nothing is known of an id that is still to be issued. -/
theorem fresh (h : Sound none s) (hfresh : s.nextSession ≤ key.session) : Gone s key := by
  refine h.gone ?_
  cases hget : s.sessionRelays.get? key with
  | none => rfl
  | some relays => exact absurd (h.issued key relays hget) (Nat.not_lt.mpr hfresh)

/-! ### Commits -/

/-- A create takes the next id. -/
theorem assign (h : Sound none s) (request : SessionRequest)
    (hnonempty : placement.relayIds ≠ []) (hnodup : placement.relayIds.Nodup) : Sound none (s.assign request placement) := by
  obtain ⟨-, -, hstaged, hrehomes⟩ : Gone s ⟨request.tenant, s.nextSession⟩ := h.fresh (le_refl _)
  have hget : ∀ key, (s.assign request placement).sessionRelays.get? key =
      if key = ⟨request.tenant, s.nextSession⟩ then some placement.relayIds else s.sessionRelays.get? key :=
    fun key => get?_insert _ _ _ _
  have hserving : ∀ key, key ≠ ⟨request.tenant, s.nextSession⟩ →
    (s.assign request placement).servingRelays key = s.servingRelays key := by
    intro key hkey
    unfold servingRelays
    rw [hget, if_neg hkey]
  constructor
  · intro key relays hrelays
    rw [hget] at hrelays
    split at hrelays
    · rename_i hkey
      rw [hkey]
      exact Nat.lt_succ_self _
    · exact Nat.lt_succ_of_lt (h.issued key relays hrelays)
  · intro key relays hrelays
    rw [hget] at hrelays
    split at hrelays
    · obtain rfl := some.inj hrelays
      exact ⟨hnonempty, hnodup⟩
    · exact h.serving key relays hrelays
  · intro key
    rw [hget]
    unfold SessionSetup.assign
    dsimp only
    by_cases hkey : key = ⟨request.tenant, s.nextSession⟩
    · simp [hkey]
    · rw [update_of_ne hkey, if_neg hkey]
      exact h.refs key
  · intro relay key d hd
    have hkey : key ≠ ⟨request.tenant, s.nextSession⟩ := by
      rintro rfl
      cases (hstaged relay).symm.trans hd
    rw [hserving key hkey]
    exact h.staged relay key d hd
  · intro key dead target ht
    have hkey : key ≠ ⟨request.tenant, s.nextSession⟩ := by
      rintro rfl
      cases (hrehomes dead).symm.trans ht
    rw [hserving key hkey]
    exact h.aliased key dead target ht
  · intro key taken hc
    cases hc

theorem commitCreate (h : Sound none s) (request : SessionRequest)
    (hnonempty : placement.relayIds ≠ []) (hnodup : placement.relayIds.Nodup) :
    Sound none (s.commitCreate request placement) := by
  have hstaged : Quiet (.measure s.pairRtts) (s.assign request placement) (s.commitCreate request placement) := by
    refine quiet_stage _ _ [] ?_ (by simp)
    intro relay hrelay
    exact mem_servingRelays.mpr ⟨_, get?_insert_self _ _ _, hrelay⟩
  exact (h.assign request hnonempty hnodup).quiet hstaged

/-- A session that is assigned is not closing. -/
theorem not_closing (h : Sound closing s) {members : List RelayId} (hmembers : s.sessionRelays.get? key = some members)
    (taken : List RelayId) : closing ≠ some (key, taken) := by
  intro hc
  cases hmembers.symm.trans (h.closed key taken hc)

section Move

variable {dead rNew : RelayId} {members : List RelayId} (hmembers : s.sessionRelays.get? key = some members)
  (hdead : dead ∈ members)

include hmembers hdead

theorem mem_moveMembers_of_serving {id : RelayId} (hid : id ∈ s.servingRelays key) (hne : id ≠ dead) :
    id ∈ moveMembers dead rNew members := by
  rw [servingRelays_eq hmembers] at hid
  exact (mem_moveMembers hdead id).mpr (.inr ⟨hid, hne⟩)

/-- A relay that is still staged serves after the move. -/
theorem staged_moved (h : Sound closing s) {relay : RelayId} {d : SessionDescriptor}
    (hd : (if relay = dead then none else s.descriptors.currentDescriptor relay key) = some d) :
    relay ∈ moveMembers dead rNew members := by
  split at hd
  · cases hd
  · rename_i hne
    rcases h.staged relay key d hd with hserving | ⟨taken, hc, -⟩
    · exact mem_moveMembers_of_serving hmembers hdead hserving hne
    · exact absurd hc (h.not_closing hmembers taken)

/-- A relay that answers for another serves after the move: an alias of the relay that was left is
    re-pointed. -/
theorem aliased_moved (h : Sound closing s) {x target : RelayId}
    (ht : update (fun x => (s.rehomes key x).map (moveTo dead rNew)) dead (some rNew) x = some target) :
    target ∈ moveMembers dead rNew members := by
  by_cases hx : x = dead
  · rw [hx, update_self] at ht
    obtain rfl := some.inj ht
    exact (mem_moveMembers hdead _).mpr (.inl rfl)
  rw [update_of_ne hx] at ht
  obtain ⟨t, hold, rfl⟩ := map_eq_some_iff.mp ht
  unfold moveTo
  split
  · exact (mem_moveMembers hdead _).mpr (.inl rfl)
  · rename_i hne
    rcases h.aliased key x t hold with hserving | ⟨taken, hc⟩
    · exact mem_moveMembers_of_serving hmembers hdead hserving hne
    · exact absurd hc (h.not_closing hmembers taken)

end Move

/-- **A move keeps the maps together**: whoever was staged or answered for another serves after it. -/
theorem commitRehome (h : Sound closing s) (sha256 : Sha256) {σ : Type} (view : σ) {dead : RelayId}
    (newEntry : RelayEntry) (revisions : List (SlotId × Nat)) {members : List RelayId} (readDeparted : σ → List DepartedSlot)
    (assignmentCommitted : RelayId → σ → σ) (hmembers : s.sessionRelays.get? key = some members) (hdead : dead ∈ members) :
    Sound closing (s.commitRehome sha256 view key dead newEntry revisions members readDeparted assignmentCommitted).1 := by
  have hstaged := s.currentDescriptor_commitRehome sha256 view key dead newEntry revisions
    members readDeparted assignmentCommitted
  have heq := s.commitRehome_eq sha256 view key dead newEntry revisions members readDeparted assignmentCommitted
  generalize (s.commitRehome sha256 view key dead newEntry revisions members readDeparted
    assignmentCommitted).1 = s' at hstaged heq ⊢
  have hget : ∀ key', s'.sessionRelays.get? key' =
      if key' = key then some (moveMembers dead newEntry.relayId members) else s.sessionRelays.get? key' := by
    intro key'
    rw [heq]
    exact get?_insert _ _ _ _
  have hnext : s'.nextSession = s.nextSession := by rw [heq]
  have hself : s'.servingRelays key = moveMembers dead newEntry.relayId members :=
    servingRelays_eq (by rw [hget, if_pos rfl])
  have hother : ∀ key', key' ≠ key → s'.servingRelays key' = s.servingRelays key' := by
    intro key' hkey
    unfold servingRelays
    rw [hget, if_neg hkey]
  constructor
  · intro key' relays hrelays
    rw [hget] at hrelays
    rw [hnext]
    split at hrelays
    · rename_i hkey
      rw [hkey]
      exact h.issued key members hmembers
    · exact h.issued key' relays hrelays
  · intro key' relays hrelays
    rw [hget] at hrelays
    split at hrelays
    · obtain rfl := some.inj hrelays
      exact ⟨moveMembers_ne_nil hdead, moveMembers_nodup (h.serving key members hmembers).2⟩
    · exact h.serving key' relays hrelays
  · intro key'
    rw [hget, heq]
    dsimp only
    by_cases hkey : key' = key
    · rw [hkey, update_self, if_pos rfl, isSome_map, h.refs key, hmembers]
      rfl
    · rw [update_of_ne hkey, if_neg hkey]
      exact h.refs key'
  · intro relay key' d hd
    rw [hstaged] at hd
    by_cases hkey : key' = key
    · subst hkey
      rw [hself]
      by_cases hmem : relay ∈ moveMembers dead newEntry.relayId members
      · exact .inl hmem
      · rw [if_pos rfl, if_neg hmem] at hd
        exact .inl (h.staged_moved hmembers hdead hd)
    · rw [if_neg hkey] at hd
      rw [hother key' hkey]
      exact h.staged relay key' d hd
  · intro key' x target htarget
    rw [heq] at htarget
    dsimp only at htarget
    by_cases hkey : key' = key
    · rw [hkey, update_self] at htarget
      rw [hkey, hself]
      exact .inl (h.aliased_moved hmembers hdead htarget)
    · rw [update_of_ne hkey] at htarget
      rw [hother key' hkey]
      exact h.aliased key' x target htarget
  · intro key' taken hc
    have hkey : key' ≠ key := by
      rintro rfl
      exact h.not_closing hmembers taken hc
    rw [hget, if_neg hkey]
    exact h.closed key' taken hc

/-! ### Closes -/

/-- A close begins: the session is not assigned, and what is still staged is the close's to remove. -/
theorem take (h : Sound none s) (key : SessionKey) :
    Sound (some (key, s.servingRelays key)) (s.takeSessionMembership key).1 := by
  have heq := takeSessionMembership_eq s key
  generalize (s.takeSessionMembership key).1 = s' at heq ⊢
  have hget : ∀ key', s'.sessionRelays.get? key' = if key' = key then none else s.sessionRelays.get? key' := by
    intro key'
    rw [heq]
    exact get?_erase _ _ _
  have hother : ∀ key', key' ≠ key → s'.servingRelays key' = s.servingRelays key' := by
    intro key' hkey
    unfold servingRelays
    rw [hget, if_neg hkey]
  constructor
  · intro key' relays hrelays
    rw [hget] at hrelays
    split at hrelays
    · cases hrelays
    · rw [heq]
      exact h.issued key' relays hrelays
  · intro key' relays hrelays
    rw [hget] at hrelays
    split at hrelays
    · cases hrelays
    · exact h.serving key' relays hrelays
  · intro key'
    rw [hget, heq]
    dsimp only
    by_cases hkey : key' = key
    · simp [hkey]
    · rw [update_of_ne hkey, if_neg hkey]
      exact h.refs key'
  · intro relay key' d hd
    rw [heq] at hd
    obtain hserving | ⟨taken, hc, -⟩ := h.staged relay key' d hd
    · by_cases hkey : key' = key
      · exact .inr ⟨_, by rw [hkey], hkey ▸ hserving⟩
      · rw [hother key' hkey]
        exact .inl hserving
    · cases hc
  · intro key' dead target ht
    rw [heq] at ht
    obtain hserving | ⟨taken, hc⟩ := h.aliased key' dead target ht
    · by_cases hkey : key' = key
      · exact .inr ⟨_, by rw [hkey]⟩
      · rw [hother key' hkey]
        exact .inl hserving
    · cases hc
  · intro key' taken hc
    obtain ⟨rfl, -⟩ : key = key' ∧ _ := by simpa using hc
    rw [hget, if_pos rfl]

/-- A close comes to its end. -/
theorem drop {taken : List RelayId} (h : Sound (some (key, taken)) s) : Sound none (s.dropTaken key taken) := by
  constructor
  · exact h.issued
  · exact h.serving
  · exact h.refs
  · intro relay key' d hd
    unfold dropTaken forgetRehomes at hd
    dsimp only at hd
    rw [currentDescriptor_foldl_remove] at hd
    split at hd
    · cases hd
    · rename_i hne
      obtain hserving | ⟨taken', hc, hmem⟩ := h.staged relay key' d hd
      · exact .inl hserving
      · obtain ⟨rfl, rfl⟩ : key = key' ∧ taken = taken' := by simpa using hc
        exact absurd ⟨hmem, rfl⟩ hne
  · intro key' dead target ht
    unfold dropTaken forgetRehomes at ht
    dsimp only at ht
    by_cases hkey : key' = key
    · rw [hkey, update_self] at ht
      cases ht
    · rw [update_of_ne hkey] at ht
      obtain hserving | ⟨taken', hc⟩ := h.aliased key' dead target ht
      · exact .inl hserving
      · exact absurd (by simpa using congrArg (Option.map Prod.fst) hc.symm) hkey
  · intro key' taken' hc
    cases hc

/-! ### Steps and runs -/

variable (sha256 : Sha256)

theorem new (registry : RelayRegistry) (tenants : TenantStore) (firstSessionId : SessionId)
    (createHold sessionCeiling : Option Nat) (finalizeFeature : Bool) (pairRtts : PairRtts) :
    Sound none (.new registry tenants firstSessionId createHold sessionCeiling finalizeFeature pairRtts) := by
  constructor
  · intro key relays hrelays
    simp [SessionSetup.new] at hrelays
  · intro key relays hrelays
    simp [SessionSetup.new] at hrelays
  · intro key
    simp [SessionSetup.new]
  · intro relay key d hd
    simp [SessionSetup.new, RelayDescriptors.new, RelayDescriptors.currentDescriptor, RelayDescriptors.current] at hd
  · intro key dead target ht
    cases ht
  · intro key taken hc
    cases hc

theorem commits : Commits sha256 op Sound where
  quiet hquiet h := h.quiet hquiet
  unminted _ _ hplace _ _ h := h.commitCreate _ (placeByRegion_ok hplace).1 (placeByRegion_ok hplace).2.1
  created _ _ hplace _ h := by
    obtain ⟨hissued, hserving, hrefs, hstaged, haliased, hclosed⟩ :=
      h.commitCreate _ (placeByRegion_ok hplace).1 (placeByRegion_ok hplace).2.1
    rw [recordCreate_eq]
    exact ⟨hissued, hserving, hrefs, hstaged, haliased, hclosed⟩
  moved view revisions readDeparted assignmentCommitted _ _ hmembers hdead _ h :=
    h.commitRehome sha256 view _ revisions readDeparted assignmentCommitted hmembers hdead
  take key h := h.take key
  drop h := h.drop

theorem apply (h : Sound none s) (op : SetupOp) : Sound none (s.apply sha256 op).1 := by
  refine (commits sha256).keeps h ?_
  intro hello draining _ has
  have hsame := has.same
  refine h.of_same (by rw [hsame]) (by rw [hsame]) (by rw [hsame]; exact fun _ => rfl) (by rw [hsame]) ?_
  intro relay key d hd
  rcases has.restaged relay key with ⟨-, hnone⟩ | ⟨d, d', hold, -⟩
  · cases hnone.symm.trans hd
  · exact .inl ⟨d, hold⟩

/-- **The maps fit together after every run.** -/
theorem run (h : Sound none s) (ops : List SetupOp) : Sound none (s.run sha256 ops).1 :=
  Trace.run_invariant (I := fun s _ => Sound none s) ops h fun _ _ op _ hs => hs.apply sha256 op

end Sound

/-! ## After a close -/

/-- The call closes the session, by itself or in the middle of a re-home. -/
def closes (key : SessionKey) : SetupOp → Prop
  | .retire key' => key' = key
  | .rehome _ _ _ _ (some key') => key' = key
  | _ => False

section Gone

variable {s : SessionSetup} {key : SessionKey} (sha256 : Sha256)

/-- An id that was issued, and that no session is assigned under. -/
def Spent (key : SessionKey) (s : SessionSetup) : Prop := key.session < s.nextSession ∧ s.sessionRelays.get? key = none

theorem Spent.commitCreate (h : Spent key s) (request : SessionRequest) (placement : Placement) :
    Spent key (s.commitCreate request placement) := by
  unfold SessionSetup.commitCreate
  rw [stage_eq]
  refine ⟨Nat.lt_succ_of_lt h.1, ?_⟩
  have hkey : key ≠ ⟨request.tenant, s.nextSession⟩ := by
    intro hkey
    exact absurd h.1 (by simp [hkey])
  exact (get?_insert _ _ _ _).trans (by rw [if_neg hkey]; exact h.2)

theorem Spent.commitRehome (h : Spent key s) {σ : Type} (view : σ) {key' : SessionKey} (dead : RelayId)
    (newEntry : RelayEntry) (revisions : List (SlotId × Nat)) {members : List RelayId} (readDeparted : σ → List DepartedSlot)
    (assignmentCommitted : RelayId → σ → σ) (hmembers : s.sessionRelays.get? key' = some members) :
    Spent key (s.commitRehome sha256 view key' dead newEntry revisions members readDeparted assignmentCommitted).1 := by
  rw [commitRehome_eq]
  refine ⟨h.1, ?_⟩
  have hkey : key ≠ key' := by
    rintro rfl
    cases h.2.symm.trans hmembers
  exact (get?_insert _ _ _ _).trans (by rw [if_neg hkey]; exact h.2)

theorem Spent.take (key' : SessionKey) (hissued : key.session < s.nextSession)
    (hnone : key = key' ∨ s.sessionRelays.get? key = none) : Spent key (s.takeSessionMembership key').1 := by
  rw [takeSessionMembership_eq]
  refine ⟨hissued, (get?_erase _ _ _).trans ?_⟩
  rcases hnone with hkey | hnone
  · rw [if_pos hkey]
  · rw [hnone, ite_self]

/-- **An id that was issued is never assigned again**, whatever is called. -/
theorem Spent.apply (h : Spent key s) (op : SetupOp) : Spent key (s.apply sha256 op).1 := by
  refine Commits.keeps (P := fun _ s => Spent key s) ?_ h ?_
  · refine ⟨?_, ?_, ?_, ?_, ?_, id⟩
    · intro s s' hquiet hs
      exact ⟨by rw [hquiet.nextSession]; exact hs.1, by rw [hquiet.sessionRelays]; exact hs.2⟩
    · intro s request expiresAt policy placement e _ _ _ _ _ hs
      exact hs.commitCreate request placement
    · intro s request expiresAt policy placement response _ _ _ _ hs
      rw [recordCreate_eq]
      exact hs.commitCreate request placement
    · intro _ s key' dead newEntry members view revisions readDeparted assignmentCommitted _ _ hmembers _ _ hs
      exact hs.commitRehome sha256 view dead newEntry revisions readDeparted assignmentCommitted hmembers
    · intro s key' hs
      exact .take key' hs.1 (.inr hs.2)
  · intro hello draining _ has
    rw [has.same]
    exact h

theorem Spent.run (h : Spent key s) (ops : List SetupOp) : Spent key (s.run sha256 ops).1 :=
  Trace.run_invariant (I := fun s _ => Spent key s) ops h fun _ _ op _ hs => hs.apply sha256 op

/-- A close leaves its session's id spent, in the middle of a re-home too: the re-home comes too late, or
    is one of another session. -/
theorem Spent.closed {op : SetupOp} (hclose : closes key op) (hissued : key.session < s.nextSession) :
    Spent key (s.apply sha256 op).1 := by
  have htaken : Spent key (s.takeSessionMembership key).1 := .take key hissued (.inl rfl)
  cases op with
  | retire key' =>
    obtain rfl : key' = key := hclose
    exact htaken
  | rehome key' dead allowStay departedSlots close =>
    cases close with
    | none => cases hclose
    | some closed =>
      obtain rfl : closed = key := hclose
      show Spent closed (s.rehomeClosing sha256 key' dead allowStay departedSlots (some closed)).1
      unfold rehomeClosing
      generalize hresult :
        s.rehomeInner sha256 none key' dead allowStay (fun _ => departedSlots) (closeSeam (some closed))
          (fun _ => id) = result
      have hcases := s.rehomeInner_cases sha256 key' none dead allowStay (fun _ => departedSlots)
        (closeSeam (some closed)) (fun _ => id)
      rw [hresult] at hcases
      cases hcases with
      | unavailable | stay | recorded | closed => exact htaken
      | moved newEntry revisions members hrecorded hcandidate hmembers hdead =>
        exact htaken.commitRehome sha256 (closeSeam (some closed) s none).2 dead newEntry revisions (fun _ => departedSlots)
          (fun _ => id) hmembers
  | _ => cases hclose

/-- **Descriptors and re-home records exist only for current assignments, and a close leaves none**: once
    a session whose id was issued is closed, nothing of it is there after any calls. -/
theorem closed_session_leaves_nothing (registry : RelayRegistry) (tenants : TenantStore) (firstSessionId : SessionId)
    (createHold sessionCeiling : Option Nat) (finalizeFeature : Bool) (pairRtts : PairRtts) (ops : List SetupOp) :
    let s := ((SessionSetup.new registry tenants firstSessionId createHold sessionCeiling finalizeFeature
      pairRtts).run sha256 ops).1
    (∀ relay key d, s.descriptors.currentDescriptor relay key = some d → relay ∈ s.servingRelays key) ∧
      (∀ key dead target, s.rehomes key dead = some target → target ∈ s.servingRelays key) ∧
      ∀ key op, closes key op → key.session < s.nextSession → ∀ later,
        Gone ((s.apply sha256 op).1.run sha256 later).1 key := by
  intro s
  have hsound : Sound none s := (Sound.new ..).run sha256 ops
  refine ⟨?_, ?_, ?_⟩
  · intro relay key d hd
    rcases hsound.staged relay key d hd with hserving | ⟨taken, hc, -⟩
    · exact hserving
    · cases hc
  · intro key dead target ht
    rcases hsound.aliased key dead target ht with hserving | ⟨taken, hc⟩
    · exact hserving
    · cases hc
  · intro key op hclose hissued later
    exact ((hsound.apply sha256 op).run sha256 later).gone ((Spent.closed sha256 hclose hissued).run sha256 later).2

end Gone

end SessionSetup

/-- A session that was created, moved off a relay that restarted, and closed: nothing of it is left. -/
theorem closed_session_leaves_nothing_rehomed :
    let s := (Demo.setup.run Demo.digest [.enroll (Demo.hello 1 [1] []), .create (Demo.request none) 0 .immediate,
      .disconnect 1 0, .enroll (Demo.hello 1 [2] []), .rehome ⟨"t", 1⟩ 1 true [] none]).1
    s.rehomes ⟨"t", 1⟩ 1 = some 1 ∧ SessionSetup.Gone
      ((s.apply Demo.digest (.retire ⟨"t", 1⟩)).1.run Demo.digest []).1 ⟨"t", 1⟩ := by
  refine ⟨by decide, ?_⟩
  exact (SessionSetup.closed_session_leaves_nothing Demo.digest .new (Demo.tenants "k") 1 none none false (fun _ _ => none)
    [.enroll (Demo.hello 1 [1] []), .create (Demo.request none) 0 .immediate, .disconnect 1 0, .enroll (Demo.hello 1 [2] []),
      .rehome ⟨"t", 1⟩ 1 true [] none]).2.2 ⟨"t", 1⟩ (.retire ⟨"t", 1⟩) rfl (by decide) []

/-- A close of an id that is still to be issued does not keep a create from taking that id. -/
theorem retire_before_create :
    ((Demo.setup.run Demo.digest [.enroll (Demo.hello 1 [1] []), .retire ⟨"t", 1⟩,
      .create (Demo.request none) 0 .immediate]).1.sessionRelays.get? ⟨"t", 1⟩) = some [1] := by
  decide

end RallyPoint.Coordinator
