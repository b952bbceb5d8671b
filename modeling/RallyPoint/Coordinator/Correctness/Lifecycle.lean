import RallyPoint.Coordinator.Correctness.Tasks

/-!
# `Coordinator.Correctness.Lifecycle` — the lifecycle follows the assignments

The relays that serve a session stand in two maps, the setup's and the lifecycle's. `Follows` — a
registered session that is assigned has the same serving relays in both, and its attestable flag is down
if it was ever moved. An assignment and a move with its hook keep it (`Follows.assigned`,
`Follows.move`); so does every piece that neither brings a session into being nor moves one
(`Follows.stays`).
-/

namespace RallyPoint.Coordinator

open Lib Proto Function Option Lifecycle SessionState OrdMap World List

section

variable {key : SessionKey} {dead rNew : RelayId} {relays members : List RelayId}

/-! ## States of a session -/

/-- A state keeps what the assignment gave it, or loses its claim to the session's whole life. -/
structure SessionState.Keeps (st st' : SessionState) : Prop where
  servingRelays : st'.servingRelays = st.servingRelays
  createdHere : st'.createdHere = st.createdHere
  attestable : st'.attestable = true → st.attestable = true
  sessionClosedEnqueued : st'.sessionClosedEnqueued = st.sessionClosedEnqueued

namespace SessionState

variable {st : SessionState}

theorem Keeps.refl (st : SessionState) : st.Keeps st := ⟨rfl, rfl, id, rfl⟩

theorem replace_eq_map (hnodup : members.Nodup) : members.replace dead rNew = members.map (moveTo dead rNew) := by
  induction members with
  | nil => rfl
  | cons id members ih =>
    obtain ⟨hid, hnodup⟩ := nodup_cons.mp hnodup
    rw [replace_cons, map_cons]
    by_cases hdead : id = dead
    · subst hdead
      -- the relay does not occur again
      have hrest : members.map (moveTo id rNew) = members := by
        refine (map_congr_left ?_).trans (map_id members)
        intro x hx
        have hne : x ≠ id := by
          rintro rfl
          exact hid hx
        exact if_neg hne
      rw [hrest]
      simp [moveTo]
    · have hbeq : (dead == id) = false := by simpa using Ne.symm hdead
      rw [ih hnodup, hbeq]
      simp [moveTo, hdead]

/-- **The cached serving relays move as the assignment does.** -/
theorem rehomed_servingRelays (hnodup : st.servingRelays.Nodup) (hdead : dead ∈ st.servingRelays) :
    (st.rehomed dead rNew).servingRelays = moveMembers dead rNew st.servingRelays := by
  unfold rehomed moveMembers
  by_cases hsame : dead = rNew
  · rw [if_pos hsame, if_pos hsame]
  rw [if_neg hsame, if_neg hsame, if_neg (not_not.mpr hdead)]
  dsimp only
  split
  · rw [hnodup.erase_eq_filter]
    refine filter_congr ?_
    intro x _
    by_cases hx : x = dead <;> simp [hx]
  · exact replace_eq_map hnodup

theorem rehomed_attestable (hdead : dead ∈ st.servingRelays) : (st.rehomed dead rNew).attestable = false := by
  unfold rehomed
  rw [if_neg (not_not.mpr hdead)]
  split <;> rfl

theorem rehomed_attestable_of_false (h : st.attestable = false) : (st.rehomed dead rNew).attestable = false := by
  unfold rehomed
  split
  · rfl
  · split
    · exact h
    · rfl

/-- A move leaves how the session came to be, its end and its departures. -/
theorem rehomed_leaves : (st.rehomed dead rNew).createdHere = st.createdHere ∧
    (st.rehomed dead rNew).sessionClosedEnqueued = st.sessionClosedEnqueued ∧
    (st.rehomed dead rNew).departures = st.departures := by
  unfold rehomed
  split
  · exact ⟨rfl, rfl, rfl⟩
  · split <;> exact ⟨rfl, rfl, rfl⟩

end SessionState

namespace Lifecycle

/-- No session is registered or moved, and departures change only in the sessions of `loses`. -/
structure Keeps (lc lc' : Lifecycle) (loses : SessionKey → Prop) : Prop where
  states : ∀ key st', lc'.sessions key = some st' →
    (st'.createdHere = false ∧ st'.sessionClosedEnqueued = false) ∨ ∃ st, lc.sessions key = some st ∧ st.Keeps st'
  departures : ∀ key, (lc'.stateFor key).departures = (lc.stateFor key).departures ∨ loses key

section Keeps

variable (lc : Lifecycle) {loses : SessionKey → Prop}

theorem Keeps.refl : lc.Keeps lc loses := ⟨fun _ st h => .inr ⟨st, h, .refl st⟩, fun _ => .inl rfl⟩

/-- The states change one by one. -/
theorem Keeps.map {lc' : Lifecycle} (f : SessionKey → SessionState → SessionState)
    (hf : ∀ key (st : SessionState), st.Keeps (f key st))
    (hdepartures : ∀ key st, (f key st).departures = st.departures)
    (h : ∀ key, lc'.sessions key = (lc.sessions key).map (f key)) : lc.Keeps lc' loses := by
  refine ⟨fun key st' hst' => ?_, fun key => .inl ?_⟩
  · rw [h] at hst'
    obtain ⟨st, hst, rfl⟩ := map_eq_some_iff.mp hst'
    exact .inr ⟨st, hst, hf key st⟩
  · unfold stateFor
    rw [h]
    cases lc.sessions key with
    | none => rfl
    | some st => exact hdepartures key st

/-- One state changes, or is made on the fly. -/
theorem Keeps.put (key : SessionKey) {st' : SessionState} (h : (lc.stateFor key).Keeps st')
    (hdepartures : st'.departures = (lc.stateFor key).departures ∨ loses key) : lc.Keeps (lc.put key st') loses := by
  refine ⟨fun key' st'' hst'' => ?_, fun key' => ?_⟩
  · rw [sessions_put] at hst''
    split at hst''
    · rename_i hkey
      subst hkey
      obtain rfl := some.inj hst''
      unfold stateFor at h
      cases hst : lc.sessions key' with
      | none =>
        rw [hst] at h
        exact .inl ⟨h.createdHere, h.sessionClosedEnqueued⟩
      | some st =>
        rw [hst] at h
        exact .inr ⟨st, rfl, h⟩
    · exact .inr ⟨st'', hst'', .refl st''⟩
  · by_cases hkey : key' = key
    · subst hkey
      rwa [stateFor, sessions_put, if_pos rfl]
    · left
      rw [stateFor, sessions_put, if_neg hkey, stateFor]

theorem Keeps.drop (hloses : loses key) : lc.Keeps (lc.drop key) loses := by
  refine ⟨fun key' st' hst' => ?_, fun key' => ?_⟩
  · rw [sessions_drop] at hst'
    split at hst'
    · cases hst'
    · exact .inr ⟨st', hst', .refl st'⟩
  · by_cases hkey : key' = key
    · exact .inr (hkey ▸ hloses)
    · left
      rw [stateFor, sessions_drop, if_neg hkey, stateFor]

theorem Keeps.trans {lc lc' lc'' : Lifecycle} (h : lc.Keeps lc' loses) (h' : lc'.Keeps lc'' loses) :
    lc.Keeps lc'' loses := by
  refine ⟨fun key st'' hst'' => ?_, fun key => ?_⟩
  · rcases h'.states key st'' hst'' with hnew | ⟨st', hst', hkeeps'⟩
    · exact .inl hnew
    · rcases h.states key st' hst' with ⟨hcreated, henqueued⟩ | ⟨st, hst, hkeeps⟩
      · exact .inl ⟨hkeeps'.createdHere.trans hcreated, hkeeps'.sessionClosedEnqueued.trans henqueued⟩
      · exact .inr ⟨st, hst, hkeeps'.servingRelays.trans hkeeps.servingRelays, hkeeps'.createdHere.trans hkeeps.createdHere,
          fun h => hkeeps.attestable (hkeeps'.attestable h),
            hkeeps'.sessionClosedEnqueued.trans hkeeps.sessionClosedEnqueued⟩
  · rcases h.departures key, h'.departures key with ⟨hsame | hloses, hsame' | hloses'⟩
    · exact .inl (hsame'.trans hsame)
    · exact .inr hloses'
    · exact .inr hloses
    · exact .inr hloses

theorem keeps_applyRelayEnrolled (relay : RelayId) (generation : Nat) :
    lc.Keeps (lc.applyRelayEnrolled relay generation) loses := by
  unfold applyRelayEnrolled
  split
  · exact .refl lc
  · exact .map lc (fun _ st => st.reopened relay) (fun _ _ => ⟨rfl, rfl, id, rfl⟩) (fun _ _ => rfl) fun _ => rfl

theorem keeps_onRelayLineageBreak (relay : RelayId) : lc.Keeps (lc.onRelayLineageBreak relay) loses := by
  refine .map lc (fun _ st => if relay ∈ st.servingRelays then { st with attestable := false } else st) ?_ ?_ fun _ => rfl
  · intro _ st
    split
    · exact ⟨rfl, rfl, by simp, rfl⟩
    · exact .refl st
  · intro _ st
    split <;> rfl

theorem keeps_applyRelayDisconnected (relay : RelayId) (generation : Nat) :
    lc.Keeps (lc.applyRelayDisconnected relay generation) loses := by
  unfold applyRelayDisconnected
  cases lc.relayEpochs relay with
  | none => exact .refl lc
  | some epoch =>
    dsimp only
    split
    · exact .refl lc
    · exact ⟨fun _ st h => .inr ⟨st, h, .refl st⟩, fun _ => .inl rfl⟩

theorem keeps_onRelayHeartbeat (assigned : List SessionKey) (relay : RelayId) (generation : Nat)
    (occupied : List SessionKey) :
    lc.Keeps (lc.onRelayHeartbeat assigned relay generation occupied) loses := by
  unfold onRelayHeartbeat
  split
  · exact .refl lc
  · refine .map lc (fun key st =>
      if key ∈ assigned ∧ key ∈ occupied then
        if relay ∈ st.servingRelays then { st.reopened relay with started := true } else st
      else st) ?_ ?_ ?_
    · intro key st
      split
      · split
        · exact ⟨rfl, rfl, id, rfl⟩
        · exact .refl st
      · exact .refl st
    · intro key st
      split
      · split <;> rfl
      · rfl
    · intro key
      dsimp only
      split
      · rfl
      · cases lc.sessions key <;> rfl

theorem keeps_fireWebhookReap (hloses : (lc.fireWebhookReap key).2 = true → loses key) :
    lc.Keeps (lc.fireWebhookReap key).1 loses := by
  unfold fireWebhookReap at hloses ⊢
  cases hst : lc.sessions key with
  | none => exact .refl lc
  | some st =>
    rw [hst] at hloses
    dsimp only at hloses ⊢
    split
    · exact .refl lc
    · rename_i hnone
      rw [if_neg hnone] at hloses
      exact .drop lc (hloses rfl)

end Keeps

end Lifecycle

/-! ## Assignments that stay -/

namespace SessionSetup

/-- No session comes into being or moves. It may go, and its aliases with it. -/
structure Stays (s s' : SessionSetup) : Prop where
  nextSession : s'.nextSession = s.nextSession
  sessionRelays : ∀ key relays, s'.sessionRelays.get? key = some relays → s.sessionRelays.get? key = some relays
  rehomes : ∀ key dead target, s'.rehomes key dead = some target → s.rehomes key dead = some target
  aliased : ∀ key relays, s'.sessionRelays.get? key = some relays → s'.rehomes key = s.rehomes key
  tenants : s'.tenants = s.tenants

namespace Stays

variable {s s' s'' : SessionSetup}

/-- What has no part in the assignments may change. -/
theorem of_same (hnext : s'.nextSession = s.nextSession) (hrelays : s'.sessionRelays = s.sessionRelays)
    (hrehomes : s'.rehomes = s.rehomes) (htenants : s'.tenants = s.tenants) : Stays s s' where
  nextSession := hnext
  sessionRelays := fun _ _ hget => hrelays ▸ hget
  rehomes := fun _ _ _ htarget => hrehomes ▸ htarget
  aliased := fun _ _ _ => by rw [hrehomes]
  tenants := htenants

theorem refl (s : SessionSetup) : Stays s s := of_same rfl rfl rfl rfl

theorem trans (h : Stays s s') (h' : Stays s' s'') : Stays s s'' where
  nextSession := h'.nextSession.trans h.nextSession
  sessionRelays := fun key relays hget => h.sessionRelays key relays (h'.sessionRelays key relays hget)
  rehomes := fun key dead target htarget => h.rehomes key dead target (h'.rehomes key dead target htarget)
  aliased := fun key relays hget =>
    (h'.aliased key relays hget).trans (h.aliased key relays (h'.sessionRelays key relays hget))
  tenants := h'.tenants.trans h.tenants

theorem take (s : SessionSetup) (key : SessionKey) : Stays s (s.takeSessionMembership key).1 := by
  rw [takeSessionMembership_eq]
  refine ⟨rfl, ?_, fun _ _ _ htarget => htarget, fun _ _ _ => rfl, rfl⟩
  intro key' relays hget
  replace hget := (get?_erase _ _ _).symm.trans hget
  split at hget
  · cases hget
  · exact hget

/-- The aliases of a session that is not assigned may go. -/
theorem drop (taken : List RelayId) (hnone : s.sessionRelays.get? key = none) : Stays s (s.dropTaken key taken) := by
  have hother : ∀ key', key' ≠ key → (s.dropTaken key taken).rehomes key' = s.rehomes key' :=
    fun key' hkey => update_of_ne hkey _ _
  refine ⟨rfl, fun _ _ hget => hget, ?_, ?_, rfl⟩
  · intro key' dead target htarget
    by_cases hkey : key' = key
    · subst hkey
      cases (congrFun (update_self key' _ s.rehomes) dead).symm.trans htarget
    · rwa [hother key' hkey] at htarget
  · intro key' relays hget
    refine hother key' ?_
    rintro rfl
    cases hnone.symm.trans hget

/-- A call that neither creates nor re-homes. -/
theorem apply (sha256 : Sha256) (s : SessionSetup) {op : SetupOp} (hmoves : op.moves = false) :
    Stays s (s.apply sha256 op).1 := by
  have hcreate : ∀ {request expiresAt policy}, op ≠ .create request expiresAt policy := by
    rintro request expiresAt policy rfl
    cases hmoves
  refine Commits.keeps (P := fun closing s' => Stays s s' ∧ ∀ key taken, closing = some (key, taken) →
    s'.sessionRelays.get? key = none)
    ⟨?_, fun hop => absurd hop hcreate, fun hop => absurd hop hcreate, ?_, ?_, ?_⟩ ⟨.refl s,
      fun _ _ hc => by cases hc⟩ ?_ |>.1
  · rintro s₁ s₂ hquiet ⟨h, -⟩
    exact ⟨h.trans (of_same hquiet.nextSession hquiet.sessionRelays hquiet.rehomes hquiet.tenants),
      fun _ _ hc => by cases hc⟩
  · intro _ _ _ _ _ _ _ _ _ _ hop
    cases hmoves.symm.trans hop
  · rintro s₁ key ⟨h, -⟩
    refine ⟨h.trans (take s₁ key), ?_⟩
    rintro key' taken ⟨⟩
    rw [takeSessionMembership_eq]
    exact (get?_erase _ _ _).trans (if_pos rfl)
  · rintro s₁ key taken ⟨h, hnone⟩
    exact ⟨h.trans (drop taken (hnone key taken rfl)), fun _ _ hc => by cases hc⟩
  · intro hello draining _ has
    rw [has.same]
    exact ⟨of_same rfl rfl rfl rfl, fun _ _ hc => by cases hc⟩

end Stays

theorem Calls.stays {sha256 : Sha256} {allowed : SetupOp → Prop} {s s' : SessionSetup} (h : Calls sha256 allowed s s')
    (hmoves : ∀ op, allowed op → op.moves = false) : Stays s s' :=
  h.keeps (P := Stays s) (.refl s) fun s' op hop hs => hs.trans (.apply sha256 s' (hmoves op hop))

end SessionSetup

/-! ## Assignments that change -/

namespace SessionSetup

/-- A session comes into being under the next id. -/
structure Assigned (s s' : SessionSetup) (key : SessionKey) (relays : List RelayId) : Prop where
  issued : key.session = s.nextSession
  nextSession : s'.nextSession = s.nextSession + 1
  sessionRelays : s'.sessionRelays = s.sessionRelays.insert key relays
  rehomes : s'.rehomes = s.rehomes
  tenants : s'.tenants = s.tenants
  known : (s.tenants key.tenant).isSome
  available : ∀ id ∈ relays, s.registry.isAvailable id = true

theorem Assigned.ne_of_issued {s s' : SessionSetup} {key key' : SessionKey} (h : Assigned s s' key relays)
    (hissued : key'.session < s.nextSession) : key' ≠ key := by
  rintro rfl
  exact absurd hissued (h.issued ▸ Nat.lt_irrefl _)

/-- A session moves from `dead` to `rNew`, and an alias is put on record. -/
structure Moved (s s' : SessionSetup) (key : SessionKey) (dead rNew : RelayId) (members : List RelayId) : Prop where
  served : s.sessionRelays.get? key = some members
  mem : dead ∈ members
  nextSession : s'.nextSession = s.nextSession
  sessionRelays : s'.sessionRelays = s.sessionRelays.insert key (moveMembers dead rNew members)
  rehomes : ∀ key', key' ≠ key → s'.rehomes key' = s.rehomes key'
  recorded : s'.rehomes key dead = some rNew
  tenants : s'.tenants = s.tenants
  available : s.registry.isAvailable rNew = true

variable (sha256 : Sha256) (s : SessionSetup)

/-- **What a create does to the assignments and the lifecycle.** A session without tokens is not
    registered. -/
theorem createSession_cases (lc : Lifecycle) (request : SessionRequest) (expiresAt : U64) (policy : CreatePolicy) :
    let result := s.createSession sha256 lc request expiresAt policy
    (Stays s result.1 ∧ result.2.1 = lc) ∨ ∃ key relays, Assigned s result.1 key relays ∧
      (result.2.1 = lc ∨ result.2.1 = lc.registerSession key relays) := by
  dsimp only
  have hcases := s.createBody_cases sha256 lc request expiresAt policy
    fun session relays lc => lc.registerSession ⟨request.tenant, session⟩ relays
  have hplaced : ∀ placement, placeByRegion sha256 s.registry s.pairRtts request s.nextSession
    s.finalizeFeature = .ok placement →
      ∀ id ∈ placement.relayIds, s.registry.isAvailable id = true := by
    intro placement hplace id hid
    obtain ⟨r, hr, hdraining, -⟩ := (placeByRegion_ok hplace).2.2 id hid
    simp [RelayRegistry.isAvailable, hr, hdraining]
  unfold createSession
  generalize s.createBody sha256 lc request expiresAt policy
    (fun session relays lc => lc.registerSession ⟨request.tenant, session⟩ relays) = result at hcases ⊢
  cases hcases with
  | replayed => exact .inl ⟨.refl s, rfl⟩
  | refused | held => exact .inl ⟨.of_same rfl rfl rfl rfl, rfl⟩
  | unminted pendingCreates placement tenant e hreplay hceiling hplace htenant =>
    refine .inr ⟨⟨request.tenant, s.nextSession⟩, placement.relayIds,
      ⟨rfl, ?_, ?_, ?_, ?_, by rw [htenant]; rfl, hplaced placement hplace⟩, .inl rfl⟩ <;>
      rw [commitCreate_eq] <;> rfl
  | created pendingCreates placement tenant response hreplay hceiling hplace htenant =>
    refine .inr ⟨⟨request.tenant, s.nextSession⟩, placement.relayIds,
      ⟨rfl, ?_, ?_, ?_, ?_, by rw [htenant]; rfl, hplaced placement hplace⟩, .inr rfl⟩ <;>
      rw [recordCreate_eq, commitCreate_eq] <;> rfl

/-- **What a re-home does to the assignments and its caller's view.** -/
theorem rehomeInner_moves {σ : Type} (view : σ) (key : SessionKey) (dead : RelayId) (allowStay : Bool)
    (readDeparted : σ → List DepartedSlot) (assignmentCommitted : RelayId → σ → σ) :
    let result := s.rehomeInner sha256 view key dead allowStay readDeparted Prod.mk assignmentCommitted
    (result.1 = s ∧ result.2.1 = view) ∨ ∃ newEntry ∈ s.candidates key, ∃ members,
      Moved s result.1 key dead newEntry.relayId members ∧ result.2.1 = assignmentCommitted newEntry.relayId view := by
  have hcases := s.rehomeInner_cases sha256 key view dead allowStay readDeparted Prod.mk assignmentCommitted
  dsimp only
  generalize s.rehomeInner sha256 view key dead allowStay readDeparted Prod.mk assignmentCommitted = result at hcases ⊢
  cases hcases with
  | unavailable | stay | recorded | closed => exact .inl ⟨rfl, rfl⟩
  | moved newEntry revisions members hrecorded hcandidate hmembers hdead =>
    refine .inr ⟨newEntry, hcandidate, members, ⟨hmembers, hdead, ?_, ?_, ?_, ?_, ?_, ?_⟩, rfl⟩
    · rw [commitRehome_eq]
    · rw [commitRehome_eq]
    · intro key' hkey
      rw [commitRehome_eq]
      exact update_of_ne hkey _ _
    · rw [commitRehome_eq]
      dsimp only
      rw [update_self, update_self]
    · rw [commitRehome_eq]
    · obtain ⟨⟨r, hr, hdraining, -⟩, -⟩ := (s.mem_candidates key).mp hcandidate
      simp [RelayRegistry.isAvailable, hr, hdraining]

end SessionSetup

/-! ## The lifecycle follows -/

open SessionSetup

/-- **The lifecycle's view follows the assignments.** -/
structure Follows (s : SessionSetup) (lc : Lifecycle) : Prop where
  sound : Sound none s
  issued : ∀ key st, lc.sessions key = some st → st.createdHere = true → key.session < s.nextSession
  unended : ∀ key st, lc.sessions key = some st → st.sessionClosedEnqueued = false
  serving : ∀ key st relays, lc.sessions key = some st → st.createdHere = true → s.sessionRelays.get? key = some relays →
    st.servingRelays = relays
  /-- An alias is on record for a session that was moved. -/
  moved : ∀ key st dead target, lc.sessions key = some st → st.createdHere = true → s.rehomes key dead = some target →
    st.attestable = false

namespace Follows

variable {s s' : SessionSetup} {lc lc' : Lifecycle}

theorem new (registry : RelayRegistry) (tenants : TenantStore) (firstSessionId : SessionId)
    (createHold sessionCeiling : Option Nat) (finalizeFeature : Bool) (pairRtts : PairRtts) :
    Follows (.new registry tenants firstSessionId createHold sessionCeiling finalizeFeature pairRtts) .new := by
  refine ⟨.new .., ?_, ?_, ?_, ?_⟩
  · intro key st hst
    cases hst
  · intro key st hst
    cases hst
  · intro key st relays hst
    cases hst
  · intro key st dead target hst
    cases hst

/-- No session comes into being or moves, on either side. -/
theorem stays (h : Follows s lc) (hsound : Sound none s') (hstays : Stays s s') {loses : SessionKey → Prop}
    (hkeeps : lc.Keeps lc' loses) : Follows s' lc' := by
  refine ⟨hsound, ?_, ?_, ?_, ?_⟩
  · intro key st' hst' hcreated
    rcases hkeeps.states key st' hst' with ⟨hnot, -⟩ | ⟨st, hst, hk⟩
    · cases hnot.symm.trans hcreated
    · rw [hstays.nextSession]
      exact h.issued key st hst (hk.createdHere.symm.trans hcreated)
  · intro key st' hst'
    rcases hkeeps.states key st' hst' with ⟨-, henqueued⟩ | ⟨st, hst, hk⟩
    · exact henqueued
    · exact hk.sessionClosedEnqueued.trans (h.unended key st hst)
  · intro key st' relays hst' hcreated hrelays
    rcases hkeeps.states key st' hst' with ⟨hnot, -⟩ | ⟨st, hst, hk⟩
    · cases hnot.symm.trans hcreated
    · rw [hk.servingRelays]
      exact h.serving key st relays hst (hk.createdHere.symm.trans hcreated) (hstays.sessionRelays key relays hrelays)
  · intro key st' dead target hst' hcreated htarget
    rcases hkeeps.states key st' hst' with ⟨hnot, -⟩ | ⟨st, hst, hk⟩
    · cases hnot.symm.trans hcreated
    · have hmoved := h.moved key st dead target hst (hk.createdHere.symm.trans hcreated)
        (hstays.rehomes key dead target htarget)
      cases hattestable : st'.attestable with
      | false => rfl
      | true => cases hmoved.symm.trans (hk.attestable hattestable)

/-- A session comes into being, and is registered, or not. -/
theorem assigned (h : Follows s lc) (hsound : Sound none s')
    (hassigned : Assigned s s' key relays) (hlc : lc' = lc ∨ lc' = lc.registerSession key relays) : Follows s' lc' := by
  -- a registered session is the new one, or was registered before under an id issued before
  have hold : ∀ key' st, lc'.sessions key' = some st → st.createdHere = true →
      lc.sessions key' = some st ∧ key'.session < s.nextSession ∨ key' = key ∧ st.servingRelays = relays := by
    intro key' st hst hcreated
    rcases hlc with rfl | rfl
    · exact .inl ⟨hst, h.issued key' st hst hcreated⟩
    · unfold registerSession at hst
      rw [sessions_put] at hst
      split at hst
      · rename_i hkey
        obtain rfl := some.inj hst
        exact .inr ⟨hkey, rfl⟩
      · exact .inl ⟨hst, h.issued key' st hst hcreated⟩
  refine ⟨hsound, ?_, ?_, ?_, ?_⟩
  · intro key' st hst hcreated
    rw [hassigned.nextSession]
    rcases hold key' st hst hcreated with ⟨-, hissued⟩ | ⟨rfl, -⟩
    · exact Nat.lt_succ_of_lt hissued
    · rw [hassigned.issued]
      exact Nat.lt_succ_self _
  · intro key' st hst
    rcases hlc with rfl | rfl
    · exact h.unended key' st hst
    · unfold registerSession at hst
      rw [sessions_put] at hst
      split at hst
      · obtain rfl := some.inj hst
        show (lc.stateFor key).sessionClosedEnqueued = false
        unfold stateFor
        cases hst : lc.sessions key with
        | none => rfl
        | some st => exact h.unended key st hst
      · exact h.unended key' st hst
  · intro key' st relays' hst hcreated hget
    rw [hassigned.sessionRelays, get?_insert] at hget
    rcases hold key' st hst hcreated with ⟨hst, hissued⟩ | ⟨rfl, hserving⟩
    · rw [if_neg (hassigned.ne_of_issued hissued)] at hget
      exact h.serving key' st relays' hst hcreated hget
    · rw [if_pos rfl] at hget
      exact hserving.trans (some.inj hget)
  · intro key' st dead target hst hcreated htarget
    rw [hassigned.rehomes] at htarget
    rcases hold key' st hst hcreated with ⟨hst, -⟩ | ⟨rfl, -⟩
    · exact h.moved key' st dead target hst hcreated htarget
    · -- nothing is on record for an id that was still to be issued
      have hnone := (h.sound.fresh (le_of_eq hassigned.issued.symm)).unanswered dead
      cases hnone.symm.trans htarget

/-- A session moves on both sides. -/
theorem move (h : Follows s lc) (hsound : Sound none s')
    (hmoved : Moved s s' key dead rNew members) : Follows s' (lc.onRehome key dead rNew) := by
  have hserving : ∀ st, lc.sessions key = some st → (st.rehomed dead rNew).createdHere = true →
    st.servingRelays = members := by
    intro st hst hcreated
    exact h.serving key st members hst (rehomed_leaves.1.symm.trans hcreated) hmoved.served
  refine ⟨hsound, ?_, ?_, ?_, ?_⟩
  · intro key' st' hst' hcreated
    rw [hmoved.nextSession]
    rw [sessions_onRehome] at hst'
    split at hst'
    · rename_i hkey
      subst hkey
      obtain ⟨st, hst, rfl⟩ := map_eq_some_iff.mp hst'
      exact h.issued key' st hst (rehomed_leaves.1.symm.trans hcreated)
    · exact h.issued key' st' hst' hcreated
  · intro key' st' hst'
    rw [sessions_onRehome] at hst'
    split at hst'
    · obtain ⟨st, hst, rfl⟩ := map_eq_some_iff.mp hst'
      exact rehomed_leaves.2.1.trans (h.unended key st hst)
    · exact h.unended key' st' hst'
  · intro key' st' relays hst' hcreated hget
    rw [hmoved.sessionRelays, get?_insert] at hget
    rw [sessions_onRehome] at hst'
    split at hst'
    · rename_i hkey
      obtain ⟨st, hst, rfl⟩ := map_eq_some_iff.mp hst'
      rw [if_pos hkey] at hget
      have hnodup := (h.sound.serving key members hmoved.served).2
      have hdead := hmoved.mem
      rw [← hserving st hst hcreated] at hnodup hdead hget
      exact (rehomed_servingRelays hnodup hdead).trans (some.inj hget)
    · rename_i hkey
      rw [if_neg hkey] at hget
      exact h.serving key' st' relays hst' hcreated hget
  · intro key' st' dead' target hst' hcreated htarget
    rw [sessions_onRehome] at hst'
    split at hst'
    · obtain ⟨st, hst, rfl⟩ := map_eq_some_iff.mp hst'
      have hdead := hmoved.mem
      rw [← hserving st hst hcreated] at hdead
      exact rehomed_attestable hdead
    · rename_i hkey
      rw [hmoved.rehomes key' hkey] at htarget
      exact h.moved key' st' dead' target hst' hcreated htarget

/-- A session moves that the lifecycle has not registered. -/
theorem moveUnregistered (h : Follows s lc)
    (hsound : Sound none s') (hmoved : Moved s s' key dead rNew members)
    (hunregistered : (lc.sessions key).all (!·.createdHere) = true) : Follows s' lc := by
  have hother : ∀ key' st, lc.sessions key' = some st → st.createdHere = true → key' ≠ key := by
    rintro key' st hst hcreated rfl
    rw [hst] at hunregistered
    simp [hcreated] at hunregistered
  refine ⟨hsound, ?_, h.unended, ?_, ?_⟩
  · intro key' st hst hcreated
    rw [hmoved.nextSession]
    exact h.issued key' st hst hcreated
  · intro key' st relays hst hcreated hget
    rw [hmoved.sessionRelays, get?_insert, if_neg (hother key' st hst hcreated)] at hget
    exact h.serving key' st relays hst hcreated hget
  · intro key' st dead target hst hcreated htarget
    rw [hmoved.rehomes key' (hother key' st hst hcreated)] at htarget
    exact h.moved key' st dead target hst hcreated htarget

end Follows

/-! ## Pieces -/

namespace SessionSetup

variable {s : SessionSetup} {lc : Lifecycle} {loses : SessionKey → Prop}

/-- The session is gone from both maps. -/
def Finished (key : SessionKey) (state : SessionSetup × Lifecycle) : Prop :=
  state.1.sessionRelays.get? key = none ∧ state.2.sessions key = none

theorem closeAndRetire_finished : Finished key (s.closeAndRetire lc key) := by
  refine ⟨?_, ?_⟩
  · show (s.takeSessionMembership key).1.sessionRelays.get? key = none
    rw [s.takeSessionMembership_eq key]
    dsimp only
    rw [get?_erase, if_pos rfl]
  · show (lc.drop key).sessions key = none
    rw [sessions_drop, if_pos rfl]

theorem CloseStep.keeps {result : SessionSetup × Lifecycle} (h : CloseStep s lc key result)
    (hloses : result.1.sessionRelays.get? key = none → loses key) : lc.Keeps result.2 loses := by
  cases h with
  | left => exact .refl lc
  | noted closedRelays hst =>
    refine .put lc key ?_ (.inl ?_) <;> unfold stateFor <;> rw [hst]
    · exact ⟨rfl, rfl, id, rfl⟩
    · rfl
  | closed => exact .drop lc (hloses closeAndRetire_finished.1)

variable (s lc)

theorem keeps_enrollRelay (sha256 : Sha256) (hello : RelayHello) :
    lc.Keeps (s.enrollRelay sha256 lc hello).2.1 loses := by
  unfold enrollRelay
  rcases s.enrollLocked sha256 hello with ⟨s', conflict | enrolled⟩
  · exact .refl lc
  · dsimp only
    split
    · exact (lc.keeps_applyRelayEnrolled _ _).trans (keeps_onRelayLineageBreak _ _)
    · exact lc.keeps_applyRelayEnrolled _ _

theorem keeps_disconnectRelay (relay : RelayId) (generation : Nat) :
    lc.Keeps (s.disconnectRelay lc relay generation).2.1 loses := by
  unfold disconnectRelay
  rcases s.registry.removeIfCurrent relay generation with ⟨registry, _ | _⟩
  · exact .refl lc
  · exact lc.keeps_applyRelayDisconnected relay generation

end SessionSetup

/-! ## Closes -/

namespace SessionSetup

variable {s : SessionSetup} {lc : Lifecycle}

/-- The closes that relays report for a session, one after another. -/
def reportClosed (key : SessionKey) (reports : List (RelayId × Nat)) (state : SessionSetup × Lifecycle) :
    SessionSetup × Lifecycle :=
  reports.foldl (fun state report => state.1.onSessionClosed state.2 key report.1 report.2) state

theorem Finished.reportClosed {state : SessionSetup × Lifecycle} (h : Finished key state) (reports : List (RelayId × Nat)) :
    Finished key (reportClosed key reports state) := by
  induction reports generalizing state with
  | nil => exact h
  | cons report reports ih =>
    refine ih ?_
    -- a close of a session without a state is ignored
    have hignored : state.1.onSessionClosed state.2 key report.1 report.2 = state := by
      unfold onSessionClosed
      rw [h.2]
      simp
    show Finished key (state.1.onSessionClosed state.2 key report.1 report.2)
    rw [hignored]
    exact h

theorem finishIfAllClosed_put {st : SessionState} (hopen : st.sessionClosedEnqueued = false) :
    s.finishIfAllClosed (lc.put key st) key =
      if st.allRelaysClosed then s.closeAndRetire (lc.put key st) key else (s, lc.put key st) := by
  unfold finishIfAllClosed
  rw [sessions_put, if_pos rfl]
  dsimp only
  rw [hopen]
  cases st.allRelaysClosed <;> rfl

/-- A close by a serving relay is noted, and finishes the session if it was the last. -/
theorem onSessionClosed_serving {st : SessionState} {relay : RelayId} {generation : Nat}
    (hget : s.sessionRelays.get? key = some relays) (hst : lc.sessions key = some st) (hserving : st.servingRelays = relays)
    (hopen : st.sessionClosedEnqueued = false) (hcurrent : lc.isCurrent relay generation = true) (hmem : relay ∈ relays) :
    let closed := { st with closedRelays := update st.closedRelays relay (some generation) }
    s.onSessionClosed lc key relay generation =
      if closed.allRelaysClosed then s.closeAndRetire (lc.put key closed) key else (s, lc.put key closed) := by
  intro closed
  unfold onSessionClosed
  rw [servingRelays_eq hget, hst]
  dsimp only
  rw [if_neg (by simp [hcurrent]), if_neg (not_not.mpr hmem), if_neg (not_not.mpr (hserving ▸ hmem))]
  exact finishIfAllClosed_put hopen

/-- **A close from every serving relay finishes the session**, in whatever order they come. -/
theorem reportClosed_finished {st : SessionState} {reports : List (RelayId × Nat)}
    (hget : s.sessionRelays.get? key = some relays) (hst : lc.sessions key = some st) (hserving : st.servingRelays = relays)
    (hopen : st.sessionClosedEnqueued = false) (hnonempty : relays ≠ [])
    (hcurrent : ∀ report ∈ reports, lc.isCurrent report.1 report.2 = true)
    (hall : ∀ relay ∈ relays, (st.closedRelays relay).isSome = true ∨ ∃ generation, (relay, generation) ∈ reports)
    (hleft : st.allRelaysClosed = false ∨ ∃ relay ∈ relays, ∃ generation, (relay, generation) ∈ reports) :
    Finished key (reportClosed key reports (s, lc)) := by
  induction reports generalizing lc st with
  | nil =>
    -- all have closed, which the last close would have seen
    exfalso
    have hclosed : st.allRelaysClosed = true := by
      unfold allRelaysClosed
      rw [hserving]
      simp only [Bool.and_eq_true, Bool.not_eq_true', List.isEmpty_eq_false_iff, List.all_eq_true]
      exact ⟨hnonempty, fun relay hrelay => by simpa using hall relay hrelay⟩
    rcases hleft with hleft | ⟨relay, -, generation, hmem⟩
    · cases hleft.symm.trans hclosed
    · cases hmem
  | cons report reports ih =>
    obtain ⟨relay, generation⟩ := report
    show Finished key (reportClosed key reports (s.onSessionClosed lc key relay generation))
    by_cases hmem : relay ∈ relays
    · rw [onSessionClosed_serving hget hst hserving hopen (hcurrent _ mem_cons_self) hmem]
      split
      · exact closeAndRetire_finished.reportClosed reports
      · rename_i hopen'
        have hput : ∀ closed, (lc.put key closed).sessions key = some closed := by
          intro closed
          rw [sessions_put, if_pos rfl]
        refine ih (hput _) hserving hopen ?_ ?_ ?_
        · intro report hreport
          exact hcurrent report (mem_cons_of_mem _ hreport)
        · intro id hid
          by_cases hrelay : id = relay
          · left
            rw [hrelay]
            show (update st.closedRelays relay (some generation) relay).isSome = true
            rw [update_self]
            rfl
          · rcases hall id hid with hclosed | ⟨generation', hreport⟩
            · left
              show (update st.closedRelays relay (some generation) id).isSome = true
              rw [update_of_ne hrelay]
              exact hclosed
            · rcases mem_cons.mp hreport with heq | hreport
              · exact absurd (congrArg Prod.fst heq) hrelay
              · exact .inr ⟨generation', hreport⟩
        · left
          simpa using hopen'
    · -- a relay that does not serve the session has no say in it
      have hignored : s.onSessionClosed lc key relay generation = (s, lc) := by
        unfold onSessionClosed
        rw [servingRelays_eq hget, if_pos hmem]
        split <;> rfl
      rw [hignored]
      have hreports : ∀ id ∈ relays, ∀ generation', (id, generation') ∈ (relay, generation) :: reports →
        (id, generation') ∈ reports := by
        intro id hid generation' hreport
        rcases mem_cons.mp hreport with heq | hreport
        · rw [show id = relay from congrArg Prod.fst heq] at hid
          exact absurd hid hmem
        · exact hreport
      refine ih hst hserving hopen (fun report hreport => hcurrent report (mem_cons_of_mem _ hreport)) ?_ ?_
      · intro id hid
        rcases hall id hid with hclosed | ⟨generation', hreport⟩
        · exact .inl hclosed
        · exact .inr ⟨generation', hreports id hid generation' hreport⟩
      · rcases hleft with hleft | ⟨id, hid, generation', hreport⟩
        · exact .inl hleft
        · exact .inr ⟨id, hid, generation', hreports id hid generation' hreport⟩

end SessionSetup

namespace CoordinatorState

variable {δ : Type} (s : CoordinatorState δ)

theorem lifecycle_retireRelay (relay : RelayId) (fails : Bool) (now : U64) :
    (s.retireRelay relay fails now).lifecycle = s.lifecycle := by
  unfold retireRelay
  cases s.ledger <;> rfl

theorem lifecycle_reconcile (input : LoopInput) : (s.reconcile input).1.lifecycle = s.lifecycle := by
  unfold reconcile
  cases s.ledger <;> rfl

end CoordinatorState

namespace CoordinatorTask

variable {δ : Type} [DecidableEq δ] (sha256 : Sha256) (tokenHash : String → δ)

variable {task : CoordinatorTask}

/-- **A piece that neither creates nor re-homes** registers no session and moves none. Departures change
    only where a refresh of the descriptors or the end of the session follows. -/
theorem next_keeps (hmoves : task.moves = false) (s : CoordinatorState δ) :
    s.lifecycle.Keeps (next sha256 tokenHash task s).1.lifecycle fun key =>
      (next sha256 tokenHash task s).1.setup.sessionRelays.get? key = none ∨
        (next sha256 tokenHash task s).2 = .going (.refreshResumed key) ∨
        (next sha256 tokenHash task s).2 = .going (.retireReaped key) := by
  cases task with
  | create | rehome | evictEvidence | rehomeEvicting => cases hmoves
  | authorize hello faults now peerIp readFails =>
    have hresult : (next sha256 tokenHash (.authorize hello faults now peerIp readFails) s).1 = _ :=
      s.authorize_eq sha256 tokenHash hello faults now peerIp readFails
    rw [hresult]
    exact .refl _
  | enroll hello readFails =>
    have hlifecycle : (next sha256 tokenHash (.enroll hello readFails) s).1 = (s.enroll sha256 hello readFails).1 := rfl
    rcases s.enroll_cases sha256 hello readFails with ⟨close, h⟩ | ⟨enrolled, -, -, h⟩ <;> rw [hlifecycle, h]
    · exact .refl _
    · exact s.setup.keeps_enrollRelay s.lifecycle sha256 hello
  | retireUnevidenced relay generation key keys mismatched =>
    exact (s.setup.retireUnevidenced_cases s.lifecycle key relay).keeps .inl
  | evict relay generation keys => cases keys <;> exact .refl _
  | onDeparture key notice => exact .put s.lifecycle key ⟨rfl, rfl, id, rfl⟩ (.inr (.inr (.inl rfl)))
  | onSessionClosed key relay generation =>
    exact (s.setup.onSessionClosed_cases s.lifecycle key relay generation).keeps .inl
  | onHeartbeat relay generation occupied => exact s.lifecycle.keeps_onRelayHeartbeat _ relay generation occupied
  | onResult key => exact .put s.lifecycle key ⟨rfl, rfl, id, rfl⟩ (.inl rfl)
  | ensureOrphanTracked key => exact .put s.lifecycle key (.refl _) (.inl rfl)
  | fireNeverStarted key => exact (s.setup.fireNeverStarted_cases s.lifecycle key).keeps .inl
  | fireEmptySession key confirmed => exact (s.setup.fireEmptySession_cases s.lifecycle key confirmed).keeps .inl
  | fireWebhookReap key => exact s.lifecycle.keeps_fireWebhookReap fun hdropped => .inr (.inr (if_pos hdropped))
  | disconnect relay generation => exact s.setup.keeps_disconnectRelay s.lifecycle relay generation
  | retireRelay relay fails now =>
    have hsame : (next sha256 tokenHash (.retireRelay relay fails now) s).1.lifecycle = s.lifecycle :=
      s.lifecycle_retireRelay relay fails now
    rw [hsame]
    exact .refl _
  | reconcile input =>
    have hsame : (next sha256 tokenHash (.reconcile input) s).1.lifecycle = s.lifecycle := s.lifecycle_reconcile input
    rw [hsame]
    exact .refl _
  | _ => exact .refl _

open SessionSetup

/-- **What a piece can do to a session**, in the setup and in the lifecycle. -/
inductive SessionChange (task : CoordinatorTask) (s s' : CoordinatorState δ) : Prop where
  | stays (loses : SessionKey → Prop) (hstays : Stays s.setup s'.setup) (hkeeps : s.lifecycle.Keeps s'.lifecycle loses)
  | assigned {key : SessionKey} {relays : List RelayId} (hassigned : Assigned s.setup s'.setup key relays)
      (hlc : s'.lifecycle = s.lifecycle ∨ s'.lifecycle = s.lifecycle.registerSession key relays)
  | moved {key : SessionKey} {dead rNew : RelayId} {members : List RelayId}
      (hmoved : Moved s.setup s'.setup key dead rNew members) (hlc : s'.lifecycle = s.lifecycle.onRehome key dead rNew)
  /-- The eviction of a mismatched session does not tell the lifecycle. -/
  | evicted {key : SessionKey} {dead rNew : RelayId} {members : List RelayId} {generation : Nat}
      {departedSlots : List DepartedSlot} {keys : List SessionKey}
      (htask : task = .rehomeEvicting dead generation key departedSlots keys) (hcandidates : s.setup.candidates key ≠ [])
      (hmoved : Moved s.setup s'.setup key dead rNew members) (hlc : s'.lifecycle = s.lifecycle)

omit [DecidableEq δ] in
/-- A re-home whose hook tells the lifecycle. -/
theorem SessionChange.rehomed {s s' : CoordinatorState δ} {dead : RelayId}
    (hsetup : s'.setup = (s.setup.rehomeSession sha256 s.lifecycle key dead).1)
    (hlc : s'.lifecycle = (s.setup.rehomeSession sha256 s.lifecycle key dead).2.1) : SessionChange task s s' := by
  unfold rehomeSession rehomeWithAssignmentCommit at hsetup hlc
  rcases s.setup.rehomeInner_moves sha256 s.lifecycle key dead true (·.departedSlots key) fun rNew lc =>
    lc.onRehome key dead rNew
    with ⟨hs, hview⟩ | ⟨newEntry, -, members, hmoved, hview⟩
  · rw [hs] at hsetup
    rw [hview] at hlc
    exact .stays (fun _ => False) (hsetup ▸ .refl _) (hlc ▸ .refl _)
  · rw [← hsetup] at hmoved
    exact .moved hmoved (hlc.trans hview)

theorem next_change (task : CoordinatorTask) (s : CoordinatorState δ) :
    SessionChange task s (next sha256 tokenHash task s).1 := by
  by_cases hmoves : task.moves = false
  · exact .stays _ ((next_run sha256 tokenHash task s).stays fun op hop => hop.moves hmoves)
      (next_keeps sha256 tokenHash hmoves s)
  cases task with
  | create request expiresAt policy =>
    rcases s.setup.createSession_cases sha256 s.lifecycle request expiresAt policy
      with ⟨hstays, hlc⟩ | ⟨key, relays, hassigned, hlc⟩
    · exact .stays (fun _ => False) hstays (hlc ▸ .refl s.lifecycle)
    · exact .assigned hassigned hlc
  | rehome key dead => exact .rehomed sha256 rfl rfl
  | evictEvidence relay generation keys mismatched =>
    cases keys with
    | nil => exact .stays (fun _ => False) (.refl _) (.refl _)
    | cons key keys => exact .rehomed sha256 rfl rfl
  | rehomeEvicting relay generation key departedSlots keys =>
    rcases s.setup.rehomeInner_moves sha256 () key relay false (fun _ => departedSlots) fun _ => id with
      ⟨hs, -⟩ | ⟨newEntry, hcandidate, members, hmoved, -⟩
    · refine .stays (fun _ => False) ?_ (.refl _)
      show Stays s.setup (s.setup.rehomeInner sha256 () key relay false (fun _ => departedSlots) Prod.mk fun _ => id).1
      rw [hs]
      exact .refl _
    · exact .evicted rfl (ne_nil_of_mem hcandidate) hmoved rfl
  | _ => exact absurd rfl hmoves

omit [DecidableEq δ] in
/-- **Whoever serves a session anew was available.** -/
theorem SessionChange.newHome {s s' : CoordinatorState δ} (h : SessionChange task s s')
    {relay : RelayId} (hserves : relay ∈ s'.setup.servingRelays key) :
    relay ∈ s.setup.servingRelays key ∨ s.setup.registry.isAvailable relay = true := by
  obtain ⟨relays, hget, hmem⟩ := mem_servingRelays.mp hserves
  have hmove : ∀ {key' dead rNew members}, Moved s.setup s'.setup key' dead rNew members →
      relay ∈ s.setup.servingRelays key ∨ s.setup.registry.isAvailable relay = true := by
    intro key' dead rNew members hmoved
    rw [hmoved.sessionRelays, get?_insert] at hget
    split at hget
    · rename_i hkey
      subst hkey
      rw [← some.inj hget] at hmem
      rcases (mem_moveMembers hmoved.mem relay).mp hmem with rfl | ⟨hold, -⟩
      · exact .inr hmoved.available
      · exact .inl (mem_servingRelays.mpr ⟨members, hmoved.served, hold⟩)
    · exact .inl (mem_servingRelays.mpr ⟨relays, hget, hmem⟩)
  cases h with
  | stays loses hstays hkeeps => exact .inl (mem_servingRelays.mpr ⟨relays, hstays.sessionRelays key relays hget, hmem⟩)
  | assigned hassigned hlc =>
    rw [hassigned.sessionRelays, get?_insert] at hget
    split at hget
    · rw [← some.inj hget] at hmem
      exact .inr (hassigned.available relay hmem)
    · exact .inl (mem_servingRelays.mpr ⟨relays, hget, hmem⟩)
  | moved hmoved | evicted _ _ hmoved => exact hmove hmoved

/-- An eviction finds the session moved already, no relay to take it, or no registration of it. -/
def leavesRegistered (s : CoordinatorState δ) : CoordinatorTask → Bool
  | rehomeEvicting relay _ key _ _ =>
    !(s.setup.servingRelays key).contains relay || (s.setup.candidates key).isEmpty ||
      (s.lifecycle.sessions key).all (!·.createdHere)
  | _ => true

end CoordinatorTask

/-! ## Runs -/

section Runs

variable {δ : Type} [DecidableEq δ] {sha256 : Sha256} {tokenHash : String → δ}

open CoordinatorTask

theorem Follows.step {s : CoordinatorState δ} (h : Follows s.setup s.lifecycle) {task : CoordinatorTask}
    (hok : leavesRegistered s task = true) :
    Follows (next sha256 tokenHash task s).1.setup (next sha256 tokenHash task s).1.lifecycle := by
  have hsound := (next_run sha256 tokenHash task s).sound h.sound
  cases next_change sha256 tokenHash task s with
  | stays loses hstays hkeeps => exact h.stays hsound hstays hkeeps
  | assigned hassigned hlc => exact h.assigned hsound hassigned hlc
  | moved hmoved hlc =>
    rw [hlc]
    exact h.move hsound hmoved
  | evicted htask hcandidates hmoved hlc =>
    subst htask
    have hserves : s.setup.servingRelays _ = _ := congrArg (·.getD []) hmoved.served
    rw [hlc]
    refine h.moveUnregistered hsound hmoved ?_
    simpa [leavesRegistered, hserves, hmoved.mem, hcandidates] using hok

/-- **The lifecycle follows the assignments in every world.** -/
theorem Follows.run {w : CoordinatorWorld δ} (h : Follows w.shared.setup w.shared.lifecycle)
    {moves : List (Move CoordinatorTask)}
    (hobeys : World.Obeys (next sha256 tokenHash) (World.Each leavesRegistered) w moves) :
    Follows (w.run (next sha256 tokenHash) moves).shared.setup (w.run (next sha256 tokenHash) moves).shared.lifecycle :=
  shared_invariant_of (P := fun s : CoordinatorState δ => Follows s.setup s.lifecycle) (fun _ _ hok h => h.step hok) h hobeys

/-- From a world on, the session is assigned to relays of `P`, or an alias is on record for it. -/
structure MovesLeaveTrace (key : SessionKey) (P : List RelayId → Prop) (s : CoordinatorState δ) : Prop where
  issued : key.session < s.setup.nextSession
  traced : ∀ relays, s.setup.sessionRelays.get? key = some relays → P relays ∨ ∃ dead target,
    s.setup.rehomes key dead = some target

theorem MovesLeaveTrace.step {P : List RelayId → Prop} {s : CoordinatorState δ} (h : MovesLeaveTrace key P s)
    (task : CoordinatorTask) : MovesLeaveTrace key P (next sha256 tokenHash task s).1 := by
  have hmove : ∀ {key' dead rNew members}, Moved s.setup (next sha256 tokenHash task s).1.setup key' dead rNew members →
      MovesLeaveTrace key P (next sha256 tokenHash task s).1 := by
    intro key' dead rNew members hmoved
    refine ⟨hmoved.nextSession ▸ h.issued, ?_⟩
    intro relays hget
    by_cases hkey : key = key'
    · subst hkey
      exact .inr ⟨dead, rNew, hmoved.recorded⟩
    · rw [hmoved.sessionRelays, get?_insert, if_neg hkey] at hget
      rw [hmoved.rehomes key hkey]
      exact h.traced relays hget
  cases next_change sha256 tokenHash task s with
  | stays loses hstays hkeeps =>
    refine ⟨hstays.nextSession ▸ h.issued, ?_⟩
    intro relays hget
    rw [hstays.aliased key relays hget]
    exact h.traced relays (hstays.sessionRelays key relays hget)
  | assigned hassigned hlc =>
    refine ⟨hassigned.nextSession ▸ Nat.lt_succ_of_lt h.issued, ?_⟩
    intro relays hget
    rw [hassigned.sessionRelays, get?_insert, if_neg (hassigned.ne_of_issued h.issued)] at hget
    rw [hassigned.rehomes]
    exact h.traced relays hget
  | moved hmoved | evicted _ _ hmoved => exact hmove hmoved

/-- The session was issued, and its flag is down. -/
structure Unattestable (key : SessionKey) (s : CoordinatorState δ) : Prop where
  issued : key.session < s.setup.nextSession
  down : ∀ st, s.lifecycle.sessions key = some st → st.createdHere = true → st.attestable = false

/-- **The attestable flag never rises again.** -/
theorem Unattestable.step {s : CoordinatorState δ} (h : Unattestable key s) (task : CoordinatorTask) :
    Unattestable key (next sha256 tokenHash task s).1 := by
  cases next_change sha256 tokenHash task s with
  | stays loses hstays hkeeps =>
    refine ⟨hstays.nextSession ▸ h.issued, ?_⟩
    intro st' hst' hcreated
    rcases hkeeps.states key st' hst' with ⟨hnot, -⟩ | ⟨st, hst, hk⟩
    · cases hnot.symm.trans hcreated
    · have hdown := h.down st hst (hk.createdHere.symm.trans hcreated)
      cases hattestable : st'.attestable with
      | false => rfl
      | true => cases hdown.symm.trans (hk.attestable hattestable)
  | assigned hassigned hlc =>
    refine ⟨hassigned.nextSession ▸ Nat.lt_succ_of_lt h.issued, ?_⟩
    intro st hst hcreated
    rcases hlc with hlc | hlc
    · rw [hlc] at hst
      exact h.down st hst hcreated
    · unfold registerSession at hlc
      rw [hlc, sessions_put, if_neg (hassigned.ne_of_issued h.issued)] at hst
      exact h.down st hst hcreated
  | moved hmoved hlc =>
    refine ⟨hmoved.nextSession ▸ h.issued, ?_⟩
    intro st' hst' hcreated
    rw [hlc, sessions_onRehome] at hst'
    split at hst'
    · rename_i hkey
      rw [← hkey] at hst'
      obtain ⟨st, hst, rfl⟩ := map_eq_some_iff.mp hst'
      exact rehomed_attestable_of_false (h.down st hst (rehomed_leaves.1.symm.trans hcreated))
    · exact h.down st' hst' hcreated
  | evicted htask hcandidates hmoved hlc => exact ⟨hmoved.nextSession ▸ h.issued, hlc ▸ h.down⟩

omit [DecidableEq δ] in
/-- **An enrollment that breaks the lineage of a relay lowers the flag of the sessions it serves.** -/
theorem Unattestable.enroll {s : CoordinatorState δ} (h : Follows s.setup s.lifecycle)
    {hello : RelayHello} {readFails : Bool}
    {point : CoordinatorTask} {enrolled : Enrolled} (hgoing : (s.enroll sha256 hello readFails).2 = .going point)
    (henrolled : (s.setup.enrollLocked sha256 hello).2 = .ok enrolled) (hbroken : enrolled.lineage = .broken)
    (hserves : hello.relayId ∈ s.setup.servingRelays key) : Unattestable key (s.enroll sha256 hello readFails).1 := by
  obtain ⟨relays, hget, hmem⟩ := mem_servingRelays.mp hserves
  rcases s.enroll_cases sha256 hello readFails with ⟨close, hrefused⟩ | ⟨_, -, -, hok⟩
  · rw [hrefused] at hgoing
    cases hgoing
  · have hcalls : Calls sha256 (·.moves = false) s.setup
      (s.setup.enrollRelay sha256 s.lifecycle hello).1 := .enrollRelay _ _ rfl
    rw [hok]
    refine ⟨(hcalls.stays fun _ => id).nextSession ▸ h.sound.issued key relays hget, ?_⟩
    intro st' hst' hcreated
    replace hst' : (s.setup.enrollRelay sha256 s.lifecycle hello).2.1.sessions key = some st' := hst'
    have hlc : (s.setup.enrollRelay sha256 s.lifecycle hello).2.1 =
        (s.lifecycle.applyRelayEnrolled hello.relayId enrolled.generation).onRelayLineageBreak hello.relayId := by
      unfold enrollRelay
      rcases hresult : s.setup.enrollLocked sha256 hello with ⟨setup, conflict | enrolled'⟩
      · rw [hresult] at henrolled
        cases henrolled
      · rw [hresult] at henrolled
        obtain rfl := Except.ok.inj henrolled
        dsimp only
        rw [if_pos hbroken]
    rw [hlc] at hst'
    obtain ⟨st₁, hst₁, rfl⟩ := map_eq_some_iff.mp hst'
    have hkeeps : s.lifecycle.Keeps _ fun _ => False :=
      s.lifecycle.keeps_applyRelayEnrolled hello.relayId enrolled.generation
    rcases hkeeps.states key st₁ hst₁ with ⟨hnot, -⟩ | ⟨st, hst, hk⟩
    · split at hcreated <;> cases hnot.symm.trans hcreated
    · have hcreated₁ : st.createdHere = true := by
        rw [← hk.createdHere]
        split at hcreated <;> exact hcreated
      have hserving : hello.relayId ∈ st₁.servingRelays := by
        rw [hk.servingRelays, h.serving key st relays hst hcreated₁ hget]
        exact hmem
      rw [if_pos hserving]

/-! ### What a run has seen -/

variable (sha256 tokenHash)

/-- The session's assignment changed during the run. -/
def EverMoved (w : CoordinatorWorld δ) (moves : List (Move CoordinatorTask)) (key : SessionKey) : Prop :=
  ∃ before between after relays relays', moves = before ++ between ++ after ∧
    (w.run (next sha256 tokenHash) before).shared.setup.sessionRelays.get? key = some relays ∧
    (w.run (next sha256 tokenHash) (before ++ between)).shared.setup.sessionRelays.get? key = some relays' ∧ relays' ≠ relays

/-- A relay enrolled during the run that had lost its memory, while it served the session. -/
def LineageBroke (w : CoordinatorWorld δ) (moves : List (Move CoordinatorTask)) (key : SessionKey) : Prop :=
  ∃ before m after hello readFails point enrolled, moves = before ++ m :: after ∧
    (w.run (next sha256 tokenHash) before).pointOf m = some (.enroll hello readFails) ∧
    ((w.run (next sha256 tokenHash) before).shared.enroll sha256 hello readFails).2 = .going point ∧
    ((w.run (next sha256 tokenHash) before).shared.setup.enrollLocked sha256 hello).2 = .ok enrolled ∧
    enrolled.lineage = .broken ∧ hello.relayId ∈ (w.run (next sha256 tokenHash) before).shared.setup.servingRelays key

variable {sha256 tokenHash} {w : CoordinatorWorld δ} {moves : List (Move CoordinatorTask)}

/-- A session that has moved has an alias on record, as long as it is assigned. -/
theorem EverMoved.aliased (h : EverMoved sha256 tokenHash w moves key) (hsound : Sound none w.shared.setup)
    (hget : (w.run (next sha256 tokenHash) moves).shared.setup.sessionRelays.get? key = some relays) :
    ∃ dead target, (w.run (next sha256 tokenHash) moves).shared.setup.rehomes key dead = some target := by
  obtain ⟨before, between, after, relays₀, relays₁, rfl, hbefore, hbetween, hne⟩ := h
  have htraced : MovesLeaveTrace key (· = relays₀) (w.run (next sha256 tokenHash) (before ++ between)).shared := by
    rw [run_append]
    refine shared_invariant (fun _ task h => h.step task) ⟨(hsound.world before).issued key relays₀ hbefore, ?_⟩
    intro relays hrelays
    exact .inl (some.inj (hrelays.symm.trans hbefore))
  have haliased : MovesLeaveTrace key (fun _ => False) (w.run (next sha256 tokenHash) (before ++ between)).shared := by
    refine ⟨htraced.issued, ?_⟩
    intro relays hrelays
    rcases htraced.traced relays hrelays with heq | halias
    · exact absurd ((some.inj (hbetween.symm.trans hrelays)).trans heq) hne
    · exact .inr halias
  rw [run_append] at hget ⊢
  have hafter : MovesLeaveTrace key (fun _ => False)
      ((w.run (next sha256 tokenHash) (before ++ between)).run (next sha256 tokenHash) after).shared :=
    shared_invariant (fun _ task h => h.step task) haliased
  exact (hafter.traced relays hget).resolve_left id

/-- A session whose relay lost its memory has its flag down. -/
theorem LineageBroke.unattestable (h : LineageBroke sha256 tokenHash w moves key)
    (hfollows : Follows w.shared.setup w.shared.lifecycle)
    (hobeys : World.Obeys (next sha256 tokenHash) (World.Each leavesRegistered) w moves) :
    Unattestable key (w.run (next sha256 tokenHash) moves).shared := by
  obtain ⟨before, m, after, hello, readFails, point, enrolled, rfl, hpoint, hgoing, henrolled, hbroken, hserves⟩ := h
  have hbefore := hfollows.run (World.Obeys.append.mp hobeys).1
  rw [run_append]
  refine shared_invariant (w := (w.run (next sha256 tokenHash) before).move (next sha256 tokenHash) m)
    (fun _ task h => h.step task) ?_
  rw [shared_move_of_pointOf hpoint]
  exact .enroll hbefore hgoing henrolled hbroken hserves

/-- **The lifecycle follows every assignment change**, in every schedule whose evictions of mismatched
    sessions leave registered ones where they are: a registered session has the same serving relays in
    both maps, is not attestable once it has moved or a relay of its own has lost its memory, and is
    finished by a close from each of its relays. -/
theorem lifecycle_follows_assignments (sha256 : Sha256) (tokenHash : String → δ) (registry : RelayRegistry)
    (tenants : TenantStore) (firstSessionId : SessionId) (createHold sessionCeiling : Option Nat) (finalizeFeature : Bool)
    (pairRtts : PairRtts) (ledger : Option (RelayLedger δ)) (config : ProvisionConfig) (moves : List (Move CoordinatorTask))
    (hobeys : World.Obeys (next sha256 tokenHash) (World.Each leavesRegistered)
      (.init (.new (.new registry tenants firstSessionId createHold sessionCeiling finalizeFeature pairRtts)
        ledger config)) moves) :
    let start : CoordinatorWorld δ :=
      .init (.new (.new registry tenants firstSessionId createHold sessionCeiling finalizeFeature pairRtts) ledger config)
    let s := (start.run (next sha256 tokenHash) moves).shared
    ∀ key st relays, s.lifecycle.sessions key = some st → st.createdHere = true →
      s.setup.sessionRelays.get? key = some relays →
      st.servingRelays = relays ∧
      (EverMoved sha256 tokenHash start moves key → st.attestable = false) ∧
      (∀ dead target, s.setup.rehomes key dead = some target → st.attestable = false) ∧
      (LineageBroke sha256 tokenHash start moves key → st.attestable = false) ∧
      ∀ reports : List (RelayId × Nat), (∀ report ∈ reports, s.lifecycle.isCurrent report.1 report.2 = true) →
        (∀ relay ∈ relays, ∃ generation, (relay, generation) ∈ reports) →
        Finished key (reportClosed key reports (s.setup, s.lifecycle)) := by
  intro start s key st relays hst hcreated hget
  have hstart : Follows start.shared.setup start.shared.lifecycle := .new ..
  have hfollows : Follows s.setup s.lifecycle := hstart.run hobeys
  have hserving : st.servingRelays = relays := hfollows.serving key st relays hst hcreated hget
  refine ⟨hserving, ?_, ?_, ?_, ?_⟩
  · intro hmoved
    obtain ⟨dead, target, halias⟩ := hmoved.aliased hstart.sound hget
    exact hfollows.moved key st dead target hst hcreated halias
  · intro dead target halias
    exact hfollows.moved key st dead target hst hcreated halias
  · intro hbroke
    exact (hbroke.unattestable hstart hobeys).down st hst hcreated
  · intro reports hcurrent hall
    have hnonempty : relays ≠ [] := (hfollows.sound.serving key relays hget).1
    obtain ⟨relay, hrelay⟩ := exists_mem_of_ne_nil relays hnonempty
    exact reportClosed_finished hget hst hserving (hfollows.unended key st hst) hnonempty hcurrent
      (fun relay hrelay => .inr (hall relay hrelay)) (.inr ⟨relay, hrelay, hall relay hrelay⟩)

end Runs

end

namespace Demo

open CoordinatorTask SessionSetup

/-- Relay 1 goes, and the tenant asks where to go. -/
def movedByTenant : List (Move CoordinatorTask) := twoRelays ++ solo 3 (.disconnect 1 0) 1 ++ solo 4 (.rehome key 1) 1

/-- A session that its tenant had moved: it is not attestable, and relay 2 alone closes it. -/
theorem lifecycle_follows_tenant :
    ∃ st, (go movedByTenant idle).shared.lifecycle.sessions key = some st ∧ st.servingRelays = [2] ∧ st.attestable = false ∧
      Finished key (reportClosed key [(2, 1)]
        ((go movedByTenant idle).shared.setup, (go movedByTenant idle).shared.lifecycle)) := by
  obtain ⟨st, hst⟩ : ∃ st, (go movedByTenant idle).shared.lifecycle.sessions key = some st := ⟨_, rfl⟩
  have hcreated : st.createdHere = true := by
    have h : ((go movedByTenant idle).shared.lifecycle.sessions key).map (·.createdHere) = some true := by decide
    rw [hst] at h
    exact some.inj h
  obtain ⟨hserving, -, hmoved, -, hclosed⟩ :=
    lifecycle_follows_assignments digest (fun _ => ()) .new (tenants "k") 1 none none false
    (fun _ _ => none) none ⟨[], 0, none⟩ movedByTenant (by decide) key st [2] hst hcreated (by decide)
  exact ⟨st, hst, hserving, hmoved 1 2 (by decide), hclosed [(2, 1)] (by decide) (by simp)⟩

/-- Relay 1 enrolls again, from the same boot and without what the session needs. -/
def evictedByEnrollment : List (Move CoordinatorTask) := twoRelays ++ solo 3 (dials 1 [1] []) 6

/-- The session has moved to relay 2 and no task is under way, but the lifecycle has it on relay 1, and a
    close from relay 2 does not finish it. -/
theorem eviction_leaves_lifecycle_behind :
    let w := go evictedByEnrollment idle
    w.Idle ∧ w.shared.setup.sessionRelays.get? key = some [2] ∧
      (w.shared.lifecycle.sessions key).map (fun st =>
        (st.createdHere, st.servingRelays, st.attestable)) = some (true, [1], true) ∧
      w.shared.lifecycle.isCurrent 2 1 = true ∧
      (reportClosed key [(2, 1)] (w.shared.setup, w.shared.lifecycle)).1.sessionRelays.get? key = some [2] := by
  decide

end Demo

end RallyPoint.Coordinator
