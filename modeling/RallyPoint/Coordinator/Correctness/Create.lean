import RallyPoint.Proto.Correctness.Token
import RallyPoint.Coordinator.Correctness.Sessions

/-!
# `Coordinator.Correctness.Create` — creates, repeated creates and failed ones

* `failed_create_leaves_nothing` — a create that fails has written nothing, unless it is the mint that
  failed;
* `replayed_create_agrees` — a create is answered with another one's response only if they ask for the
  same, roll-back and the order of players and keys apart;
* `one_live_session_per_external_id` — a tenant's name for a game has at most one live session, within
  the ceiling.

What a replay record says is tied to the log: `Logged` says which create wrote it, and `Carried` that the
live session of a name is the one its record answers with.
-/

namespace RallyPoint.Coordinator

open Lib Proto Function List Option SessionSetup

/-! ## Minting -/

section Mint

variable {tenants : TenantStore} {tenant : TenantId} {key : TenantSigningKey}

theorem mintPlayer_fits (htenant : tenants tenant = some key) (hkid : Fits key.kid.name)
    (hname : Fits tenant) (session : SessionId) (expiresAt : U64) (player : PlayerHandoff) :
    ∃ token, mintPlayer tenants tenant session expiresAt player = .ok token := by
  unfold mintPlayer mintToken
  rw [htenant]
  dsimp only
  rw [SignedToken.signedMessage, encodeSignedRange_eq_ok.mpr ⟨⟨hkid, hname⟩, rfl⟩]
  dsimp only
  rw [SignedToken.encode_eq_ok.mpr ⟨⟨hkid, hname⟩, rfl⟩]
  exact ⟨_, rfl⟩

/-- **Every token is minted**, if the key id and the tenant's name fit into one. -/
theorem mintTokens_fits (htenant : tenants tenant = some key) (hkid : Fits key.kid.name)
    (hname : Fits tenant) (session : SessionId) (expiresAt : U64) (players : List PlayerHandoff) :
    ∃ tokens, mintTokens tenants tenant session expiresAt players = .ok tokens := by
  induction players with
  | nil => exact ⟨[], rfl⟩
  | cons player players ih =>
    obtain ⟨token, htoken⟩ := mintPlayer_fits htenant hkid hname session expiresAt player
    obtain ⟨tokens, htokens⟩ := ih
    rw [mintTokens, htoken, htokens]
    exact ⟨_, rfl⟩

/-- No token is minted under a key id that is too long. -/
theorem mintTokens_long (htenant : tenants tenant = some key) (hkid : ¬ Fits key.kid.name)
    (session : SessionId) (expiresAt : U64) (player : PlayerHandoff) (players : List PlayerHandoff) :
    mintTokens tenants tenant session expiresAt (player :: players) = .error (.tenantNotFound tenant) := by
  have hmessage : ∀ claims signature, SignedToken.signedMessage ⟨key.kid, claims, signature⟩ [] = .error .stringTooLong := by
    intro claims signature
    unfold SignedToken.signedMessage encodeSignedRange
    rw [pushString_long hkid]
    rfl
  unfold mintTokens mintPlayer mintToken
  rw [htenant]
  dsimp only
  rw [hmessage]
  rfl

end Mint

/-! ## Failed creates -/

namespace SessionSetup

variable (sha256 : Sha256) {σ : Type}

/-- Nothing of a session is there that was not, and the caller was not told of one. -/
structure Untouched (s : SessionSetup) (view : σ) (s' : SessionSetup) (view' : σ) : Prop where
  sessionRelays : s'.sessionRelays = s.sessionRelays
  sessionRefs : s'.sessionRefs = s.sessionRefs
  descriptors : s'.descriptors = s.descriptors
  createIdempotency : s'.createIdempotency = s.createIdempotency
  view : view' = view

/-- The create does not get to its commit, or the names its tokens carry fit into one. -/
def FailsClean (s : SessionSetup) (request : SessionRequest) : Prop :=
  s.replay request ≠ none ∨ s.Refuses sha256 request ∨
    ∀ key, s.tenants request.tenant = some key → Fits key.kid.name ∧ Fits request.tenant

/-- **A create that fails leaves nothing behind**, if it fails before its commit or its tokens can be
    minted; and in every setup that keeps its invariant (`Sound.run`), only then. -/
theorem failed_create_leaves_nothing (s : SessionSetup) (view : σ) (request : SessionRequest) (expiresAt : U64)
    (policy : CreatePolicy) (onCommit : SessionId → List RelayId → σ → σ) {s' : SessionSetup}
    {view' : σ} {e : SessionSetupError}
    (h : s.createBody sha256 view request expiresAt policy onCommit = (s', view', .error e)) :
    (s.FailsClean sha256 request → Untouched s view s' view') ∧
      (Sound none s → (Untouched s view s' view' ↔ s.FailsClean sha256 request)) := by
  have hcases := s.createBody_cases sha256 view request expiresAt policy onCommit
  rw [h] at hcases
  cases hcases with
  | replayed answer hreplay =>
    have hclean : s.FailsClean sha256 request := .inl (by simp [hreplay])
    exact ⟨fun _ => ⟨rfl, rfl, rfl, rfl, rfl⟩, fun _ => ⟨fun _ => hclean, fun _ => ⟨rfl, rfl, rfl, rfl, rfl⟩⟩⟩
  | refused pendingCreates e hreplay hrefuses =>
    exact ⟨fun _ => ⟨rfl, rfl, rfl, rfl, rfl⟩, fun _ => ⟨fun _ => .inr (.inl hrefuses), fun _ => ⟨rfl, rfl, rfl, rfl, rfl⟩⟩⟩
  | unminted pendingCreates placement tenant e hreplay hceiling hplace htenant hmint hvalid =>
    -- the one failure after the commit: a name that no token can carry
    have hdirty : ¬ s.FailsClean sha256 request := by
      rintro (hnot | (hnot | hnot | hnot | hnot) | hfits)
      · exact hnot hreplay
      · exact hnot hvalid
      · cases hceiling.symm.trans hnot
      · exact hnot placement hplace
      · cases hnot.symm.trans htenant
      · obtain ⟨hkid, hname⟩ := hfits tenant htenant
        obtain ⟨tokens, hok⟩ := mintTokens_fits htenant hkid hname s.nextSession expiresAt request.players
        cases hok.symm.trans hmint
    refine ⟨fun hclean => absurd hclean hdirty, fun hsound => ⟨fun huntouched => ?_, fun hclean => absurd hclean hdirty⟩⟩
    -- the session is assigned under an id that no session had
    have hnone : s.sessionRelays.get? ⟨request.tenant, s.nextSession⟩ = none := (hsound.fresh (le_refl _)).unassigned
    have hsame := huntouched.sessionRelays
    rw [commitCreate_eq] at hsame
    rw [← hsame] at hnone
    cases ((OrdMap.get?_insert _ _ _ _).trans (if_pos rfl)).symm.trans hnone

/-- The create of a tenant whose tokens cannot be minted commits all the same. -/
theorem createBody_unminted {s : SessionSetup} {view : σ} {request : SessionRequest}
    {expiresAt : U64} {policy : CreatePolicy}
    {onCommit : SessionId → List RelayId → σ → σ} {placement : Placement} {tenant : TenantSigningKey} {e : SessionSetupError}
    (hreplay : s.replay request = none) (hvalid : validateRequest request = .ok ())
    (hceiling : s.sessionCeiling.any (· ≤ s.liveSessionCount) = false) (hhold : s.holdUntilReady request policy = (s, none))
    (hplace : placeByRegion sha256 s.registry s.pairRtts request s.nextSession s.finalizeFeature = .ok placement)
    (htenant : s.tenants request.tenant = some tenant)
    (hmint : mintTokens s.tenants request.tenant s.nextSession expiresAt request.players = .error e) :
    s.createBody sha256 view request expiresAt policy onCommit = (s.commitCreate request placement, view, .error e) := by
  unfold createBody placeAndCommit
  rw [hreplay, hvalid, hceiling, hhold]
  dsimp only
  rw [if_neg (by simp), hplace, htenant]
  dsimp only
  rw [hmint]

end SessionSetup

namespace Demo

/-- A name of 256 bytes. -/
def longName : String := .ofList (.replicate 256 'k')

theorem utf8Len_replicate (n : Nat) : String.utf8Len (List.replicate n 'k') = n := by
  induction n with
  | zero => rfl
  | succ n ih =>
    rw [replicate_succ, String.utf8Len_cons, ih]
    rfl

theorem longName_long : ¬ Fits longName := by
  unfold Fits longName
  rw [String.utf8ByteSize_ofList, utf8Len_replicate]
  decide

/-- A create refused for want of a relay, by a tenant whose key id is too long for a token. -/
theorem failed_create_leaves_nothing_unplaced :
    let s := SessionSetup.new .new (tenants longName) 1 none none false fun _ _ => none
    let r := s.createBody digest () (request (some "g")) 0 .immediate (fun _ _ => id)
    r.2.2 = .error .noRelaysAvailable ∧ Untouched s () r.1 r.2.1 := by
  intro s r
  refine ⟨by decide, (failed_create_leaves_nothing digest s () (request (some "g")) 0 .immediate (fun _ _ => id) rfl).1 ?_⟩
  refine .inr (.inl (.inr (.inr (.inl ?_))))
  intro placement hplace
  cases hplace

/-- A coordinator with one relay, and a tenant whose key id is too long for a token. -/
def longSetup : SessionSetup :=
  ((SessionSetup.new .new (tenants longName) 1 none none false fun _ _ => none).run digest [.enroll (hello 1 [1] [])]).1

/-- The create fails, and yet a session is counted as live and the relay is told to serve it. -/
theorem failed_create_leaves_session :
    let r := longSetup.createBody digest () (request (some "g")) 0 .immediate (fun _ _ => id)
    r.2.2 = .error (.tenantNotFound "t") ∧ longSetup.liveSessionCount = 0 ∧ r.1.liveSessionCount = 1 ∧
      (longSetup.descriptors.currentFor 1).length = 0 ∧ (r.1.descriptors.currentFor 1).length = 1 := by
  have htenant : longSetup.tenants "t" = some (signingKey longName) := rfl
  have hmint : mintTokens longSetup.tenants "t" 1 0 (request (some "g")).players = .error (.tenantNotFound "t") :=
    mintTokens_long htenant longName_long 1 0 _ []
  intro r
  have hr : r = _ := createBody_unminted digest rfl rfl rfl rfl rfl htenant hmint
  rw [hr]
  refine ⟨rfl, ?_, ?_, ?_, ?_⟩
  · decide
  · decide
  · decide
  · decide

end Demo

/-! ## Repeated creates -/

namespace SessionSetup

variable (sha256 : Sha256)
variable (registry : RelayRegistry) (tenants : TenantStore) (firstSessionId : SessionId)
  (createHold sessionCeiling : Option Nat)
  (finalizeFeature : Bool) (pairRtts : PairRtts)

abbrev SetupLog := List (SetupOp × SetupAnswer)

/-- Every slot of a valid roster is named once. -/
theorem validatePlayers_nodup {seen roster : List SlotId} {players : List PlayerHandoff}
    (h : validatePlayers seen players = .ok roster) :
    (players.map (·.slot)).Nodup ∧ ∀ p ∈ players, p.slot ∉ seen := by
  induction players generalizing seen with
  | nil => exact ⟨nodup_nil, fun _ hp => absurd hp not_mem_nil⟩
  | cons player players ih =>
    unfold validatePlayers at h
    split at h
    · cases h
    split at h
    · cases h
    rename_i hseen
    split at h
    · cases h
    obtain ⟨hnodup, hfree⟩ := ih h
    refine ⟨nodup_cons.mpr ⟨?_, hnodup⟩, ?_⟩
    · intro hmem
      obtain ⟨p, hp, hslot⟩ := mem_map.mp hmem
      exact hfree p hp (hslot ▸ mem_cons_self)
    · intro p hp
      rcases mem_cons.mp hp with rfl | hp
      · exact hseen
      · exact fun hmem => hfree p hp (mem_cons_of_mem _ hmem)

theorem validateRequest_nodup {request : SessionRequest} (h : validateRequest request = .ok ()) :
    (request.players.map (·.slot)).Nodup ∧ (request.evidenceKeys.map (·.keyId)).Nodup := by
  unfold validateRequest at h
  split at h
  · cases h
  split at h
  · cases h
  split at h
  · cases h
  rename_i hkeys
  cases hroster : validatePlayers [] request.players with
  | error e =>
    rw [hroster] at h
    cases h
  | ok roster => exact ⟨(validatePlayers_nodup hroster).1, not_not.mp (not_or.mp hkeys).1⟩

/-- The log has a create of `request` that was answered with a new session. -/
def Created (log : SetupLog) (request : SessionRequest) (response : SessionResponse) : Prop :=
  ∃ expiresAt policy, (SetupOp.create request expiresAt policy, SetupAnswer.created (.ok (.created ⟨response, false⟩))) ∈ log

/-- **Which create wrote a replay record**, and that no two creates got the same id. -/
structure Logged (s : SessionSetup) (log : SetupLog) : Prop where
  recorded : ∀ k cached, s.createIdempotency k = some cached →
    ∃ request, Created log request cached.response ∧ request.tenant = k.1 ∧ request.externalId = some k.2 ∧
      cached.fingerprint = .fromRequest request
  issued : ∀ request response, Created log request response → response.session < s.nextSession
  unique : ∀ request₁ response₁ request₂ response₂, Created log request₁ response₁ → Created log request₂ response₂ →
    response₁.session = response₂.session → request₁ = request₂ ∧ response₁ = response₂
  valid : ∀ request response, Created log request response → validateRequest request = .ok ()

section Logged

variable {s : SessionSetup} {log : SetupLog}

variable {op : SetupOp} {request : SessionRequest} {answer : SetupAnswer}

theorem created_append {response : SessionResponse} :
    Created (log ++ [(op, answer)]) request response ↔ Created log request response ∨
      (∃ expiresAt policy, op = .create request expiresAt policy) ∧
        answer = .created (.ok (.created ⟨response, false⟩)) := by
  unfold Created
  constructor
  · rintro ⟨expiresAt, policy, hmem⟩
    rcases mem_append.mp hmem with hmem | hmem
    · exact .inl ⟨expiresAt, policy, hmem⟩
    · obtain ⟨rfl, rfl⟩ : _ ∧ _ := by simpa using hmem
      exact .inr ⟨⟨expiresAt, policy, rfl⟩, rfl⟩
  · rintro (⟨expiresAt, policy, hmem⟩ | ⟨⟨expiresAt, policy, rfl⟩, rfl⟩)
    · exact ⟨expiresAt, policy, mem_append_left _ hmem⟩
    · exact ⟨expiresAt, policy, mem_append_right _ (by simp)⟩

/-- A replay is not a new session. -/
theorem replay_not_fresh {created : CreatedSession}
    (h : s.replay request = some (.ok (.created created))) : created.replayed = true := by
  unfold replay at h
  obtain ⟨externalId, -, h⟩ := bind_eq_some_iff.mp h
  obtain ⟨cached, -, h⟩ := bind_eq_some_iff.mp h
  split at h
  · cases h
  · split at h
    · obtain rfl : ⟨cached.response, true⟩ = created := by simpa using h
      rfl
    · simp at h

/-- A call that creates no session writes no record. -/
theorem Logged.extend (h : Logged s log) {s' : SessionSetup}
    (hrecord : ∀ k, s'.createIdempotency k = s.createIdempotency k ∨ s'.createIdempotency k = none)
    (hnext : s.nextSession ≤ s'.nextSession) (hanswer : ∀ response, answer ≠ .created (.ok (.created ⟨response, false⟩))) :
    Logged s' (log ++ [(op, answer)]) := by
  have hcreated : ∀ request response, Created (log ++ [(op, answer)]) request response → Created log request response := by
    intro request response hc
    rcases created_append.mp hc with hc | ⟨-, ha⟩
    · exact hc
    · exact absurd ha (hanswer response)
  constructor
  · intro k cached hk
    rcases hrecord k with hsame | hnone
    · obtain ⟨request, hc, hrest⟩ := h.recorded k cached (hsame ▸ hk)
      exact ⟨request, created_append.mpr (.inl hc), hrest⟩
    · cases hnone.symm.trans hk
  · intro request response hc
    exact Nat.lt_of_lt_of_le (h.issued request response (hcreated _ _ hc)) hnext
  · intro request₁ response₁ request₂ response₂ h₁ h₂
    exact h.unique _ _ _ _ (hcreated _ _ h₁) (hcreated _ _ h₂)
  · intro request response hc
    exact h.valid request response (hcreated _ _ hc)

/-- A close frees no name but its own. -/
theorem createIdempotency_take (s : SessionSetup) (key : SessionKey) (k : ExternalKey) :
    (s.takeSessionMembership key).1.createIdempotency k = s.createIdempotency k ∨
      (s.takeSessionMembership key).1.createIdempotency k = none ∧
        ∃ cached, s.createIdempotency k = some cached ∧ k.1 = key.tenant ∧ cached.response.session = key.session := by
  rcases freeExternalId_createIdempotency
    { s with sessionRelays := s.sessionRelays.erase key, sessionRefs := update s.sessionRefs key none } key
    ((s.sessionRefs key).bind (·.externalId)) k with hsame | ⟨hnone, cached, hcached, htenant, -, hown⟩
  · exact .inl hsame
  · exact .inr ⟨hnone, cached, hcached, htenant, hown⟩

/-- No call but a create writes a record. -/
theorem records_shrink (hop : ∀ request expiresAt policy, op ≠ .create request expiresAt policy) :
    (∀ k, (s.apply sha256 op).1.createIdempotency k = s.createIdempotency k ∨
      (s.apply sha256 op).1.createIdempotency k = none) ∧
      (s.apply sha256 op).1.nextSession = s.nextSession := by
  refine Commits.keeps (P := fun _ s' => (∀ k, s'.createIdempotency k = s.createIdempotency k ∨
    s'.createIdempotency k = none) ∧
    s'.nextSession = s.nextSession) ⟨?_, ?_, ?_, ?_, ?_, id⟩ ⟨fun _ => .inl rfl, rfl⟩ ?_
  · rintro s₁ s₂ hquiet ⟨hrecord, hnext⟩
    exact ⟨by rw [hquiet.createIdempotency]; exact hrecord, hquiet.nextSession.trans hnext⟩
  · intro s₁ request expiresAt policy placement e hcreate
    exact absurd hcreate (hop request expiresAt policy)
  · intro s₁ request expiresAt policy placement response hcreate
    exact absurd hcreate (hop request expiresAt policy)
  · intro _ s₁ key dead newEntry members view revisions readDeparted assignmentCommitted _ _ _ _ _ hs
    rw [commitRehome_eq]
    exact hs
  · rintro s₁ key ⟨hrecord, hnext⟩
    refine ⟨?_, by rw [takeSessionMembership_eq]; exact hnext⟩
    intro k
    rcases createIdempotency_take s₁ key k with hsame | ⟨hnone, -⟩
    · exact (hrecord k).imp hsame.trans hsame.trans
    · exact .inr hnone
  · intro hello draining _ has
    rw [has.same]
    exact ⟨fun _ => .inl rfl, rfl⟩

theorem createIdempotency_recordCreate (request : SessionRequest) (response : SessionResponse) (k : ExternalKey) :
    (s.recordCreate request response).createIdempotency k =
      if k.1 = request.tenant ∧ request.externalId = some k.2 then some ⟨.fromRequest request, response⟩
      else s.createIdempotency k := by
  unfold recordCreate
  cases hid : request.externalId with
  | none => simp
  | some externalId =>
    dsimp only
    by_cases hk : k = (request.tenant, externalId)
    · subst hk
      simp
    · rw [update_of_ne hk, if_neg]
      rintro ⟨htenant, hexternal⟩
      exact hk (Prod.ext htenant (some.inj hexternal).symm)

theorem Logged.create (h : Logged s log) (request : SessionRequest) (expiresAt : U64) (policy : CreatePolicy) :
    Logged (s.apply sha256 (.create request expiresAt policy)).1
      (log ++ [(.create request expiresAt policy, (s.apply sha256 (.create request expiresAt policy)).2)]) := by
  rw [s.createBody_apply sha256 () request expiresAt policy fun _ _ => id]
  generalize hresult : s.createBody sha256 () request expiresAt policy (fun _ _ => id) = result
  have hcases := s.createBody_cases sha256 () request expiresAt policy fun _ _ => id
  rw [hresult] at hcases
  cases hcases with
  | replayed answer hreplay =>
    refine h.extend (fun _ => .inl rfl) (le_refl _) ?_
    intro response ha
    obtain rfl : answer = .ok (.created ⟨response, false⟩) := by simpa using ha
    cases replay_not_fresh hreplay
  | refused | held => exact h.extend (fun _ => .inl rfl) (le_refl _) (by simp)
  | unminted pendingCreates placement =>
    refine h.extend ?_ ?_ (by simp)
    · intro k
      rw [commitCreate_eq]
      exact .inl rfl
    · rw [commitCreate_eq]
      exact Nat.le_succ _
  | created pendingCreates placement tenant response hreplay hceiling hplace htenant hsession hvalid =>
    have hnew : ∀ request' response', Created (log ++ [(.create request expiresAt policy,
        .created (.ok (.created ⟨response, false⟩)))]) request' response' →
        Created log request' response' ∨ request' = request ∧ response' = response := by
      intro request' response' hc
      rcases created_append.mp hc with hc | ⟨⟨_, _, hop⟩, ha⟩
      · exact .inl hc
      · exact .inr ⟨by cases hop; rfl, by simpa using ha.symm⟩
    have hfresh : ∀ request' response', Created log request' response' → response'.session ≠ response.session := by
      intro request' response' hc
      rw [hsession]
      exact Nat.ne_of_lt (h.issued _ _ hc)
    constructor
    · intro k cached hk
      dsimp only at hk
      rw [createIdempotency_recordCreate] at hk
      split at hk
      · rename_i hkey
        obtain rfl := some.inj hk
        exact ⟨request, created_append.mpr (.inr ⟨⟨_, _, rfl⟩, rfl⟩), hkey.1.symm, hkey.2, rfl⟩
      · rw [commitCreate_eq] at hk
        obtain ⟨request', hc, hrest⟩ := h.recorded k cached hk
        exact ⟨request', created_append.mpr (.inl hc), hrest⟩
    · intro request' response' hc
      rw [recordCreate_eq, commitCreate_eq]
      rcases hnew _ _ hc with hc | ⟨-, rfl⟩
      · exact Nat.lt_succ_of_lt (h.issued _ _ hc)
      · rw [hsession]
        exact Nat.lt_succ_self _
    · intro request₁ response₁ request₂ response₂ h₁ h₂ hsame
      rcases hnew _ _ h₁ with hold₁ | ⟨rfl, rfl⟩ <;> rcases hnew _ _ h₂ with hold₂ | ⟨rfl, rfl⟩
      · exact h.unique _ _ _ _ hold₁ hold₂ hsame
      · exact absurd hsame (hfresh _ _ hold₁)
      · exact absurd hsame.symm (hfresh _ _ hold₂)
      · exact ⟨rfl, rfl⟩
    · intro request' response' hc
      rcases hnew _ _ hc with hold | ⟨rfl, -⟩
      · exact h.valid _ _ hold
      · exact hvalid

theorem Logged.new :
    Logged (.new registry tenants firstSessionId createHold sessionCeiling finalizeFeature pairRtts) [] := by
  constructor
  · intro k cached hk
    cases hk
  · rintro request response ⟨_, _, hmem⟩
    cases hmem
  · rintro request₁ response₁ request₂ response₂ ⟨_, _, hmem⟩
    cases hmem
  · rintro request response ⟨_, _, hmem⟩
    cases hmem

theorem Logged.apply (h : Logged s log) (op : SetupOp) :
    Logged (s.apply sha256 op).1 (log ++ [(op, (s.apply sha256 op).2)]) := by
  by_cases hop : ∃ request expiresAt policy, op = .create request expiresAt policy
  · obtain ⟨request, expiresAt, policy, rfl⟩ := hop
    exact h.create sha256 request expiresAt policy
  · have hother : ∀ request expiresAt policy, op ≠ .create request expiresAt policy :=
      fun request expiresAt policy heq => hop ⟨request, expiresAt, policy, heq⟩
    obtain ⟨hrecord, hnext⟩ := records_shrink (s := s) sha256 hother
    refine h.extend hrecord (le_of_eq hnext.symm) ?_
    intro response ha
    cases op with
    | create request expiresAt policy => exact hother request expiresAt policy rfl
    | _ => cases ha

theorem Logged.run (h : Logged s []) (ops : List SetupOp) : Logged (s.run sha256 ops).1 (s.run sha256 ops).2 :=
  Trace.run_invariant (I := Logged) ops h fun _ _ op _ hs => hs.apply sha256 op

end Logged

/-- Everything a replay is decided by. -/
theorem replay_eq_some {s : SessionSetup} {request : SessionRequest} {answer : CreateResult} :
    s.replay request = some answer ↔ ∃ externalId cached, request.externalId = some externalId ∧
      s.createIdempotency (request.tenant, externalId) = some cached ∧
      s.servingRelays ⟨request.tenant, cached.response.session⟩ ≠ [] ∧
      answer = if cached.fingerprint = .fromRequest request then .ok (.created ⟨cached.response, true⟩)
        else .error .idempotentCreateMismatch := by
  unfold replay
  constructor
  · intro h
    obtain ⟨externalId, hid, h⟩ := bind_eq_some_iff.mp h
    obtain ⟨cached, hcached, h⟩ := bind_eq_some_iff.mp h
    refine ⟨externalId, cached, hid, hcached, ?_⟩
    split at h
    · cases h
    · rename_i hlive
      refine ⟨hlive, ?_⟩
      split at h
      · rename_i hsame
        rw [if_pos hsame]
        exact (some.inj h).symm
      · rename_i hsame
        rw [if_neg hsame]
        exact (some.inj h).symm
  · rintro ⟨externalId, cached, hid, hcached, hlive, rfl⟩
    rw [hid, bind_eq_bind, bind_some, hcached, bind_eq_bind, bind_some, if_neg hlive]
    split <;> rfl

/-- The fields of two requests that have the same fingerprint. -/
theorem fromRequest_inj {a b : SessionRequest} (h : CreateFingerprint.fromRequest a = .fromRequest b) :
    a.players.Perm b.players ∧ a.evidenceKeys.Perm b.evidenceKeys ∧ a.periodicEvidence = b.periodicEvidence ∧
      a.latencyEstimateMs = b.latencyEstimateMs ∧ a.lobbyPolicy = b.lobbyPolicy := by
  obtain ⟨hplayers, hkeys, hperiodic, hlatency, hpolicy⟩ := CreateFingerprint.mk.inj h
  have hinj : Injective FingerprintPlayer.ofHandoff := by
    rintro ⟨⟩ ⟨⟩ hp
    simp_all [FingerprintPlayer.ofHandoff]
  refine ⟨?_, ?_, hperiodic, hlatency, hpolicy⟩
  · refine (map_perm_map_iff hinj).mp ?_
    have hsorted := (perm_insertionSort (fun p q => p.slot ≤ q.slot) (a.players.map FingerprintPlayer.ofHandoff)).symm
    rw [hplayers] at hsorted
    exact hsorted.trans (perm_insertionSort _ _)
  · have hsorted := (perm_insertionSort (fun p q => p.keyId ≤ q.keyId) a.evidenceKeys).symm
    rw [hkeys] at hsorted
    exact hsorted.trans (perm_insertionSort _ _)

/-- Two arrangements of one list that show the same keys in the same order. -/
theorem eq_of_perm_of_map_eq {α β : Type} {f : α → β} {l l' : List α} (h : l.Perm l') (hnodup : (l.map f).Nodup)
    (hmap : l.map f = l'.map f) : l = l' := by
  refine ext_getElem h.length_eq ?_
  intro i hi hi'
  refine inj_on_of_nodup_map hnodup (getElem_mem hi) (h.mem_iff.mpr (getElem_mem hi')) ?_
  rw [← getElem_map f (h := by simpa using hi), ← getElem_map f (h := by simpa using hi')]
  simp only [hmap]

/-- The requests agree in every field that a create builds its session from. -/
structure AskSame (a b : SessionRequest) : Prop where
  players : a.players = b.players
  evidenceKeys : a.evidenceKeys = b.evidenceKeys
  periodicEvidence : a.periodicEvidence = b.periodicEvidence
  latencyEstimateMs : a.latencyEstimateMs = b.latencyEstimateMs
  lobbyPolicy : a.lobbyPolicy = b.lobbyPolicy
  rollback : a.rollback = b.rollback

/-- What is not in the fingerprint of a create: roll-back, and the order of players and keys. -/
structure SameBesides (a b : SessionRequest) : Prop where
  rollback : a.rollback = b.rollback
  players : a.players.map (·.slot) = b.players.map (·.slot)
  evidenceKeys : a.evidenceKeys.map (·.keyId) = b.evidenceKeys.map (·.keyId)

/-- Requests that ask for the same are placed on the same relays. -/
theorem AskSame.placed {a b : SessionRequest} (h : AskSame a b) (pairRtts : PairRtts)
    (session : SessionId) (finalizeFeature : Bool) :
    placeByRegion sha256 registry pairRtts a session finalizeFeature =
      placeByRegion sha256 registry pairRtts b session finalizeFeature := by
  unfold placeByRegion cohortFor
  rw [h.players, h.rollback]

/-- **A create is replayed only for a request that asks for the same**, up to roll-back and the order of
    players and keys; it asks for the same exactly if it agrees in those too, and is then placed on the
    same relays, whichever there are. -/
theorem replayed_create_agrees (ops : List SetupOp) {σ : Type} (view : σ) (onCommit : SessionId → List RelayId → σ → σ)
    (a b : SessionRequest) (response : SessionResponse) (expiresAt : U64) (policy : CreatePolicy) :
    let run := (new registry tenants firstSessionId createHold sessionCeiling finalizeFeature pairRtts).run sha256 ops
    Created run.2 a response → run.1.servingRelays ⟨a.tenant, response.session⟩ ≠ [] →
      a.tenant = b.tenant → a.externalId = b.externalId →
      (run.1.createBody sha256 view b expiresAt policy onCommit).2.2 = .ok (.created ⟨response, true⟩) →
      (a.players.Perm b.players ∧ a.evidenceKeys.Perm b.evidenceKeys ∧ a.periodicEvidence = b.periodicEvidence ∧
        a.latencyEstimateMs = b.latencyEstimateMs ∧ a.lobbyPolicy = b.lobbyPolicy) ∧
      (AskSame a b ↔ SameBesides a b) ∧
      (SameBesides a b → ∀ registry pairRtts session finalizeFeature,
        placeByRegion sha256 registry pairRtts a session finalizeFeature =
          placeByRegion sha256 registry pairRtts b session finalizeFeature ∧
        (∀ placement, refsFor a placement = refsFor b placement) ∧
        ∀ tenants, mintTokens tenants a.tenant session expiresAt a.players =
          mintTokens tenants b.tenant session expiresAt b.players) := by
  intro run hcreated hlive htenant hexternal hanswer
  have hlogged : Logged run.1 run.2 := (Logged.new ..).run sha256 ops
  generalize hresult : run.1.createBody sha256 view b expiresAt policy onCommit = result at hanswer
  have hcases := run.1.createBody_cases sha256 view b expiresAt policy onCommit
  rw [hresult] at hcases
  cases hcases with
  | replayed answer hreplay =>
    obtain ⟨externalId, cached, hid, hcached, -, rfl⟩ := replay_eq_some.mp hreplay
    dsimp only at hanswer
    split at hanswer
    · rename_i hsame
      obtain ⟨request, hc, -, -, hfingerprint⟩ := hlogged.recorded _ cached hcached
      -- the record is of the create that got this id, which is `a`
      have hresponse : cached.response = response := by simpa using hanswer
      obtain ⟨rfl, -⟩ := hlogged.unique _ _ _ _ hc hcreated (by rw [hresponse])
      obtain ⟨hplayers, hkeys, hperiodic, hlatency, hpolicy⟩ := fromRequest_inj (hfingerprint.symm.trans hsame)
      have hasks : SameBesides request b → AskSame request b := by
        rintro ⟨hrollback, hslots, hkeyIds⟩
        obtain ⟨hnodup, hnodupKeys⟩ := validateRequest_nodup (hlogged.valid _ _ hc)
        exact ⟨eq_of_perm_of_map_eq hplayers hnodup hslots,
          eq_of_perm_of_map_eq hkeys hnodupKeys hkeyIds, hperiodic, hlatency, hpolicy,
          hrollback⟩
      refine ⟨⟨hplayers, hkeys, hperiodic, hlatency, hpolicy⟩, ⟨?_, hasks⟩, ?_⟩
      · intro h
        exact ⟨h.rollback, by rw [h.players], by rw [h.evidenceKeys]⟩
      · intro hbesides registry pairRtts session finalizeFeature
        have h := hasks hbesides
        refine ⟨h.placed sha256 registry pairRtts session finalizeFeature, ?_, ?_⟩
        · intro placement
          unfold refsFor
          rw [h.players, h.evidenceKeys, h.periodicEvidence, h.latencyEstimateMs, h.lobbyPolicy, hexternal]
        · intro tenants
          rw [htenant, h.players]
    · cases hanswer
  | refused | held | unminted | created => cases hanswer

end SessionSetup

namespace Demo

/-- A request that asks for roll-back. -/
def rollbackRequest : SessionRequest := { request (some "g") with rollback := true }

/-- A repeated create is replayed, and asks for the same. -/
theorem replayed_create_agrees_repeated :
    let run := setup.run digest [.enroll (hello 1 [1] []), .create (request (some "g")) 0 .immediate]
    ∃ response, SessionSetup.Created run.2 (request (some "g")) response ∧
      (run.1.createBody digest () (request (some "g")) 5 .immediate fun _ _ => id).2.2 = .ok (.created ⟨response, true⟩) ∧
      AskSame (request (some "g")) (request (some "g")) := by
  intro run
  refine ⟨_, ⟨0, .immediate, mem_cons_of_mem _ mem_cons_self⟩, rfl, ?_⟩
  obtain ⟨-, hiff, -⟩ := replayed_create_agrees digest .new (tenants "k") 1 none none false (fun _ _ => none)
    [.enroll (hello 1 [1] []), .create (request (some "g")) 0 .immediate] () (fun _ _ => id) (request (some "g"))
    (request (some "g")) _ 5 .immediate ⟨0, .immediate, mem_cons_of_mem _ mem_cons_self⟩ (by decide) rfl rfl rfl
  exact hiff.mpr ⟨rfl, rfl, rfl⟩

/-- A request for roll-back is answered with a session that does not roll back, although its relay could. -/
theorem rollback_request_replayed :
    let run := setup.run digest [.enroll (hello 1 [1] [.finalizedDropV1, .rollbackV1]),
      .create (request (some "g")) 0 .immediate]
    ∃ response, SessionSetup.Created run.2 (request (some "g")) response ∧ response.rollback = false ∧
      run.1.servingRelays ⟨"t", response.session⟩ ≠ [] ∧
      (run.1.createBody digest () rollbackRequest 0 .immediate fun _ _ => id).2.2 = .ok (.created ⟨response, true⟩) ∧
      (request (some "g")).rollback ≠ rollbackRequest.rollback ∧
        (cohortFor run.1.registry rollbackRequest).rollback = true := by
  intro run
  exact ⟨_, ⟨0, .immediate, mem_cons_of_mem _ mem_cons_self⟩, rfl, by decide, rfl, by decide, by decide⟩

end Demo

/-! ## One live session per name -/

/-- Every enrolled tenant's tokens can be minted. -/
def MintSucceeds (tenants : TenantStore) : Prop :=
  ∀ tenant session expiresAt players, (tenants tenant).isSome → ∃ tokens,
    mintTokens tenants tenant session expiresAt players = .ok tokens

namespace SessionSetup

variable (sha256 : Sha256)
variable (registry : RelayRegistry) (tenants : TenantStore) (firstSessionId : SessionId)
  (createHold sessionCeiling : Option Nat)
  (finalizeFeature : Bool) (pairRtts : PairRtts)

/-- **The record of a name answers with the session that carries it.** -/
structure Carried (tenants : TenantStore) (ceiling : Option Nat) (closing : Closing) (s : SessionSetup) : Prop where
  sound : Sound closing s
  tenants : s.tenants = tenants
  ceiling : s.sessionCeiling = ceiling
  recorded : ∀ key refs externalId, s.sessionRefs key = some refs → refs.externalId = some externalId →
    ∃ cached, s.createIdempotency (key.tenant, externalId) = some cached ∧ cached.response.session = key.session

section Carried

variable {tenants : TenantStore} {ceiling : Option Nat} {closing : Closing} {s : SessionSetup}

theorem Carried.new :
    Carried tenants sessionCeiling none (.new registry tenants firstSessionId createHold
      sessionCeiling finalizeFeature pairRtts) := by
  refine ⟨.new .., rfl, rfl, ?_⟩
  intro key refs externalId hrefs
  cases hrefs

variable {response : SessionResponse} {request : SessionRequest} {s' : SessionSetup} {op : SetupOp}

theorem Carried.quiet (h : Carried tenants ceiling closing s) (hquiet : Quiet op s s') :
    Carried tenants ceiling closing s' := by
  refine ⟨h.sound.quiet hquiet, hquiet.tenants.trans h.tenants, hquiet.sessionCeiling.trans h.ceiling, ?_⟩
  intro key refs externalId hrefs hexternal
  rw [hquiet.createIdempotency]
  rcases hquiet.sessionRefs key with hsame | ⟨old, hold, hnew⟩
  · exact h.recorded key refs externalId (hsame ▸ hrefs) hexternal
  · obtain rfl := some.inj (hnew.symm.trans hrefs)
    exact h.recorded key old externalId hold hexternal

/-- The name of a create was free: had a live session carried it, the create would have been a replay. -/
theorem Carried.created (h : Carried tenants ceiling none s) {placement : Placement}
    (hreplay : s.replay request = none) (hsession : response.session = s.nextSession)
    (hsound : Sound none ((s.commitCreate request placement).recordCreate request response)) :
    Carried tenants ceiling none ((s.commitCreate request placement).recordCreate request response) := by
  refine ⟨hsound,
    by rw [recordCreate_eq, commitCreate_eq]; exact h.tenants, by rw [recordCreate_eq, commitCreate_eq]; exact h.ceiling, ?_⟩
  intro key refs externalId hsome hexternal
  have hrefs : ((s.commitCreate request placement).recordCreate request response).sessionRefs key =
      if key = ⟨request.tenant, s.nextSession⟩ then some (refsFor request placement) else s.sessionRefs key := by
    rw [recordCreate_eq, commitCreate_eq]
    exact update_apply _ _ _ _
  rw [hrefs] at hsome
  rw [createIdempotency_recordCreate]
  split at hsome
  · rename_i hkey
    obtain rfl := some.inj hsome
    rw [if_pos ⟨by rw [hkey], hexternal⟩]
    exact ⟨_, rfl, by rw [hkey]; exact hsession⟩
  · obtain ⟨cached, hcached, hown⟩ := h.recorded key refs externalId hsome hexternal
    rw [if_neg]
    · rw [commitCreate_eq]
      exact ⟨cached, hcached, hown⟩
    · rintro ⟨htenant, hid⟩
      -- then `key` is live under the name, and the create would have been answered from its record
      have hlive : s.servingRelays ⟨request.tenant, cached.response.session⟩ ≠ [] := by
        have := h.sound.live (by rw [hsome]; rfl)
        rwa [← htenant, hown]
      have hsome := replay_eq_some.mpr ⟨externalId, cached, hid, htenant ▸ hcached, hlive, rfl⟩
      cases hreplay.symm.trans hsome

theorem Carried.take (h : Carried tenants ceiling none s) (key : SessionKey) :
    Carried tenants ceiling (some (key, s.servingRelays key)) (s.takeSessionMembership key).1 := by
  have hrecords := createIdempotency_take s key
  refine ⟨h.sound.take key,
    by rw [takeSessionMembership_eq]; exact h.tenants, by rw [takeSessionMembership_eq]; exact h.ceiling, ?_⟩
  intro key' refs externalId hsome hexternal
  rw [takeSessionMembership_eq] at hsome
  have hkey : key' ≠ key := by
    rintro rfl
    cases (update_self key' none s.sessionRefs).symm.trans hsome
  replace hsome := (update_of_ne hkey none s.sessionRefs).symm.trans hsome
  obtain ⟨cached, hcached, hown⟩ := h.recorded key' refs externalId hsome hexternal
  rcases hrecords (key'.tenant, externalId) with hsame | ⟨-, cached', hcached', htenant, hclosed⟩
  · exact ⟨cached, hsame.trans hcached, hown⟩
  · -- the record freed was that of the closing session, which is another one
    obtain rfl := some.inj (hcached.symm.trans hcached')
    refine absurd ?_ hkey
    cases key'
    cases key
    simp_all

theorem Carried.commits (hmint : MintSucceeds tenants) : Commits sha256 op (Carried tenants ceiling) where
  quiet hquiet h := h.quiet hquiet
  unminted {s request expiresAt _ _ _} _ _ _ htenant hfail h := by
    rw [h.tenants] at htenant hfail
    obtain ⟨tokens, hok⟩ := hmint request.tenant s.nextSession expiresAt request.players htenant
    cases hok.symm.trans hfail
  created hop hreplay hplace hsession h := h.created hreplay hsession
    ((Sound.commits sha256).created hop hreplay hplace hsession h.sound)
  moved {_ s key _ _ _} view revisions readDeparted assignmentCommitted hmoves hresumes hmembers hdead hentry h := by
    refine ⟨(Sound.commits sha256).moved view revisions readDeparted assignmentCommitted hmoves
      hresumes hmembers hdead hentry h.sound,
      by rw [commitRehome_eq]; exact h.tenants, by rw [commitRehome_eq]; exact h.ceiling, ?_⟩
    rw [commitRehome_eq]
    intro key' refs externalId hsome hexternal
    dsimp only at hsome ⊢
    by_cases hkey : key' = key
    · subst hkey
      rw [update_self] at hsome
      obtain ⟨old, hold, rfl⟩ := map_eq_some_iff.mp hsome
      exact h.recorded key' old externalId hold hexternal
    · rw [update_of_ne hkey] at hsome
      exact h.recorded key' refs externalId hsome hexternal
  take key h := h.take key
  drop h := ⟨h.sound.drop, h.tenants, h.ceiling, h.recorded⟩

theorem Carried.apply (h : Carried tenants ceiling none s) (hmint : MintSucceeds tenants) (op : SetupOp) :
    Carried tenants ceiling none (s.apply sha256 op).1 := by
  refine (commits sha256 hmint).keeps h ?_
  rintro hello draining rfl has
  have hsound : Sound none (s.enrollLocked sha256 hello).1 := h.sound.apply sha256 (.enroll hello)
  rw [has.same] at hsound ⊢
  exact ⟨hsound, h.tenants, h.ceiling, h.recorded⟩

theorem Carried.run (h : Carried tenants ceiling none s) (hmint : MintSucceeds tenants) (ops : List SetupOp) :
    Carried tenants ceiling none (s.run sha256 ops).1 :=
  Trace.run_invariant (I := fun s _ => Carried tenants ceiling none s) ops h fun _ _ op _ hs => hs.apply sha256 hmint op

/-- A create adds one session, and only below the ceiling. -/
theorem liveSessionCount_created {σ : Type} {view view' : σ} {expiresAt : U64} {policy : CreatePolicy}
    {onCommit : SessionId → List RelayId → σ → σ} {limit : Nat} (hlimit : s.sessionCeiling = some limit)
    (h : s.createBody sha256 view request expiresAt policy onCommit = (s', view', .ok (.created ⟨response, false⟩))) :
    s'.liveSessionCount ≤ limit := by
  have hcases := s.createBody_cases sha256 view request expiresAt policy onCommit
  rw [h] at hcases
  cases hcases with
  | replayed answer hreplay => cases replay_not_fresh hreplay
  | created pendingCreates placement tenant response hreplay hceiling =>
    rw [hlimit] at hceiling
    have hbelow : s.liveSessionCount < limit := by simpa using hceiling
    rw [recordCreate_eq, commitCreate_eq]
    exact le_trans (OrdMap.countP_values_insert_le _ _ _ _) hbelow

end Carried

/-- **At most one live session per tenant and name, within the ceiling**, if all tokens can be minted. -/
theorem one_live_session_per_external_id (hmint : MintSucceeds tenants) (ops : List SetupOp) :
    let run := (new registry tenants firstSessionId createHold sessionCeiling finalizeFeature pairRtts).run sha256 ops
    -- a name is carried by one live session
    (∀ key₁ key₂ refs₁ refs₂ externalId, run.1.servingRelays key₁ ≠ [] → run.1.servingRelays key₂ ≠ [] →
      run.1.sessionRefs key₁ = some refs₁ → run.1.sessionRefs key₂ = some refs₂ → key₁.tenant = key₂.tenant →
      refs₁.externalId = some externalId → refs₂.externalId = some externalId → key₁ = key₂) ∧
    -- a create that names it is answered as the one that came first, or refused
    (∀ key refs externalId, run.1.servingRelays key ≠ [] → run.1.sessionRefs key = some refs →
      refs.externalId = some externalId →
      ∃ first response, Created run.2 first response ∧ response.session = key.session ∧ first.tenant = key.tenant ∧
        first.externalId = some externalId ∧ ∀ (σ : Type) (view : σ) request expiresAt policy onCommit,
          request.tenant = key.tenant →
          request.externalId = some externalId →
          run.1.createBody sha256 view request expiresAt policy onCommit = (run.1, view,
            if CreateFingerprint.fromRequest first = .fromRequest request then .ok (.created ⟨response, true⟩)
            else .error .idempotentCreateMismatch)) ∧
    -- a close frees no name but its own
    (∀ key k, (run.1.retireSession key).createIdempotency k = run.1.createIdempotency k ∨
      ∃ cached, run.1.createIdempotency k = some cached ∧ k.1 = key.tenant ∧ cached.response.session = key.session) ∧
    -- the ceiling is kept
    (∀ (σ : Type) (view : σ) request expiresAt policy onCommit s' view' response limit, sessionCeiling = some limit →
      run.1.createBody sha256 view request expiresAt policy onCommit = (s', view', .ok (.created ⟨response, false⟩)) →
      s'.liveSessionCount ≤ limit) := by
  intro run
  have hlogged : Logged run.1 run.2 := (Logged.new ..).run sha256 ops
  have hcarried : Carried tenants sessionCeiling none run.1 := (Carried.new ..).run sha256 hmint ops
  refine ⟨?_, ?_, ?_, ?_⟩
  · intro key₁ key₂ refs₁ refs₂ externalId _ _ hrefs₁ hrefs₂ htenant hid₁ hid₂
    obtain ⟨cached₁, hcached₁, hown₁⟩ := hcarried.recorded key₁ refs₁ externalId hrefs₁ hid₁
    obtain ⟨cached₂, hcached₂, hown₂⟩ := hcarried.recorded key₂ refs₂ externalId hrefs₂ hid₂
    rw [htenant] at hcached₁
    obtain rfl := some.inj (hcached₁.symm.trans hcached₂)
    cases key₁
    cases key₂
    simp_all
  · intro key refs externalId hlive hrefs hid
    obtain ⟨cached, hcached, hown⟩ := hcarried.recorded key refs externalId hrefs hid
    obtain ⟨first, hcreated, hfirst, hfirstId, hfingerprint⟩ := hlogged.recorded _ cached hcached
    refine ⟨first, cached.response, hcreated, hown, hfirst, hfirstId, ?_⟩
    intro σ view request expiresAt policy onCommit htenant hexternal
    have hreplay := replay_eq_some.mpr ⟨externalId, cached, hexternal, htenant ▸ hcached,
      by rw [htenant, hown]; exact hlive, rfl⟩
    unfold createBody
    rw [hreplay, hfingerprint]
  · intro key k
    rcases createIdempotency_take run.1 key k with hsame | ⟨-, hown⟩
    · exact .inl hsame
    · exact .inr hown
  · intro σ view request expiresAt policy onCommit s' view' response limit hlimit hcreate
    exact liveSessionCount_created sha256 (hcarried.ceiling.trans hlimit) hcreate

end SessionSetup

namespace Demo

theorem mintSucceeds : MintSucceeds (tenants "k") := by
  intro tenant session expiresAt players htenant
  have hkey : tenant = "t" := by
    by_contra hne
    simp [tenants, hne] at htenant
  subst hkey
  exact mintTokens_fits rfl (by unfold Fits; decide) (by unfold Fits; decide) session expiresAt players

/-- A second create under the name of a live session, with another roster, is refused. -/
theorem one_live_session_per_external_id_repeated :
    let run := setup.run digest [.enroll (hello 1 [1] []), .create (request (some "g")) 0 .immediate]
    run.1.servingRelays ⟨"t", 1⟩ = [1] ∧ ∃ first response, SessionSetup.Created run.2 first response ∧
        run.1.createBody digest () { request (some "g") with latencyEstimateMs := some 40 }
          0 .immediate (fun _ _ => id) = (run.1, (),
          if CreateFingerprint.fromRequest first = .fromRequest { request (some "g") with latencyEstimateMs := some 40 } then
            .ok (.created ⟨response, true⟩)
          else .error .idempotentCreateMismatch) := by
  intro run
  refine ⟨by decide, ?_⟩
  obtain ⟨first, response, hcreated, -, -, -, hanswer⟩ := (one_live_session_per_external_id digest .new (tenants "k") 1 none
    none false (fun _ _ => none) mintSucceeds [.enroll (hello 1 [1] []), .create (request (some "g")) 0 .immediate]).2.1
    ⟨"t", 1⟩ _ "g" (by decide) rfl rfl
  exact ⟨first, response, hcreated, hanswer Unit () _ 0 .immediate (fun _ _ => id) rfl rfl⟩

end Demo

end RallyPoint.Coordinator
