import Mathlib.Data.List.MinMax
import RallyPoint.Coordinator.Registry

/-!
# `Coordinator.Session.Placement` — which relays serve a session

The model of `coordinator/src/session/placement.rs`: the relay nearest a region, the regions of a request
that have no relay, the hold of a create that waits for one, and the placement of a roster on the
available relays.

Relays come in ascending order of id, so the first match is the lowest id. Where the source indexes what
it has filled itself, the model has the region-blind pick for the case that does not occur.

`placeByRegion_ok` is what the rest of the development uses: a placement names relays that are available,
each once, and records the fingerprint of each one's certificate.
-/

namespace RallyPoint.Coordinator

open Lib Function List Option

/-- The served round-trip time from one region to another, in milliseconds. -/
abbrev PairRtts := RegionId → RegionId → Option Nat

def servingRelayMarginMs : Nat := 15

/-- `PENDING_PRUNE_MIN_SLACK`, in seconds. -/
def pendingPruneMinSlack : Nat := 600

/-- How far a relay is from a region, if that is known. -/
def score (pairRtts : PairRtts) (requested : RegionId) (e : RelayEntry) : Option Nat :=
  e.region.bind fun region => if region = requested then some 0 else pairRtts requested region

/-- The serving relays of the entries within the margin of `best`, with their scores and ranks. -/
def servingPicks (entries : List RelayEntry) (requested : RegionId) (serving : List RelayId)
    (pairRtts : PairRtts) (best : Nat) :
    List (Nat × Nat × RelayEntry) :=
  serving.zipIdx.filterMap fun p => do
    let e ← entries.find? (·.relayId = p.1)
    let rtt ← score pairRtts requested e
    if rtt ≤ saturatingAdd u32Max best servingRelayMarginMs then some (rtt, p.2, e) else none

/-- `nearest_relay`. A relay that serves the session already wins when it is nearly as close. -/
def nearestRelay (entries : List RelayEntry) (requested : RegionId) (serving : List RelayId)
    (pairRtts : PairRtts) : Option RelayEntry :=
  let ranked := entries.filterMap fun e => (score pairRtts requested e).map fun rtt => (rtt, e)
  (ranked.argmin fun p => toLex (p.1, p.2.relayId)).map fun best =>
    let pick := (servingPicks entries requested serving pairRtts best.1).argmin fun p => toLex (p.1, p.2.1)
    (pick.map (·.2.2)).getD best.2

def unlitRequestedRegions (reg : RelayRegistry) (request : SessionRequest) : List RegionId :=
  request.players.foldl (fun unlit player =>
    match player.region with
    | none => unlit
    | some region =>
      if region ∈ unlit ∨ reg.availableEntries.any (·.region = some region) then unlit else unlit ++ [region]) []

/-- A tenant and its name for a game, which a create is repeated under. -/
abbrev ExternalKey := TenantId × String

/-- Creates that wait for a region, with the time each first asked. -/
abbrev PendingCreates := ExternalKey → Option Nat

/-- Whether the create is held. -/
def holdPendingCreate (pending : PendingCreates) (key : ExternalKey) (now createHold : Nat) : PendingCreates × Bool :=
  -- a clock that cannot be read cannot measure the cap
  if now = u64Max then (update pending key none, false)
  else
    let pruneHorizon := max (min (createHold * 10) u64Max) pendingPruneMinSlack
    let pending : PendingCreates := fun k => (pending k).filter fun first => now - first ≤ pruneHorizon
    match pending key with
    | none => (update pending key (some now), true)
    | some first => if now - first < createHold then (pending, true) else (update pending key none, false)

/-! ## Placement -/

/-- Where a session's slots are homed, and what is recorded of the relays that serve it. -/
structure Placement where
  home : RelayEndpoint
  slotHomes : List SlotHome
  relayIds : List RelayId
  homes : OrdMap SlotId RelayId
  finalizedDrops : Bool
  capableCohort : Bool
  rollback : Bool
  relayCerts : RelayId → Option Fingerprint
  relayRegions : OrdMap RelayId (Option RegionId)

/-- The relays a session may be placed on: all on one side of the finalized-drop boundary. -/
structure Cohort where
  entries : List RelayEntry
  rollback : Bool
  capableCohort : Bool

/-- Keep the entries that satisfy `p`, if `c` says so. -/
def retainIf (c : Bool) (p : RelayEntry → Bool) (entries : List RelayEntry) : List RelayEntry :=
  if c then entries.filter p else entries

/-- The filters of `place_by_region`. -/
def cohortFor (reg : RelayRegistry) (request : SessionRequest) : Cohort :=
  let entries := retainIf (request.players.any (·.requireEvidence)) (·.evidenceCapable) reg.availableEntries
  let rollback := request.rollback && entries.any (·.rollbackCapable)
  let entries := retainIf rollback (·.rollbackCapable) entries
  let capableCohort := entries.any (·.finalizeCapable)
  ⟨retainIf capableCohort (·.finalizeCapable) entries, rollback, capableCohort⟩

/-- The relay of each requested region, as far as resolved. -/
structure Resolution where
  regionRelay : RegionId → Option RelayEntry
  unlit : List RegionId
  chosen : OrdMap RelayId Unit

/-- A region gets a relay. -/
def Resolution.choose (res : Resolution) (region : RegionId) (e : RelayEntry) : Resolution :=
  { res with regionRelay := update res.regionRelay region (some e), chosen := res.chosen.insert e.relayId () }

variable (entries : List RelayEntry) (regionBlind : RelayEntry) (pairRtts : PairRtts)

/-- One player of the first pass: a lit region resolves to its lowest relay. -/
def resolveLit (res : Resolution) (player : PlayerHandoff) : Resolution :=
  match player.region with
  | none => { res with chosen := res.chosen.insert regionBlind.relayId () }
  | some region =>
    if (res.regionRelay region).isSome ∨ region ∈ res.unlit then res
    else match entries.find? (·.region = some region) with
      | some e => res.choose region e
      | none => { res with unlit := res.unlit ++ [region] }

/-- One region of the second pass: the nearest relay, preferring one that was chosen already. -/
def resolveUnlit (res : Resolution) (region : RegionId) : Resolution :=
  res.choose region ((nearestRelay entries region (res.chosen.entries.map Prod.fst) pairRtts).getD regionBlind)

/-- Both passes. -/
def resolve (players : List PlayerHandoff) : Resolution :=
  let lit := players.foldl (resolveLit entries regionBlind) ⟨fun _ => none, [], .empty⟩
  lit.unlit.foldl (resolveUnlit entries regionBlind pairRtts) lit

/-- The relay of each slot. -/
def slotRelays (res : Resolution) (regionBlind : RelayEntry) (players : List PlayerHandoff) : List (SlotId × RelayEntry) :=
  players.map fun player => (player.slot, (player.region.bind res.regionRelay).getD regionBlind)

/-- How many slots each relay homes. -/
def homeCounts (slots : List (SlotId × RelayEntry)) : OrdMap RelayId Nat :=
  slots.foldl (fun counts s => counts.insert s.2.relayId ((counts.get? s.2.relayId).getD 0 + 1)) .empty

/-- The relay that homes the most slots; equal ones take turns by session id. -/
def homeId (counts : OrdMap RelayId Nat) (session : SessionId) (regionBlind : RelayEntry) : RelayId :=
  let maxCount := counts.values.foldl max 0
  let candidates := (counts.entries.filter (·.2 = maxCount)).map Prod.fst
  candidates.getD (session % candidates.length) regionBlind.relayId

def placeByRegion (sha256 : Sha256) (reg : RelayRegistry) (pairRtts : PairRtts) (request : SessionRequest)
    (session : SessionId) (finalizeFeature : Bool) : Except SessionSetupError Placement :=
  let cohort := cohortFor reg request
  match cohort.entries with
  | [] => .error .noRelaysAvailable
  | regionBlind :: _ =>
    let res := resolve cohort.entries regionBlind pairRtts request.players
    let slots := slotRelays res regionBlind request.players
    let counts := homeCounts slots
    let home := homeId counts session regionBlind
    let relayIds := home :: (counts.entries.map Prod.fst).filter (· ≠ home)
    let entryFor (id : RelayId) : RelayEntry := (cohort.entries.find? (·.relayId = id)).getD regionBlind
    .ok {
      home := (entryFor home).endpoint
      slotHomes := (slots.filter (·.2.relayId ≠ home)).map fun s => ⟨s.1, s.2.endpoint⟩
      relayIds
      homes := .ofList (slots.map fun s => (s.1, s.2.relayId))
      finalizedDrops := cohort.capableCohort && (finalizeFeature || cohort.rollback)
      capableCohort := cohort.capableCohort
      rollback := cohort.rollback
      relayCerts := fun id => if id ∈ relayIds then some (sha256 (entryFor id).certDer) else none
      relayRegions := .ofList (relayIds.map fun id => (id, (entryFor id).region)) }

/-! ## What a placement names -/

section Correct

variable {entries regionBlind pairRtts}

variable {res : Resolution} {e : RelayEntry} {request : SessionRequest} {serving : List RelayId}
  {requested : RegionId} {reg : RelayRegistry} {id : RelayId}

theorem servingPicks_mem {best : Nat} {pick : Nat × Nat × RelayEntry}
    (h : pick ∈ servingPicks entries requested serving pairRtts best) : pick.2.2 ∈ entries := by
  obtain ⟨p, -, hp⟩ := mem_filterMap.mp h
  obtain ⟨e, hfind, hrest⟩ := bind_eq_some_iff.mp hp
  obtain ⟨rtt, -, hkeep⟩ := bind_eq_some_iff.mp hrest
  split at hkeep
  · obtain rfl : (rtt, p.2, e) = pick := by simpa using hkeep
    exact mem_of_find?_eq_some hfind
  · cases hkeep

theorem nearestRelay_mem (h : nearestRelay entries requested serving pairRtts = some e) : e ∈ entries := by
  unfold nearestRelay at h
  obtain ⟨best, hbest, rfl⟩ := map_eq_some_iff.mp h
  have hbestMem : best.2 ∈ entries := by
    obtain ⟨e, he, hscore⟩ := mem_filterMap.mp (argmin_mem hbest)
    obtain ⟨rtt, -, rfl⟩ := map_eq_some_iff.mp hscore
    exact he
  cases hpick : (servingPicks entries requested serving pairRtts best.1).argmin fun p => toLex (p.1, p.2.1) with
  | none => simpa [hpick] using hbestMem
  | some pick => simpa [hpick] using servingPicks_mem (argmin_mem hpick)

/-- Every region resolved so far has one of the entries. -/
def Resolution.Within (entries : List RelayEntry) (res : Resolution) : Prop :=
  ∀ region e, res.regionRelay region = some e → e ∈ entries

theorem Resolution.Within.choose (h : res.Within entries) (region : RegionId)
    (he : e ∈ entries) : (res.choose region e).Within entries := by
  intro region' e' h'
  unfold Resolution.choose at h'
  dsimp only at h'
  by_cases hregion : region' = region
  · rw [hregion, update_self] at h'
    obtain rfl : e = e' := by simpa using h'
    exact he
  · rw [update_of_ne hregion] at h'
    exact h region' e' h'

theorem resolveLit_within (h : res.Within entries) (player : PlayerHandoff) :
    (resolveLit entries regionBlind res player).Within entries := by
  unfold resolveLit
  cases player.region with
  | none => exact h
  | some region =>
    dsimp only
    split
    · exact h
    · cases hfind : entries.find? fun e => e.region = some region with
      | none => exact h
      | some e => exact h.choose region (mem_of_find?_eq_some hfind)

theorem resolveUnlit_within (hblind : regionBlind ∈ entries) (h : res.Within entries) (region : RegionId) :
    (resolveUnlit entries regionBlind pairRtts res region).Within entries := by
  refine h.choose region ?_
  cases hnear : nearestRelay entries region (res.chosen.entries.map Prod.fst) pairRtts with
  | none => exact hblind
  | some e => exact nearestRelay_mem hnear

theorem resolve_within (hblind : regionBlind ∈ entries) (pairRtts : PairRtts) (players : List PlayerHandoff) :
    (resolve entries regionBlind pairRtts players).Within entries := by
  have hlit : (players.foldl (resolveLit entries regionBlind) ⟨fun _ => none, [], .empty⟩).Within entries :=
    foldlRecOn players _ (by intro region e h; cases h) fun res h player _ => resolveLit_within h player
  exact foldlRecOn _ _ hlit fun res h region _ => resolveUnlit_within hblind h region

theorem slotRelays_mem (h : res.Within entries) (hblind : regionBlind ∈ entries) {players : List PlayerHandoff}
    {s : SlotId × RelayEntry} (hs : s ∈ slotRelays res regionBlind players) : s.2 ∈ entries := by
  obtain ⟨player, -, rfl⟩ := mem_map.mp hs
  cases hregion : player.region.bind res.regionRelay with
  | none => exact hblind
  | some e =>
    obtain ⟨region, -, he⟩ := bind_eq_some_iff.mp hregion
    exact h region e he

/-- A relay that is counted homes a slot. -/
theorem homeCounts_mem {slots : List (SlotId × RelayEntry)} {n : Nat} (h : (homeCounts slots).get? id = some n) :
    ∃ s ∈ slots, s.2.relayId = id := by
  have hall : ∀ id n, (homeCounts slots).get? id = some n → ∃ s ∈ slots, s.2.relayId = id := by
    refine foldlRecOn (motive := fun (counts : OrdMap RelayId Nat) => ∀ id n, counts.get? id = some n →
      ∃ s ∈ slots, s.2.relayId = id) slots _ ?_ ?_
    · intro id n h
      simp at h
    · intro counts ih s hs id n h
      rcases OrdMap.get?_insert_eq_some.mp h with ⟨hid, -⟩ | ⟨-, h⟩
      · exact ⟨s, hs, hid.symm⟩
      · exact ih id n h
  exact hall id n h

theorem mem_keys_of_count {counts : OrdMap RelayId Nat} (h : id ∈ counts.entries.map Prod.fst) :
    ∃ n, counts.get? id = some n := by
  obtain ⟨⟨id', n⟩, he, rfl⟩ := mem_map.mp h
  exact ⟨n, OrdMap.get?_eq_some.mpr he⟩

theorem homeId_cases (counts : OrdMap RelayId Nat) (session : SessionId) (regionBlind : RelayEntry) :
    homeId counts session regionBlind = regionBlind.relayId ∨ ∃ n,
      counts.get? (homeId counts session regionBlind) = some n := by
  have hpick : ∀ candidates : List RelayId, ∀ i, candidates.getD i regionBlind.relayId = regionBlind.relayId ∨
      candidates.getD i regionBlind.relayId ∈ candidates := by
    intro candidates i
    rw [getD_eq_getElem?_getD]
    cases hget : candidates[i]? with
    | none => exact .inl rfl
    | some id => exact .inr (mem_of_getElem? hget)
  unfold homeId
  dsimp only
  rcases hpick _ _ with hdefault | hmem
  · exact .inl hdefault
  · obtain ⟨e, he, heq⟩ := mem_map.mp hmem
    rw [← heq]
    exact .inr ⟨e.2, OrdMap.get?_eq_some.mpr (mem_filter.mp he).1⟩

theorem mem_of_retainIf {c : Bool} {p : RelayEntry → Bool} (h : e ∈ retainIf c p entries) : e ∈ entries := by
  unfold retainIf at h
  split at h
  · exact (mem_filter.mp h).1
  · exact h

theorem cohortFor_sub (h : e ∈ (cohortFor reg request).entries) : e ∈ reg.availableEntries :=
  mem_of_retainIf (mem_of_retainIf (mem_of_retainIf h))

/-- **A placement names available relays, each once, and records the certificate of each.** -/
theorem placeByRegion_ok {sha256 : Sha256} {session : SessionId} {finalizeFeature : Bool} {p : Placement}
    (h : placeByRegion sha256 reg pairRtts request session finalizeFeature = .ok p) :
    p.relayIds ≠ [] ∧ p.relayIds.Nodup ∧ ∀ id ∈ p.relayIds, ∃ r, reg.registered id = some r ∧ r.draining = false ∧
      p.relayCerts id = some (sha256 r.entry.certDer) := by
  unfold placeByRegion at h
  dsimp only at h
  split at h
  · cases h
  rename_i regionBlind rest hentries
  obtain rfl := Except.ok.inj h
  have hblind : regionBlind ∈ (cohortFor reg request).entries := by simp [hentries]
  have hwithin := resolve_within hblind pairRtts request.players
  dsimp only
  refine ⟨cons_ne_nil _ _, ?_, ?_⟩
  · refine nodup_cons.mpr ⟨by simp, List.Nodup.filter _ ?_⟩
    exact pairwise_map.mpr ((OrdMap.sorted _).imp ne_of_lt)
  · intro id hid
    -- whoever is named is one of the entries
    have hentry : ∃ e ∈ (cohortFor reg request).entries, e.relayId = id := by
      have hcounted : ∀ {n},
        (homeCounts (slotRelays (resolve (cohortFor reg request).entries regionBlind pairRtts request.players)
          regionBlind request.players)).get? id = some n → ∃ e ∈ (cohortFor reg request).entries, e.relayId = id := by
        intro n hn
        obtain ⟨s, hs, hsid⟩ := homeCounts_mem hn
        exact ⟨s.2, slotRelays_mem hwithin hblind hs, hsid⟩
      rcases mem_cons.mp hid with hhome | hrest
      · rcases homeId_cases (homeCounts _) session regionBlind with hdefault | ⟨n, hn⟩
        · exact ⟨regionBlind, hblind, by rw [hhome, hdefault]⟩
        · exact hcounted (n := n) (by rw [hhome]; exact hn)
      · obtain ⟨n, hn⟩ := mem_keys_of_count (mem_filter.mp hrest).1
        exact hcounted hn
    rw [if_pos hid]
    cases hfind : (cohortFor reg request).entries.find? fun e => e.relayId = id with
    | none =>
      obtain ⟨e, he, heid⟩ := hentry
      exact absurd heid (by simpa using find?_eq_none.mp hfind e he)
    | some e =>
      have heid : e.relayId = id := by simpa using find?_some hfind
      obtain ⟨r, hr, hdraining, rfl⟩ := (reg.mem_availableEntries).mp (cohortFor_sub (mem_of_find?_eq_some hfind))
      exact ⟨r, by rw [← heid]; exact hr, hdraining, rfl⟩

end Correct

end RallyPoint.Coordinator
