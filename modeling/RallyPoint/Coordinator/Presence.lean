import RallyPoint.Coordinator.Control

/-!
# `Coordinator.Presence` — which slots are connected to a relay right now

The model of `coordinator/src/presence/mod.rs`: a map from slots to the report that last named them,
filled from the rosters on the relays' heartbeats. Instants are nanoseconds.

Against it stand the relays' own words (`Rosters`): a relay's last heartbeat, as long as its connection
lasts. The store keeps one report for a slot, so it holds the union of them only as long as no two of
them name the same slot.
-/

namespace RallyPoint.Coordinator

open Function Option

def presenceTtl : Nat := 35 * 10 ^ 9

/-- The connected slots of one session. -/
structure SessionPresence where
  key : SessionKey
  slots : List SlotId

/-- Who reported a slot, over which connection, and when. -/
structure PresenceEntry where
  relay : RelayId
  generation : Nat
  lastSeen : Nat

/-- One slot of one session. -/
abbrev SlotKey := SessionKey × SlotId

/-- The slots of a roster, in the order the loops go over them. -/
def slotKeys (sessions : List SessionPresence) : List SlotKey := sessions.flatMap fun s => s.slots.map (s.key, ·)

abbrev PresenceStore := SlotKey → Option PresenceEntry

namespace PresenceStore

/-- `entries.retain`. -/
def retain (store : PresenceStore) (p : PresenceEntry → Bool) : PresenceStore := fun key => (store key).filter p

/-- One round of the loop: a newer connection's entry wins over the beat. -/
def report (entry : PresenceEntry) (store : PresenceStore) (key : SlotKey) : PresenceStore :=
  if (store key).any (entry.generation < ·.generation) then store else update store key (some entry)

def applyHeartbeat (store : PresenceStore) (relay : RelayId) (generation : Nat)
    (sessions : List SessionPresence) (now : Nat) : PresenceStore :=
  (slotKeys sessions).foldl (report ⟨relay, generation, now⟩) (store.retain fun e =>
    !(e.relay = relay ∧ e.generation ≤ generation))

def clearConnection (store : PresenceStore) (relay : RelayId) (generation : Nat) : PresenceStore :=
  store.retain fun e => !(e.relay = relay ∧ e.generation = generation)

/-- Whether the answer for the tenant holds the slot. -/
def freshSlots (store : PresenceStore) (tenant : TenantId) (now : Nat) (session : SessionId) (slot : SlotId) : Bool :=
  (store (⟨tenant, session⟩, slot)).any fun entry => now - entry.lastSeen < presenceTtl

/-- What the loop leaves at a slot. -/
theorem foldl_report (entry : PresenceEntry) (keys : List SlotKey) (store : PresenceStore) (key : SlotKey) :
    keys.foldl (report entry) store key =
      if key ∈ keys ∧ (store key).any (entry.generation < ·.generation) = false then some entry else store key := by
  induction keys generalizing store with
  | nil => simp
  | cons k keys ih =>
    rw [List.foldl_cons, ih, report]
    by_cases hk : key = k
    · subst hk
      cases hany : (store key).any (entry.generation < ·.generation) <;> simp [hany]
    · split <;> simp [hk]

end PresenceStore

/-! ## The relays' own words -/

/-- A relay's last heartbeat. -/
structure Roster where
  generation : Nat
  sessions : List SessionPresence
  lastSeen : Nat

/-- The last heartbeat of each relay on a connection that was not cleared since. -/
abbrev Rosters := RelayId → Option Roster

inductive PresenceOp where
  | heartbeat (relay : RelayId) (generation : Nat) (sessions : List SessionPresence) (now : Nat)
  | clear (relay : RelayId) (generation : Nat)

namespace PresenceOp

def apply (store : PresenceStore) : PresenceOp → PresenceStore
  | heartbeat relay generation sessions now => store.applyHeartbeat relay generation sessions now
  | clear relay generation => store.clearConnection relay generation

def note (rosters : Rosters) : PresenceOp → Rosters
  | heartbeat relay generation sessions now => update rosters relay (some ⟨generation, sessions, now⟩)
  | clear relay generation => update rosters relay ((rosters relay).filter (·.generation ≠ generation))

/-- A relay's calls carry nondecreasing generations. -/
def Ordered (rosters : Rosters) : PresenceOp → Prop
  | heartbeat relay generation _ _ | clear relay generation => ∀ r, rosters relay = some r → r.generation ≤ generation

/-- A heartbeat names no slot that another relay's last one names. -/
def Disjoint (rosters : Rosters) : PresenceOp → Prop
  | heartbeat relay _ sessions _ =>
    ∀ other r, other ≠ relay → rosters other = some r → ∀ key ∈ slotKeys sessions, key ∉ slotKeys r.sessions
  | clear _ _ => True

end PresenceOp

/-- The store and the relays' words after some calls, each as `ok` says of the words so far. -/
inductive PresenceRun (ok : Rosters → PresenceOp → Prop) : PresenceStore → Rosters → Prop
  | nil : PresenceRun ok (fun _ => none) (fun _ => none)
  | call {store : PresenceStore} {rosters : Rosters} (op : PresenceOp) :
      PresenceRun ok store rosters → ok rosters op → PresenceRun ok (op.apply store) (op.note rosters)

variable {store : PresenceStore} {rosters : Rosters}

/-- The report at a slot is a relay's last word. -/
def Truthful (store : PresenceStore) (rosters : Rosters) : Prop :=
  ∀ key e, store key = some e → ∃ r, rosters e.relay = some r ∧ r.generation = e.generation ∧
    r.lastSeen = e.lastSeen ∧ key ∈ slotKeys r.sessions

/-- A relay's last word is at every slot it names. -/
def Full (store : PresenceStore) (rosters : Rosters) : Prop :=
  ∀ relay r, rosters relay = some r → ∀ key ∈ slotKeys r.sessions, store key = some ⟨relay, r.generation, r.lastSeen⟩

theorem Truthful.call (h : Truthful store rosters) (op : PresenceOp) (hok : op.Ordered rosters) :
    Truthful (op.apply store) (op.note rosters) := by
  intro key e he
  cases op with
  | heartbeat relay generation sessions now =>
    simp only [PresenceOp.apply, PresenceStore.applyHeartbeat, PresenceStore.foldl_report] at he
    split at he
    · rename_i hnamed
      cases he
      exact ⟨_, update_self .., rfl, rfl, hnamed.1⟩
    · -- an older report is another relay's
      obtain ⟨hold, hkept⟩ := filter_eq_some_iff.mp he
      obtain ⟨r, hr, hgeneration, hrest⟩ := h key e hold
      have hne : e.relay ≠ relay := by
        rintro rfl
        have := hok r hr
        simp at hkept
        omega
      exact ⟨r, (update_of_ne hne ..).trans hr, hgeneration, hrest⟩
  | clear relay generation =>
    obtain ⟨hold, hkept⟩ := filter_eq_some_iff.mp he
    obtain ⟨r, hr, hgeneration, hrest⟩ := h key e hold
    refine ⟨r, ?_, hgeneration, hrest⟩
    simp only [PresenceOp.note]
    by_cases hrelay : e.relay = relay
    · subst hrelay
      simp_all
    · rw [update_of_ne hrelay, hr]

theorem Full.call (hfull : Full store rosters) (h : Truthful store rosters) (op : PresenceOp) (hok : op.Ordered rosters)
    (hdisjoint : op.Disjoint rosters) : Full (op.apply store) (op.note rosters) := by
  intro other r hr key hkey
  cases op with
  | heartbeat relay generation sessions now =>
    simp only [PresenceOp.note, PresenceOp.apply, PresenceStore.applyHeartbeat, PresenceStore.foldl_report] at hr ⊢
    by_cases hother : other = relay
    · subst hother
      rw [update_self] at hr
      cases hr
      -- what is left at the slot is not another relay's, and the relay's own was taken out
      have hfree : store.retain (fun e => !(e.relay = other ∧ e.generation ≤ generation)) key = none := by
        refine eq_none_iff_forall_not_mem.mpr fun e he => ?_
        obtain ⟨hold, hkept⟩ := filter_eq_some_iff.mp he
        obtain ⟨r, hr, hgeneration, -, hnamed⟩ := h key e hold
        by_cases hrelay : e.relay = other
        · have := hok r (hrelay ▸ hr)
          simp [hrelay] at hkept
          omega
        · exact hdisjoint e.relay r hrelay hr key hkey hnamed
      rw [hfree, if_pos ⟨hkey, rfl⟩]
    · rw [update_of_ne hother] at hr
      have hunnamed : key ∉ slotKeys sessions := fun hin => hdisjoint other r hother hr key hin hkey
      rw [if_neg fun hin => hunnamed hin.1, PresenceStore.retain, hfull other r hr key hkey]
      simp [hother]
  | clear relay generation =>
    simp only [PresenceOp.note, PresenceOp.apply, PresenceStore.clearConnection, PresenceStore.retain] at hr ⊢
    by_cases hother : other = relay
    · subst hother
      rw [update_self] at hr
      obtain ⟨hr, hkept⟩ := filter_eq_some_iff.mp hr
      rw [hfull other r hr key hkey]
      simpa using hkept
    · rw [update_of_ne hother] at hr
      rw [hfull other r hr key hkey]
      simp [hother]

theorem PresenceRun.truthful (h : PresenceRun (fun rosters op => op.Ordered rosters) store rosters) :
    Truthful store rosters := by
  induction h with
  | nil => exact fun _ _ he => absurd he (by simp)
  | call op _ hok ih => exact ih.call op hok

theorem PresenceRun.full (h : PresenceRun (fun rosters op => op.Ordered rosters ∧ op.Disjoint rosters) store rosters) :
    Truthful store rosters ∧ Full store rosters := by
  induction h with
  | nil => exact ⟨fun _ _ he => absurd he (by simp), fun _ _ hr => absurd hr (by simp)⟩
  | call op _ hok ih => exact ⟨ih.1.call op hok.1, ih.2.call ih.1 op hok.1 hok.2⟩

/-- Some relay's last heartbeat, on a connection not cleared since, names the slot and is not too old. -/
def Rosters.names (rosters : Rosters) (tenant : TenantId) (now : Nat) (session : SessionId) (slot : SlotId) : Prop :=
  ∃ relay r, rosters relay = some r ∧ (⟨tenant, session⟩, slot) ∈ slotKeys r.sessions ∧ now - r.lastSeen < presenceTtl

/-- **The store is the union of the relays' last rosters**, in every run whose heartbeats name no slot
    that another relay's last one names. And in every run, what is fresh was named so. -/
theorem presence_is_union (tenant : TenantId) (now : Nat) (session : SessionId) (slot : SlotId) :
    (∀ store rosters, PresenceRun (fun rosters op => op.Ordered rosters ∧ op.Disjoint rosters) store rosters →
      (store.freshSlots tenant now session slot = true ↔ rosters.names tenant now session slot)) ∧
    ∀ store rosters, PresenceRun (fun rosters op => op.Ordered rosters) store rosters →
      store.freshSlots tenant now session slot = true → rosters.names tenant now session slot := by
  have hnamed : ∀ {store : PresenceStore} {rosters : Rosters}, Truthful store rosters →
    store.freshSlots tenant now session slot = true →
      rosters.names tenant now session slot := by
    intro store rosters h hfresh
    obtain ⟨e, he, hage⟩ := any_eq_true _ _ |>.mp hfresh
    obtain ⟨r, hr, -, hseen, hnamed⟩ := h _ e he
    exact ⟨e.relay, r, hr, hnamed, by simpa [hseen] using hage⟩
  refine ⟨fun store rosters hrun => ⟨hnamed hrun.full.1, ?_⟩, fun store rosters hrun => hnamed hrun.truthful⟩
  rintro ⟨relay, r, hr, hin, hage⟩
  unfold PresenceStore.freshSlots
  rw [hrun.full.2 relay r hr _ hin]
  simpa using hage

namespace Demo

/-- A heartbeat that names one slot of the session. -/
def beat (relay : RelayId) (generation : Nat) (slot : SlotId) : PresenceOp :=
  .heartbeat relay generation [⟨⟨"t", 1⟩, [slot]⟩] 0

theorem mem_beat {key : SlotKey} {slot : SlotId} : key ∈ slotKeys [⟨⟨"t", 1⟩, [slot]⟩] ↔ key = (⟨"t", 1⟩, slot) := by
  simp [slotKeys]

/-- Two relays, each with a slot of its own: both slots are fresh. -/
theorem presence_is_union_two :
    let store := (beat 2 1 1).apply ((beat 1 0 0).apply fun _ => none)
    store.freshSlots "t" 1 1 0 = true ∧ store.freshSlots "t" 1 1 1 = true := by
  intro store
  have hfirst : PresenceRun (fun rosters op => op.Ordered rosters ∧ op.Disjoint rosters)
      ((beat 1 0 0).apply _) ((beat 1 0 0).note _) :=
    .call _ .nil ⟨fun _ h => absurd h (by simp), fun _ _ _ h => absurd h (by simp)⟩
  have hsecond := hfirst.call (beat 2 1 1) <| by
    refine ⟨fun r h => absurd h (by simp [beat, PresenceOp.note]), ?_⟩
    intro other r _ hr key hkey hnamed
    by_cases hother : other = 1
    · rw [hother, beat, PresenceOp.note, update_self] at hr
      cases hr
      rw [mem_beat] at hkey hnamed
      cases hkey.symm.trans hnamed
    · rw [beat, PresenceOp.note, update_of_ne hother] at hr
      cases hr
  refine ⟨((presence_is_union "t" 1 1 0).1 _ _ hsecond).mpr ⟨1, ⟨0, [⟨⟨"t", 1⟩, [0]⟩], 0⟩, ?_, mem_beat.mpr rfl, by decide⟩,
    ((presence_is_union "t" 1 1 1).1 _ _ hsecond).mpr ⟨2, ⟨1, [⟨⟨"t", 1⟩, [1]⟩], 0⟩, ?_, mem_beat.mpr rfl, by decide⟩⟩ <;>
    simp [beat, PresenceOp.note]

/-- Relay 2 names the slot, on a connection newer than relay 1's. Relay 1 names it next, which the fence
    ignores. Then relay 2's connection drops, and the slot is gone. -/
theorem presence_ignores_older_connection :
    ∃ store rosters, PresenceRun (fun rosters op => op.Ordered rosters) store rosters ∧ rosters.names "t" 1 1 0 ∧
      store.freshSlots "t" 1 1 0 = false := by
  have hfirst : PresenceRun (fun rosters op => op.Ordered rosters) ((beat 2 1 0).apply _) ((beat 2 1 0).note _) :=
    .call _ .nil fun _ h => absurd h (by simp)
  have hsecond := hfirst.call (beat 1 0 0) fun r h => absurd h (by simp [beat, PresenceOp.note])
  have hthird := hsecond.call (.clear 2 1) fun r h => by
    simp only [beat, PresenceOp.note] at h
    rw [update_of_ne (by decide), update_self] at h
    cases h
    exact le_rfl
  refine ⟨_, _, hthird, ⟨1, ⟨0, [⟨⟨"t", 1⟩, [0]⟩], 0⟩,
    by simp [beat, PresenceOp.note], mem_beat.mpr rfl, by decide⟩, by decide⟩

end Demo

end RallyPoint.Coordinator
