import RallyPoint.Lib.OrdMap
import RallyPoint.Coordinator.Control

/-!
# `Coordinator.Registry` — the relays that have enrolled

The model of `coordinator/src/registry/mod.rs`. Every method takes the registry's one lock, so a call is
one transition. Each enrollment gets a generation of its own, and whoever acts for a connection names the
generation it enrolled under: a call that names another one changes nothing.

The entries are kept by ascending id; where the source reads its hash map's values in some order, it
sorts them by id or only counts them. The generations are counted in a `u64` of the source, which is
assumed not to come round.
-/

namespace RallyPoint.Coordinator

open Lib OrdMap

/-- The entry of a relay that enrolls. -/
def RelayHello.entry (hello : RelayHello) : RelayEntry where
  relayId := hello.relayId
  relayAddr := hello.relayAddr
  certDer := hello.certDer
  relayAddrs := hello.relayAddrs
  capabilities := hello.capabilities
  region := hello.region

/-- One enrolled relay. -/
structure Registered where
  entry : RelayEntry
  generation : Nat
  certFingerprint : Fingerprint
  draining : Bool

/-- The enrolled relays, and what process each id last ran as. An entry is filed under its own id. -/
structure RelayRegistry where
  relays : OrdMap RelayId Registered
  nextGeneration : Nat
  bootIds : RelayId → Option (Option U64)
  keyed : ∀ id r, relays.get? id = some r → r.entry.relayId = id

/-- Whether an enrolling process is the one the id ran as before. -/
inductive BootLineage where
  | continuous
  | broken
deriving DecidableEq

/-- The id is live under another certificate. -/
structure EnrollConflict where

/-- A relay as the reconcile loop's snapshot has it. -/
structure EnrolledRelay where
  relayId : RelayId
  region : Option RegionId
  generation : Nat
  draining : Bool

namespace RelayRegistry

variable (reg : RelayRegistry) (id : RelayId)

theorem empty_keyed (id : RelayId) (r : Registered) (h : (OrdMap.empty : OrdMap RelayId Registered).get? id = some r) :
    r.entry.relayId = id := by
  simp at h

def new : RelayRegistry := ⟨.empty, 0, fun _ => none, empty_keyed⟩

theorem put_keyed (r : Registered) (id : RelayId) (r' : Registered)
    (h : (reg.relays.insert r.entry.relayId r).get? id = some r') : r'.entry.relayId = id := by
  rcases get?_insert_eq_some.mp h with ⟨hid, rfl⟩ | ⟨-, h⟩
  · exact hid.symm
  · exact reg.keyed id r' h

/-- File an entry under its id. -/
def put (r : Registered) : RelayRegistry :=
  { reg with relays := reg.relays.insert r.entry.relayId r, keyed := put_keyed reg r }

theorem erase_keyed (relay id : RelayId) (r : Registered) (h : (reg.relays.erase relay).get? id = some r) :
    r.entry.relayId = id := by
  exact reg.keyed id r (get?_erase_eq_some.mp h).2

/-- Drop the entry of an id. -/
def erase (relay : RelayId) : RelayRegistry :=
  { reg with relays := reg.relays.erase relay, keyed := erase_keyed reg relay }

/-- The entry of an id with its generation. -/
def registered : Option Registered := reg.relays.get? id

/-! ## Enrollment -/

section Enroll

variable (sha256 : Sha256)

/-- `insert_locked`. A fresh enrollment is never draining. -/
def insertLocked (reg : RelayRegistry) (hello : RelayHello) : RelayRegistry × Nat :=
  ({ reg with nextGeneration := reg.nextGeneration + 1 }.put ⟨hello.entry, reg.nextGeneration, sha256 hello.certDer, false⟩,
    reg.nextGeneration)

def tryEnroll (reg : RelayRegistry) (hello : RelayHello) : RelayRegistry × Except EnrollConflict Nat :=
  if (reg.registered hello.relayId).any (·.certFingerprint ≠ sha256 hello.certDer) then (reg, .error {})
  else
    let (reg, generation) := reg.insertLocked sha256 hello
    (reg, .ok generation)

end Enroll

def noteBootId (bootId : Option U64) : RelayRegistry × BootLineage :=
  let lineage : BootLineage :=
    match reg.bootIds id, bootId with
    | some (some previous), some current => if previous = current then .continuous else .broken
    | none, some _ => .continuous
    | _, _ => .broken
  ({ reg with bootIds := Function.update reg.bootIds id (some bootId) }, lineage)

def forgetBootId : RelayRegistry := { reg with bootIds := Function.update reg.bootIds id none }

def removeIfCurrent (generation : Nat) : RelayRegistry × Bool :=
  match reg.registered id with
  | some r => if r.generation = generation then (reg.erase id, true) else (reg, false)
  | none => (reg, false)

/-! ## Draining -/

/-- What `mark_draining` and `clear_draining` do, with the flag they set. -/
def setDraining (draining : Bool) (reg : RelayRegistry) (id : RelayId) (generation : Nat) : RelayRegistry × Bool :=
  match reg.registered id with
  | some r => if r.generation = generation then (reg.put { r with draining }, true) else (reg, false)
  | none => (reg, false)

def markDraining : RelayRegistry → RelayId → Nat → RelayRegistry × Bool := setDraining true

def clearDraining : RelayRegistry → RelayId → Nat → RelayRegistry × Bool := setDraining false

def isDrainingAt (generation : Nat) : Bool :=
  (reg.registered id).any fun r => r.generation = generation && r.draining

/-! ## Reads -/

def isAvailable : Bool := (reg.registered id).any (!·.draining)

def availableInRegion (region : RegionId) : Nat :=
  reg.relays.values.countP fun r => !r.draining && r.entry.region = some region

def enrolledRelays : List EnrolledRelay :=
  reg.relays.values.map fun r => ⟨r.entry.relayId, r.entry.region, r.generation, r.draining⟩

def entry : Option RelayEntry := (reg.registered id).map (·.entry)

def peer : Option RelayPeer := (reg.registered id).map (·.entry.peer)

def availableEntries : List RelayEntry := (reg.relays.values.filter (!·.draining)).map (·.entry)

/-! ## What the calls do to one entry -/

theorem registered_id {id : RelayId} {r : Registered} (h : reg.registered id = some r) :
    r.entry.relayId = id := reg.keyed id r h

theorem registered_put (r : Registered) (id : RelayId) :
    (reg.put r).registered id = if id = r.entry.relayId then some r else reg.registered id :=
  get?_insert _ _ _ _

theorem registered_erase (relay id : RelayId) :
    (reg.erase relay).registered id = if id = relay then none else reg.registered id :=
  get?_erase _ _ _

/-- The flag of the entry named, if its generation is, and nothing else. -/
theorem registered_setDraining (draining : Bool) (relay : RelayId) (generation : Nat) (id : RelayId) :
    (setDraining draining reg relay generation).1.registered id =
      (reg.registered id).map fun r => if id = relay ∧ r.generation = generation then { r with draining } else r := by
  unfold setDraining
  by_cases hid : id = relay
  · subst hid
    cases hr : reg.registered id with
    | none => simp [hr]
    | some r =>
      have hkey := reg.registered_id hr
      by_cases hgen : r.generation = generation <;> simp [hgen, registered_put, hkey, hr]
  · cases hr : reg.registered relay with
    | none => simp [hid]
    | some r =>
      have hkey := reg.registered_id hr
      by_cases hgen : r.generation = generation <;> simp [hgen, registered_put, hkey, hid]

/-- Whether the mark applied. -/
theorem setDraining_applied (draining : Bool) (relay : RelayId) (generation : Nat) :
    (setDraining draining reg relay generation).2 = true ↔ ∃ r, reg.registered relay = some r ∧
      r.generation = generation := by
  unfold setDraining
  cases reg.registered relay with
  | none => simp
  | some r =>
    dsimp only
    by_cases hgen : r.generation = generation <;> simp [hgen]

theorem registered_removeIfCurrent (relay : RelayId) (generation : Nat) (id : RelayId) :
    (reg.removeIfCurrent relay generation).1.registered id =
      (reg.registered id).bind fun r => if id = relay ∧ r.generation = generation then none else some r := by
  unfold removeIfCurrent
  by_cases hid : id = relay
  · subst hid
    cases hr : reg.registered id with
    | none => simp [hr]
    | some r => by_cases hgen : r.generation = generation <;> simp [hgen, registered_erase, hr]
  · cases reg.registered relay with
    | none => simp [hid]
    | some r => by_cases hgen : r.generation = generation <;> simp [hgen, registered_erase, hid]

/-- A relay is available if it is enrolled and not draining. -/
theorem mem_availableEntries {e : RelayEntry} :
    e ∈ reg.availableEntries ↔ ∃ r, reg.registered e.relayId = some r ∧ r.draining = false ∧ r.entry = e := by
  unfold availableEntries
  rw [List.mem_map]
  constructor
  · rintro ⟨r, hr, rfl⟩
    obtain ⟨hmem, hdraining⟩ := List.mem_filter.mp hr
    obtain ⟨id, hget⟩ := mem_values.mp hmem
    have hkey := reg.keyed id r hget
    exact ⟨r, by rw [registered, hkey, hget], by simpa using hdraining, rfl⟩
  · rintro ⟨r, hget, hdraining, rfl⟩
    exact ⟨r, List.mem_filter.mpr ⟨mem_values.mpr ⟨_, hget⟩, by simp [hdraining]⟩, rfl⟩

theorem nextGeneration_setDraining (draining : Bool) (relay : RelayId) (generation : Nat) :
    (setDraining draining reg relay generation).1.nextGeneration = reg.nextGeneration := by
  unfold setDraining
  cases reg.registered relay with
  | none => rfl
  | some r =>
    dsimp only
    split <;> rfl

theorem nextGeneration_removeIfCurrent (relay : RelayId) (generation : Nat) :
    (reg.removeIfCurrent relay generation).1.nextGeneration = reg.nextGeneration := by
  unfold removeIfCurrent
  cases reg.registered relay with
  | none => rfl
  | some r =>
    dsimp only
    split <;> rfl

end RelayRegistry

/-! ## Errors of session setup -/

inductive SessionSetupError where
  | noRelaysAvailable
  | sessionCeilingReached
  | invalidEvidenceKeys
  | slotOutOfRange (slot : SlotId)
  | tenantNotFound (tenant : TenantId)
  | noPlayers
  | duplicateSlot (slot : SlotId)
  | externalIdTooLong
  | externalRefTooLong (slot : SlotId)
  | lobbyPolicyTooManyEntries
  | lobbyPolicyPayloadsTooLarge
  | lobbyPolicySlotNotInRoster (slot : SlotId)
  | idempotentCreateMismatch
deriving DecidableEq

end RallyPoint.Coordinator
