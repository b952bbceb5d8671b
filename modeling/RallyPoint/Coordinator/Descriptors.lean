import RallyPoint.Lib.OrdMap
import RallyPoint.Coordinator.Control

/-!
# `Coordinator.Descriptors` — the descriptor outbox of each relay

The model of `RelayDescriptors` (`coordinator/src/descriptors/mod.rs`): the descriptors each relay should
currently apply.

A relay's set is kept by session and tenant with one descriptor for each, so it is an `OrdMap`; a relay
whose channel was never made has the empty set. Recording the descriptor that is there already changes
nothing, so whether the watchers are woken is not part of the state.
-/

namespace RallyPoint.Coordinator

open Lib Function OrdMap

/-- One relay's descriptors. -/
abbrev DescriptorSet := OrdMap SessionKey SessionDescriptor

/-- The outboxes. A descriptor is filed under its own session. -/
structure RelayDescriptors where
  channels : RelayId → DescriptorSet
  keyed : ∀ relay key d, (channels relay).get? key = some d → d.key = key

namespace RelayDescriptors

variable (ds : RelayDescriptors) (relay : RelayId)

theorem empty_keyed (relay : RelayId) (key : SessionKey) (d : SessionDescriptor)
    (h : ((fun _ => .empty : RelayId → DescriptorSet) relay).get? key = some d) : d.key = key := by
  simp at h

def new : RelayDescriptors := ⟨fun _ => .empty, empty_keyed⟩

/-- `current_for`, as a set. -/
def current : DescriptorSet := ds.channels relay

def currentFor : List SessionDescriptor := (ds.current relay).values

def currentDescriptor (key : SessionKey) : Option SessionDescriptor := (ds.current relay).get? key

theorem keyed_insert (target : RelayId) (d : SessionDescriptor) (relay : RelayId) (key : SessionKey) (d' : SessionDescriptor)
    (h : (update ds.channels target ((ds.channels target).insert d.key d) relay).get? key = some d') : d'.key = key := by
  by_cases hrelay : relay = target
  · rw [hrelay, update_self, get?_insert] at h
    split at h
    · rename_i hkey
      obtain rfl : d = d' := by simpa using h
      exact hkey.symm
    · exact ds.keyed target key d' h
  · rw [update_of_ne hrelay] at h
    exact ds.keyed relay key d' h

def record (d : SessionDescriptor) : RelayDescriptors :=
  { ds with
    channels := update ds.channels relay ((ds.channels relay).insert d.key d)
    keyed := keyed_insert ds relay d }

theorem keyed_of_subset {channels channels' : RelayId → DescriptorSet}
    (hkeyed : ∀ relay key d, (channels relay).get? key = some d → d.key = key)
    (hsub : ∀ relay key d, (channels' relay).get? key = some d → (channels relay).get? key = some d)
    (relay : RelayId) (key : SessionKey) (d : SessionDescriptor) (h : (channels' relay).get? key = some d) : d.key = key :=
  hkeyed relay key d (hsub relay key d h)

theorem erase_subset (key : SessionKey) (relay' : RelayId) (key' : SessionKey) (d : SessionDescriptor)
    (h : (update ds.channels relay ((ds.channels relay).erase key) relay').get? key' = some d) :
    (ds.channels relay').get? key' = some d := by
  by_cases hrelay : relay' = relay
  · rw [hrelay, update_self, get?_erase] at h
    split at h
    · cases h
    · rw [hrelay]
      exact h
  · rwa [update_of_ne hrelay] at h

def remove (key : SessionKey) : RelayDescriptors :=
  if ((ds.channels relay).get? key).isSome then
    { channels := update ds.channels relay ((ds.channels relay).erase key)
      keyed := keyed_of_subset ds.keyed (erase_subset ds relay key) }
  else ds

theorem forget_subset (relay relay' : RelayId) (key : SessionKey) (d : SessionDescriptor)
    (h : (update ds.channels relay .empty relay').get? key = some d) : (ds.channels relay').get? key = some d := by
  by_cases hrelay : relay' = relay
  · rw [hrelay, update_self] at h
    simp at h
  · rwa [update_of_ne hrelay] at h

def forget : RelayDescriptors :=
  { channels := update ds.channels relay .empty
    keyed := keyed_of_subset ds.keyed (forget_subset ds relay) }

/-! ## What is staged after an update -/

theorem currentDescriptor_key {relay : RelayId} {key : SessionKey} {d : SessionDescriptor}
    (h : ds.currentDescriptor relay key = some d) : d.key = key :=
  ds.keyed relay key d h

theorem mem_currentFor {relay : RelayId} {d : SessionDescriptor} :
    d ∈ ds.currentFor relay ↔ ds.currentDescriptor relay d.key = some d := by
  unfold currentFor currentDescriptor
  rw [mem_values]
  constructor
  · rintro ⟨key, h⟩
    rw [ds.keyed relay key d h]
    exact h
  · intro h
    exact ⟨d.key, h⟩

theorem currentDescriptor_record (target : RelayId) (d : SessionDescriptor) (relay : RelayId) (key : SessionKey) :
    (ds.record target d).currentDescriptor relay key = if relay = target ∧ key = d.key then some d
      else ds.currentDescriptor relay key := by
  unfold currentDescriptor current record
  dsimp only
  by_cases hrelay : relay = target
  · rw [hrelay, update_self, get?_insert]
    simp
  · simp [hrelay]

theorem currentDescriptor_remove (target : RelayId) (key : SessionKey) (relay : RelayId) (key' : SessionKey) :
    (ds.remove target key).currentDescriptor relay key' =
      if relay = target ∧ key' = key then none else ds.currentDescriptor relay key' := by
  unfold currentDescriptor current remove
  by_cases hpresent : ((ds.channels target).get? key).isSome
  · rw [if_pos hpresent]
    dsimp only
    by_cases hrelay : relay = target
    · rw [hrelay, update_self, get?_erase]
      simp
    · simp [hrelay]
  · rw [if_neg hpresent]
    split
    · rename_i h
      obtain ⟨rfl, rfl⟩ := h
      simpa using hpresent
    · rfl

theorem currentDescriptor_forget (target relay : RelayId) (key : SessionKey) :
    (ds.forget target).currentDescriptor relay key = if relay = target then none else ds.currentDescriptor relay key := by
  unfold currentDescriptor current forget
  by_cases hrelay : relay = target
  · simp [hrelay]
  · simp [hrelay]

end RelayDescriptors

end RallyPoint.Coordinator
