import RallyPoint.Client.Reorder
import RallyPoint.Lib.Trace

/-!
# `Client.Correctness.Reorder` — each slot's turns reach the game in order, once

`Buffer` is what the two maps of a `SlotReorder` say: a cursor and the held turns of every slot. A
release changes it by `HandOver` steps only, one for each answer of the game's channel, whatever order
the slots are visited in.

- `Delivered`: what the buffer, the turns observed and the attempts so far have to do with each other.
  Every `HandOver` and every observed turn keeps it.
- `drainSlot_free`: with a channel that takes everything, a slot is drained down to the first seq it does
  not hold.
-/

namespace RallyPoint.Client

open Lib Lib.Trace Function List SlotReorder OrdMap

/-! ## What the maps say -/

/-- A cursor and the held turns for every slot. -/
@[ext] structure Buffer where
  next : SlotId → Nat
  held : SlotId → Nat → Option Payload

namespace Buffer

def setSlot (b : Buffer) (slot : SlotId) (next : Nat) (held : Nat → Option Payload) : Buffer :=
  ⟨update b.next slot next, update b.held slot held⟩

variable (b : Buffer) (slot : SlotId) (next next' : Nat) (held held' : Nat → Option Payload)

@[simp] theorem setSlot_next : (b.setSlot slot next held).next = update b.next slot next := rfl

@[simp] theorem setSlot_held : (b.setSlot slot next held).held = update b.held slot held := rfl

@[simp] theorem setSlot_setSlot : (b.setSlot slot next held).setSlot slot next' held' =
    b.setSlot slot next' held' := by simp [setSlot]

@[simp] theorem setSlot_self : b.setSlot slot (b.next slot) (b.held slot) = b := by simp [setSlot]

end Buffer

/-- What one answer of the channel does to the buffer, when the turn at a slot's cursor is offered. -/
inductive HandOver : Buffer → List Attempt → Buffer → Prop where
  | accept {b : Buffer} {slot : SlotId} {p : Payload} (h : b.held slot (b.next slot) = some p) :
      HandOver b [⟨slot, p, .ok⟩] (b.setSlot slot (b.next slot + 1) (update (b.held slot) (b.next slot) none))
  | stall {b : Buffer} {slot : SlotId} {p : Payload} (h : b.held slot (b.next slot) = some p) :
      HandOver b [⟨slot, p, .full⟩] b
  | drop {b : Buffer} {slot : SlotId} {p : Payload} (h : b.held slot (b.next slot) = some p) :
      HandOver b [⟨slot, p, .closed⟩] (b.setSlot slot (b.next slot) (update (b.held slot) (b.next slot) none))

namespace SlotReorder

def held (r : SlotReorder) (slot : SlotId) (seq : Nat) : Option Payload := (r.pending.get? slot).bind (·.get? seq)

def view (r : SlotReorder) : Buffer := ⟨r.nextNeeded, r.held⟩

/-- What a slot holds, it was registered for. -/
def Registered (r : SlotReorder) : Prop := ∀ slot, (r.pending.get? slot).isSome → (r.nextSeq.get? slot).isSome

theorem view_insert (r : SlotReorder) (slot : SlotId) (next : Nat) (held : OrdMap Nat Payload) :
    view ⟨r.nextSeq.insert slot next, r.pending.insert slot held⟩ = r.view.setSlot slot next held.get? := by
  ext s : 2
  · by_cases hs : s = slot
    · subst hs
      simp [view, nextNeeded]
    · simp [view, nextNeeded, get?_insert, hs]
  · funext seq
    by_cases hs : s = slot
    · subst hs
      simp [view, SlotReorder.held]
    · simp [view, SlotReorder.held, get?_insert, hs]

theorem view_observe (r : SlotReorder) (slot : SlotId) (p : Payload) :
    (r.observe slot p).view = if r.nextNeeded slot ≤ p.seq then
        r.view.setSlot slot (r.nextNeeded slot) (update (r.held slot) p.seq (some p))
      else r.view := by
  unfold observe nextNeeded
  by_cases hle : (r.nextSeq.get? slot).getD 0 ≤ p.seq
  · simp only [if_pos hle]
    rw [view_insert]
    congr 1
    funext seq
    rw [get?_insert, update_apply]
    by_cases hseq : seq = p.seq
    · rw [if_pos hseq, if_pos hseq]
    · rw [if_neg hseq, if_neg hseq]
      cases hget : r.pending.get? slot <;> simp [held, hget]
  · simp only [if_neg hle]
    ext s : 2
    · by_cases hs : s = slot
      · subst hs
        simp [view, nextNeeded]
      · simp [view, nextNeeded, get?_insert, hs]
    · rfl

theorem Registered.observe {r : SlotReorder} (h : r.Registered) (slot : SlotId) (p : Payload) :
    (r.observe slot p).Registered := by
  intro s hs
  unfold SlotReorder.observe at hs ⊢
  by_cases hle : (r.nextSeq.get? slot).getD 0 ≤ p.seq
  · simp only [if_pos hle] at hs ⊢
    rw [get?_insert] at hs ⊢
    by_cases heq : s = slot
    · simp [heq]
    · rw [if_neg heq] at hs ⊢
      exact h s hs
  · simp only [if_neg hle] at hs ⊢
    rw [get?_insert]
    by_cases heq : s = slot
    · simp [heq]
    · rw [if_neg heq]
      exact h s hs

end SlotReorder

/-! ## A release as a sequence of answers -/

section Draining

variable (answers : Nat → SendResult) (slot : SlotId)

/-- The loop over one slot makes `HandOver` steps and adds their attempts. -/
theorem drainSlot_steps (b : Buffer) (fuel next : Nat) (held : OrdMap Nat Payload) (attempts : List Attempt) :
    ∃ as, (drainSlot answers slot fuel next held attempts).attempts = attempts ++ as ∧
      Steps HandOver (b.setSlot slot next held.get?) as
        (b.setSlot slot (drainSlot answers slot fuel next held attempts).next
          (drainSlot answers slot fuel next held attempts).held.get?) := by
  induction fuel generalizing next held attempts with
  | zero => exact ⟨[], (append_nil _).symm, .refl _⟩
  | succ fuel ih =>
    unfold drainSlot
    cases hget : held.get? next with
    | none => exact ⟨[], (append_nil _).symm, .refl _⟩
    | some p =>
      have hat : (b.setSlot slot next held.get?).held slot ((b.setSlot slot next held.get?).next slot) =
        some p := by simpa using hget
      have herase : update held.get? next none = (held.erase next).get? := by
        funext seq
        rw [get?_erase, update_apply]
      cases hans : answers attempts.length with
      | ok =>
        obtain ⟨as, has, hsteps⟩ := ih (next + 1) (held.erase next) (attempts ++ [⟨slot, p, .ok⟩])
        have hone := HandOver.accept hat
        simp only [Buffer.setSlot_next, Buffer.setSlot_held, update_self, Buffer.setSlot_setSlot, herase] at hone
        refine ⟨[⟨slot, p, .ok⟩] ++ as, ?_, .head hone hsteps⟩
        rw [← append_assoc]
        exact has
      | full =>
        have hback : ((held.erase next).insert next p).get? = held.get? := by
          funext seq
          rw [get?_insert, get?_erase]
          by_cases hseq : seq = next
          · simp [hseq, hget]
          · simp [hseq]
        refine ⟨[⟨slot, p, .full⟩], rfl, .single ?_⟩
        simp only [hback]
        exact HandOver.stall hat
      | closed =>
        have hone := HandOver.drop hat
        simp only [Buffer.setSlot_next, Buffer.setSlot_held, update_self, Buffer.setSlot_setSlot, herase] at hone
        exact ⟨[⟨slot, p, .closed⟩], rfl, .single hone⟩

/-- A channel that takes everything drains the slot down to the first seq it does not hold. -/
theorem drainSlot_free (fuel next : Nat) (held : OrdMap Nat Payload) (attempts : List Attempt)
    (hfuel : held.size ≤ fuel) (hok : ∀ a ∈ attempts, a.result = .ok) :
    let d := drainSlot (fun _ => .ok) slot fuel next held attempts
    d.stop = none ∧ d.held.get? d.next = none ∧ ∀ a ∈ d.attempts, a.result = .ok := by
  induction fuel generalizing next held attempts with
  | zero =>
    refine ⟨rfl, ?_, hok⟩
    show held.get? next = none
    by_contra hne
    have hpos := size_pos.mpr ⟨next, Option.isSome_iff_ne_none.mpr hne⟩
    omega
  | succ fuel ih =>
    unfold drainSlot
    cases hget : held.get? next with
    | none => exact ⟨rfl, hget, hok⟩
    | some p =>
      have hlt := size_erase_lt hget
      refine ih (next + 1) (held.erase next) _ (by omega) ?_
      intro a ha
      obtain ha | ha := mem_append.mp ha
      · exact hok a ha
      · rw [mem_singleton.mp ha]

end Draining

/-- Nothing waits at the slot's cursor. -/
def Buffer.Idle (b : Buffer) (slot : SlotId) : Prop := b.held slot (b.next slot) = none

/-- Only a slot with a turn at its cursor is touched. -/
theorem Buffer.Idle.steps {b b' : Buffer} {as : List Attempt} {slot : SlotId} (h : b.Idle slot)
    (hs : Steps HandOver b as b') : b'.Idle slot := by
  refine hs.keeps (I := fun b _ => b.Idle slot) ?_ [] h
  intro b log e b' hone hidle
  have hother : ∀ {s p}, b.held s (b.next s) = some p → slot ≠ s := by
    rintro s p hp rfl
    rw [hidle] at hp
    cases hp
  cases hone with
  | accept hp | drop hp =>
    unfold Buffer.Idle at hidle ⊢
    simpa [hother hp] using hidle
  | stall _ => exact hidle

namespace SlotReorder

variable {r : SlotReorder} {slot : SlotId}

theorem view_eq_setSlot {next : Nat} {held : OrdMap Nat Payload} (hnext : r.nextSeq.get? slot = some next)
    (hheld : r.pending.get? slot = some held) : r.view = r.view.setSlot slot next held.get? := by
  have h1 : r.view.next slot = next := by simp [view, nextNeeded, hnext]
  have h2 : r.view.held slot = held.get? := by
    funext seq
    simp [view, SlotReorder.held, hheld]
  rw [← h1, ← h2, Buffer.setSlot_self]

theorem Registered.insert (h : r.Registered) (slot : SlotId) (next : Nat) (held : OrdMap Nat Payload) :
    Registered ⟨r.nextSeq.insert slot next, r.pending.insert slot held⟩ := by
  intro s hs
  rw [get?_insert] at hs ⊢
  by_cases heq : s = slot
  · simp [heq]
  · rw [if_neg heq] at hs ⊢
    exact h s hs

/-- A slot never heard from holds nothing. -/
theorem Registered.idle (h : r.Registered) (hnone : ∀ e ∈ r.cursors, e.1 ≠ slot) : r.view.Idle slot := by
  have hpend : r.pending.get? slot = none := by
    by_contra hne
    obtain ⟨next, hnext⟩ := Option.isSome_iff_exists.mp (h slot (Option.isSome_iff_ne_none.mpr hne))
    exact hnone _ (get?_eq_some.mp hnext) rfl
  unfold Buffer.Idle
  simp [view, SlotReorder.held, hpend]

/-- **A release is a sequence of answers**, in whatever order the slots are visited. -/
theorem releaseSlots_steps (answers : Nat → SendResult) (order : List SlotId) (r : SlotReorder) (attempts : List Attempt) :
    let res := releaseSlots answers order r attempts
    ∃ as, res.2.1 = attempts ++ as ∧ Steps HandOver r.view as res.1.view ∧ (r.Registered → res.1.Registered) := by
  induction order generalizing r attempts with
  | nil => exact ⟨[], (append_nil _).symm, .refl _, id⟩
  | cons slot rest ih =>
    unfold releaseSlots
    cases hnext : r.nextSeq.get? slot with
    | none => exact ih r attempts
    | some next =>
      cases hheld : r.pending.get? slot with
      | none => exact ih r attempts
      | some held =>
        obtain ⟨as, has, hsteps⟩ := drainSlot_steps answers slot r.view held.size next held attempts
        rw [← view_eq_setSlot hnext hheld, ← view_insert] at hsteps
        cases hstop : (drainSlot answers slot held.size next held attempts).stop with
        | some stop =>
          simp only [hstop]
          exact ⟨as, has, hsteps, fun h => h.insert slot _ _⟩
        | none =>
          simp only [hstop]
          obtain ⟨bs, hbs, hrest, hregistered⟩ := ih ⟨r.nextSeq.insert slot _, r.pending.insert slot _⟩ _
          refine ⟨as ++ bs, ?_, hsteps.trans hrest, fun h => hregistered (h.insert slot _ _)⟩
          rw [hbs, has, append_assoc]

/-- With a channel that takes everything, every slot visited is left idle. -/
theorem releaseSlots_free (order : List SlotId) (attempts : List Attempt) (hr : r.Registered)
    (hok : ∀ a ∈ attempts, a.result = .ok) :
    let res := releaseSlots (fun _ => .ok) order r attempts
    res.2.2 = .delivered ∧ (∀ a ∈ res.2.1, a.result = .ok) ∧ ∀ slot ∈ order, res.1.view.Idle slot := by
  induction order generalizing r attempts with
  | nil => exact ⟨rfl, hok, by simp⟩
  | cons slot rest ih =>
    -- a slot that is idle when its turn is over stays so
    have hlift : ∀ {r' : SlotReorder} {as : List Attempt}, r'.Registered → (∀ a ∈ as, a.result = .ok) → r'.view.Idle slot →
        let res := releaseSlots (fun _ => .ok) rest r' as
        res.2.2 = .delivered ∧ (∀ a ∈ res.2.1, a.result = .ok) ∧ ∀ s ∈ slot :: rest, res.1.view.Idle s := by
      intro r' as hr' has hidle
      obtain ⟨hdone, hall, hrest⟩ := ih as hr' has
      refine ⟨hdone, hall, ?_⟩
      intro s hs
      obtain rfl | hs := mem_cons.mp hs
      · obtain ⟨bs, -, hsteps, -⟩ := releaseSlots_steps (fun _ => .ok) rest r' as
        exact hidle.steps hsteps
      · exact hrest s hs
    unfold releaseSlots
    cases hheld : r.pending.get? slot with
    | none =>
      have hidle : r.view.Idle slot := by
        unfold Buffer.Idle
        simp [view, SlotReorder.held, hheld]
      cases r.nextSeq.get? slot <;> exact hlift hr hok hidle
    | some held =>
      obtain ⟨next, hnext⟩ := Option.isSome_iff_exists.mp (hr slot (by rw [hheld]; rfl))
      obtain ⟨hstop, hnone, hall⟩ := drainSlot_free slot held.size next held attempts le_rfl hok
      simp only [hnext, hstop]
      refine hlift (hr.insert slot _ _) hall ?_
      unfold Buffer.Idle
      rw [view_insert]
      simpa using hnone

end SlotReorder

/-! ## What has been delivered -/

/-- The turns of the slot that the channel accepted, in order. -/
def handed (log : List Attempt) (slot : SlotId) : List Payload :=
  (log.filter fun a => a.slot = slot ∧ a.result = .ok).map (·.payload)

@[simp] theorem handed_append (log log' : List Attempt) (slot : SlotId) :
    handed (log ++ log') slot = handed log slot ++ handed log' slot := by
  simp [handed]

/-- The channel answered closed to the turn at the slot's cursor, which is then gone. -/
def Lost (b : Buffer) (log : List Attempt) (slot : SlotId) (seq : Nat) : Prop :=
  seq = b.next slot ∧ ∃ p : Payload, (p.seq : Nat) = seq ∧ ⟨slot, p, .closed⟩ ∈ log

/-- **What the buffer holds** after the turns `seen` and the attempts `log`. -/
structure Delivered (seen : List (SlotId × Payload)) (b : Buffer) (log : List Attempt) : Prop where
  order : ∀ slot, (handed log slot).map (fun p => (p.seq : Nat)) = List.range (b.next slot)
  source : ∀ slot, ∀ p ∈ handed log slot, (slot, p) ∈ seen
  held : ∀ slot seq p, b.held slot seq = some p → (p.seq : Nat) = seq ∧ b.next slot ≤ seq ∧ (slot, p) ∈ seen
  kept : ∀ slot p, (slot, p) ∈ seen → b.next slot ≤ p.seq → (b.held slot p.seq).isSome ∨ Lost b log slot p.seq

namespace Delivered

variable {seen : List (SlotId × Payload)} {b b' : Buffer} {log as : List Attempt}

theorem empty : Delivered [] SlotReorder.empty.view [] where
  order := fun _ => rfl
  source := by simp [handed]
  held := by simp [SlotReorder.view, SlotReorder.held, SlotReorder.empty]
  kept := by simp

/-- An attempt that is not accepted adds nothing to what was handed over. -/
theorem bounce (h : Delivered seen b log) {a : Attempt} (ha : a.result ≠ .ok) : Delivered seen b (log ++ [a]) := by
  have hnone : ∀ s, handed [a] s = [] := by simp [handed, ha]
  refine ⟨?_, ?_, h.held, ?_⟩
  · intro s
    rw [handed_append, hnone, append_nil, h.order]
  · intro s q hq
    rw [handed_append, hnone, append_nil] at hq
    exact h.source s q hq
  · intro s q hq hle
    obtain hheld | ⟨heq, p', hp', hmem⟩ := h.kept s q hq hle
    · exact .inl hheld
    · exact .inr ⟨heq, p', hp', mem_append_left _ hmem⟩

variable {slot : SlotId} {p : Payload}

section Delivered

variable (h : Delivered seen b log)
include h

/-- The turn at a cursor goes when the channel has answered closed to it. -/
theorem drop (hp : b.held slot (b.next slot) = some p) (hlog : ⟨slot, p, .closed⟩ ∈ log) :
    Delivered seen (b.setSlot slot (b.next slot) (update (b.held slot) (b.next slot) none)) log := by
  have hnext : (b.setSlot slot (b.next slot) (update (b.held slot) (b.next slot) none)).next = b.next := by simp
  obtain ⟨hseq, -, -⟩ := h.held slot _ p hp
  refine ⟨?_, h.source, ?_, ?_⟩
  · intro s
    rw [h.order, hnext]
  · intro s seq q hq
    rw [hnext]
    by_cases hs : s = slot
    · subst hs
      simp only [Buffer.setSlot_held, update_self, update_apply] at hq
      split at hq
      · cases hq
      · exact h.held s seq q hq
    · simp only [Buffer.setSlot_held, update_of_ne hs] at hq
      exact h.held s seq q hq
  · intro s q hq hle
    rw [hnext] at hle
    unfold Lost
    rw [hnext]
    obtain hheld | hlost := h.kept s q hq hle
    · by_cases hat : s = slot ∧ (q.seq : Nat) = b.next slot
      · obtain ⟨rfl, heq⟩ := hat
        exact Or.inr ⟨heq, p, by rw [hseq, heq], hlog⟩
      · refine .inl ?_
        by_cases hs : s = slot
        · subst hs
          have hne : (q.seq : Nat) ≠ b.next s := fun he => hat ⟨rfl, he⟩
          simpa [hne] using hheld
        · simpa [hs] using hheld
    · exact .inr hlost

/-- An accepted turn extends its slot's run by one. -/
theorem accept (hp : b.held slot (b.next slot) = some p) :
    Delivered seen (b.setSlot slot (b.next slot + 1) (update (b.held slot) (b.next slot) none))
      (log ++ [⟨slot, p, .ok⟩]) := by
  obtain ⟨hseq, -, hsrc⟩ := h.held slot _ p hp
  have hmine : handed [⟨slot, p, .ok⟩] slot = [p] := by simp [handed]
  have hother : ∀ {s}, s ≠ slot → handed [⟨slot, p, .ok⟩] s = [] := fun hs => by simp [handed, Ne.symm hs]
  constructor
  · intro s
    rw [handed_append, map_append, h.order]
    by_cases hs : s = slot
    · subst hs
      simp [hmine, hseq, range_succ]
    · simp [hother hs, hs]
  · intro s q hq
    rw [handed_append] at hq
    obtain hq | hq := mem_append.mp hq
    · exact h.source s q hq
    · by_cases hs : s = slot
      · subst hs
        rw [hmine] at hq
        exact mem_singleton.mp hq ▸ hsrc
      · rw [hother hs] at hq
        cases hq
  · intro s seq q hq
    by_cases hs : s = slot
    · subst hs
      simp only [Buffer.setSlot_held, update_self, update_apply] at hq
      split at hq
      · cases hq
      · next hne =>
          obtain ⟨h1, h2, h3⟩ := h.held s seq q hq
          refine ⟨h1, ?_, h3⟩
          simp only [Buffer.setSlot_next, update_self]
          omega
    · simp only [Buffer.setSlot_held, Buffer.setSlot_next, update_of_ne hs] at hq ⊢
      exact h.held s seq q hq
  · intro s q hq hle
    by_cases hs : s = slot
    · subst hs
      simp only [Buffer.setSlot_next, update_self] at hle
      have hne : (q.seq : Nat) ≠ b.next s := by omega
      obtain hheld | ⟨heq, -⟩ := h.kept s q hq (by omega)
      · exact Or.inl (by simpa [hne] using hheld)
      · exact absurd heq hne
    · simp only [Buffer.setSlot_next, update_of_ne hs] at hle
      obtain hheld | ⟨heq, p', hp', hmem⟩ := h.kept s q hq hle
      · exact Or.inl (by simpa [hs] using hheld)
      · exact Or.inr ⟨by simpa [hs] using heq, p', hp', mem_append_left _ hmem⟩

theorem handOver (hone : HandOver b as b') : Delivered seen b' (log ++ as) := by
  cases hone with
  | accept hp => exact h.accept hp
  | stall _ => exact h.bounce (by simp)
  | drop hp => exact (h.bounce (by simp)).drop hp (mem_append_right _ (mem_singleton_self _))

theorem steps (hs : Steps HandOver b as b') : Delivered seen b' (log ++ as) :=
  hs.keeps (fun _ _ _ _ hone h => h.handOver hone) log h

end Delivered

theorem observe {r : SlotReorder} (h : Delivered seen r.view log) (slot : SlotId) (p : Payload) :
    Delivered (seen ++ [(slot, p)]) (r.observe slot p).view log := by
  have hnext : (r.observe slot p).view.next = r.view.next := by
    rw [view_observe]
    split
    · exact update_eq_self slot r.view.next
    · rfl
  -- the turn observed is the only one that can be new at its place
  have hheld : ∀ s seq, (r.observe slot p).view.held s seq =
      if r.nextNeeded slot ≤ p.seq ∧ s = slot ∧ seq = p.seq then some p else r.view.held s seq := by
    intro s seq
    rw [view_observe]
    by_cases hle : r.nextNeeded slot ≤ p.seq
    · rw [if_pos hle]
      by_cases hs : s = slot
      · subst hs
        simp [hle, update_apply, SlotReorder.view]
      · simp [hs]
    · simp [hle]
  constructor
  · intro s
    rw [h.order, hnext]
  · intro s q hq
    exact mem_append_left _ (h.source s q hq)
  · intro s seq q hq
    rw [hnext]
    rw [hheld] at hq
    split at hq
    · next hc =>
        obtain ⟨hle, rfl, rfl⟩ := hc
        cases hq
        exact ⟨rfl, hle, by simp⟩
    · obtain ⟨h1, h2, h3⟩ := h.held s seq q hq
      exact ⟨h1, h2, mem_append_left _ h3⟩
  · intro s q hq hle
    rw [hnext] at hle
    unfold Lost
    rw [hnext, hheld]
    by_cases hc : r.nextNeeded slot ≤ p.seq ∧ s = slot ∧ (q.seq : Nat) = p.seq
    · simp [hc]
    · rw [if_neg hc]
      obtain hq | hq := mem_append.mp hq
      · exact h.kept s q hq hle
      · obtain ⟨rfl, rfl⟩ : s = slot ∧ q = p := by simpa using hq
        exact absurd ⟨hle, rfl, rfl⟩ hc

end Delivered

/-! ## Whole runs -/

/-- The buffer after the calls `ops`, with what each of them tried. -/
def reorderRun (ops : List ReorderOp) : SlotReorder × List (ReorderOp × List Attempt) := run ReorderOp.step .empty ops

/-- The turns the calls of a log observed. -/
def observed (log : List (ReorderOp × List Attempt)) : List (SlotId × Payload) :=
  log.filterMap fun e => match e.1 with
    | .observe slot payload => some (slot, payload)
    | .releaseInto _ _ => none

/-- Every attempt on the game's channel, in order. -/
def attempts (log : List (ReorderOp × List Attempt)) : List Attempt := log.flatMap (·.2)

theorem reorderRun_delivered (ops : List ReorderOp) :
    Delivered (observed (reorderRun ops).2) (reorderRun ops).1.view (attempts (reorderRun ops).2) ∧
      (reorderRun ops).1.Registered := by
  refine run_invariant (I := fun (r : SlotReorder) log =>
    Delivered (observed log) r.view (attempts log) ∧ r.Registered) ops ?_ ?_
  · exact ⟨.empty, by simp [SlotReorder.Registered, SlotReorder.empty]⟩
  · intro r log op _ h
    obtain ⟨h, hr⟩ := h
    cases op with
    | observe slot p =>
      refine ⟨?_, hr.observe slot p⟩
      simpa [ReorderOp.step, observed, attempts] using h.observe slot p
    | releaseInto order answers =>
      obtain ⟨as, has, hsteps, hregistered⟩ := releaseSlots_steps answers order r []
      refine ⟨?_, hregistered hr⟩
      have hkept := h.steps hsteps
      rw [nil_append] at has
      rw [← has] at hkept
      simpa [ReorderOp.step, observed, attempts, releaseInto] using hkept

/-- With only accepted turns in between, a slot's cursor runs over turns it held, and what is held past
    it was held before. -/
structure Advanced (b b' : Buffer) (slot : SlotId) : Prop where
  le : b.next slot ≤ b'.next slot
  run : ∀ seq, b.next slot ≤ seq → seq < b'.next slot → (b.held slot seq).isSome
  ahead : ∀ seq, b'.next slot ≤ seq → b'.held slot seq = b.held slot seq

theorem Advanced.steps {b b' : Buffer} {as : List Attempt} (hs : Steps HandOver b as b') (hok : ∀ a ∈ as, a.result = .ok)
    (slot : SlotId) : Advanced b b' slot := by
  refine hs.keeps (I := fun b' (log : List Attempt) => (∀ a ∈ log, a.result = .ok) → Advanced b b' slot) ?_ [] ?_ hok
  · intro b₁ log e b₂ hone h hall
    have h := h fun a ha => hall a (mem_append_left _ ha)
    cases hone with
    | @accept s p hp =>
      by_cases heq : slot = s
      · subst heq
        have hhere : b.held slot (b₁.next slot) = some p := (h.ahead _ le_rfl).symm.trans hp
        constructor
        · simpa using Nat.le_succ_of_le h.le
        · intro seq hle hlt
          simp only [Buffer.setSlot_next, update_self] at hlt
          obtain hlt | rfl := Nat.lt_succ_iff_lt_or_eq.mp hlt
          · exact h.run seq hle hlt
          · rw [hhere]
            rfl
        · intro seq hle
          simp only [Buffer.setSlot_next, update_self] at hle
          have hne : seq ≠ b₁.next slot := by omega
          simpa [hne] using h.ahead seq (by omega)
      · exact ⟨by simpa [heq] using h.le, by simpa [heq] using h.run, by simpa [heq] using h.ahead⟩
    | stall _ => exact h
    | drop _ => cases hall _ (mem_append_right _ (mem_singleton_self _))
  · intro _
    exact ⟨le_rfl, fun seq hle hlt => absurd hle (not_le.mpr hlt), fun _ _ => rfl⟩

/-- A free channel accepts exactly the run held from the cursor on. -/
theorem Delivered.release_free {seen : List (SlotId × Payload)} {r : SlotReorder} {log : List Attempt}
    (h : Delivered seen r.view log) (hr : r.Registered) {order : List SlotId} (horder : ∀ e ∈ r.cursors, e.1 ∈ order)
    (slot : SlotId) :
    let res := r.releaseInto order fun _ => .ok
    res.2.2 = .delivered ∧ ∃ n, (∀ i < n, (r.held slot (r.nextNeeded slot + i)).isSome) ∧
      r.held slot (r.nextNeeded slot + n) = none ∧
        (handed res.2.1 slot).map (fun p => (p.seq : Nat)) = range' (r.nextNeeded slot) n ∧
        res.1.nextNeeded slot = r.nextNeeded slot + n := by
  unfold releaseInto
  obtain ⟨hdone, hall, hidle⟩ := releaseSlots_free order [] hr (by simp)
  obtain ⟨as, has, hsteps, -⟩ := releaseSlots_steps (fun _ => .ok) order r []
  rw [nil_append] at has
  generalize releaseSlots (fun _ => .ok) order r [] = res at hdone hall hidle has hsteps ⊢
  subst has
  have hadv := Advanced.steps hsteps hall slot
  have hend : res.1.view.Idle slot := by
    by_cases hin : slot ∈ order
    · exact hidle slot hin
    · refine (hr.idle ?_).steps hsteps
      rintro e he rfl
      exact hin (horder e he)
  obtain ⟨n, hn⟩ := Nat.exists_eq_add_of_le hadv.le
  refine ⟨hdone, n, ?_, ?_, ?_, hn⟩
  · intro i hi
    refine hadv.run _ (Nat.le_add_right _ _) ?_
    rw [hn]
    exact Nat.add_lt_add_left hi _
  · have hsame := hadv.ahead _ le_rfl
    rw [hend, hn] at hsame
    exact hsame.symm
  · -- the accepted turns are `0, 1, …` before the release and after it
    have hafter := (h.steps hsteps).order slot
    rw [handed_append, map_append, h.order, hn, range_add] at hafter
    rw [range'_eq_map_range]
    exact append_cancel_left hafter

/-- **Each slot's turns reach the game in order, once.** After any calls, with any answers of the game's
    channel: the turns accepted for a slot are its observed turns `0, 1, 2, …`, as many as its cursor
    says; an observed turn at or past the cursor is still held, unless it is the one at the cursor and
    the channel answered closed to it; and one more release with a free channel accepts exactly the
    contiguous run that is held from the cursor on. -/
theorem reorder_in_order_once (ops : List ReorderOp) (slot : SlotId) :
    let r := (reorderRun ops).1
    let seen := observed (reorderRun ops).2
    let log := attempts (reorderRun ops).2
    (handed log slot).map (fun p => (p.seq : Nat)) = range (r.nextNeeded slot) ∧
      (handed log slot).length = r.nextNeeded slot ∧
      (∀ p ∈ handed log slot, (slot, p) ∈ seen) ∧
      (∀ p, (slot, p) ∈ seen → r.nextNeeded slot ≤ p.seq → (r.held slot p.seq).isSome ∨
          (p.seq : Nat) = r.nextNeeded slot ∧ ∃ q : Payload, q.seq = p.seq ∧ ⟨slot, q, .closed⟩ ∈ log) ∧
      ∀ order : List SlotId, (∀ e ∈ r.cursors, e.1 ∈ order) →
        let res := r.releaseInto order fun _ => .ok
        res.2.2 = .delivered ∧ ∃ n, (∀ i < n, (r.held slot (r.nextNeeded slot + i)).isSome) ∧
          r.held slot (r.nextNeeded slot + n) = none ∧
            (handed res.2.1 slot).map (fun p => (p.seq : Nat)) = range' (r.nextNeeded slot) n ∧
            res.1.nextNeeded slot = r.nextNeeded slot + n := by
  intro r seen log
  obtain ⟨h, hr⟩ := reorderRun_delivered ops
  refine ⟨h.order slot, ?_, h.source slot, ?_, ?_⟩
  · have hlen := congrArg length (h.order slot)
    rwa [length_map, length_range] at hlen
  · intro p hp hle
    obtain hheld | ⟨heq, q, hq, hmem⟩ := h.kept slot p hp hle
    · exact .inl hheld
    · exact .inr ⟨heq, q, Fin.ext hq, hmem⟩
  · intro order horder
    exact h.release_free hr horder slot

/-- A turn observed, then offered to a closed channel, is neither held nor accepted, and is not released
    later. -/
theorem reorder_closed_loses_turn :
    let turn : Payload := { seq := 0, slot := 1 }
    let ops := [ReorderOp.observe 1 turn, .releaseInto [1] fun _ => .closed]
    let r := (reorderRun ops).1
    (1, turn) ∈ observed (reorderRun ops).2 ∧ r.nextNeeded 1 = 0 ∧ r.held 1 0 = none ∧
      handed (attempts (reorderRun ops).2) 1 = [] ∧ (r.releaseInto [1] fun _ => .ok).2.1 = [] := by
  decide

end RallyPoint.Client
