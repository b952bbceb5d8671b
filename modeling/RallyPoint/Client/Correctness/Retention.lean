import Mathlib.Order.Lattice.Nat
import RallyPoint.Client.Retention
import RallyPoint.Transport.Correctness.AckManager
import RallyPoint.Transport.Correctness.Dedup

/-!
# `Client.Correctness.Retention` — a resume re-sends what its anchor promises

A resume declares an anchor for the client's own slot, and the relay's receive window then waits for
every seq from there on. The seqs a resume can re-send are those of the unacked window and those staged
for the control stream (`Resends`).
-/

namespace RallyPoint.Client

open Lib Transport List AckManager

/-! ## Staging -/

/-- What a staged turn is compared by. -/
def identity (turn : Payload) : U32 × U64 := (turn.slot, turn.seq)

theorem key?_eq_of_identity {p q : Payload} (h : identity p = identity q) : p.key? = q.key? := by
  obtain ⟨hslot, hseq⟩ := Prod.mk.inj h
  unfold Payload.key?
  rw [hslot, hseq]

variable {p : Payload}

theorem seq_of_key {key : PayloadKey} (h : p.key? = some key) : (p.seq : Nat) = key.seq := by
  obtain ⟨_, -, rfl⟩ := Option.map_eq_some_iff.mp h
  rfl

section Staging

variable {pending : List Payload} {turn : Payload}

theorem stage_eq : stageControlRedivert pending turn =
    if identity turn ∈ pending.map identity then pending else pending ++ [turn] := by
  unfold stageControlRedivert
  congr 1
  simp [identity, Prod.ext_iff]

/-- **Staging never stages an identity twice.** -/
theorem stage_nodup (h : (pending.map identity).Nodup) : ((stageControlRedivert pending turn).map identity).Nodup := by
  rw [stage_eq]
  by_cases hin : identity turn ∈ pending.map identity
  · rw [if_pos hin]
    exact h
  · rw [if_neg hin, map_append]
    refine nodup_append.mpr ⟨h, nodup_singleton _, ?_⟩
    rintro i hi j hj rfl
    exact hin (mem_singleton.mp hj ▸ hi)

/-- What is staged afterwards: what was, and the turn. -/
theorem exists_stage {key : PayloadKey} : (∃ p ∈ stageControlRedivert pending turn, p.key? = some key) ↔
    (∃ p ∈ pending, p.key? = some key) ∨ turn.key? = some key := by
  rw [stage_eq]
  by_cases hin : identity turn ∈ pending.map identity
  · rw [if_pos hin]
    refine ⟨.inl, ?_⟩
    rintro (h | h)
    · exact h
    · -- the one staged already has the turn's identity, so its key
      obtain ⟨p, hp, heq⟩ := mem_map.mp hin
      exact ⟨p, hp, (key?_eq_of_identity heq).trans h⟩
  · rw [if_neg hin]
    simp [or_and_right, exists_or]

theorem mem_stage (h : p ∈ stageControlRedivert pending turn) : p ∈ pending ∨ p = turn := by
  rw [stage_eq] at h
  split at h
  · exact .inl h
  · simpa using h

/-- What a drain leaves staged is the tail of what was. -/
theorem redivertPendingControl_suffix (sends : Payload → Bool) (pending : List Payload) :
    redivertPendingControl sends pending <:+ pending := by
  induction pending with
  | nil => exact suffix_refl _
  | cons turn rest ih =>
    unfold redivertPendingControl
    split
    · exact ih.trans (suffix_cons turn rest)
    · exact suffix_refl _

end Staging

/-! ## The ring -/

/-- The ring holds the turns `[front, next)` of the slot, oldest first. -/
def Retains (own : SlotId) (front next : Nat) (ring : RetentionRing) : Prop :=
  ring.turns.map Payload.key? = (List.range' front (next - front)).map fun n => some ⟨own, n⟩

section Ring

variable {own : SlotId} {front next : Nat} {ring : RetentionRing}

section Retains

variable (h : Retains own front next ring)
include h

theorem Retains.mem_iff {n : Nat} :
    (∃ turn ∈ ring.turns, turn.key? = some ⟨own, n⟩) ↔ front ≤ n ∧ n < next := by
  rw [← mem_map (f := Payload.key?), h, mem_map]
  constructor
  · rintro ⟨m, hm, heq⟩
    cases heq
    have := mem_range'_1.mp hm
    omega
  · rintro ⟨h₁, h₂⟩
    exact ⟨n, mem_range'_1.mpr (by omega), rfl⟩

/-- Every retained turn is one of the slot's, below the next seq. -/
theorem Retains.key_of_mem {turn : Payload} (ht : turn ∈ ring.turns) :
    ∃ n, front ≤ n ∧ n < next ∧ turn.key? = some ⟨own, n⟩ := by
  have hmem : turn.key? ∈ ring.turns.map Payload.key? := mem_map_of_mem ht
  rw [h] at hmem
  obtain ⟨n, hn, heq⟩ := mem_map.mp hmem
  have := mem_range'_1.mp hn
  exact ⟨n, by omega, by omega, heq.symm⟩

theorem Retains.frontSeq (hlt : front < next) : ring.frontSeq = some front := by
  have hhead : (ring.turns.map Payload.key?).head? = some (some ⟨own, front⟩) := by
    have hpos : 0 < next - front := Nat.sub_pos_of_lt hlt
    rw [h, head?_map, head?_range', if_neg (Nat.ne_of_gt hpos)]
    rfl
  rw [head?_map] at hhead
  obtain ⟨turn, hturn, hkey⟩ := Option.map_eq_some_iff.mp hhead
  unfold RetentionRing.frontSeq
  rw [hturn, Option.map_some, seq_of_key hkey]

theorem Retains.frontSeq_none (hle : next ≤ front) : ring.frontSeq = none := by
  have hempty : ring.turns.map Payload.key? = [] := by
    rw [h, Nat.sub_eq_zero_of_le hle]
    rfl
  unfold RetentionRing.frontSeq
  rw [map_eq_nil_iff.mp hempty]
  rfl

end Retains

/-- Evicting drops a front part, and never the last turn. -/
theorem evict_turns (turns : List Payload) (bytes : Nat) (h : bytes = retainedBytes turns) :
    ∃ k, (RetentionRing.evict turns bytes h).turns = turns.drop k ∧ (turns ≠ [] → k < turns.length) := by
  induction turns generalizing bytes with
  | nil => exact ⟨0, rfl, fun hne => absurd rfl hne⟩
  | cons dropped rest ih =>
    unfold RetentionRing.evict
    split
    · rename_i hover
      obtain ⟨k, hk, hlt⟩ := ih _ (retainedBytes_drop h)
      have hlen : 0 < rest.length := by
        simp only [retentionTurnCap, retentionByteCap] at hover
        omega
      have := hlt (ne_nil_of_length_pos hlen)
      exact ⟨k + 1, hk, fun _ => Nat.succ_lt_succ this⟩
    · exact ⟨0, rfl, fun _ => Nat.succ_pos _⟩

/-- **A push keeps the run**: the ring ends at the new turn, which is in it. -/
theorem Retains.push (h : Retains own front next ring) (hle : front ≤ next) {turn : Payload}
    (hturn : turn.key? = some ⟨own, next⟩) : ∃ front' ≤ next, Retains own front' (next + 1) (ring.push turn) := by
  have hlen : ring.turns.length = next - front := by
    have := congrArg length h
    simpa using this
  obtain ⟨k, hk, hlt⟩ := evict_turns (ring.turns ++ [turn]) _ (retainedBytes_concat ring.counted turn)
  have hk' : k < next - front + 1 := by
    have := hlt (by simp)
    rwa [length_append, length_singleton, hlen] at this
  refine ⟨front + k, by omega, ?_⟩
  unfold Retains RetentionRing.push
  have hall : (ring.turns ++ [turn]).map Payload.key? = (range' front (next + 1 - front)).map fun n => some ⟨own, n⟩ := by
    have hcount : next + 1 - front = next - front + 1 := by omega
    have hlast : front + (next - front) = next := by omega
    rw [map_append, h, hcount, range'_1_concat, map_append, hlast]
    simp [hturn]
  rw [hk, map_drop, hall, ← map_drop, drop_range', Nat.mul_one, Nat.sub_sub]

end Ring

/-! ## One resume -/

namespace Driver

variable {sizes : WireSizes} {connection : Connection} {own : SlotId} {d d' : Driver} {turn : Payload} {key : PayloadKey}

/-- The seq the next turn gets. -/
def next (d : Driver) : Nat := d.state.nextOutboundSeq

/-- The client will send this turn again: redundancy re-carries it, or the control stream does. -/
def Resends (d : Driver) (key : PayloadKey) : Prop :=
  key.seq ∈ d.link.acks.unacked key.slot ∨ ∃ turn ∈ d.state.pendingControlRedivert, turn.key? = some key

theorem rebind_resends : d.rebind.Resends key ↔ d.Resends key := by
  unfold Resends
  rw [← resetConnection_unacked d.link.acks key.slot]
  exact Iff.rfl

/-- Either path of the re-injection has the turn re-sent. -/
theorem reinjectTurn_resends : (d.reinjectTurn sizes connection turn).Resends key ↔ d.Resends key ∨
    turn.key? = some key := by
  unfold reinjectTurn Resends
  split
  · show _ ∈ (d.link.acks.reinjectUnacked sizes turn).unacked key.slot ∨ _ ↔ _
    rw [mem_unacked_reinject, or_right_comm]
  · show _ ∨ (∃ p ∈ stageControlRedivert d.state.pendingControlRedivert turn, p.key? = some key) ↔ _
    rw [exists_stage, or_assoc]

/-- The redivert has a turn re-sent when the link answers that it does not fit. -/
theorem redivertTurn_resends : (d.redivertTurn sizes connection turn).Resends key ↔
    d.Resends key ∨ Link.payloadFits sizes connection turn = .ok false ∧ turn.key? = some key := by
  unfold redivertTurn
  split
  · rename_i hfits
    unfold Resends
    show _ ∨ (∃ p ∈ stageControlRedivert d.state.pendingControlRedivert turn, p.key? = some key) ↔ _
    rw [exists_stage, or_assoc, and_iff_right hfits]
  · rename_i hfits
    exact ⟨.inl, fun h => h.resolve_right fun hout => hfits hout.1⟩

/-- A loop whose rounds each add what they say adds all of it. -/
theorem foldl_resends {round : Driver → Payload → Driver} {Adds : Payload → Prop}
    (hround : ∀ d turn, (round d turn).Resends key ↔ d.Resends key ∨ Adds turn) (turns : List Payload) (d : Driver) :
    (turns.foldl round d).Resends key ↔ d.Resends key ∨ ∃ turn ∈ turns, Adds turn := by
  induction turns generalizing d with
  | nil => simp
  | cons turn rest ih =>
    rw [foldl_cons, ih, hround, exists_mem_cons_iff, or_assoc]

/-- **What a re-home re-sends**: what was on its way before, and the whole ring. -/
theorem rehome_resends : (d.rehome sizes connection).Resends key ↔
    d.Resends key ∨ ∃ turn ∈ d.state.retention.turns, turn.key? = some key := by
  have hround : ∀ (d : Driver) turn, (d.reinjectTurn sizes connection turn).Resends key ↔
      d.Resends key ∨ turn.key? = some key := fun _ _ => reinjectTurn_resends
  unfold rehome reinjectRetention
  rw [foldl_resends hround, rebind_resends]
  rfl

/-- **What a resume at the same relay re-sends**: what was on its way, and the ring's turns that do not
    fit. -/
theorem resumeSameRelay_resends : (d.resumeSameRelay sizes connection).Resends key ↔
    d.Resends key ∨ ∃ turn ∈ d.state.retention.turns,
      Link.payloadFits sizes connection turn = .ok false ∧ turn.key? = some key := by
  have hround : ∀ (d : Driver) turn, (d.redivertTurn sizes connection turn).Resends key ↔ d.Resends key ∨
      Link.payloadFits sizes connection turn = .ok false ∧ turn.key? = some key := fun _ _ => redivertTurn_resends
  unfold resumeSameRelay redivertOversize
  rw [foldl_resends hround, rebind_resends]
  rfl

/-! ## Runs -/

/-- What one round of either loop can do with a retained turn. -/
inductive Restaged (sizes : WireSizes) (turn : Payload) (d : Driver) : Driver → Prop where
  | reinjected : Restaged sizes turn d { d with link := d.link.reinjectUnacked sizes turn }
  | staged : Restaged sizes turn d
      { d with
          state.pendingControlRedivert := stageControlRedivert d.state.pendingControlRedivert turn }
  | kept : Restaged sizes turn d d

theorem reinjectTurn_restaged (d : Driver) (turn : Payload) :
    Restaged sizes turn d (d.reinjectTurn sizes connection turn) := by
  unfold reinjectTurn
  split
  · exact .reinjected
  · exact .staged

theorem redivertTurn_restaged (d : Driver) (turn : Payload) :
    Restaged sizes turn d (d.redivertTurn sizes connection turn) := by
  unfold redivertTurn
  split
  · exact .staged
  · exact .kept

/-- **What rebinding and every restaged turn keep, both resumes keep.** -/
theorem resume_keeps (sizes : WireSizes) (connection : Connection) {I : Driver → Prop} (d : Driver) (hrebind : I d.rebind)
    (hround : ∀ d₁ d₂, ∀ turn ∈ d.state.retention.turns, Restaged sizes turn d₁ d₂ → I d₁ → I d₂) :
    I (d.rehome sizes connection) ∧ I (d.resumeSameRelay sizes connection) := by
  constructor
  · exact foldlRecOn _ _ hrebind fun d₁ h₁ turn ht => hround d₁ _ turn ht (reinjectTurn_restaged d₁ turn) h₁
  · exact foldlRecOn _ _ hrebind fun d₁ h₁ turn ht => hround d₁ _ turn ht (redivertTurn_restaged d₁ turn) h₁

/-- No turn is staged twice. -/
def StagedOnce (d : Driver) : Prop := (d.state.pendingControlRedivert.map identity).Nodup

theorem StagedOnce.resume (h : d.StagedOnce) :
    (d.rehome sizes connection).StagedOnce ∧ (d.resumeSameRelay sizes connection).StagedOnce := by
  refine resume_keeps sizes connection d h ?_
  intro d₁ d₂ turn _ hround h₁
  cases hround with
  | reinjected => exact h₁
  | staged => exact stage_nodup h₁
  | kept => exact h₁

variable {n : Nat} {link : Link}

/-- A send adds at most the fresh payload's seq to the window. -/
theorem send_unacked {l : Link} {payload : Option Payload} (h : n ∈ (l.send sizes connection payload).1.acks.unacked own) :
    n ∈ l.acks.unacked own ∨ ∃ p, payload = some p ∧ p.key? = some ⟨own, n⟩ := by
  unfold Link.send at h
  split at h
  · exact .inl h
  · split at h
    · exact .inl h
    · split at h
      · exact .inl h
      · rename_i acks packet hbuilt
        have hbuild := buildOutgoing_spec hbuilt
        split at h
        · exact hbuild.unacked_subset (recordSent_unacked_subset acks packet h)
        · exact hbuild.unacked_subset h
        · exact hbuild.unacked_subset h

/-- Sending a game turn takes the next seq and adds the turn to the ring, and at most to the window. -/
structure Sent (own : SlotId) (d d' : Driver) (turn : Payload) : Prop where
  key : turn.key? = some ⟨own, d.next⟩
  next : d'.next = d.next + 1
  retention : d'.state.retention = d.state.retention.push turn
  pending : d'.state.pendingControlRedivert = d.state.pendingControlRedivert
  unacked : ∀ slot, ∀ n ∈ d'.link.acks.unacked slot, n ∈ d.link.acks.unacked slot ∨ slot = own ∧ n = d.next

theorem sendGameTurn_spec {payload : Payload}
    (h : d.sendGameTurn sizes connection own payload = some d') : ∃ turn, Sent own d d' turn := by
  obtain ⟨next, hnext, h⟩ := Option.bind_eq_some_iff.mp h
  have hsucc : (next : Nat) = d.next + 1 := by
    unfold nextOutbound at hnext
    split at hnext
    · cases hnext
      rfl
    · cases hnext
  have hkey : ∀ p : Payload, p.slot = own.toWire → p.seq = d.state.nextOutboundSeq → p.key? = some ⟨own, d.next⟩ := by
    intro p hslot hseq
    unfold Payload.key?
    rw [hslot, hseq, SlotId.ofWire_toWire]
    rfl
  dsimp only at h
  split at h
  · cases h
    refine ⟨_, hkey _ rfl rfl, hsucc, rfl, rfl, ?_⟩
    intro slot n hn
    obtain hn | ⟨p, hp, hpkey⟩ := send_unacked hn
    · exact .inl hn
    · cases hp
      rw [hkey _ rfl rfl] at hpkey
      cases hpkey
      exact .inr ⟨rfl, rfl⟩
  · cases h
    exact ⟨_, hkey _ rfl rfl, hsucc, rfl, rfl, fun _ _ hn => .inl hn⟩

/-- A step lemma: nothing the driver does stages a turn twice. -/
theorem StagedOnce.step (h : d.StagedOnce) (hstep : Step sizes own d d') : d'.StagedOnce := by
  cases hstep with
  | turn connection payload hsend =>
    obtain ⟨_, hsent⟩ := sendGameTurn_spec hsend
    unfold StagedOnce
    rw [hsent.pending]
    exact h
  | flush | packet | cursor => exact h
  | rehome connection => exact h.resume.1
  | sameRelay connection => exact h.resume.2
  | drain sends =>
    have hsuffix := (redivertPendingControl_suffix sends d.state.pendingControlRedivert).map identity
    exact h.sublist hsuffix.sublist

/-- **No run stages a turn twice**, whatever resumes it holds and in which order. -/
theorem StagedOnce.run (h : d.StagedOnce) (hrun : Relation.ReflTransGen (Step sizes own) d d') : d'.StagedOnce := by
  induction hrun with
  | refl => exact h
  | tail _ hstep ih => exact ih.step hstep

/-- What holds at every moment of a session: the ring is the run of the last turns, up to the next seq
    and empty only before the first turn; what is in the window or staged was sent by the slot. -/
structure Sound (own : SlotId) (d : Driver) : Prop where
  retained : ∃ front ≤ d.next, Retains own front d.next d.state.retention ∧ (front = d.next → d.next = 0)
  unacked : ∀ slot, ∀ n ∈ d.link.acks.unacked slot, slot = own ∧ n < d.next
  staged : ∀ turn ∈ d.state.pendingControlRedivert, ∃ n < d.next, turn.key? = some ⟨own, n⟩

theorem fresh_sound (h : ∀ slot, link.acks.unacked slot = ∅) : (fresh link).Sound own := by
  refine ⟨⟨0, Nat.zero_le _, rfl, fun _ => rfl⟩, ?_, fun turn ht => absurd ht not_mem_nil⟩
  intro slot n hn
  have hn' : n ∈ link.acks.unacked slot := hn
  rw [h] at hn'
  exact absurd hn' (Set.notMem_empty n)

/-- A link whose window only lost payloads. -/
theorem Sound.relink (h : d.Sound own) (hsub : ∀ slot, link.acks.unacked slot ⊆ d.link.acks.unacked slot) :
    Sound own { d with link := link } :=
  ⟨h.retained, fun slot n hn => h.unacked slot n (hsub slot hn), h.staged⟩

theorem processIncoming_unacked {l l' : Link} {packet : Packet} {result : Except LinkError Received}
    (h : l.processIncoming packet = some (l', result)) : l'.acks.unacked own ⊆ l.acks.unacked own := by
  unfold Link.processIncoming at h
  split at h
  · cases h
    exact subset_rfl
  · rename_i acks hacks
    have hsub : acks.unacked own ⊆ l.acks.unacked own := (handleIncoming_shrinks hacks).unacked_subset
    obtain ⟨⟨dedup, answer⟩, -, h⟩ := Option.bind_eq_some_iff.mp h
    cases answer with
    | error | ok =>
      cases h
      exact hsub

theorem retireThrough_unacked (l : Link) (slot : SlotId) (through : Nat) :
    (l.retireThrough slot through).1.acks.unacked own ⊆ l.acks.unacked own := by
  unfold Link.retireThrough
  split
  · exact (retirePayloadsThrough_shrinks l.acks slot through).unacked_subset
  · exact subset_rfl

theorem Sound.sent (h : d.Sound own) (hsent : Sent own d d' turn) : d'.Sound own := by
  obtain ⟨front, hle, hret, -⟩ := h.retained
  obtain ⟨front', hle', hret'⟩ := hret.push hle hsent.key
  refine ⟨⟨front', by rw [hsent.next]; omega, ?_, by rw [hsent.next]; omega⟩, ?_, ?_⟩
  · rw [hsent.next, hsent.retention]
    exact hret'
  · intro slot n hn
    rw [hsent.next]
    obtain hn | ⟨hslot, rfl⟩ := hsent.unacked slot n hn
    · exact (h.unacked slot n hn).imp_right Nat.lt_succ_of_lt
    · exact ⟨hslot, Nat.lt_succ_self _⟩
  · intro p hp
    rw [hsent.pending] at hp
    obtain ⟨n, hn, hkey⟩ := h.staged p hp
    exact ⟨n, by rw [hsent.next]; exact Nat.lt_succ_of_lt hn, hkey⟩

/-- A resume only re-sends turns of the ring. -/
theorem Sound.restaged {d₁ d₂ : Driver} (h : d₁.Sound own) (hn : n < d₁.next)
    (hturn : turn.key? = some ⟨own, n⟩) (hround : Restaged sizes turn d₁ d₂) : d₂.Sound own := by
  cases hround with
  | reinjected =>
    refine ⟨h.retained, ?_, h.staged⟩
    intro slot m hm
    obtain hm | hm := mem_unacked_reinject.mp hm
    · exact h.unacked slot m hm
    · rw [hturn] at hm
      cases hm
      exact ⟨rfl, hn⟩
  | staged =>
    refine ⟨h.retained, h.unacked, ?_⟩
    intro p hp
    obtain hp | rfl := mem_stage hp
    · exact h.staged p hp
    · exact ⟨n, hn, hturn⟩
  | kept => exact h

theorem Sound.resume (h : d.Sound own) : (d.rehome sizes connection).Sound own ∧
    (d.resumeSameRelay sizes connection).Sound own := by
  obtain ⟨front, -, hret, -⟩ := h.retained
  have hrebind : d.rebind.Sound own := h.relink fun slot => (resetConnection_unacked d.link.acks slot).subset
  have hkeep := resume_keeps sizes connection (I := fun d₁ => d₁.Sound own ∧ d₁.next = d.next) d ⟨hrebind, rfl⟩ ?_
  · exact ⟨hkeep.1.1, hkeep.2.1⟩
  · rintro d₁ d₂ turn ht hround ⟨h₁, hnext⟩
    obtain ⟨n, -, hn, hkey⟩ := hret.key_of_mem ht
    refine ⟨h₁.restaged (hnext ▸ hn) hkey hround, ?_⟩
    rw [← hnext]
    cases hround <;> rfl

/-- A step lemma: one case for each thing the driver does. -/
theorem Sound.step (h : d.Sound own) (hstep : Step sizes own d d') : d'.Sound own := by
  cases hstep with
  | turn connection payload hsend =>
    obtain ⟨_, hsent⟩ := sendGameTurn_spec hsend
    exact h.sent hsent
  | flush connection =>
    refine h.relink ?_
    intro slot n hn
    obtain hn | ⟨p, hp, -⟩ := send_unacked hn
    · exact hn
    · cases hp
  | packet packet hpacket => exact h.relink fun _ => processIncoming_unacked hpacket
  | cursor slot through => exact h.relink fun _ => retireThrough_unacked d.link slot through
  | rehome connection => exact h.resume.1
  | sameRelay connection => exact h.resume.2
  | drain sends =>
    refine ⟨h.retained, h.unacked, ?_⟩
    intro turn ht
    exact h.staged turn ((redivertPendingControl_suffix sends _).subset ht)

theorem Sound.run (h : d.Sound own) (hrun : Relation.ReflTransGen (Step sizes own) d d') : d'.Sound own := by
  induction hrun with
  | refl => exact h
  | tail _ hstep ih => exact ih.step hstep

/-! ## The resume at the same relay -/

/-- The retained seqs that no datagram is sure to carry. -/
def oversize (sizes : WireSizes) (ring : RetentionRing) : Set Nat :=
  {n | ∃ turn ∈ ring.turns, sizes.fitsGuaranteedDatagram turn = false ∧ (turn.seq : Nat) = n}

theorem oldestOversizeSeq_eq_some {ring : RetentionRing} {a : Nat} :
    ring.oldestOversizeSeq sizes = some a ↔ IsLeast (oversize sizes ring) a := by
  have hmem : ∀ n, n ∈ (ring.turns.filter fun turn => !sizes.fitsGuaranteedDatagram turn).map
      (fun turn => (turn.seq : Nat)) ↔ n ∈ oversize sizes ring := by
    intro n
    simp [oversize, mem_filter, and_assoc]
  unfold RetentionRing.oldestOversizeSeq
  rw [min?_eq_some_iff, hmem]
  refine and_congr_right fun _ => ?_
  exact ⟨fun h n hn => h n ((hmem n).mpr hn), fun h n hn => h ((hmem n).mp hn)⟩

/-- What a resume at the same relay re-sends: the unacked window, and retained turns too large for a
    datagram. -/
def toResend (sizes : WireSizes) (own : SlotId) (d : Driver) : Set Nat :=
  d.link.acks.unacked own ∪ oversize sizes d.state.retention

/-- The anchor the client declares for its own slot. -/
def ownAnchor (sizes : WireSizes) (own : SlotId) (d : Driver) : Nat :=
  sameRelayAnchor (d.link.oldestReplayableSeq own) (d.state.retention.oldestOversizeSeq sizes) d.next

/-- A choice of the least element of a set of seqs fails only on the empty set. -/
theorem eq_empty_of_no_least {A : Set Nat} {least : Option Nat} (h : ∀ a, least = some a ↔ IsLeast A a)
    (hnone : least = none) : A = ∅ := by
  by_contra hne
  have hleast : IsLeast A (sInf A) := ⟨Nat.sInf_mem (Set.nonempty_iff_ne_empty.mpr hne), fun _ hn => Nat.sInf_le hn⟩
  rw [← h, hnone] at hleast
  cases hleast

/-- **The declared anchor is the least seq the resume re-sends**, or the next seq when there is none. -/
theorem ownAnchor_spec (sizes : WireSizes) (own : SlotId) (d : Driver) :
    IsLeast (d.toResend sizes own) (d.ownAnchor sizes own) ∨ d.toResend sizes own = ∅ ∧ d.ownAnchor sizes own = d.next := by
  have hU : ∀ a, d.link.oldestReplayableSeq own = some a ↔ IsLeast (d.link.acks.unacked own) a :=
    fun _ => oldestReplayableSeq_eq_some
  have hO : ∀ a, d.state.retention.oldestOversizeSeq sizes = some a ↔ IsLeast (oversize sizes d.state.retention) a :=
    fun _ => oldestOversizeSeq_eq_some
  unfold ownAnchor toResend sameRelayAnchor
  cases hu : d.link.oldestReplayableSeq own with
  | none =>
    have hempty := eq_empty_of_no_least hU hu
    rw [hempty, Set.empty_union]
    cases ho : d.state.retention.oldestOversizeSeq sizes with
    | none => exact .inr ⟨eq_empty_of_no_least hO ho, rfl⟩
    | some oversized => exact .inl ((hO _).mp ho)
  | some datagram =>
    cases ho : d.state.retention.oldestOversizeSeq sizes with
    | none =>
      rw [eq_empty_of_no_least hO ho, Set.union_empty]
      exact .inl ((hU _).mp hu)
    | some oversized => exact .inl (((hU _).mp hu).union ((hO _).mp ho))

/-- The turns in the window and in the ring are turns of the slot that were sent. -/
structure Numbered (own : SlotId) (d : Driver) : Prop where
  unacked : ∀ n ∈ d.link.acks.unacked own, n < d.next
  retained : ∀ turn ∈ d.state.retention.turns, ∃ n < d.next, turn.key? = some ⟨own, n⟩

theorem Sound.numbered (h : d.Sound own) : d.Numbered own := by
  refine ⟨fun n hn => (h.unacked own n hn).2, ?_⟩
  intro turn hturn
  obtain ⟨front, -, hret, -⟩ := h.retained
  obtain ⟨n, -, hlt, hkey⟩ := hret.key_of_mem hturn
  exact ⟨n, hlt, hkey⟩

/-- **Every run from a fresh driver with an empty window is sound**: its ring is a contiguous run up to
    the next seq, and its window and what it has staged are turns of its own slot below that. -/
theorem reached_sound (h : ∀ slot, link.acks.unacked slot = ∅)
    (hrun : Relation.ReflTransGen (Step sizes own) (fresh link) d) : d.Sound own ∧ d.Numbered own := by
  have hsound := (fresh_sound h).run hrun
  exact ⟨hsound, hsound.numbered⟩

/-- Only turns that were sent are re-sent. -/
theorem Numbered.toResend_lt (h : d.Numbered own) (hn : n ∈ d.toResend sizes own) : n < d.next := by
  obtain hn | ⟨turn, hturn, -, rfl⟩ := hn
  · exact h.unacked n hn
  · obtain ⟨n, hlt, hkey⟩ := h.retained turn hturn
    rw [seq_of_key hkey]
    exact hlt

/-- **The resume re-sends all of it**, where the fresh link judges sizes as the static test does. -/
theorem Numbered.resends_all (h : d.Numbered own) (hagree : ∀ turn ∈ d.state.retention.turns,
      Link.payloadFits sizes connection turn = .ok (sizes.fitsGuaranteedDatagram turn))
    (hn : n ∈ d.toResend sizes own) : (d.resumeSameRelay sizes connection).Resends ⟨own, n⟩ := by
  rw [resumeSameRelay_resends]
  obtain hn | ⟨turn, hturn, hsize, rfl⟩ := hn
  · exact .inl (.inl hn)
  · obtain ⟨n, -, hkey⟩ := h.retained turn hturn
    refine .inr ⟨turn, hturn, ?_, ?_⟩
    · rw [hagree turn hturn, hsize]
    · rw [hkey, seq_of_key hkey]

/-! ## The re-home -/

/-- **A re-home re-sends everything its anchor promises.** The ring holds `[front, next)` of the own
    slot; the window is any.  With a turn in the ring the anchor is the lowest seq from which the window
    was full up to the front. Every seq from there on is in the window afterwards or staged for the
    control stream, so that a fresh strict dedup anchored there waits, after whatever arrivals, for a seq
    that is re-sent. With none the anchor is the oldest unacked seq. However many resumes of either kind
    came before, no turn is staged twice. -/
theorem rehome_resends_from_anchor (sizes : WireSizes) (connection : Connection) (own : SlotId) (d : Driver)
    {front next : Nat} (hret : Retains own front next d.state.retention) :
    (front < next → ∃ anchor, rehomeOwnSlotAnchor d.link own d.state.retention.frontSeq = some anchor ∧
      IsLeast {a | a ≤ front ∧ ∀ n, a ≤ n → n < front → n ∈ d.link.acks.unacked own} anchor ∧
      (∀ n, anchor ≤ n → n < next → (d.rehome sizes connection).Resends ⟨own, n⟩) ∧
      ∀ offers : List (SlotId × U64), ∃ w, (Dedup.new.anchor own anchor).acceptAll offers = some w ∧
        anchor ≤ (w.entry own).base ∧
        ((w.entry own).base < next → (d.rehome sizes connection).Resends ⟨own, (w.entry own).base⟩)) ∧
    (next ≤ front → ∀ a, rehomeOwnSlotAnchor d.link own d.state.retention.frontSeq = some a ↔
      IsLeast (d.link.acks.unacked own) a) ∧
    (∀ d₀ : Driver, d₀.state.pendingControlRedivert = [] → Relation.ReflTransGen (Step sizes own) d₀ d →
      ((d.rehome sizes connection).state.pendingControlRedivert.map identity).Nodup) := by
  refine ⟨?_, ?_, ?_⟩
  · intro hlt
    have hleast := contiguousReplayableAnchor_isLeast d.link.acks own front
    set anchor := d.link.acks.contiguousReplayableAnchor own front with hanchor
    -- below the front the window is full, from the front on the ring is
    have hresends : ∀ n, anchor ≤ n → n < next → (d.rehome sizes connection).Resends ⟨own, n⟩ := by
      intro n hlow hn
      rw [rehome_resends]
      by_cases hfront : n < front
      · exact .inl (.inl (hleast.1.2 n hlow hfront))
      · exact .inr (hret.mem_iff.mpr ⟨not_lt.mp hfront, hn⟩)
    refine ⟨anchor, by rw [hret.frontSeq hlt]; rfl, hleast, hresends, ?_⟩
    intro offers
    have hmax : anchor ≤ u64Max := by
      obtain ⟨turn, -, hkey⟩ := hret.mem_iff.mpr ⟨le_rfl, hlt⟩
      have hseq : (turn.seq : Nat) = front := seq_of_key hkey
      have := U64.le_max turn.seq
      have := hleast.1.1
      omega
    obtain ⟨w, D, hrun, href, hsub⟩ := (Dedup.new_anchor_refines own hmax).acceptAll offers
    have hbase : anchor ≤ (w.entry own).base := by
      refine href.le_base ?_
      intro n hn
      refine hsub own ?_
      rw [Delivered.add_self]
      exact .inr hn
    exact ⟨w, hrun, hbase, fun hnext => hresends _ hbase hnext⟩
  · intro hle a
    rw [hret.frontSeq_none hle]
    exact oldestReplayableSeq_eq_some
  · intro d₀ hempty hrun
    have hstart : d₀.StagedOnce := by
      unfold StagedOnce
      rw [hempty]
      exact nodup_nil
    exact (hstart.run hrun).resume.1

/-! ### A session in the middle of a game

Slot 3 has sent seqs `0..6`. The ring is down to the last two, of which seq 6 is too large for a datagram; seqs 1, 3 and 4
are unacked. -/

/-- Sizes under which a turn of two command bytes is too large. -/
def sampleSizes : WireSizes := ⟨fun _ => 40, fun p => 600 * p.commands.length, fun _ => 1⟩

def sampleConnection : Connection := ⟨some 1200, fun _ => .accepted⟩

def sampleTurn (seq : U64) (commands : List UInt8) : Payload := { seq, slot := (3 : SlotId).toWire, commands }

def sampleDriver : Driver where
  link := { Link.new with
    acks := [1, 3, 4].foldl (fun m seq => m.reinjectUnacked sampleSizes (sampleTurn seq [0])) .new }
  state := ⟨7, (RetentionRing.empty.push (sampleTurn 5 [0])).push (sampleTurn 6 [0, 0]), []⟩

/-- The re-home anchors at 3: seqs 3 and 4 are unacked up to the front, seq 2 is not. -/
theorem rehome_resends_from_anchor_example :
    Retains 3 5 7 sampleDriver.state.retention ∧
      rehomeOwnSlotAnchor sampleDriver.link 3 sampleDriver.state.retention.frontSeq = some 3 ∧
      ∀ n, 3 ≤ n → n < 7 → (sampleDriver.rehome sampleSizes sampleConnection).Resends ⟨3, n⟩ := by
  have hret : Retains 3 5 7 sampleDriver.state.retention := rfl
  obtain ⟨hmid, -, -⟩ := rehome_resends_from_anchor sampleSizes sampleConnection 3 sampleDriver hret
  obtain ⟨anchor, hanchor, -, hresends, -⟩ := hmid (by decide)
  have heq : rehomeOwnSlotAnchor sampleDriver.link 3 sampleDriver.state.retention.frontSeq = some 3 := by decide
  rw [heq] at hanchor
  cases hanchor
  exact ⟨hret, heq, hresends⟩

/-- A session that is re-homed after its first turn. -/
theorem reached_sound_rehomed :
    ∃ d, (fresh .new).sendGameTurn sampleSizes sampleConnection 3 (sampleTurn 0 [0]) = some d ∧
      (d.rehome sampleSizes sampleConnection).Sound 3 :=
  have hnew : ∀ slot, Link.new.acks.unacked slot = ∅ := fun _ => Set.eq_empty_of_forall_notMem fun _ h => by cases h
  ⟨_, rfl, (reached_sound hnew (.tail (.single (.turn sampleConnection (sampleTurn 0 [0]) rfl)) (.rehome _ _))).1⟩

end Driver

end RallyPoint.Client
