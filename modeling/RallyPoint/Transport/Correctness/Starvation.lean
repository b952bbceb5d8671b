import RallyPoint.Transport.Correctness.AckManager

/-!
# `Transport.Correctness.Starvation` — no unacked payload starves

A payload `P` that waits since packet `w` is outranked only by payloads that wait since `w` or longer.
Whatever enters the window later, or is carried later, waits since a later packet, so the set of the
payloads that outrank `P` (`rank`) never grows. A packet that passes a due `P` over while it carries any
redundancy carries the head of the ranking, which leaves that set. So `P` is passed over at most as often
as there were other payloads.
-/

namespace RallyPoint.Transport

open Lib List OrdMap Finset

namespace AckManager

/-! ## Reachable states -/

/-- Any call on an `AckManager`. -/
inductive Op where
  | build (payload : Option Payload) (maxPacketLen : Nat)
  | record (packet : Packet)
  | incoming (packet : Packet)
  | retireThrough (slot : SlotId) (throughSeq : Nat)
  | reinject (payload : Payload)
  | resetConnection
  | setTurnsComplete (count : Option U64)

/-- The state after a call. A call that returns an error has changed nothing. -/
def Op.apply (sizes : WireSizes) (m : AckManager) : Op → AckManager
  | .build payload maxPacketLen =>
    match m.buildOutgoing sizes payload maxPacketLen with
    | .ok (m', _) => m'
    | .error _ => m
  | .record packet => m.recordSent packet
  | .incoming packet =>
    match m.handleIncoming packet with
    | .ok m' => m'
    | .error _ => m
  | .retireThrough slot throughSeq => (m.retirePayloadsThrough slot throughSeq).1
  | .reinject payload => m.reinjectUnacked sizes payload
  | .resetConnection => m.resetConnection
  | .setTurnsComplete count => m.setTurnsComplete count

/-- The state after any calls, in any order. -/
def reached (sizes : WireSizes) (policy : RecarryPolicy) (ops : List Op) : AckManager :=
  ops.foldl (Op.apply sizes) (withPolicy policy)

theorem Op.apply_keyed (sizes : WireSizes) {m : AckManager} (hm : m.Keyed) (op : Op) : (op.apply sizes m).Keyed := by
  cases op with
  | build payload maxPacketLen =>
    simp only [Op.apply]
    split
    · rename_i m' packet heq
      exact (buildOutgoing_spec heq).filed hm fun _ _ => freshOf_key
    · exact hm
  | record packet => exact recordSent_filed packet hm
  | incoming packet =>
    simp only [Op.apply]
    split
    · rename_i m' heq
      exact (handleIncoming_shrinks heq).filed hm
    · exact hm
  | retireThrough slot throughSeq => exact (retirePayloadsThrough_shrinks m slot throughSeq).filed hm
  | reinject payload => exact reinjectUnacked_filed sizes payload hm fun _ hk => hk
  | resetConnection => exact resetConnection_filed hm
  | setTurnsComplete count => exact hm

theorem reached_keyed (sizes : WireSizes) (policy : RecarryPolicy) (ops : List Op) : (reached sizes policy ops).Keyed :=
  foldlRecOn ops _ (withPolicy_filed policy) fun _ hm op _ => Op.apply_keyed sizes hm op

/-! ## Continuations -/

/-- One step of a continuation: a packet is built and recorded, an ack or a cursor arrives, or a payload
    is re-injected. -/
inductive SendStep where
  | send (payload : Option Payload) (maxPacketLen : Nat)
  | incoming (packet : Packet)
  | retireThrough (slot : SlotId) (throughSeq : Nat)
  | reinject (payload : Payload)

/-- The state after a step, and the packet it built. -/
def SendStep.run (sizes : WireSizes) (m : AckManager) : SendStep → AckManager × Option Packet
  | .send payload maxPacketLen =>
    match m.buildOutgoing sizes payload maxPacketLen with
    | .ok (m', packet) => (m'.recordSent packet, some packet)
    | .error _ => (m, none)
  | .incoming packet => (Op.apply sizes m (.incoming packet), none)
  | .retireThrough slot throughSeq => (Op.apply sizes m (.retireThrough slot throughSeq), none)
  | .reinject payload => (Op.apply sizes m (.reinject payload), none)

/-- One step of a continuation with the states around it. -/
structure Moment where
  before : AckManager
  step : SendStep
  after : AckManager
  packet : Option Packet

/-- A step taken in state `m`. -/
def SendStep.moment (sizes : WireSizes) (m : AckManager) (s : SendStep) : Moment :=
  ⟨m, s, (s.run sizes m).1, (s.run sizes m).2⟩

/-- The steps of a continuation, with the states around each. -/
def trail (sizes : WireSizes) : AckManager → List SendStep → List Moment
  | _, [] => []
  | m, s :: ss => s.moment sizes m :: trail sizes (s.run sizes m).1 ss

theorem trail_length (sizes : WireSizes) (m : AckManager) (steps : List SendStep) :
    (trail sizes m steps).length = steps.length := by
  induction steps generalizing m with
  | nil => rfl
  | cons s steps ih => rw [trail, length_cons, length_cons, ih]

namespace Moment

/-- The payload at `k` is unacked before and after the step, and no packet of the step carries it. -/
def Waits (k : PayloadKey) (mo : Moment) : Prop :=
  (mo.before.unackedPayloads.get? k).isSome ∧ (mo.after.unackedPayloads.get? k).isSome ∧
    ∀ packet, mo.packet = some packet → ¬ Carries packet k

/-- The step built a packet that carries more than the fresh payload. -/
def carriesRedundancy (mo : Moment) : Bool :=
  match mo.step, mo.packet with
  | .send payload _, some packet => decide ((freshOf payload).toList.length < packet.payloads.length)
  | _, _ => false

/-- The payload at `k` was due at the step's build, under the spacing in force for that packet. -/
def dueAtBuild (k : PayloadKey) (mo : Moment) : Bool :=
  match mo.step, mo.before.unackedPayloads.get? k with
  | .send payload _, some sent => sent.isDue (mo.before.spacingFor (freshOf payload)) mo.before.packetSeq
  | _, _ => false

end Moment

/-! ## The refill serves the longest-waiting payload -/

variable {m : AckManager} {spacing : Option CarrySpacing} {buildingSeq used maxPacketLen cap : Nat}

theorem pack_subset (maxPacketLen cap : Nat) : ∀ (packed : Bool) (used : Nat) (l : List SentPayload),
    ∀ x ∈ pack maxPacketLen cap packed used l, x ∈ l := by
  intro packed used l
  induction l generalizing packed used with
  | nil => intro x hx; cases packed <;> cases hx
  | cons sent rest ih =>
    intro x hx
    cases packed with
    | false =>
      unfold pack at hx
      split at hx
      · cases hx
      · obtain rfl | hx := mem_cons.mp hx
        · exact mem_cons_self
        · exact mem_cons_of_mem _ (ih _ _ x hx)
    | true =>
      unfold pack at hx
      split at hx
      · exact mem_cons_of_mem _ (ih _ _ x hx)
      · obtain rfl | hx := mem_cons.mp hx
        · exact mem_cons_self
        · exact mem_cons_of_mem _ (ih _ _ x hx)

/-- The three shapes of a refill. -/
theorem refill_cases (m : AckManager) (spacing : Option CarrySpacing) (buildingSeq used maxPacketLen cap : Nat) :
    m.refill spacing buildingSeq used maxPacketLen cap = m.unackedPayloads.values ∨
    m.refill spacing buildingSeq used maxPacketLen cap = m.unackedPayloads.values.filter (·.isDue spacing buildingSeq) ∨
    m.refill spacing buildingSeq used maxPacketLen cap = pack maxPacketLen cap false used
      (longestWaitingFirst buildingSeq (m.unackedPayloads.values.filter (·.isDue spacing buildingSeq))) := by
  simp only [refill]
  split
  · exact .inl rfl
  · split
    · exact .inr (.inl rfl)
    · exact .inr (.inr rfl)

variable {e : SentPayload} {x : SentPayload}

theorem mem_longestWaitingFirst {l : List SentPayload} : x ∈ longestWaitingFirst buildingSeq l ↔ x ∈ l := mem_insertionSort _

theorem longestWaitingFirst_pairwise (buildingSeq : Nat) (l : List SentPayload) :
    (longestWaitingFirst buildingSeq l).Pairwise fun a b => b.waitingAge buildingSeq ≤ a.waitingAge buildingSeq := by
  have htotal : Std.Total fun a b : SentPayload => b.waitingAge buildingSeq ≤ a.waitingAge buildingSeq :=
    ⟨fun a b => le_total _ _⟩
  have htrans : IsTrans SentPayload fun a b => b.waitingAge buildingSeq ≤ a.waitingAge buildingSeq :=
    ⟨fun _ _ _ hab hbc => le_trans hbc hab⟩
  exact pairwise_insertionSort _ l

theorem mem_window_of_mem_refill (h : x ∈ m.refill spacing buildingSeq used maxPacketLen cap) :
    x ∈ m.unackedPayloads.values := by
  rcases refill_cases m spacing buildingSeq used maxPacketLen cap with heq | heq | heq
  · rwa [heq] at h
  · rw [heq] at h
    exact mem_of_mem_filter h
  · rw [heq] at h
    exact mem_of_mem_filter (mem_longestWaitingFirst.mp (pack_subset _ _ _ _ _ x h))

/-- **A refill that leaves out a due payload starts with one that has waited at least as long.** -/
theorem refill_head (hin : e ∈ m.unackedPayloads.values) (hdue : e.isDue spacing buildingSeq = true)
    (hne : m.refill spacing buildingSeq used maxPacketLen cap ≠ [])
    (hout : e ∉ m.refill spacing buildingSeq used maxPacketLen cap) :
    ∃ x ∈ m.refill spacing buildingSeq used maxPacketLen cap, e.waitingAge buildingSeq ≤ x.waitingAge buildingSeq := by
  have hcand : e ∈ m.unackedPayloads.values.filter (·.isDue spacing buildingSeq) := mem_filter.mpr ⟨hin, hdue⟩
  rcases refill_cases m spacing buildingSeq used maxPacketLen cap with heq | heq | heq
  · exact absurd (heq ▸ hin) hout
  · exact absurd (heq ▸ hcand) hout
  · rw [heq] at hne ⊢
    have hsorted : e ∈ longestWaitingFirst buildingSeq _ := mem_longestWaitingFirst.mpr hcand
    have hpair := longestWaitingFirst_pairwise buildingSeq (m.unackedPayloads.values.filter (·.isDue spacing buildingSeq))
    generalize longestWaitingFirst buildingSeq _ = l at hsorted hpair hne
    cases l with
    | nil => cases hsorted
    | cons head rest =>
      -- the head either rides or stops the refill
      unfold pack at hne ⊢
      split at hne
      · exact absurd rfl hne
      · rename_i hfits
        rw [if_neg hfits]
        refine ⟨head, mem_cons_self, ?_⟩
        obtain rfl | hrest := mem_cons.mp hsorted
        · exact le_rfl
        · exact (pairwise_cons.mp hpair).1 e hrest

/-! ## The ranking -/

/-- The keys that outrank a payload at `k` waiting since packet `w`. -/
def rank (k : PayloadKey) (w : Nat) (m : AckManager) : Finset PayloadKey :=
  m.unackedPayloads.keys.filter fun q => q ≠ k ∧ (m.unackedPayloads.get? q).any (·.waitingSince ≤ w)

theorem mem_rank {k q : PayloadKey} {w : Nat} :
    q ∈ rank k w m ↔ q ≠ k ∧ ∃ e, m.unackedPayloads.get? q = some e ∧ e.waitingSince ≤ w := by
  unfold rank
  rw [Finset.mem_filter, OrdMap.mem_keys]
  constructor
  · rintro ⟨⟨e, he⟩, hne, hany⟩
    rw [he] at hany
    exact ⟨hne, e, he, by simpa using hany⟩
  · rintro ⟨hne, e, he, hw⟩
    exact ⟨⟨e, he⟩, hne, by rw [he]; simpa using hw⟩

theorem card_rank_le {k : PayloadKey} {w : Nat} (hk : m.unackedPayloads.get? k = some e) :
    (rank k w m).card ≤ m.unackedPayloads.size - 1 := by
  have hmem : k ∈ m.unackedPayloads.keys := mem_keys.mpr ⟨e, hk⟩
  rw [← card_keys, ← card_erase_of_mem hmem]
  apply card_le_card
  intro q hq
  obtain ⟨hne, e', he', -⟩ := mem_rank.mp hq
  exact mem_erase.mpr ⟨hne, mem_keys.mpr ⟨e', he'⟩⟩

/-- Between the steps of a continuation in which `P` waits: the window is filed by key, and `P` waits
    since `w`. -/
structure Waiting (k : PayloadKey) (w : Nat) (m : AckManager) : Prop where
  keyed : m.Keyed
  since : ∃ e, m.unackedPayloads.get? k = some e ∧ e.waitingSince = w
  past : w < m.packetSeq

variable {sizes : WireSizes} {k : PayloadKey} {w : Nat} {m' : AckManager}

/-- Entries that leave the window do not touch the ones that stay. -/
theorem Shrinks.waiting {gone : PayloadKey → Prop} (h : Shrinks gone m m') (hm : Waiting k w m)
    (hk : (m'.unackedPayloads.get? k).isSome) : Waiting k w m' ∧ rank k w m' ⊆ rank k w m := by
  obtain ⟨e, he, hw⟩ := hm.since
  obtain ⟨e', he'⟩ := Option.isSome_iff_exists.mp hk
  have hsame : e' = e := Option.some.inj ((h.get_of_some he').symm.trans he)
  refine ⟨⟨h.filed hm.keyed, ⟨e', he', hsame ▸ hw⟩, by rw [h.packetSeq]; exact hm.past⟩, ?_⟩
  intro q hq
  obtain ⟨hne, f, hf, hfw⟩ := mem_rank.mp hq
  exact mem_rank.mpr ⟨hne, f, h.get_of_some hf, hfw⟩

/-- A re-injected payload waits since now. -/
theorem reinject_waiting (p : Payload) (hm : Waiting k w m) :
    Waiting k w (m.reinjectUnacked sizes p) ∧ rank k w (m.reinjectUnacked sizes p) ⊆ rank k w m := by
  obtain ⟨e, he, hw⟩ := hm.since
  have hk : (m.reinjectUnacked sizes p).unackedPayloads.get? k = some e := by
    obtain h | ⟨-, hnone, -⟩ := reinjectUnacked_window sizes m p k
    · exact h.trans he
    · rw [he] at hnone; cases hnone
  refine ⟨⟨reinjectUnacked_filed sizes p hm.keyed fun _ hq => hq, ⟨e, hk, hw⟩, ?_⟩, ?_⟩
  · rw [reinjectUnacked_packetSeq]; exact hm.past
  · intro q hq
    obtain ⟨hne, f, hf, hfw⟩ := mem_rank.mp hq
    obtain h | ⟨-, -, h⟩ := reinjectUnacked_window sizes m p q
    · exact mem_rank.mpr ⟨hne, f, h.symm.trans hf, hfw⟩
    · rw [h] at hf
      cases hf
      exact absurd hfw (not_le.mpr hm.past)

section Send

variable {payload : Option Payload} {packet : Packet}

variable {q : PayloadKey}

section Built

variable (h : Built sizes m payload maxPacketLen m' packet)
include h

/-- The fresh payload rides in its packet. -/
theorem Built.carries_fresh {p : Payload} (hf : freshOf payload = some (q, p)) : Carries packet q := by
  obtain ⟨used, cap, hp⟩ := h.payloads
  refine ⟨p, ?_, freshOf_key hf⟩
  rw [hp, hf]
  exact mem_append_left _ mem_cons_self

/-- What a recorded packet carries waits since that packet, so it is no longer ranked. -/
theorem Built.carried_not_ranked (hpast : w < m.packetSeq)
    (hc : Carries packet q) : q ∉ rank k w (m'.recordSent packet) := by
  intro hq
  obtain ⟨-, f, hf, hfw⟩ := mem_rank.mp hq
  obtain ⟨-, hin, hnone⟩ := recordSent_window m' packet q
  cases hw : m'.unackedPayloads.get? q with
  | none => rw [hnone hw] at hf; cases hf
  | some g =>
    obtain ⟨g', hg', -, hlast⟩ := hin hc g hw
    rw [hg'] at hf
    cases hf
    have hsince : f.waitingSince = packet.seq := by
      unfold SentPayload.waitingSince
      rw [hlast]; rfl
    rw [h.seq] at hsince
    omega

/-- What a recorded packet does not carry stays as it was. -/
theorem Built.uncarried (hc : ¬ Carries packet q) :
    (m'.recordSent packet).unackedPayloads.get? q = m.unackedPayloads.get? q := by
  rw [(recordSent_window m' packet q).1 hc]
  exact h.kept q fun p hp => hc (h.carries_fresh hp)

/-- **Sending a packet without `P`** keeps `P` waiting since `w` and adds nothing to the ranking. -/
theorem Built.waiting (hm : Waiting k w m) (hout : ¬ Carries packet k) :
    Waiting k w (m'.recordSent packet) ∧ rank k w (m'.recordSent packet) ⊆ rank k w m := by
  obtain ⟨e, he, hw⟩ := hm.since
  refine ⟨⟨recordSent_filed packet (h.filed hm.keyed fun _ _ => freshOf_key), ⟨e, (h.uncarried hout).trans he, hw⟩, ?_⟩, ?_⟩
  · show w < (m'.packetSeq : Nat)
    rw [h.next]
    exact Nat.lt_succ_of_lt hm.past
  · intro q hq
    by_cases hc : Carries packet q
    · exact absurd hq (h.carried_not_ranked hm.past hc)
    · obtain ⟨hne, f, hf, hfw⟩ := mem_rank.mp hq
      exact mem_rank.mpr ⟨hne, f, (h.uncarried hc).symm.trans hf, hfw⟩

/-- **A packet that passes a due `P` over and carries redundancy carries something ranked above `P`.** -/
theorem Built.serves_rank (hm : Waiting k w m)
    (hout : ¬ Carries packet k) (he : m.unackedPayloads.get? k = some e)
    (hdue : e.isDue (m.spacingFor (freshOf payload)) m.packetSeq = true)
    (hred : (freshOf payload).toList.length < packet.payloads.length) : ∃ q ∈ rank k w m, Carries packet q := by
  obtain ⟨used, cap, hp⟩ := h.payloads
  set redundancy := m.refill (m.spacingFor (freshOf payload)) m.packetSeq used maxPacketLen cap with hdef
  have hne : redundancy ≠ [] := by
    intro hnil
    rw [hp, hnil] at hred
    simp at hred
  have hcarried : ∀ x ∈ redundancy, ∀ q, m.unackedPayloads.get? q = some x → Carries packet q := by
    intro x hx q hq
    refine ⟨x.payload, ?_, hm.keyed q x hq⟩
    rw [hp]
    exact mem_append_right _ (mem_map_of_mem hx)
  have hnot : e ∉ redundancy := fun hin => hout (hcarried e hin k he)
  obtain ⟨x, hx, hage⟩ := refill_head (mem_values.mpr ⟨k, he⟩) hdue hne hnot
  obtain ⟨q, hq⟩ := mem_values.mp (mem_window_of_mem_refill hx)
  refine ⟨q, mem_rank.mpr ⟨?_, x, hq, ?_⟩, hcarried x hx q hq⟩
  · rintro rfl
    exact hout (hcarried x hx _ hq)
  · -- ages are compared from a packet past `w`, so the older one waits since `w` or longer
    obtain ⟨e', he', hw⟩ := hm.since
    obtain rfl : e' = e := Option.some.inj (he'.symm.trans he)
    have hpast := hm.past
    unfold SentPayload.waitingAge at hage
    omega

end Built

end Send

/-! ## Runs -/

/-- **One step in which `P` waits** keeps it waiting since then, and ranks nothing anew above it. -/
theorem step_waiting (s : SendStep) (hm : Waiting k w m) (hw : (s.moment sizes m).Waits k) :
    Waiting k w (s.run sizes m).1 ∧ rank k w (s.run sizes m).1 ⊆ rank k w m := by
  obtain ⟨-, hafter, hout⟩ := hw
  cases s with
  | send payload maxPacketLen =>
    simp only [SendStep.moment, SendStep.run] at hout ⊢
    split at hout
    · rename_i heq
      exact (buildOutgoing_spec heq).waiting hm (hout _ rfl)
    · exact ⟨hm, Finset.Subset.refl _⟩
  | incoming packet =>
    simp only [SendStep.moment, SendStep.run, Op.apply] at hafter ⊢
    split at hafter
    · rename_i heq
      -- recording the packet in the history moves no payload
      have hrecorded : Waiting k w { m with receivedPackets := m.receivedPackets.record packet.seq } :=
        ⟨hm.keyed, hm.since, hm.past⟩
      exact (handleIncoming_shrinks heq).waiting hrecorded hafter
    · exact ⟨hm, Finset.Subset.refl _⟩
  | retireThrough slot throughSeq => exact (retirePayloadsThrough_shrinks m slot throughSeq).waiting hm hafter
  | reinject payload => exact reinject_waiting payload hm

/-- **A step that passes a due `P` over while it carries redundancy shortens the ranking.** -/
theorem step_serves (s : SendStep) (hm : Waiting k w m) (hw : (s.moment sizes m).Waits k)
    (hdue : (s.moment sizes m).dueAtBuild k = true) (hred : (s.moment sizes m).carriesRedundancy = true) :
    (rank k w (s.run sizes m).1).card < (rank k w m).card := by
  obtain ⟨-, hsub⟩ := step_waiting s hm hw
  obtain ⟨e, he, -⟩ := hm.since
  cases s with
  | send payload maxPacketLen =>
    simp only [Moment.dueAtBuild, SendStep.moment, he] at hdue
    obtain ⟨-, -, hout⟩ := hw
    cases hb : m.buildOutgoing sizes payload maxPacketLen with
    | error err => simp [Moment.carriesRedundancy, SendStep.moment, SendStep.run, hb] at hred
    | ok r =>
      have hspec : Built sizes m payload maxPacketLen r.1 r.2 := buildOutgoing_spec hb
      simp only [Moment.carriesRedundancy, SendStep.moment, SendStep.run, hb, decide_eq_true_eq] at hred hout
      simp only [SendStep.run, hb] at hsub ⊢
      obtain ⟨q, hq, hcarried⟩ := hspec.serves_rank hm (hout _ rfl) he hdue hred
      exact card_lt_card ⟨hsub, fun h => hspec.carried_not_ranked hm.past hcarried (h hq)⟩
  | incoming | retireThrough | reinject => simp [Moment.dueAtBuild, SendStep.moment] at hdue

/-- **Over a whole continuation**, `P` is passed over at most once for each payload ranked above it. -/
theorem trail_passes_over (steps : List SendStep) (hm : Waiting k w m) (hw : ∀ mo ∈ trail sizes m steps, mo.Waits k) :
    (trail sizes m steps).countP (fun mo => mo.dueAtBuild k && mo.carriesRedundancy) ≤ (rank k w m).card := by
  induction steps generalizing m with
  | nil => exact Nat.zero_le _
  | cons s steps ih =>
    have hhead : (s.moment sizes m).Waits k := hw _ mem_cons_self
    obtain ⟨hnext, hsub⟩ := step_waiting s hm hhead
    have hrest := ih hnext fun mo hmo => hw mo (mem_cons_of_mem _ hmo)
    rw [trail, countP_cons]
    split
    · rename_i hpass
      obtain ⟨hdue, hred⟩ := Bool.and_eq_true_iff.mp hpass
      have := step_serves s hm hhead hdue hred
      omega
    · exact hrest.trans (card_le_card hsub)

/-- Sending takes nothing out of the window. -/
theorem send_keeps (payload : Option Payload) (maxPacketLen : Nat) (hk : (m.unackedPayloads.get? k).isSome) :
    (((SendStep.send payload maxPacketLen).run sizes m).1.unackedPayloads.get? k).isSome := by
  simp only [SendStep.run]
  split
  · rename_i m' packet heq
    exact recordSent_isSome ((buildOutgoing_spec heq).isSome hk)
  · exact hk

/-- While only packets are sent, an unacked payload that no packet carries waits at every step. -/
theorem flushes_wait (lens : List Nat) (hk : (m.unackedPayloads.get? k).isSome)
    (hout : ∀ mo ∈ trail sizes m (lens.map (SendStep.send none)), ∀ packet, mo.packet = some packet → ¬ Carries packet k) :
    ∀ mo ∈ trail sizes m (lens.map (SendStep.send none)), mo.Waits k ∧ mo.dueAtBuild k = true := by
  induction lens generalizing m with
  | nil => intro mo hmo; cases hmo
  | cons len lens ih =>
    intro mo hmo
    have hnext : (((SendStep.send none len).run sizes m).1.unackedPayloads.get? k).isSome := send_keeps none len hk
    obtain rfl | hmo := mem_cons.mp hmo
    · refine ⟨⟨hk, hnext, hout _ mem_cons_self⟩, ?_⟩
      -- a flush carries nothing fresh, so no schedule gates it
      obtain ⟨e, he⟩ := Option.isSome_iff_exists.mp hk
      simp only [Moment.dueAtBuild, SendStep.moment, he]
      rfl
    · exact ih hnext (fun mo hmo => hout mo (mem_cons_of_mem _ hmo)) mo hmo

/-- **No unacked payload starves.** Take any reachable state with `n` unacked payloads, one of them `P`,
    waiting for at least one packet. While `P` stays unacked and is not carried, at most `n - 1` of the
    packets at whose build it was due carry any redundancy; so `n` consecutive flushes that carry
    redundancy carry `P`. -/
theorem no_unacked_payload_starves (sizes : WireSizes) (policy : RecarryPolicy) (ops : List Op) (k : PayloadKey)
    (e : SentPayload) (he : (reached sizes policy ops).unackedPayloads.get? k = some e)
    (hage : 1 ≤ e.waitingAge (reached sizes policy ops).packetSeq) :
    (∀ steps, (∀ mo ∈ trail sizes (reached sizes policy ops) steps, mo.Waits k) →
      (trail sizes (reached sizes policy ops) steps).countP (fun mo => mo.dueAtBuild k && mo.carriesRedundancy) ≤
        (reached sizes policy ops).unackedPayloads.size - 1) ∧
    (∀ lens : List Nat, lens.length = (reached sizes policy ops).unackedPayloads.size →
      (∀ mo ∈ trail sizes (reached sizes policy ops) (lens.map (SendStep.send none)), mo.carriesRedundancy = true) →
      ∃ mo ∈ trail sizes (reached sizes policy ops) (lens.map (SendStep.send none)),
        ∃ packet, mo.packet = some packet ∧ Carries packet k) := by
  have hm : Waiting k e.waitingSince (reached sizes policy ops) := by
    refine ⟨reached_keyed sizes policy ops, ⟨e, he, rfl⟩, ?_⟩
    unfold SentPayload.waitingAge at hage
    omega
  generalize reached sizes policy ops = m at he hm
  refine ⟨fun steps hw => (trail_passes_over steps hm hw).trans (card_rank_le he), ?_⟩
  intro lens hlen hred
  by_contra hnone
  push Not at hnone
  have hflush := flushes_wait lens (by rw [he]; rfl) hnone
  have hle := trail_passes_over _ hm fun mo hmo => (hflush mo hmo).1
  have hall : (trail sizes m (lens.map (SendStep.send none))).countP
    (fun mo => mo.dueAtBuild k && mo.carriesRedundancy) = lens.length := by
    rw [countP_eq_length.mpr, trail_length, length_map]
    intro mo hmo
    rw [(hflush mo hmo).2, hred mo hmo]; rfl
  have hpos : 0 < m.unackedPayloads.size := by
    rw [← card_keys]
    exact card_pos.mpr ⟨k, mem_keys.mpr ⟨e, he⟩⟩
  have := card_rank_le (w := e.waitingSince) he
  omega

/-- Two payloads, neither of them ever recorded, and two flushes with room for one payload each. -/
theorem no_unacked_payload_starves_two_flushes :
    let ops : List Op := [.build (some ⟨0, 0, [], none, none, none, none⟩) 99,
      .build (some ⟨0, 1, [], none, none, none, none⟩) 99]
    let m := reached .prost .shipped ops
    ∃ mo ∈ trail .prost m ([6, 6].map (SendStep.send none)), ∃ packet, mo.packet = some packet ∧ Carries packet ⟨1, 0⟩ :=
  (no_unacked_payload_starves .prost .shipped
    [.build (some ⟨0, 0, [], none, none, none, none⟩) 99, .build (some ⟨0, 1, [], none, none, none, none⟩) 99]
    ⟨1, 0⟩ ⟨0, none, 1, 4, ⟨0, 1, [], none, none, none, none⟩⟩ rfl (by decide)).2 [6, 6] rfl (by decide)

end AckManager

end RallyPoint.Transport
