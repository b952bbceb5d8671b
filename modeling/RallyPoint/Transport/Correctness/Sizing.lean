import Mathlib.Algebra.Order.BigOperators.Group.List
import Mathlib.Algebra.Order.Ring.Nat
import RallyPoint.Transport.Correctness.Starvation

/-!
# `Transport.Correctness.Sizing` — a packet stays within its datagram, and redundancy within its budget

The refill has three shapes, and two of them trust a total: the cached size of the whole window, and the
sum over what is due. `Exact` says that the cache, when there is one, is that sum, and that each entry's
cached size is that of its element. Every call keeps it. The bounds on one packet follow from the shapes
(`refill_within`).
-/

namespace RallyPoint.Transport

open Lib List OrdMap

/-- **The codec's law**: a packet is its scalar fields, then one element for each payload. -/
def WireSizes.Lawful (sizes : WireSizes) : Prop := ∀ p : Packet,
  sizes.packetLen p = sizes.packetLen { p with payloads := [] } +
    (p.payloads.map fun q => sizes.payloadElementLen (sizes.payloadLen q)).sum

theorem WireSizes.prost_lawful : prost.Lawful := fun _ => rfl

namespace AckManager

variable {sizes : WireSizes} {policy : RecarryPolicy} {m m' : AckManager} {payload : Option Payload}
  {maxPacketLen : Nat} {packet : Packet}

/-! ## The cached total -/

/-- The wire cost of some entries. -/
def costOf (l : List SentPayload) : Nat := (l.map (·.wireLen)).sum

/-- The wire cost of the whole window. -/
def windowLen (m : AckManager) : Nat := costOf m.unackedPayloads.values

/-- **The sizes kept are exact**: of each entry, and of the window when a total is kept. -/
structure Exact (sizes : WireSizes) (m : AckManager) : Prop where
  entries : ∀ k e, m.unackedPayloads.get? k = some e → e.wireLen = sizes.payloadElementLen (sizes.payloadLen e.payload)
  total : ∀ t, m.unackedPayloadWireLen = some t → t = m.windowLen

/-- The window's size is one a `usize` can hold. -/
def Held (m : AckManager) : Prop := m.windowLen ≤ u64Max

theorem withPolicy_exact (sizes : WireSizes) (policy : RecarryPolicy) : (withPolicy policy).Exact sizes := by
  refine ⟨fun k e he => ?_, fun t ht => ?_⟩
  · cases he
  · cases ht
    rfl

/-- What one entry adds is part of the total. -/
theorem wireLen_le_windowLen {k : PayloadKey} {e : SentPayload} (h : m.unackedPayloads.get? k = some e) :
    e.wireLen ≤ m.windowLen :=
  single_le_sum (by simp) _ (mem_map.mpr ⟨e, mem_values.mpr ⟨k, h⟩, rfl⟩)

theorem Exact.insertUnacked (h : m.Exact sizes) {key : PayloadKey} {sent : SentPayload}
    (hsent : sent.wireLen = sizes.payloadElementLen (sizes.payloadLen sent.payload))
    (hheld : (m.insertUnacked key sent).Held) : (m.insertUnacked key sent).Exact sizes := by
  refine ⟨fun k e he => ?_, fun t ht => ?_⟩
  · change (m.unackedPayloads.insert key sent).get? k = some e at he
    rcases get?_insert_eq_some.mp he with ⟨-, rfl⟩ | ⟨-, he⟩
    · exact hsent
    · exact h.entries k e he
  · have hsum : (m.insertUnacked key sent).windowLen + m.unackedPayloads.part (·.wireLen) key = m.windowLen + sent.wireLen :=
      sum_values_insert m.unackedPayloads (·.wireLen) key sent
    unfold AckManager.insertUnacked at ht
    obtain ⟨less, hless, rfl⟩ := Option.map_eq_some_iff.mp ht
    unfold Held at hheld
    unfold saturatingAdd
    -- the replaced entry, if there is one, leaves the total first
    cases hprev : m.unackedPayloads.get? key with
    | none =>
      rw [hprev] at hless
      have htotal := h.total less hless
      simp only [part, hprev, Option.map_none, Option.getD_none] at hsum
      omega
    | some previous =>
      rw [hprev] at hless
      obtain ⟨total, hsome, rfl⟩ := Option.map_eq_some_iff.mp hless
      have htotal := h.total total hsome
      have hpart := wireLen_le_windowLen hprev
      simp only [part, hprev, Option.map_some, Option.getD_some] at hsum
      omega

theorem Exact.removeUnacked (h : m.Exact sizes) (key : PayloadKey) : (m.removeUnacked key).Exact sizes := by
  unfold AckManager.removeUnacked
  split
  · exact h
  · rename_i removed hget
    refine ⟨fun k e he => ?_, fun t ht => ?_⟩
    · change (m.unackedPayloads.erase key).get? k = some e at he
      exact h.entries k e (get?_erase_eq_some.mp he).2
    · obtain ⟨total, hsome, rfl⟩ := Option.map_eq_some_iff.mp ht
      have htotal := h.total total hsome
      have hsum := sum_values_erase (·.wireLen) hget
      unfold windowLen costOf at htotal
      change total - removed.wireLen = ((m.unackedPayloads.erase key).values.map (·.wireLen)).sum
      omega

/-! ## Every call -/

theorem Exact.removeAll (h : m.Exact sizes) (keys : List PayloadKey) : (keys.foldl AckManager.removeUnacked m).Exact sizes :=
  foldlRecOn keys _ h fun _ hm key _ => hm.removeUnacked key

theorem Exact.retirePacket (h : m.Exact sizes) (packetSeq : Nat) : (m.retirePacket packetSeq).Exact sizes := by
  unfold AckManager.retirePacket
  split
  · exact h
  · rename_i sentPackets p _
    have hring : { m with sentPackets := sentPackets }.Exact sizes := ⟨h.entries, h.total⟩
    exact hring.removeAll p.payloadSlotsSeqs

theorem Exact.retireBits {ack : Nat} : ∀ (fuel i : Nat) (bits : BitVec 32) {m : AckManager}, m.Exact sizes →
    (retireBits ack fuel i bits m).Exact sizes := by
  intro fuel
  induction fuel with
  | zero => exact fun _ _ _ h => h
  | succ fuel ih =>
    intro i bits m h
    unfold AckManager.retireBits
    split
    · exact h
    · refine ih (i + 1) (bits >>> 1) ?_
      split
      · exact h.retirePacket (ack - i)
      · exact h

section Exact

variable (h : m.Exact sizes)
include h

theorem Exact.handleIncoming (hin : m.handleIncoming packet = .ok m') : m'.Exact sizes := by
  unfold AckManager.handleIncoming at hin
  split at hin
  · cases hin
  · cases hin
    have hrecord : { m with receivedPackets := m.receivedPackets.record packet.seq }.Exact sizes := ⟨h.entries, h.total⟩
    cases packet.ack with
    | none => exact hrecord
    | some ack => exact (hrecord.retirePacket ack).retireBits 32 1 packet.ackBits

theorem Exact.retirePayloadsThrough (slot : SlotId) (through : Nat) :
    (m.retirePayloadsThrough slot through).1.Exact sizes := by
  refine ⟨fun k e he => h.entries k e (get?_filter_eq_some.mp he).1, fun t ht => ?_⟩
  unfold AckManager.retirePayloadsThrough at ht
  dsimp only at ht
  split at ht
  · cases ht
  · -- nothing was retired, so the window is the one it was
    rename_i hnone
    have hsame : (m.unackedPayloads.filter fun key _ => key.slot ≠ slot ∨ through < key.seq).entries =
      m.unackedPayloads.entries := by
      refine filter_eq_self.mpr (length_filter_eq_length_iff.mp (le_antisymm (length_filter_le _ _) ?_))
      exact Nat.sub_eq_zero_iff_le.mp (Nat.eq_zero_of_not_pos hnone)
    rw [h.total t ht]
    unfold windowLen values AckManager.retirePayloadsThrough
    rw [hsame]

/-- Entries that keep their payload and their size keep the sizes exact. -/
theorem Exact.relabel (htotal : m'.unackedPayloadWireLen = m.unackedPayloadWireLen)
    (hsame : ∀ k, (m'.unackedPayloads.get? k).map (fun e => (e.payload, e.wireLen)) =
      (m.unackedPayloads.get? k).map fun e => (e.payload, e.wireLen)) :
    m'.Exact sizes := by
  refine ⟨fun k e he => ?_, fun t ht => ?_⟩
  · have hk := hsame k
    rw [he] at hk
    obtain ⟨e', he', heq⟩ := Option.map_eq_some_iff.mp hk.symm
    obtain ⟨hp, hw⟩ := Prod.mk.injEq .. ▸ heq
    rw [← hp, ← hw]
    exact h.entries k e' he'
  · rw [h.total t (htotal ▸ ht)]
    refine sum_values_congr fun k => ?_
    have hk := congrArg (Option.map Prod.snd) (hsame k)
    simp only [Option.map_map] at hk
    unfold part
    exact congrArg (Option.getD · 0) hk.symm

theorem Exact.resetConnection : m.resetConnection.Exact sizes := by
  refine h.relabel rfl fun k => ?_
  unfold AckManager.resetConnection
  simp only [get?_mapValues, Option.map_map]
  rfl

theorem Exact.recordSent (packet : Packet) : (m.recordSent packet).Exact sizes := by
  refine h.relabel rfl fun k => ?_
  unfold AckManager.recordSent
  generalize packet.payloads.filterMap (·.key?) = keys
  generalize m.unackedPayloads = window
  simp only
  induction keys generalizing window with
  | nil => rfl
  | cons key keys ih =>
    rw [foldl_cons, ih, get?_modify]
    split
    · rw [Option.map_map]
      rfl
    · rfl

/-- The refreshed total is the window's size, when a `usize` holds it. -/
theorem Exact.wireLenTotal (hheld : m.Held) : m.wireLenTotal = m.windowLen := by
  unfold AckManager.wireLenTotal
  split
  · rename_i total hsome
    exact h.total total hsome
  · have hfold : ∀ (l : List SentPayload) (acc : Nat), acc + (l.map (·.wireLen)).sum ≤ u64Max →
        l.foldl (fun total sent => saturatingAdd u64Max total sent.wireLen) acc = acc + (l.map (·.wireLen)).sum := by
      intro l
      induction l with
      | nil => exact fun acc _ => rfl
      | cons sent l ih =>
        intro acc hle
        rw [map_cons, sum_cons] at hle ⊢
        have hstep : saturatingAdd u64Max acc sent.wireLen = acc + sent.wireLen := by
          unfold saturatingAdd
          omega
        rw [foldl_cons, hstep, ih _ (by omega)]
        omega
    have hzero := hfold m.unackedPayloads.values 0 (by rw [Nat.zero_add]; exact hheld)
    rw [hzero, Nat.zero_add]
    rfl

theorem Exact.buildOutgoing (hheld : m.Held) (hbuild : m.buildOutgoing sizes payload maxPacketLen = .ok (m', packet))
    (hheld' : m'.Held) : m'.Exact sizes := by
  unfold AckManager.buildOutgoing at hbuild
  split at hbuild
  · cases hbuild
  · rename_i advanced _
    have hrefreshed : { m with packetSeq := advanced, unackedPayloadWireLen := some m.wireLenTotal }.Exact sizes := by
      refine ⟨h.entries, fun t ht => ?_⟩
      cases ht
      exact h.wireLenTotal hheld
    dsimp only at hbuild
    split at hbuild
    · cases hbuild
      exact hrefreshed
    · cases hbuild
      exact hrefreshed.insertUnacked rfl hheld'

theorem Exact.reinjectUnacked (p : Payload) (hheld : (m.reinjectUnacked sizes p).Held) :
    (m.reinjectUnacked sizes p).Exact sizes := by
  unfold AckManager.reinjectUnacked at hheld ⊢
  cases hkey : p.key? with
  | none => exact h
  | some key =>
    simp only [hkey] at hheld ⊢
    split at hheld
    · rename_i hin
      rw [if_pos hin]
      exact h
    · rename_i hout
      rw [if_neg hout]
      exact h.insertUnacked rfl hheld

theorem Exact.apply (hheld : m.Held) (op : Op) (hheld' : (op.apply sizes m).Held) : (op.apply sizes m).Exact sizes := by
  cases op with
  | build payload maxPacketLen =>
    simp only [Op.apply] at hheld' ⊢
    split at hheld'
    · rename_i m' packet hbuild
      exact h.buildOutgoing hheld hbuild hheld'
    · exact h
  | record packet => exact h.recordSent packet
  | incoming packet =>
    simp only [Op.apply]
    split
    · rename_i m' hin
      exact h.handleIncoming hin
    · exact h
  | retireThrough slot throughSeq => exact h.retirePayloadsThrough slot throughSeq
  | reinject payload => exact h.reinjectUnacked payload hheld'
  | resetConnection => exact h.resetConnection
  | setTurnsComplete count => exact ⟨h.entries, h.total⟩

end Exact

/-- **A state some calls lead to**, in a process whose `usize` holds every window's size on the way. -/
inductive Reachable (sizes : WireSizes) (policy : RecarryPolicy) : AckManager → Prop
  | new : Reachable sizes policy (withPolicy policy)
  | call {m : AckManager} (op : Op) : Reachable sizes policy m → (op.apply sizes m).Held →
      Reachable sizes policy (op.apply sizes m)

theorem Op.apply_policy (sizes : WireSizes) (m : AckManager) (op : Op) : (op.apply sizes m).policy = m.policy := by
  cases op with
  | build payload maxPacketLen =>
    simp only [Op.apply]
    split
    · rename_i m' packet hbuild
      exact (buildOutgoing_spec hbuild).policy
    · rfl
  | incoming packet =>
    simp only [Op.apply]
    split
    · rename_i m' hin
      exact (handleIncoming_shrinks hin).policy
    · rfl
  | reinject payload =>
    simp only [Op.apply, AckManager.reinjectUnacked]
    split
    · rfl
    · split
      · rfl
      · rfl
  | record packet | retireThrough slot throughSeq | resetConnection | setTurnsComplete count => rfl

theorem Reachable.exact (h : Reachable sizes policy m) : m.Exact sizes ∧ m.Held ∧ m.policy = policy := by
  induction h with
  | new => exact ⟨withPolicy_exact sizes policy, Nat.zero_le _, rfl⟩
  | call op _ hheld ih => exact ⟨ih.1.apply ih.2.1 op hheld, hheld, (Op.apply_policy sizes _ op).trans ih.2.2⟩

/-! ## One packet -/

theorem pack_true_cost (maxPacketLen cap : Nat) : ∀ (l : List SentPayload) (used : Nat),
    (pack maxPacketLen cap true used l = [] ∨ used + costOf (pack maxPacketLen cap true used l) ≤ cap) ∧
      (cap < used → pack maxPacketLen cap true used l = []) := by
  intro l
  induction l with
  | nil => exact fun used => ⟨.inl rfl, fun _ => rfl⟩
  | cons sent rest ih =>
    intro used
    unfold pack
    split
    · exact ih used
    · rename_i hfits
      refine ⟨.inr ?_, fun hover => by omega⟩
      simp only [costOf, map_cons, sum_cons]
      rcases (ih (used + sent.wireLen)).1 with hnil | hle
      · rw [hnil, map_nil, sum_nil]
        omega
      · unfold costOf at hle
        omega

/-- What a refill of a packet that is `used` bytes long may add. -/
structure Within (used maxPacketLen cap : Nat) (l : List SentPayload) : Prop where
  packet : l = [] ∨ used + costOf l ≤ maxPacketLen
  budget : ∀ first rest, l = first :: rest → costOf l ≤ max (cap - used) first.wireLen

variable {used cap : Nat}

theorem Within.nil : Within used maxPacketLen cap [] := ⟨.inl rfl, fun _ _ h => by cases h⟩

/-- Entries that fit under the cap together. -/
theorem Within.of_fits {l : List SentPayload} (hcap : cap ≤ maxPacketLen) (hused : used ≤ cap) (h : costOf l ≤ cap - used) :
    Within used maxPacketLen cap l :=
  ⟨.inr (by omega), fun _ _ _ => le_max_of_le_left h⟩

/-- The constrained refill: the first entry under the datagram, the others under the cap. -/
theorem pack_within (hcap : cap ≤ maxPacketLen) (l : List SentPayload) :
    Within used maxPacketLen cap (pack maxPacketLen cap false used l) := by
  cases l with
  | nil => exact .nil
  | cons sent rest =>
    unfold pack
    split
    · exact .nil
    · rename_i hfits
      obtain ⟨hrest, hover⟩ := pack_true_cost maxPacketLen cap rest (used + sent.wireLen)
      have hcost : costOf (sent :: pack maxPacketLen cap true (used + sent.wireLen) rest) =
          sent.wireLen + costOf (pack maxPacketLen cap true (used + sent.wireLen) rest) := by simp [costOf]
      rcases hrest with hnil | hle
      · have halone : costOf (sent :: pack maxPacketLen cap true (used + sent.wireLen) rest) =
          sent.wireLen := by simp [hnil, costOf]
        refine ⟨.inr (by omega), fun first tail heq => ?_⟩
        obtain ⟨rfl, -⟩ := cons.inj heq
        exact halone.trans_le (le_max_right _ _)
      · refine ⟨.inr (by omega), fun first tail heq => ?_⟩
        exact le_max_of_le_left (by omega)

/-- **Each of the three refills keeps to the datagram and to the budget.** -/
theorem Exact.refill_within (h : m.Exact sizes) (hheld : m.Held) (spacing : Option CarrySpacing) (buildingSeq : Nat)
    (hcap : cap ≤ maxPacketLen) : Within used maxPacketLen cap (m.refill spacing buildingSeq used maxPacketLen cap) := by
  have hfits : ∀ {total : Nat}, (checkedSub cap used).any (total ≤ ·) = true → used ≤ cap ∧ total ≤ cap - used := by
    intro total hany
    unfold checkedSub at hany
    split at hany
    · rename_i hle
      exact ⟨hle, of_decide_eq_true hany⟩
    · cases hany
  unfold AckManager.refill
  dsimp only
  split
  · rename_i hall
    obtain ⟨hused, hle⟩ := hfits hall.2
    exact .of_fits hcap hused ((h.wireLenTotal hheld).symm.trans_le hle)
  · split
    · rename_i hdue
      obtain ⟨hused, hle⟩ := hfits hdue
      exact .of_fits hcap hused hle
    · exact pack_within hcap _

/-- The wire cost of payloads as elements of a packet. -/
def elementsLen (sizes : WireSizes) (payloads : List Payload) : Nat :=
  (payloads.map fun p => sizes.payloadElementLen (sizes.payloadLen p)).sum

/-- The payload a build carries first, when it is given one it can track. -/
def freshPayloads (payload : Option Payload) : List Payload := (freshOf payload).toList.map (·.2)

/-- The cap on what redundancy may fill to. -/
def redundancyCap (m : AckManager) (used maxPacketLen : Nat) : Nat :=
  match m.policy.redundancyByteBudget with
  | some budget => min maxPacketLen (saturatingAdd u64Max used budget)
  | none => maxPacketLen

theorem redundancyCap_le (m : AckManager) (used maxPacketLen : Nat) : m.redundancyCap used maxPacketLen ≤ maxPacketLen := by
  unfold redundancyCap
  split
  · exact min_le_left _ _
  · exact le_rfl

theorem redundancyCap_sub_le {budget : Nat} (h : m.policy.redundancyByteBudget = some budget) :
    m.redundancyCap used maxPacketLen - used ≤ budget := by
  unfold redundancyCap saturatingAdd
  rw [h]
  dsimp only
  omega

/-- A packet is the fresh payload and a refill, from the size the header and the fresh payload have. -/
theorem buildOutgoing_refill (h : m.buildOutgoing sizes payload maxPacketLen = .ok (m', packet)) :
    ∃ used, used = sizes.packetLen { packet with payloads := [] } + elementsLen sizes (freshPayloads payload) ∧
      packet.payloads = freshPayloads payload ++
        (m.refill (m.spacingFor (freshOf payload)) m.packetSeq used maxPacketLen
          (m.redundancyCap used maxPacketLen)).map (·.payload) := by
  unfold buildOutgoing at h
  split at h
  · cases h
  · refine ⟨_, rfl, ?_⟩
    unfold freshPayloads elementsLen
    cases hfresh : freshOf payload with
    | none | some =>
      simp only [hfresh] at h
      cases h
      rfl

/-- **What a packet built from an exact state holds**, and its size over the header and fresh payload's. -/
theorem Exact.packet_within (hlaw : sizes.Lawful) (h : m.Exact sizes) (hheld : m.Held)
    (hbuild : m.buildOutgoing sizes payload maxPacketLen = .ok (m', packet)) :
    ∃ redundant, packet.payloads = freshPayloads payload ++ redundant ∧
      (redundant = [] ∨ sizes.packetLen packet ≤ maxPacketLen) ∧
      (∀ budget, m.policy.redundancyByteBudget = some budget →
        elementsLen sizes redundant ≤ max budget (elementsLen sizes (redundant.take 1))) ∧
      ∀ p ∈ redundant, ∃ k e, m.unackedPayloads.get? k = some e ∧ e.payload = p := by
  obtain ⟨used, hused, hpayloads⟩ := buildOutgoing_refill hbuild
  have hwithin : Within used maxPacketLen (m.redundancyCap used maxPacketLen) _ :=
    h.refill_within hheld (m.spacingFor (freshOf payload)) m.packetSeq (m.redundancyCap_le used maxPacketLen)
  have hwindow : ∀ e ∈ m.refill (m.spacingFor (freshOf payload)) m.packetSeq used maxPacketLen
      (m.redundancyCap used maxPacketLen),
      ∃ k, m.unackedPayloads.get? k = some e := fun e he => mem_values.mp (mem_window_of_mem_refill he)
  generalize m.refill _ _ _ _ _ = refill at hpayloads hwithin hwindow
  -- the entries' cached sizes are those of their elements
  have hcost : ∀ l : List SentPayload, (∀ e ∈ l, ∃ k, m.unackedPayloads.get? k = some e) →
    elementsLen sizes (l.map (·.payload)) = costOf l := by
    intro l hl
    unfold elementsLen costOf
    rw [map_map]
    refine congrArg sum (map_congr_left fun e he => ?_)
    obtain ⟨k, hk⟩ := hl e he
    exact (h.entries k e hk).symm
  refine ⟨refill.map (·.payload), hpayloads, ?_, ?_, ?_⟩
  · rcases hwithin.packet with hnil | hle
    · exact .inl (by rw [hnil, map_nil])
    · right
      rw [hlaw packet, hpayloads, map_append, sum_append, ← Nat.add_assoc]
      change _ + elementsLen sizes (freshPayloads payload) + elementsLen sizes (refill.map (·.payload)) ≤ _
      rw [hcost refill hwindow, ← hused]
      exact hle
  · intro budget hbudget
    cases refill with
    | nil => exact Nat.zero_le _
    | cons first rest =>
      have hfirst : elementsLen sizes (((first :: rest).map (·.payload)).take 1) = first.wireLen := by
        have hone := hcost [first] fun e he => hwindow e (mem_cons.mpr (.inl (mem_singleton.mp he)))
        simpa [costOf] using hone
      rw [hcost _ hwindow, hfirst]
      exact (hwithin.budget first rest rfl).trans (max_le_max_right _ (redundancyCap_sub_le hbudget))
  · intro p hp
    obtain ⟨e, he, rfl⟩ := mem_map.mp hp
    obtain ⟨k, hk⟩ := hwindow e he
    exact ⟨k, e, hk, rfl⟩

/-- **Packet size and redundancy budget.** In every reachable state the cached total, when there is one,
    is the exact sum; and a packet built from it is no longer than the larger of the budget and its
    header with the fresh payload alone, and its redundant elements together no longer than the larger of
    the policy's budget and the first of them. -/
theorem packet_within_budget (sizes : WireSizes) (hlaw : sizes.Lawful) (policy : RecarryPolicy)
    (m : AckManager) (h : Reachable sizes policy m) (payload : Option Payload) (maxPacketLen : Nat) :
    (∀ total, m.unackedPayloadWireLen = some total → total = (m.unackedPayloads.values.map (·.wireLen)).sum) ∧
    ∀ m' packet, m.buildOutgoing sizes payload maxPacketLen = .ok (m', packet) →
      ∃ redundant, packet.payloads = freshPayloads payload ++ redundant ∧
        sizes.packetLen packet ≤ max maxPacketLen (sizes.packetLen { packet with payloads := freshPayloads payload }) ∧
        ∀ budget, policy.redundancyByteBudget = some budget →
          elementsLen sizes redundant ≤ max budget (elementsLen sizes (redundant.take 1)) := by
  obtain ⟨hexact, hheld, rfl⟩ := h.exact
  refine ⟨hexact.total, fun m' packet hbuild => ?_⟩
  obtain ⟨redundant, hpayloads, hpacket, hbudget, -⟩ := hexact.packet_within hlaw hheld hbuild
  refine ⟨redundant, hpayloads, ?_, hbudget⟩
  rcases hpacket with rfl | hle
  · rw [append_nil] at hpayloads
    rw [← hpayloads]
    exact le_max_right _ _
  · exact le_max_of_le_left hle

/-- A payload of twelve command bytes. -/
def Demo.turn (seq : U64) : Payload := { seq, slot := 0, commands := List.replicate 12 0 }

/-- A manager whose first packet was built and never acked. -/
def Demo.unacked : AckManager := (Op.build (some (Demo.turn 0)) 1000).apply .prost (withPolicy .shipped)

/-- The second packet, within 100 bytes, carries its own payload and the first one. -/
theorem packet_within_budget_second : ∃ m' packet, Demo.unacked.buildOutgoing .prost
    (some (Demo.turn 1)) 100 = .ok (m', packet) ∧
    packet.payloads = [Demo.turn 1, Demo.turn 0] ∧
    WireSizes.prost.packetLen packet ≤ max 100
      (WireSizes.prost.packetLen { packet with payloads := freshPayloads (some (Demo.turn 1)) }) := by
  have hreach : Reachable .prost .shipped Demo.unacked := .call _ .new (by unfold Held; decide)
  have hbuild : Demo.unacked.buildOutgoing .prost (some (Demo.turn 1)) 100 = .ok (_, _) := rfl
  obtain ⟨-, -, hle, -⟩ :=
    (packet_within_budget .prost WireSizes.prost_lawful .shipped _ hreach (some (Demo.turn 1)) 100).2 _ _ hbuild
  exact ⟨_, _, hbuild, rfl, hle⟩

end AckManager

end RallyPoint.Transport
