import RallyPoint.Transport.MeshLink
import RallyPoint.Transport.Correctness.Sizing

/-!
# `Transport.Correctness.MeshLink` — a turn that fits is not refused

The wrapper's fixed reserve covers the session id at its longest and a length of up to four bytes. The
inner packet's length needs no more: what a mesh session re-carries was admitted below the guaranteed
datagram, and the redundancy beyond one payload is within the policy's budget (`Reached.packetLen_lt`).
So whatever keeps to the packet budget keeps to the datagram (`encodedLen_wrap_le`).
-/

namespace RallyPoint.Transport

open Lib Lib.Wire AckManager List WireSizes

namespace MeshLink

/-- The calls a mesh link makes on the acks of a session with this tenant. -/
inductive Call (tenant : Option String) : Op → Prop
  | send {budget : Nat} {payload : Option Payload} (conditions : Option LinkConditions)
      (hadmitted : payload.bind (refusal budget tenant) = none) :
      Call tenant (.build payload (meshPacketBudget budget conditions tenant))
  | record (packet : Packet) : Call tenant (.record packet)
  | recv (packet : Packet) : Call tenant (.incoming packet)
  | retireThrough (slot : SlotId) (throughSeq : Nat) : Call tenant (.retireThrough slot throughSeq)

/-- **The acks some calls lead to**, in a process whose `usize` holds every window's size on the way. -/
inductive Reached (tenant : Option String) : AckManager → Prop
  | opened : Reached tenant .new
  | call {m : AckManager} {op : Op} (h : Reached tenant m) (hcall : Call tenant op) (hheld : (op.apply .prost m).Held) :
      Reached tenant (op.apply .prost m)

variable {tenant : Option String} {m m' : AckManager} {payload : Option Payload} {p : Payload}
  {packet : Packet} {budget : Nat}
  {conditions : Option LinkConditions}

theorem Reached.reachable (h : Reached tenant m) : Reachable .prost .shipped m := by
  induction h with
  | opened => exact .new
  | call _ _ hheld ih => exact .call _ ih hheld

theorem refusal_eq_none : refusal budget tenant p = none ↔
    SlotId.ofWire p.slot ≠ none ∧ prost.lonePacketLen p ≤ packetAdmissionFloor budget tenant := by
  simp only [refusal]
  split
  · simp [*]
  · split
    · simp only [reduceCtorEq, false_iff]
      omega
    · simp only [true_iff]
      exact ⟨by assumption, by omega⟩

theorem payloadFits_eq_true : payloadFits (some budget) p conditions tenant = .ok true ↔
    prost.lonePacketLen p ≤ meshPacketBudget budget conditions tenant ∧
      prost.lonePacketLen p ≤ packetAdmissionFloor budget tenant := by
  simp [payloadFits]

/-- Every payload of the window was admitted below the guaranteed datagram. -/
theorem Reached.admitted (h : Reached tenant m) : m.Filed fun _ p => prost.lonePacketLen p ≤ guaranteedDatagramBudget := by
  induction h with
  | opened => exact withPolicy_filed _
  | @call m op _ hcall _ ih =>
    cases hcall with
    | @send budget payload conditions hadmitted =>
      simp only [Op.apply]
      split
      · rename_i m' packet hbuild
        refine (buildOutgoing_spec hbuild).filed ih fun k p hp => ?_
        obtain ⟨rfl, -⟩ := freshOf_eq_some.mp hp
        have hfloor := (refusal_eq_none.mp hadmitted).2
        exact hfloor.trans (by unfold packetAdmissionFloor; omega)
      · exact ih
    | record packet => exact recordSent_filed packet ih
    | recv packet =>
      simp only [Op.apply]
      split
      · rename_i m' hin
        exact (handleIncoming_shrinks hin).filed ih
      · exact ih
    | retireThrough slot throughSeq => exact (retirePayloadsThrough_shrinks m slot throughSeq).filed ih

/-! ## Sizes -/

/-- A payload alone under any header is no longer than under the widest one. -/
theorem encodedLen_alone_le (header : Packet) (p : Payload) :
    ({ header with payloads := [p] } : Packet).encodedLen ≤ prost.lonePacketLen p := by
  have hlone : prost.lonePacketLen p = 28 + delimited p.encodedLen := rfl
  have hheader : Packet.headerLen { header with payloads := [p] } ≤ 28 := Packet.headerLen_le _
  simp only [Packet.encodedLen, map_cons, map_nil, sum_cons, sum_nil]
  omega

/-- One admitted payload, or none. -/
theorem elementsLen_le {l : List Payload} (hone : l.length ≤ 1)
    (h : ∀ p ∈ l, prost.lonePacketLen p ≤ guaranteedDatagramBudget) :
    elementsLen .prost l ≤ guaranteedDatagramBudget := by
  match l, hone with
  | [], _ => exact Nat.zero_le _
  | [p], _ =>
    have hlone : prost.lonePacketLen p = 28 + elementsLen .prost [p] := rfl
    have hp := h p mem_cons_self
    omega

/-- **The length of a session's packet takes at most four bytes.** -/
theorem Reached.packetLen_lt (h : Reached tenant m)
    (hfresh : ∀ q ∈ payload, prost.lonePacketLen q ≤ guaranteedDatagramBudget)
    (hbuild : m.buildOutgoing .prost payload budget = .ok (m', packet)) :
    packet.encodedLen < 2 ^ 28 ∧ ∃ redundant, packet.payloads = freshPayloads payload ++ redundant ∧
      (redundant = [] ∨ packet.encodedLen ≤ budget) := by
  obtain ⟨hexact, hheld, hpolicy⟩ := h.reachable.exact
  obtain ⟨redundant, hpayloads, hpacket, hbudget, hwindow⟩ := hexact.packet_within prost_lawful hheld hbuild
  refine ⟨?_, redundant, hpayloads, hpacket⟩
  have hfirst : elementsLen .prost (redundant.take 1) ≤ guaranteedDatagramBudget := by
    refine elementsLen_le (length_take_le 1 redundant) fun q hq => ?_
    obtain ⟨k, e, hget, rfl⟩ := hwindow q (mem_of_mem_take hq)
    exact h.admitted k e hget
  have hlone : elementsLen .prost (freshPayloads payload) ≤ guaranteedDatagramBudget := by
    refine elementsLen_le (by simp [freshPayloads, Option.length_toList_le]) fun q hq => ?_
    obtain ⟨⟨k, q⟩, hof, rfl⟩ : ∃ kp, freshOf payload = some kp ∧ kp.2 = q := by simpa [freshPayloads] using hq
    exact hfresh q (freshOf_eq_some.mp hof).1
  have hrest := hbudget 384 (by rw [hpolicy]; rfl)
  have hheader := packet.headerLen_le
  have hlen : packet.encodedLen = packet.headerLen +
    (elementsLen .prost (freshPayloads payload) + elementsLen .prost redundant) := by
    simp only [Packet.encodedLen, hpayloads, map_append, sum_append]
    rfl
  unfold guaranteedDatagramBudget at hfirst hlone
  omega

/-- **What keeps to the packet budget keeps to the datagram.** -/
theorem encodedLen_wrap_le (session : U64) (hpos : 0 < packet.encodedLen) (hlt : packet.encodedLen < 2 ^ 28)
    (h : packet.encodedLen ≤ meshPacketBudget budget conditions tenant) :
    (wrap ⟨session, tenant⟩ conditions packet).encodedLen ≤ budget := by
  have hsession : ∀ isDefault, unlessDefault isDefault (varintField session) ≤ 1 + 10 := fun isDefault =>
    (unlessDefault_le isDefault _).trans (varintField_le (by decide) (lt_trans session.isLt (by decide)))
  have hprefix : varintLen packet.encodedLen ≤ 4 := varintLen_le (by decide) hlt
  have hconditions : present (fun c : LinkConditions => delimited c.encodedLen) conditions =
    (conditions.map conditionsElementLen).getD 0 := rfl
  have htenant : present (fun t : String => delimited t.utf8ByteSize) tenant = (tenant.map tenantElementLen).getD 0 := rfl
  have hpacket : present (fun q : Packet => delimited q.encodedLen) (some packet) = 1 +
    varintLen packet.encodedLen + packet.encodedLen := rfl
  unfold meshPacketBudget meshPacketOverhead at h
  simp only [wrap, MeshPacket.encodedLen, hconditions, htenant, hpacket]
  exact (Nat.add_le_add_right (Nat.add_le_add_right (Nat.add_le_add_right (hsession _) _) _) _).trans (by omega)

theorem outgoing_eq_ok (h : outgoing budget tenant m payload conditions = .ok (m', packet)) :
    payload.bind (refusal budget tenant) = none ∧
      m.buildOutgoing .prost payload (meshPacketBudget budget conditions tenant) = .ok (m', packet) := by
  unfold outgoing at h
  split at h
  · cases h
  · rename_i hadmitted
    refine ⟨hadmitted, ?_⟩
    split at h
    · cases h
    · rename_i hbuild
      rw [hbuild, Except.ok.inj h]

/-- A send is a call of the session's acks. -/
theorem Reached.outgoing (h : Reached tenant m)
    (hout : outgoing budget tenant m payload conditions = .ok (m', packet)) (hheld : m'.Held) :
    Reached tenant m' := by
  obtain ⟨hadmitted, hbuild⟩ := outgoing_eq_ok hout
  have happly : Op.apply .prost m (.build payload (meshPacketBudget budget conditions tenant)) = m' :=
    by simp [Op.apply, hbuild]
  rw [← happly] at hheld ⊢
  exact h.call (.send conditions hadmitted) hheld

/-- A packet that carries something has a length. -/
theorem encodedLen_pos (h : p ∈ packet.payloads) : 0 < packet.encodedLen := by
  have hle : delimited p.encodedLen ≤ (packet.payloads.map fun q => delimited q.encodedLen).sum :=
    single_le_sum (by simp) _ (mem_map.mpr ⟨p, h, rfl⟩)
  have hpos : 0 < delimited p.encodedLen := by
    unfold delimited
    omega
  unfold Packet.encodedLen
  omega

/-- Packets are built until the sequence is used up. -/
theorem buildOutgoing_isOk (sizes : WireSizes) (m : AckManager) (payload : Option Payload) (maxPacketLen : Nat)
    (h : (m.packetSeq : Nat) < u32Max) : ∃ m' packet, m.buildOutgoing sizes payload maxPacketLen = .ok (m', packet) := by
  have hnext : nextSeq m.packetSeq = some ⟨m.packetSeq + 1, by unfold u32Max at h; omega⟩ := dif_pos _
  unfold buildOutgoing
  rw [hnext]
  cases freshOf payload with
  | none | some => exact ⟨_, _, rfl⟩

/-- A turn that fits is admitted, and its packet keeps to the datagram. -/
theorem outgoing_of_fits (key : MeshSessionKey) (hwire : (p.slot : Nat) < 256)
    (hfits : payloadFits (some budget) p conditions key.tenant = .ok true) (hm : Reached key.tenant m)
    (hseq : (m.packetSeq : Nat) < u32Max) :
    ∃ m' packet, outgoing budget key.tenant m (some p) conditions = .ok (m', packet) ∧
      (wrap key conditions packet).encodedLen ≤ budget := by
  obtain ⟨hpacket, hfloor⟩ := payloadFits_eq_true.mp hfits
  have hsmall : prost.lonePacketLen p ≤ guaranteedDatagramBudget := hfloor.trans (by unfold packetAdmissionFloor; omega)
  have hrefusal : refusal budget key.tenant p = none := refusal_eq_none.mpr ⟨by simp [SlotId.ofWire, hwire], hfloor⟩
  obtain ⟨m', packet, hbuild⟩ := buildOutgoing_isOk .prost m (some p) (meshPacketBudget budget conditions key.tenant) hseq
  refine ⟨m', packet, by simp [outgoing, hrefusal, hbuild], ?_⟩
  obtain ⟨hlt, redundant, hpayloads, hwithin⟩ := hm.packetLen_lt (by simpa using hsmall) hbuild
  have hfresh : freshPayloads (some p) = [p] := by simp [freshPayloads, freshOf, Payload.key?, SlotId.ofWire, hwire]
  rw [hfresh] at hpayloads
  refine encodedLen_wrap_le key.session (encodedLen_pos (by rw [hpayloads]; exact mem_cons_self)) hlt ?_
  rcases hwithin with rfl | hle
  · have halone := encodedLen_alone_le packet p
    rw [← append_nil [p], ← hpayloads] at halone
    exact halone.trans hpacket
  · exact hle

/-- **`send` is `outgoing` and `wrap`**: of a turn that fits, on a connection that takes what keeps to
    its budget, it hands over the wrapped packet. -/
theorem send_of_fits (key : MeshSessionKey) {connection : MeshConnection} {l : MeshLink} {session : SessionLink}
    (hbudget : connection.maxDatagramSize = some budget)
    (htakes : ∀ q, q.encodedLen ≤ budget → connection.sendDatagram q = .accepted)
    (hsession : l.sessions key = some session) (hm : Reached key.tenant session.acks)
    (hseq : (session.acks.packetSeq : Nat) < u32Max)
    (hwire : (p.slot : Nat) < 256) (hfits : payloadFits (some budget) p conditions key.tenant = .ok true) :
    ∃ m' packet, outgoing budget key.tenant session.acks (some p) conditions = .ok (m', packet) ∧
      send connection l key (some p) conditions =
        (⟨Function.update l.sessions key (some { session with acks := m'.recordSent packet })⟩,
          .ok (packet.payloads.length - 1)) := by
  obtain ⟨m', packet, hout, hlen⟩ := outgoing_of_fits key hwire hfits hm hseq
  refine ⟨m', packet, hout, ?_⟩
  unfold send
  simp only [hbudget, hsession, hout, htakes _ hlen]
  rfl

/-- **A turn that fits is not refused.** A send of it, with the same conditions and under the same
    budget, is admitted, and if the packet sequence is not used up it builds a datagram within the
    budget. At every later budget that is no smaller than the first or the guaranteed one, the turn fits
    a flush alone, and a flush that carries it is within the budget. -/
theorem payload_that_fits_is_sent (key : MeshSessionKey) (conditions : Option LinkConditions) (budget : Nat) (p : Payload)
    (hslot : (p.slot : Nat) ≤ 255) (hfits : payloadFits (some budget) p conditions key.tenant = .ok true) :
    refusal budget key.tenant p = none ∧
    (∀ m, Reached key.tenant m → (m.packetSeq : Nat) < u32Max →
      ∃ m' packet, outgoing budget key.tenant m (some p) conditions = .ok (m', packet) ∧
        (wrap key conditions packet).encodedLen ≤ budget) ∧
    ∀ later, min budget guaranteedDatagramBudget ≤ later →
      (∀ header : Packet, (wrap key none { header with payloads := [p] }).encodedLen ≤ later) ∧
      ∀ m m' packet, Reached key.tenant m → outgoing later key.tenant m none none = .ok (m', packet) → p ∈ packet.payloads →
        (wrap key none packet).encodedLen ≤ later := by
  have hfloor := (payloadFits_eq_true.mp hfits).2
  have hsmall : prost.lonePacketLen p ≤ guaranteedDatagramBudget := hfloor.trans (by unfold packetAdmissionFloor; omega)
  have hwire : (p.slot : Nat) < 256 := by omega
  have hrefusal : refusal budget key.tenant p = none := refusal_eq_none.mpr ⟨by simp [SlotId.ofWire, hwire], hfloor⟩
  refine ⟨hrefusal, fun m hm hseq => outgoing_of_fits key hwire hfits hm hseq, fun later hlater => ⟨fun header => ?_,
    fun m m' packet hm hout hp => ?_⟩⟩
  · have hlone := encodedLen_alone_le header p
    refine encodedLen_wrap_le key.session (encodedLen_pos mem_cons_self) ?_ ?_
    · unfold guaranteedDatagramBudget at hsmall
      omega
    · unfold packetAdmissionFloor at hfloor
      simp only [meshPacketBudget, Option.map_none, Option.getD_none]
      omega
  · obtain ⟨-, hbuild⟩ := outgoing_eq_ok hout
    obtain ⟨hlt, redundant, hpayloads, hwithin⟩ := hm.packetLen_lt (by simp) hbuild
    have hsome : redundant ≠ [] := by
      rintro rfl
      rw [hpayloads] at hp
      cases hp
    exact encodedLen_wrap_le key.session (encodedLen_pos hp) hlt (hwithin.resolve_left hsome)

/-- The acks of a session whose first turn is unacked. -/
def Demo.opened : AckManager := (Op.build (some (Demo.turn 0)) (meshPacketBudget 1200 none (some "t"))).apply .prost .new

/-- The second turn of a session with a tenant, beside the conditions of one client. -/
theorem payload_that_fits_is_sent_second :
    let conditions : Option LinkConditions := some ⟨[⟨3, 40000, 1, 200, none⟩]⟩
    payloadFits (some 1200) (Demo.turn 1) conditions (some "t") = .ok true ∧
    ∃ m' packet, outgoing 1200 (some "t") Demo.opened (some (Demo.turn 1)) conditions = .ok (m', packet) ∧
      (wrap ⟨5, some "t"⟩ conditions packet).encodedLen ≤ 1200 := by
  intro conditions
  have hfits : payloadFits (some 1200) (Demo.turn 1) conditions (some "t") = .ok true := rfl
  have hreached : Reached (some "t") Demo.opened := .call .opened (.send none rfl) (by unfold Held; decide)
  exact ⟨hfits,
    (payload_that_fits_is_sent ⟨5, some "t"⟩ conditions 1200 (Demo.turn 1) (by decide) hfits).2.1 _ hreached (by decide)⟩

/-- A session that only flushes comes to every packet seq. -/
theorem flushed (n : Nat) (hn : n ≤ u32Max) :
    ∃ m, Reached none m ∧ (m.packetSeq : Nat) = n ∧ m.unackedPayloads = .empty := by
  induction n with
  | zero => exact ⟨.new, .opened, rfl, rfl⟩
  | succ n ih =>
    obtain ⟨m, hm, hseq, hempty⟩ := ih (Nat.le_of_succ_le hn)
    obtain ⟨m', packet, hbuild⟩ := buildOutgoing_isOk .prost m none (meshPacketBudget 1200 none none) (by omega)
    have hout : outgoing 1200 none m none none = .ok (m', packet) := by simp [outgoing, hbuild]
    have hsame : m'.unackedPayloads = .empty := by
      unfold buildOutgoing at hbuild
      split at hbuild
      · cases hbuild
      · cases hbuild
        exact hempty
    refine ⟨m', hm.outgoing hout ?_, (buildOutgoing_spec hbuild).next.trans (by omega), hsame⟩
    unfold Held windowLen
    rw [hsame]
    exact Nat.zero_le _

/-- A turn that fits is refused when the session's packet sequence is used up. -/
theorem payload_that_fits_is_refused : ∃ m, Reached none m ∧ payloadFits (some 1200) (Demo.turn 0) none none = .ok true ∧
    outgoing 1200 none m (some (Demo.turn 0)) none = .error .packetSeqExhausted := by
  obtain ⟨m, hm, hseq, -⟩ := flushed u32Max (Nat.le_refl _)
  have hnext : nextSeq m.packetSeq = none := dif_neg (by rw [hseq]; decide)
  refine ⟨m, hm, rfl, ?_⟩
  have hadmitted : refusal 1200 none (Demo.turn 0) = none := rfl
  simp [outgoing, hadmitted, buildOutgoing, hnext]

end MeshLink

end RallyPoint.Transport
