import RallyPoint.Transport.Correctness.AckManager
import RallyPoint.Transport.Correctness.Dedup
import RallyPoint.Transport.Link

/-!
# `Transport.Correctness.Delivery` — nothing is retired before the peer has it

A turn leaves the sender's window for one of two reasons: a packet that carried it was acked, or a cursor
passed it. An ack reaches the sender inside a packet the peer built, and says what the peer's history
said then; the peer's history holds a packet only once its payloads were handed on, unless the peer has
stopped, and then it builds nothing more.

The invariant says this of each end with its peer: `Endpoint.Good` is what one end knows of itself,
`Endpoint.Agrees` what its words mean to the other.
-/

namespace RallyPoint.Transport

open Lib AckManager List Function

/-! ## What a history claims -/

namespace ReceivedPacketHistory

/-- The history says packet `s` has arrived. -/
def Claims (h : ReceivedPacketHistory) (s : Nat) : Prop := ∃ a : U32, h.mostRecent = some a ∧ Acked a h.ackBits s

variable {bits : BitVec 32}

theorem bit_of_one {i k : Nat} (h : (1#32 <<< k).getLsbD i = true) : i = k := by
  rw [BitVec.getLsbD_shiftLeft, BitVec.getLsbD_one] at h
  simp only [Bool.and_eq_true, Bool.not_eq_true', decide_eq_true_eq, decide_eq_false_iff_not] at h
  omega

/-- A newer packet: what the shifted window claims, the old window claimed, or it is the old newest. -/
theorem acked_shift {a seq s : Nat} (hlt : a < seq)
    (h : Acked seq ((bits <<< (seq - a)) ||| (1#32 <<< (seq - a - 1))) s) : s = seq ∨ Acked a bits s := by
  obtain rfl | ⟨i, hi, hbit, rfl⟩ := h
  · exact .inl rfl
  · right
    rw [BitVec.getLsbD_or, Bool.or_eq_true] at hbit
    rcases hbit with hbit | hbit
    · -- an old bit, moved up
      rw [BitVec.getLsbD_shiftLeft] at hbit
      simp only [Bool.and_eq_true, Bool.not_eq_true', decide_eq_true_eq, decide_eq_false_iff_not] at hbit
      obtain ⟨⟨-, hge⟩, hold⟩ := hbit
      exact .inr ⟨i - (seq - a), by omega, hold, by omega⟩
    · -- the bit of the old newest packet
      have hone := bit_of_one hbit
      exact .inl (by omega)

/-- A late packet: one more bit. -/
theorem acked_late {a seq s : Nat} (hlt : seq < a)
    (h : Acked a (bits ||| (1#32 <<< (a - seq - 1))) s) : s = seq ∨ Acked a bits s := by
  obtain rfl | ⟨i, hi, hbit, rfl⟩ := h
  · exact .inr (.inl rfl)
  · rw [BitVec.getLsbD_or, Bool.or_eq_true] at hbit
    rcases hbit with hbit | hbit
    · exact .inr (.inr ⟨i, hi, hbit, rfl⟩)
    · have hone := bit_of_one hbit
      exact .inl (by omega)

/-- The history starts with no bits. -/
def Opens (h : ReceivedPacketHistory) : Prop := h.mostRecent = none → h.ackBits = 0

theorem record_opens (h : ReceivedPacketHistory) (seq : U32) : (h.record seq).Opens := by
  intro hnone
  unfold record at hnone ⊢
  cases hrecent : h.mostRecent with
  | none =>
    simp only [hrecent] at hnone
    cases hnone
  | some mostRecent =>
    simp only [hrecent] at hnone
    split at hnone
    · cases hnone
    · split at hnone
      · split at hnone
        · cases hnone
        · rw [hrecent] at hnone; cases hnone
      · rw [hrecent] at hnone; cases hnone

/-- **Recording a packet adds no claim but its own.** -/
theorem claims_record {h : ReceivedPacketHistory} {seq : U32} {s : Nat} (ho : h.Opens)
    (hs : (h.record seq).Claims s) : s = seq ∨ h.Claims s := by
  obtain ⟨a, ha, hacked⟩ := hs
  unfold record at ha hacked
  cases hrecent : h.mostRecent with
  | none =>
    simp only [hrecent] at ha hacked
    cases ha
    rw [ho hrecent] at hacked
    obtain rfl | ⟨i, -, hbit, -⟩ := hacked
    · exact .inl rfl
    · simp at hbit
  | some mostRecent =>
    simp only [hrecent] at ha hacked
    have hold : ∀ {t}, Acked mostRecent h.ackBits t → h.Claims t := fun ht => ⟨mostRecent, hrecent, ht⟩
    by_cases hnew : mostRecent < seq
    · -- a newer packet: the window moves up, or is cleared when the jump is too far
      rw [if_pos hnew] at ha hacked
      cases ha
      split at hacked
      · exact (acked_shift hnew hacked).imp_right hold
      · obtain rfl | ⟨i, -, hbit, -⟩ := hacked
        · exact .inl rfl
        · simp at hbit
    · rw [if_neg hnew] at ha hacked
      by_cases hlate : seq < mostRecent
      · -- a late packet sets its own bit, if the window still has one for it
        rw [if_pos hlate] at ha hacked
        split at ha
        · rename_i hnear
          rw [if_pos hnear] at hacked
          cases ha
          exact (acked_late hlate hacked).imp_right hold
        · rename_i hfar
          rw [if_neg hfar] at hacked
          exact .inr ⟨a, ha, hacked⟩
      · rw [if_neg hlate] at ha hacked
        exact .inr ⟨a, ha, hacked⟩

end ReceivedPacketHistory

/-! ## The invariant -/

namespace Endpoint

variable {sizes : WireSizes} {s s' t : Endpoint}

/-- The consumer of this end has been given the turn `k`. -/
def Returned (s : Endpoint) (k : PayloadKey) : Prop := ∃ p ∈ s.returned, p.key? = some k

/-- `s` has taken packet `n` of `t` whole: its consumer has every turn the packet carries. -/
def Took (s t : Endpoint) (n : Nat) : Prop := ∃ p, t.built[n]? = some p ∧ ∀ k, Carries p k → s.Returned k

/-- What one end knows of itself. -/
structure Good (s : Endpoint) : Prop where
  next : (s.link.acks.packetSeq : Nat) = s.built.length
  seqs : ∀ n p, s.built[n]? = some p → (p.seq : Nat) = n
  ring : ∀ n x, s.link.acks.sentPackets.get n = some x → ∃ p, s.built[n]? = some p ∧ x = ⟨p.payloads.filterMap (·.key?)⟩
  wire : ∀ p ∈ s.wire, p ∈ s.built
  opens : s.link.acks.receivedPackets.Opens
  demux : s.link.ingressSlot = none
  dedup : s.link.dedup.Refines receiveWindow (Delivered.none.handOn s.returned)
  pushed : ∀ c ∈ s.pushed, ∀ n ≤ c.2, s.Returned ⟨c.1, n⟩

/-- What the words of `s` mean for its peer `t`. -/
structure Agrees (s t : Endpoint) : Prop where
  /-- A running end's history claims only packets it has taken. -/
  history : s.stopped = false → ∀ n, s.link.acks.receivedPackets.Claims n → s.Took t n
  /-- So do the packets it has built. -/
  packets : ∀ p ∈ s.built, ∀ a : U32, p.ack = some a → ∀ n, Acked a p.ackBits n → s.Took t n
  /-- A turn it sent is in its window, or the peer's consumer has it. -/
  fresh : ∀ k ∈ s.fresh, (s.link.acks.unackedPayloads.get? k).isSome ∨ t.Returned k

/-- An end only ever builds and hands on more. -/
structure Grows (s s' : Endpoint) : Prop where
  built : ∀ (n : Nat) p, s.built[n]? = some p → s'.built[n]? = some p
  returned : ∀ p ∈ s.returned, p ∈ s'.returned

theorem Grows.of_eq (hb : s'.built = s.built) (hr : s'.returned = s.returned) : Grows s s' :=
  ⟨fun _ _ h => hb ▸ h, fun _ h => hr ▸ h⟩

variable {k : PayloadKey} {n : Nat} {packet : Packet} {t' : Endpoint}

theorem Returned.grows (h : Grows s s') : s.Returned k → s'.Returned k
  | ⟨p, hp, hk⟩ => ⟨p, h.returned p hp, hk⟩

theorem Took.grows (h : Grows s s') : s.Took t n → s'.Took t n
  | ⟨p, hp, hk⟩ => ⟨p, hp, fun k hc => (hk k hc).grows h⟩

theorem Took.grows_right (h : Grows t t') : s.Took t n → s.Took t' n
  | ⟨p, hp, hk⟩ => ⟨p, h.built n p hp, hk⟩

/-- What an end says stays true while its peer grows. -/
theorem Agrees.grows_right (h : s.Agrees t) (hg : Grows t t') : s.Agrees t' :=
  ⟨fun hs n hn => (h.history hs n hn).grows_right hg, fun p hp a ha n hn => (h.packets p hp a ha n hn).grows_right hg,
    fun k hk => (h.fresh k hk).imp_right (·.grows hg)⟩

theorem new_good (policy : RecarryPolicy) : (new policy).Good where
  next := rfl
  seqs := fun n p h => by simp [new] at h
  ring := fun n x h => by
    rw [show (new policy).link.acks.sentPackets = .withCapacity from rfl, SequenceBuffer.get_withCapacity] at h
    cases h
  wire := fun p h => by cases h
  opens := fun _ => rfl
  demux := rfl
  dedup := by
    rw [show (new policy).returned = [] from rfl, Delivered.handOn_nil]
    exact Dedup.withWindow_refines receiveWindow
  pushed := fun c h => by cases h

theorem new_agrees (policy : RecarryPolicy) (t : Endpoint) : (new policy).Agrees t where
  history := fun _ n h => by obtain ⟨a, ha, -⟩ := h; cases ha
  packets := fun p h => by cases h
  fresh := fun k h => by cases h

/-! ## One action -/

/-- What an action keeps. -/
def Keeps (s t s' : Endpoint) : Prop := s'.Good ∧ s'.Agrees t ∧ Grows s s'

theorem Keeps.refl (hs : s.Good) (ha : s.Agrees t) : Keeps s t s := ⟨hs, ha, .of_eq rfl rfl⟩

/-- Stopping changes no record. -/
theorem Keeps.stop (hs : s.Good) (ha : s.Agrees t) : Keeps s t { s with stopped := true } :=
  ⟨⟨hs.next, hs.seqs, hs.ring, hs.wire, hs.opens, hs.demux, hs.dedup, hs.pushed⟩,
    ⟨fun h => (Bool.noConfusion h), ha.packets, ha.fresh⟩, .of_eq rfl rfl⟩

theorem getElem?_snoc {α : Type} {l : List α} {x y : α} (h : (l ++ [x])[n]? = some y) :
    l[n]? = some y ∨ n = l.length ∧ y = x := by
  by_cases hn : n < l.length
  · rw [List.getElem?_append_left hn] at h
    exact .inl h
  · rw [getElem?_append_right (not_lt.mp hn)] at h
    have hz : n - l.length = 0 := by
      by_contra hne
      rw [getElem?_eq_none (by simp; omega)] at h
      cases h
    rw [hz] at h
    exact .inr ⟨by omega, (Option.some.inj h).symm⟩

theorem grows_build (packet : Packet) (link : Link) (fresh : List PayloadKey) :
    Grows s { s with link, fresh, built := s.built ++ [packet] } :=
  ⟨fun n p h => by
    show (s.built ++ [packet])[n]? = some p
    rw [List.getElem?_append_left (List.getElem?_eq_some_iff.mp h).1]
    exact h, fun _ h => h⟩

/-- **Building** a packet: its acks are the history's, and its fresh turn enters the window. -/
theorem act_build (hs : s.Good) (ha : s.Agrees t) (hrun : s.stopped = false) (payload : Option Payload)
    (maxPacketLen : Nat) : Keeps s t (act sizes t s (.build payload maxPacketLen)) := by
  simp only [act]
  split
  · exact .stop hs ha
  · rename_i acks packet heq
    have hb := buildOutgoing_spec heq
    have hg := grows_build (s := s) packet { s.link with acks } (s.fresh ++ (freshOf payload).toList.map (·.1))
    refine ⟨⟨?_, ?_, ?_, ?_, ?_, hs.demux, hs.dedup, hs.pushed⟩, ⟨?_, ?_, ?_⟩, hg⟩
    · show (acks.packetSeq : Nat) = (s.built ++ [packet]).length
      rw [hb.next, hs.next, length_append]; rfl
    · intro n p hp
      obtain hp | ⟨rfl, rfl⟩ := getElem?_snoc hp
      · exact hs.seqs n p hp
      · rw [hb.seq, hs.next]
    · intro n x hx
      obtain ⟨p, hp, hxp⟩ := hs.ring n x (hb.sent ▸ hx)
      exact ⟨p, hg.built n p hp, hxp⟩
    · intro p hp
      exact mem_append_left _ (hs.wire p hp)
    · show acks.receivedPackets.Opens
      rw [hb.received]; exact hs.opens
    · intro _ n hn
      have hn' : s.link.acks.receivedPackets.Claims n := hb.received ▸ hn
      exact (ha.history hrun n hn').grows hg
    · intro p hp a hpa n hn
      obtain hp | hp := mem_append.mp hp
      · exact (ha.packets p hp a hpa n hn).grows hg
      · -- the packet just built claims what the history claims
        obtain rfl := mem_singleton.mp hp
        have hn' : s.link.acks.receivedPackets.Claims n := ⟨a, hb.ack ▸ hpa, hb.bits ▸ hn⟩
        exact (ha.history hrun n hn').grows hg
    · intro k hk
      obtain hk | hk := mem_append.mp hk
      · exact (ha.fresh k hk).imp_left hb.isSome
      · obtain ⟨⟨k', p⟩, hkp, rfl⟩ := mem_map.mp hk
        left
        show (acks.unackedPayloads.get? k').isSome
        rw [hb.entered k' p (Option.mem_toList.mp hkp)]; rfl

/-- **Recording** a packet: the ring holds what it carried. -/
theorem act_record (hs : s.Good) (ha : s.Agrees t) (i : Nat) : Keeps s t (act sizes t s (.record i)) := by
  simp only [act]
  split
  · exact .refl hs ha
  · rename_i packet heq
    refine ⟨⟨hs.next, hs.seqs, ?_, ?_, hs.opens, hs.demux, hs.dedup, hs.pushed⟩,
      ⟨ha.history, ha.packets, ?_⟩, .of_eq rfl rfl⟩
    · intro n x hx
      obtain ⟨rfl, rfl⟩ | hx := recordSent_sent hx
      · rw [hs.seqs i packet heq]
        exact ⟨packet, heq, rfl⟩
      · exact hs.ring n x hx
    · intro p hp
      obtain hp | hp := mem_append.mp hp
      · exact hs.wire p hp
      · obtain rfl := mem_singleton.mp hp
        exact mem_of_getElem? heq
    · intro k hk
      exact (ha.fresh k hk).imp_left recordSent_isSome

theorem returned_iff : s.Returned k ↔ k.seq ∈ Delivered.none.handOn s.returned k.slot := by
  constructor
  · rintro ⟨p, hp, hk⟩
    exact .inr ⟨p, hp, hk⟩
  · rintro (h | ⟨p, hp, hk⟩)
    · cases h
    · exact ⟨p, hp, hk⟩

theorem handOn_append (D : Delivered) (ps qs : List Payload) : D.handOn (ps ++ qs) = (D.handOn ps).handOn qs := by
  funext slot
  apply Set.ext
  intro n
  simp only [Delivered.handOn, Set.mem_union, Set.mem_ofPred_eq, mem_append, or_and_right, exists_or, or_assoc]

/-- An accepted packet retires only turns that the peer's consumer has: the peer took each packet it acks
    whole before it built this one. -/
theorem acked_returned (hs : s.Good) (hpeer : t.Agrees s) (hp : packet ∈ t.built)
    {ack : U32} (hack : packet.ack = some ack) (hk : s.link.acks.AckedKey ack packet.ackBits k) : t.Returned k := by
  obtain ⟨n, x, hn, hx, hkx⟩ := hk
  obtain ⟨p, hp', rfl⟩ := hs.ring n x hx
  obtain ⟨q, hq, hall⟩ := hpeer.packets packet hp ack hack n hn
  obtain rfl : p = q := Option.some.inj (hp'.symm.trans hq)
  exact hall k (carries_iff_mem.mpr hkx)

/-- The end after a packet's acks were folded in and, unless it has stopped, its payloads handed on. -/
theorem took_packet (hs : s.Good) (ha : s.Agrees t) (hpeer : t.Agrees s) (hp : packet ∈ t.built)
    {acks : AckManager} (hacks : s.link.acks.handleIncoming packet = .ok acks) {dedup : Dedup} (fresh : List Payload)
    (stopped : Bool) (hd : dedup.Refines receiveWindow (Delivered.none.handOn (s.returned ++ fresh)))
    (htook : stopped = false → s.stopped = false ∧ ∀ n, n = (packet.seq : Nat) →
      Took { s with returned := s.returned ++ fresh } t n) :
    Keeps s t { s with link := { s.link with acks, dedup }, stopped, returned := s.returned ++ fresh } := by
  have hsh := handleIncoming_shrinks hacks
  set s' : Endpoint := { s with link := { s.link with acks, dedup }, stopped, returned := s.returned ++ fresh }
  have hg : Grows s s' := ⟨fun _ _ h => h, fun p h => mem_append_left _ h⟩
  refine ⟨⟨?_, hs.seqs, ?_, hs.wire, ?_, hs.demux, hd, ?_⟩, ⟨?_, ?_, ?_⟩, hg⟩
  · show (acks.packetSeq : Nat) = s.built.length
    rw [hsh.packetSeq]; exact hs.next
  · intro n x hx
    exact hs.ring n x (hsh.sent n x hx)
  · show acks.receivedPackets.Opens
    rw [hsh.received]; exact ReceivedPacketHistory.record_opens _ _
  · intro c hc n hn
    exact (hs.pushed c hc n hn).grows hg
  · intro hrun n hn
    obtain ⟨hsrun, hpacket⟩ := htook hrun
    have hrec : acks.receivedPackets = s.link.acks.receivedPackets.record packet.seq := hsh.received
    have hn' : (s.link.acks.receivedPackets.record packet.seq).Claims n := hrec ▸ hn
    obtain heq | hold := ReceivedPacketHistory.claims_record hs.opens hn'
    · exact hpacket n heq
    · exact (ha.history hsrun n hold).grows hg
  · intro p hp a hpa n hn
    exact (ha.packets p hp a hpa n hn).grows hg
  · intro k hk
    obtain hin | hret := ha.fresh k hk
    · -- what the packet's acks took out of the window the peer has returned
      obtain heq | ⟨-, ack, hack, hgone⟩ := hsh.window k
      · left
        show (acks.unackedPayloads.get? k).isSome
        rw [heq]; exact hin
      · exact .inr (acked_returned hs hpeer hp hack hgone)
    · exact .inr hret

/-- **Taking** a packet of the peer. -/
theorem act_deliver (hs : s.Good) (ha : s.Agrees t) (ht : t.Good) (hpeer : t.Agrees s) (hrun : s.stopped = false)
    (i : Nat) : Keeps s t (act sizes t s (.deliver i)) := by
  simp only [act]
  split
  · exact .refl hs ha
  · rename_i packet heq
    have hp : packet ∈ t.built := ht.wire packet (mem_of_getElem? heq)
    cases hacks : s.link.acks.handleIncoming packet with
    | error e =>
      simp only [Link.processIncoming, hacks]
      exact .stop hs ha
    | ok acks =>
      have hauth : s.link.authorize packet.payloads = packet.payloads := by
        unfold Link.authorize; rw [hs.demux]
      simp only [Link.processIncoming, hacks, hauth]
      obtain ⟨dedup, fresh, hret, hkept⟩ | ⟨e, hret⟩ := hs.dedup.retainFreshPayloads packet.payloads
      · simp only [hret, Option.bind_eq_bind, Option.bind_some]
        refine took_packet hs ha hpeer hp hacks fresh s.stopped (handOn_append _ _ _ ▸ hkept.refines) ?_
        refine fun _ => ⟨hrun, ?_⟩
        rintro n rfl
        -- the packet stands in the peer's record under its own seq, and every turn of it is handed on
        obtain ⟨j, hj⟩ := getElem?_of_mem hp
        refine ⟨packet, ht.seqs j packet hj ▸ hj, ?_⟩
        rintro k ⟨p, hpp, hkey⟩
        obtain ⟨slot, hslot, hmem⟩ := hkept.complete rfl p ((mem_insertionSort _).mpr hpp)
        rw [returned_iff, handOn_append]
        simp only [Payload.key?, hslot, Option.map_some] at hkey
        cases hkey
        exact hmem
      · simp only [hret, Option.bind_eq_bind, Option.bind_some]
        have h := took_packet hs ha hpeer hp hacks [] true (by rw [append_nil]; exact hs.dedup)
          (fun h => (Bool.noConfusion h))
        simpa only [append_nil] using h

/-- **Pushing** a cursor: everything up to it is handed on. -/
theorem act_pushCursor (hs : s.Good) (ha : s.Agrees t) (slot : SlotId) : Keeps s t (act sizes t s (.pushCursor slot)) := by
  simp only [act]
  split
  · exact .refl hs ha
  · rename_i through heq
    refine ⟨⟨hs.next, hs.seqs, hs.ring, hs.wire, hs.opens, hs.demux, hs.dedup, ?_⟩,
      ⟨ha.history, ha.packets, ha.fresh⟩, .of_eq rfl rfl⟩
    intro c hc n hn
    obtain hc | hc := mem_append.mp hc
    · exact hs.pushed c hc n hn
    · obtain rfl := mem_singleton.mp hc
      refine returned_iff.mpr ?_
      by_contra hnot
      have hleast := (hs.dedup.base_isLeast slot).2 hnot
      have htop : (s.link.dedup.entry slot).deliveredThrough = some through := Dedup.deliveredThrough_eq_entry.symm.trans heq
      have hbase : (s.link.dedup.entry slot).base = through + 1 := by
        unfold SlotDedup.base SlotDedup.seqs
        rw [htop]; rfl
      rw [hbase] at hleast
      exact absurd hn (not_le.mpr hleast)

/-- Applying a cursor takes only what it covers out of the window, and leaves the receive side alone. -/
theorem retireThrough_spec (l : Link) (slot : SlotId) (through : Nat) {D : Delivered}
    (hd : l.dedup.Refines receiveWindow D) :
    Shrinks (fun k => k.slot = slot ∧ k.seq ≤ through) l.acks (l.retireThrough slot through).1.acks ∧
      (l.retireThrough slot through).1.dedup.Refines receiveWindow D ∧
      (l.retireThrough slot through).1.ingressSlot = l.ingressSlot := by
  unfold Link.retireThrough Dedup.advanceRetiredThrough
  by_cases hpast : (l.dedup.retiredThrough slot).any (through ≤ ·) = true
  · rw [if_pos hpast]
    exact ⟨.refl _ _, hd, rfl⟩
  · rw [if_neg hpast]
    exact ⟨retirePayloadsThrough_shrinks l.acks slot through, ⟨hd.window, hd.strict, hd.good, hd.delivered⟩, rfl⟩

/-- **Applying** a cursor of the peer: it retires only turns the peer's consumer has. -/
theorem act_takeCursor (hs : s.Good) (ha : s.Agrees t) (ht : t.Good) : Keeps s t (act sizes t s .takeCursor) := by
  simp only [act]
  split
  · exact .refl hs ha
  · rename_i slot through heq
    obtain ⟨hsh, hd, hslot⟩ := retireThrough_spec s.link slot through hs.dedup
    refine ⟨⟨?_, hs.seqs, ?_, hs.wire, ?_, hslot.trans hs.demux, hd, hs.pushed⟩, ⟨?_, ha.packets, ?_⟩, .of_eq rfl rfl⟩
    · show ((s.link.retireThrough slot through).1.acks.packetSeq : Nat) = s.built.length
      rw [hsh.packetSeq]; exact hs.next
    · intro n x hx
      exact hs.ring n x (hsh.sent n x hx)
    · show (s.link.retireThrough slot through).1.acks.receivedPackets.Opens
      rw [hsh.received]; exact hs.opens
    · intro hrun n hn
      exact ha.history hrun n (hsh.received ▸ hn)
    · intro k hk
      obtain hin | hret := ha.fresh k hk
      · obtain hkeep | ⟨-, hslot, hle⟩ := hsh.window k
        · left
          show ((s.link.retireThrough slot through).1.acks.unackedPayloads.get? k).isSome
          rw [hkeep]; exact hin
        · right
          have h := ht.pushed (slot, through) (mem_of_getElem? heq) k.seq hle
          rw [← hslot] at h
          exact h
      · exact .inr hret

/-- **One action keeps what the two ends know of each other.** -/
theorem act_keeps (sizes : WireSizes) (hs : s.Good) (ha : s.Agrees t) (ht : t.Good)
    (hpeer : t.Agrees s) (hrun : s.stopped = false) (a : Action) : Keeps s t (act sizes t s a) := by
  cases a with
  | build payload maxPacketLen => exact act_build hs ha hrun payload maxPacketLen
  | record i => exact act_record hs ha i
  | deliver i => exact act_deliver hs ha ht hpeer hrun i
  | pushCursor slot => exact act_pushCursor hs ha slot
  | takeCursor => exact act_takeCursor hs ha ht

end Endpoint

/-! ## Any interleaving -/

namespace Net

/-- Both ends are good, and each means to the other what it says. -/
def Sound (net : Net) : Prop := ∀ x, (net x).Good ∧ (net x).Agrees (net x.peer)

theorem new_sound (policies : Party → RecarryPolicy) : (new policies).Sound :=
  fun x => ⟨Endpoint.new_good (policies x), Endpoint.new_agrees (policies x) _⟩

theorem peer_peer (x : Party) : x.peer.peer = x := by cases x <;> rfl

theorem peer_ne (x : Party) : x.peer ≠ x := by cases x <;> decide

theorem eq_or_eq_peer (x y : Party) : y = x ∨ y = x.peer := by cases x <;> cases y <;> decide

theorem step_sound {net : Net} (h : net.Sound) (sizes : WireSizes) (a : Party × Endpoint.Action) :
    (net.step sizes a).Sound := by
  obtain ⟨x, act⟩ := a
  unfold step
  by_cases hstop : (net x).stopped = true
  · rw [if_pos hstop]; exact h
  · rw [if_neg hstop]
    have hrun : (net x).stopped = false := Bool.not_eq_true _ ▸ hstop
    obtain ⟨hpgood, hpagrees⟩ := h x.peer
    rw [peer_peer] at hpagrees
    obtain ⟨hgood, hagrees, hgrows⟩ := Endpoint.act_keeps sizes (h x).1 (h x).2 hpgood hpagrees hrun act
    intro y
    obtain rfl | rfl := eq_or_eq_peer x y
    · rw [update_self, update_of_ne (peer_ne y)]
      exact ⟨hgood, hagrees⟩
    · rw [update_of_ne (peer_ne x), peer_peer, update_self]
      exact ⟨hpgood, hpagrees.grows_right hgrows⟩

theorem run_sound (sizes : WireSizes) (policies : Party → RecarryPolicy) (acts : List (Party × Endpoint.Action)) :
    (run sizes policies acts).Sound :=
  foldlRecOn acts _ (new_sound policies) fun _ h a _ => step_sound h sizes a

/-- **No turn is retired before the peer's consumer has it.** Over a network that loses, repeats and
    reorders packets, with sends that may be refused and cursors on an ordered stream, after any
    interleaving: a turn that was passed as fresh to a build and is no longer in the sender's window has
    been returned as fresh by the peer. -/
theorem retired_turn_was_delivered (sizes : WireSizes) (policies : Party → RecarryPolicy)
    (acts : List (Party × Endpoint.Action)) (x : Party) (k : PayloadKey)
    (hsent : k ∈ (run sizes policies acts x).fresh)
    (hgone : (run sizes policies acts x).link.acks.unackedPayloads.get? k = none) :
    ∃ p ∈ (run sizes policies acts x.peer).returned, p.key? = some k := by
  obtain hin | hret := (run_sound sizes policies acts x).2.fresh k hsent
  · rw [hgone] at hin; cases hin
  · exact hret

/-- One turn, sent, taken by the peer and acked back. -/
theorem retired_turn_was_delivered_round_trip :
    let acts : List (Party × Endpoint.Action) := [(.near, .build (some ⟨0, 3, [], none, none, none, none⟩) 99),
      (.near, .record 0), (.far, .deliver 0), (.far, .build none 99), (.far, .record 0), (.near, .deliver 0)]
    ∃ p ∈ (run .prost (fun _ => .shipped) acts .far).returned, p.key? = some ⟨3, 0⟩ :=
  retired_turn_was_delivered .prost (fun _ => .shipped)
    [(.near, .build (some ⟨0, 3, [], none, none, none, none⟩) 99),
      (.near, .record 0), (.far, .deliver 0), (.far, .build none 99), (.far, .record 0), (.near, .deliver 0)]
    .near ⟨3, 0⟩ (by decide) (by decide)

end Net

end RallyPoint.Transport
