import RallyPoint.Transport.AckManager

/-!
# `Transport.Correctness.AckManager` — what each operation does to the window

One lemma per operation of the `AckManager`, in terms of what the window holds (`unackedPayloads.get?`),
what the ring of sent packets holds (`sentPackets.get`) and the history. The proofs about runs use these
and unfold nothing.

- `Shrinks`: acks and cursors only take payloads out of the window, each for a reason `gone`.
- `Built`: what `build_outgoing` returns.
- `recordSent_window`, `recordSent_sent`: what recording a packet changes.
- `Keyed`: every window entry is filed under its own payload's key, in every reachable state.
- `unacked`: the window of one slot as a set of seqs, what the resume anchors are of it, and what each
  operation adds.
-/

namespace RallyPoint.Transport

open Lib List Option OrdMap

namespace AckManager

variable {m m' m'' : AckManager} {gone : PayloadKey → Prop}

/-! ## Retirement -/

/-- `m'` is `m` with some window entries taken out, each of them for a key with `gone`. -/
structure Shrinks (gone : PayloadKey → Prop) (m m' : AckManager) : Prop where
  window : ∀ k, m'.unackedPayloads.get? k = m.unackedPayloads.get? k ∨ m'.unackedPayloads.get? k = none ∧ gone k
  sent : ∀ s x, m'.sentPackets.get s = some x → m.sentPackets.get s = some x
  packetSeq : m'.packetSeq = m.packetSeq
  received : m'.receivedPackets = m.receivedPackets
  policy : m'.policy = m.policy

theorem Shrinks.refl (gone : PayloadKey → Prop) (m : AckManager) : Shrinks gone m m :=
  ⟨fun _ => .inl rfl, fun _ _ h => h, rfl, rfl, rfl⟩

theorem Shrinks.trans (h₁ : Shrinks gone m m') (h₂ : Shrinks gone m' m'') : Shrinks gone m m'' := by
  refine ⟨?_, fun s x h => h₁.sent s x (h₂.sent s x h), h₂.packetSeq.trans h₁.packetSeq,
    h₂.received.trans h₁.received, h₂.policy.trans h₁.policy⟩
  intro k
  obtain hk | hk := h₂.window k
  · rw [hk]; exact h₁.window k
  · exact .inr hk

variable {k : PayloadKey} {n : Nat} {p : Payload} {a : Nat}

/-- An entry that is left is the entry that was there. -/
theorem Shrinks.get_of_some (h : Shrinks gone m m') {e : SentPayload}
    (hk : m'.unackedPayloads.get? k = some e) : m.unackedPayloads.get? k = some e := by
  obtain heq | ⟨hnone, -⟩ := h.window k
  · rw [← heq]; exact hk
  · rw [hnone] at hk; cases hk

theorem removeUnacked_shrinks (m : AckManager) (hk : gone k) : Shrinks gone m (m.removeUnacked k) := by
  unfold removeUnacked
  split
  · exact .refl gone m
  · refine ⟨?_, fun _ _ h => h, rfl, rfl, rfl⟩
    intro k'
    rw [get?_erase]
    by_cases h : k' = k
    · subst h; exact .inr ⟨if_pos rfl, hk⟩
    · exact .inl (if_neg h)

theorem foldl_removeUnacked_shrinks (keys : List PayloadKey) (m : AckManager) (hk : ∀ k ∈ keys, gone k) :
    Shrinks gone m (keys.foldl removeUnacked m) := by
  induction keys generalizing m with
  | nil => exact .refl gone m
  | cons k keys ih =>
    have h₁ := removeUnacked_shrinks m (hk k mem_cons_self)
    exact h₁.trans (ih (m.removeUnacked k) fun k' hk' => hk k' (mem_cons_of_mem k hk'))

/-- Retiring a packet takes out what the ring says it carried. -/
theorem retirePacket_shrinks (m : AckManager) (s : Nat)
    (hk : ∀ p, m.sentPackets.get s = some p → ∀ k ∈ p.payloadSlotsSeqs, gone k) :
    Shrinks gone m (m.retirePacket s) := by
  unfold retirePacket
  have hsnd := SequenceBuffer.remove_snd m.sentPackets s
  have hfst : ∀ t x, (m.sentPackets.remove s).1.get t = some x → m.sentPackets.get t = some x :=
    fun t x h => SequenceBuffer.get_of_remove h
  generalize m.sentPackets.remove s = r at hsnd hfst
  obtain ⟨sent, found⟩ := r
  cases found with
  | none => exact .refl gone m
  | some p =>
    have hring : Shrinks gone m { m with sentPackets := sent } := ⟨fun _ => .inl rfl, hfst, rfl, rfl, rfl⟩
    exact hring.trans (foldl_removeUnacked_shrinks _ _ (hk p hsnd.symm))

/-- The packet seqs an ack with its bits names. -/
def Acked (ack : Nat) (bits : BitVec 32) (s : Nat) : Prop :=
  s = ack ∨ ∃ i, i + 1 ≤ ack ∧ bits.getLsbD i = true ∧ s = ack - (i + 1)

/-- What the ring says the packets named by an ack carried. -/
def AckedKey (m : AckManager) (ack : Nat) (bits : BitVec 32) (k : PayloadKey) : Prop :=
  ∃ s p, Acked ack bits s ∧ m.sentPackets.get s = some p ∧ k ∈ p.payloadSlotsSeqs

theorem and_one_eq_one {bits : BitVec 32} : bits &&& 1#32 = 1#32 ↔ bits.getLsbD 0 = true := by
  constructor
  · intro h
    have := congrArg (·.getLsbD 0) h
    simpa using this
  · intro h
    apply BitVec.eq_of_getLsbD_eq
    intro i hi
    by_cases h0 : i = 0
    · subst h0; simpa using h
    · simp [BitVec.getLsbD_one, h0]

/-- The loop over the ack bits retires packets that the bits name. `bits` are shifted by the rounds made. -/
theorem retireBits_shrinks {ack : Nat} {orig : BitVec 32} : ∀ (fuel i : Nat) (m : AckManager),
    (∀ s p, Acked ack orig s → m.sentPackets.get s = some p → ∀ k ∈ p.payloadSlotsSeqs, gone k) →
    Shrinks gone m (retireBits ack fuel (i + 1) (orig >>> i) m) := by
  intro fuel
  induction fuel with
  | zero => intro i m _; exact .refl gone m
  | succ fuel ih =>
    intro i m hgone
    unfold retireBits
    by_cases hlt : ack < i + 1
    · rw [if_pos hlt]
      exact .refl gone m
    · rw [if_neg hlt]
      have hround : Shrinks gone m (if (orig >>> i) &&& 1#32 = 1#32 then m.retirePacket (ack - (i + 1)) else m) := by
        by_cases hbit : (orig >>> i) &&& 1#32 = 1#32
        · rw [if_pos hbit]
          have hi : orig.getLsbD i = true := by
            have := and_one_eq_one.mp hbit
            simpa [BitVec.getLsbD_ushiftRight] using this
          exact retirePacket_shrinks m _ fun p hp =>
            hgone _ p (.inr ⟨i, not_lt.mp hlt, hi, rfl⟩) hp
        · rw [if_neg hbit]
          exact .refl gone m
      have hshift : orig >>> i >>> 1 = orig >>> (i + 1) := by
        rw [BitVec.shiftRight_add]
      rw [hshift]
      refine hround.trans (ih (i + 1) _ ?_)
      intro s p hs hp
      exact hgone s p hs (hround.sent s p hp)

/-- **An accepted packet goes into the history, and retires only what the packets it acks carried.** -/
theorem handleIncoming_shrinks {incoming : Packet} (h : m.handleIncoming incoming = .ok m') :
    Shrinks (fun k => ∃ ack, incoming.ack = some ack ∧ m.AckedKey ack incoming.ackBits k)
      { m with receivedPackets := m.receivedPackets.record incoming.seq } m' := by
  unfold handleIncoming at h
  split at h
  · cases h
  · cases hack : incoming.ack with
    | none =>
      rw [hack] at h
      cases h
      exact .refl _ _
    | some ack =>
      rw [hack] at h
      cases h
      set start : AckManager := { m with receivedPackets := m.receivedPackets.record incoming.seq }
      have hgone : ∀ s p, Acked ack incoming.ackBits s → start.sentPackets.get s = some p →
          ∀ k ∈ p.payloadSlotsSeqs, ∃ a, some ack = some a ∧ m.AckedKey a incoming.ackBits k :=
        fun s p hs hp k hk => ⟨ack, rfl, s, p, hs, hp, hk⟩
      have hfirst : Shrinks (fun k => ∃ a, some ack = some a ∧ m.AckedKey a incoming.ackBits k)
        start (start.retirePacket ack) :=
        retirePacket_shrinks start ack fun p hp => hgone ack p (.inl rfl) hp
      refine hfirst.trans ?_
      have hbits : Shrinks _ (start.retirePacket ack)
        (retireBits ack 32 (0 + 1) (incoming.ackBits >>> 0) (start.retirePacket ack)) :=
        retireBits_shrinks 32 0 _ fun s p hs hp => hgone s p hs (hfirst.sent s p hp)
      rwa [BitVec.ushiftRight_zero] at hbits

/-- A cursor retires one slot's payloads up to it. -/
theorem retirePayloadsThrough_shrinks (m : AckManager) (slot : SlotId) (through : Nat) :
    Shrinks (fun k => k.slot = slot ∧ k.seq ≤ through) m (m.retirePayloadsThrough slot through).1 := by
  refine ⟨?_, fun _ _ h => h, rfl, rfl, rfl⟩
  intro k
  show (m.unackedPayloads.filter _).get? k = _ ∨ (m.unackedPayloads.filter _).get? k = none ∧ _
  cases hk : m.unackedPayloads.get? k with
  | none =>
    left
    by_contra hne
    obtain ⟨e, he⟩ := ne_none_iff_exists'.mp hne
    rw [(get?_filter_eq_some.mp he).1] at hk
    cases hk
  | some e =>
    by_cases hkeep : k.slot ≠ slot ∨ through < k.seq
    · exact .inl (get?_filter_eq_some.mpr ⟨hk, decide_eq_true hkeep⟩)
    · right
      refine ⟨?_, ?_⟩
      · by_contra hne
        obtain ⟨e', he'⟩ := ne_none_iff_exists'.mp hne
        exact hkeep (of_decide_eq_true (get?_filter_eq_some.mp he').2)
      · push Not at hkeep
        exact hkeep

/-! ## Building and recording -/

variable {sizes : WireSizes} {payload : Option Payload} {maxPacketLen : Nat} {packet : Packet}

theorem nextSeq_eq_some {seq next : U32} (h : nextSeq seq = some next) : (next : Nat) = seq + 1 := by
  unfold nextSeq at h
  split at h
  · cases h; rfl
  · cases h

/-- What `build_outgoing` returns: the packet takes the next seq and the current acks, carries the fresh
    payload and a refill of the window, and only the fresh payload is registered. -/
structure Built (sizes : WireSizes) (m : AckManager) (payload : Option Payload) (maxPacketLen : Nat)
    (m' : AckManager) (packet : Packet) : Prop where
  seq : packet.seq = m.packetSeq
  next : (m'.packetSeq : Nat) = m.packetSeq + 1
  ack : packet.ack = m.receivedPackets.mostRecent
  bits : packet.ackBits = m.receivedPackets.ackBits
  sent : m'.sentPackets = m.sentPackets
  received : m'.receivedPackets = m.receivedPackets
  policy : m'.policy = m.policy
  payloads : ∃ used cap, packet.payloads = (freshOf payload).toList.map (·.2) ++
    (m.refill (m.spacingFor (freshOf payload)) m.packetSeq used maxPacketLen cap).map (·.payload)
  kept : ∀ k, (∀ p, freshOf payload ≠ some (k, p)) → m'.unackedPayloads.get? k = m.unackedPayloads.get? k
  entered : ∀ k p, freshOf payload = some (k, p) → m'.unackedPayloads.get? k = some (.registered sizes m.packetSeq p)

theorem buildOutgoing_spec (h : m.buildOutgoing sizes payload maxPacketLen = .ok (m', packet)) :
    Built sizes m payload maxPacketLen m' packet := by
  unfold buildOutgoing at h
  split at h
  · cases h
  · rename_i advanced hnext
    cases hfresh : freshOf payload with
    | none =>
      simp only [hfresh] at h
      cases h
      exact ⟨rfl, nextSeq_eq_some hnext, rfl, rfl, rfl, rfl, rfl, ⟨_, _, by rw [hfresh]⟩, fun _ _ => rfl,
        fun k p hk => by rw [hfresh] at hk; cases hk⟩
    | some kp =>
      obtain ⟨key, p⟩ := kp
      simp only [hfresh] at h
      cases h
      refine ⟨rfl, nextSeq_eq_some hnext, rfl, rfl, rfl, rfl, rfl, ⟨_, _, by rw [hfresh]⟩, ?_, ?_⟩
      · intro k hk
        have hne : k ≠ key := fun heq => hk p (by rw [hfresh, heq])
        show (m.unackedPayloads.insert key _).get? k = _
        rw [get?_insert, if_neg hne]
      · intro k q hk
        rw [hfresh] at hk
        cases hk
        exact get?_insert_self _ _ _

theorem freshOf_eq_some : freshOf payload = some (k, p) ↔ payload = some p ∧ p.key? = some k := by
  cases payload with
  | none => simp [freshOf]
  | some q =>
    simp only [freshOf, bind_some, map_eq_some_iff, Prod.mk.injEq, some.injEq]
    constructor
    · rintro ⟨_, hkey, rfl, rfl⟩
      exact ⟨rfl, hkey⟩
    · rintro ⟨rfl, hkey⟩
      exact ⟨k, hkey, rfl, rfl⟩

theorem freshOf_key (h : freshOf payload = some (k, p)) : p.key? = some k := (freshOf_eq_some.mp h).2

/-- A packet carries the key `k`. -/
def Carries (packet : Packet) (k : PayloadKey) : Prop := ∃ p ∈ packet.payloads, p.key? = some k

theorem carries_iff_mem : Carries packet k ↔ k ∈ packet.payloads.filterMap (·.key?) := mem_filterMap.symm

/-- Recording a packet stamps exactly the window entries it carries. -/
theorem recordSent_window (m : AckManager) (packet : Packet) (k : PayloadKey) :
    (¬ Carries packet k → (m.recordSent packet).unackedPayloads.get? k = m.unackedPayloads.get? k) ∧
    (Carries packet k → ∀ e, m.unackedPayloads.get? k = some e →
      ∃ e', (m.recordSent packet).unackedPayloads.get? k = some e' ∧ e'.payload = e.payload ∧
        e'.lastCarriedPacketSeq = some (packet.seq : Nat)) ∧
    (m.unackedPayloads.get? k = none → (m.recordSent packet).unackedPayloads.get? k = none) := by
  rw [carries_iff_mem]
  unfold recordSent
  generalize packet.payloads.filterMap (·.key?) = keys
  generalize m.unackedPayloads = window
  simp only
  induction keys generalizing window with
  | nil => exact ⟨fun _ => rfl, fun h => (not_mem_nil h).elim, fun h => h⟩
  | cons key keys ih =>
    obtain ⟨hout, hin, hnone⟩ := ih (window.modify key (carry packet.seq))
    have hmod := get?_modify window key k (carry packet.seq)
    rw [foldl_cons]
    refine ⟨?_, ?_, ?_⟩
    · intro hk
      rw [mem_cons, not_or] at hk
      rw [hout hk.2, hmod, if_neg hk.1]
    · intro hk e he
      -- a packet may carry the key more than once; the last stamp is the same one
      by_cases hmem : k ∈ keys
      · by_cases heq : k = key
        · obtain ⟨e', he', hp, hl⟩ := hin hmem (carry packet.seq e) (by rw [hmod, if_pos heq, he]; rfl)
          exact ⟨e', he', hp, hl⟩
        · exact hin hmem e (by rw [hmod, if_neg heq, he])
      · have heq : k = key := by
          rcases mem_cons.mp hk with h | h
          · exact h
          · exact absurd h hmem
        refine ⟨carry packet.seq e, ?_, rfl, rfl⟩
        rw [hout hmem, hmod, if_pos heq, he]; rfl
    · intro hk
      refine hnone ?_
      rw [hmod, hk]
      simp

/-- Building takes nothing out of the window. -/
theorem Built.isSome (h : Built sizes m payload maxPacketLen m' packet)
    (hk : (m.unackedPayloads.get? k).isSome) : (m'.unackedPayloads.get? k).isSome := by
  by_cases hf : ∃ p, freshOf payload = some (k, p)
  · obtain ⟨p, hp⟩ := hf
    rw [h.entered k p hp]; rfl
  · rw [h.kept k fun p hp => hf ⟨p, hp⟩]
    exact hk

/-- Recording takes nothing out of the window. -/
theorem recordSent_isSome (hk : (m.unackedPayloads.get? k).isSome) :
    ((m.recordSent packet).unackedPayloads.get? k).isSome := by
  obtain ⟨e, he⟩ := isSome_iff_exists.mp hk
  obtain ⟨hout, hcarried, -⟩ := recordSent_window m packet k
  by_cases hc : Carries packet k
  · obtain ⟨e', he', -⟩ := hcarried hc e he
    rw [he']; rfl
  · rw [hout hc]; exact hk

/-- The ring after recording holds the packet's keys, or what it held. -/
theorem recordSent_sent {s : Nat} {x : SentPacket} (h : (m.recordSent packet).sentPackets.get s = some x) :
    (s = packet.seq ∧ x = ⟨packet.payloads.filterMap (·.key?)⟩) ∨ m.sentPackets.get s = some x :=
  SequenceBuffer.get_of_insert h

/-- Re-injecting registers a payload that is not in the window, and changes nothing else. -/
theorem reinjectUnacked_window (sizes : WireSizes) (m : AckManager) (p : Payload) (k : PayloadKey) :
    (m.reinjectUnacked sizes p).unackedPayloads.get? k = m.unackedPayloads.get? k ∨
      p.key? = some k ∧ m.unackedPayloads.get? k = none ∧
        (m.reinjectUnacked sizes p).unackedPayloads.get? k = some (.registered sizes m.packetSeq p) := by
  unfold reinjectUnacked
  cases hkey : p.key? with
  | none => exact .inl rfl
  | some key =>
    simp only
    by_cases hin : (m.unackedPayloads.get? key).isSome = true
    · rw [if_pos hin]; exact Or.inl rfl
    · rw [if_neg hin]
      show (m.unackedPayloads.insert key _).get? k = _ ∨ _
      by_cases heq : k = key
      · subst heq
        refine .inr ⟨rfl, ?_, get?_insert_self _ _ _⟩
        simpa using hin
      · rw [get?_insert, if_neg heq]
        exact .inl rfl

theorem reinjectUnacked_packetSeq (sizes : WireSizes) (m : AckManager) (p : Payload) :
    (m.reinjectUnacked sizes p).packetSeq = m.packetSeq := by
  unfold reinjectUnacked
  split
  · rfl
  · split <;> rfl

/-! ## The window is filed by key -/

/-- What every window entry's key and payload satisfy. -/
def Filed (P : PayloadKey → Payload → Prop) (m : AckManager) : Prop :=
  ∀ k e, m.unackedPayloads.get? k = some e → P k e.payload

/-- Every window entry is filed under its own payload's key. -/
abbrev Keyed (m : AckManager) : Prop := m.Filed fun k p => p.key? = some k

section Filed

variable {P : PayloadKey → Payload → Prop}

theorem withPolicy_filed (policy : RecarryPolicy) : (withPolicy policy).Filed P := by
  intro k e h
  cases h

theorem Shrinks.filed (h : Shrinks gone m m') (hm : m.Filed P) : m'.Filed P := fun k e he => hm k e (h.get_of_some he)

theorem Built.filed (h : Built sizes m payload maxPacketLen m' packet) (hm : m.Filed P)
    (hfresh : ∀ k p, freshOf payload = some (k, p) → P k p) : m'.Filed P := by
  intro k e he
  by_cases hf : ∃ p, freshOf payload = some (k, p)
  · obtain ⟨p, hp⟩ := hf
    rw [h.entered k p hp] at he
    cases he
    exact hfresh k p hp
  · rw [h.kept k (fun p hp => hf ⟨p, hp⟩)] at he
    exact hm k e he

theorem recordSent_filed (packet : Packet) (hm : m.Filed P) : (m.recordSent packet).Filed P := by
  intro k e he
  obtain ⟨hout, hin, hnone⟩ := recordSent_window m packet k
  cases hw : m.unackedPayloads.get? k with
  | none => rw [hnone hw] at he; cases he
  | some e₀ =>
    by_cases hc : Carries packet k
    · obtain ⟨e', he', hp, -⟩ := hin hc e₀ hw
      rw [he'] at he
      cases he
      rw [hp]
      exact hm k e₀ hw
    · rw [hout hc] at he
      exact hm k e he

theorem reinjectUnacked_filed (sizes : WireSizes) (p : Payload) (hm : m.Filed P) (hp : ∀ k, p.key? = some k → P k p) :
    (m.reinjectUnacked sizes p).Filed P := by
  intro k e he
  obtain h | ⟨hkey, -, h⟩ := reinjectUnacked_window sizes m p k
  · rw [h] at he; exact hm k e he
  · rw [h] at he; cases he; exact hp k hkey

theorem resetConnection_filed (hm : m.Filed P) : m.resetConnection.Filed P := by
  intro k e he
  have hget := get?_mapValues m.unackedPayloads (fun _ sent =>
    { sent with sendCount := 0, lastCarriedPacketSeq := none, registeredAtPacketSeq := 0 }) k
  obtain ⟨e₀, he₀, heq⟩ := map_eq_some_iff.mp (hget.symm.trans he)
  rw [← heq]
  exact hm k e₀ he₀

end Filed

/-! ## The seqs of one slot -/

/-- The unacked seqs of a slot. -/
def unacked (m : AckManager) (slot : SlotId) : Set Nat := {n | (m.unackedPayloads.get? ⟨slot, n⟩).isSome = true}

theorem mem_unacked {slot : SlotId} : n ∈ m.unacked slot ↔ ∃ e,
    m.unackedPayloads.get? ⟨slot, n⟩ = some e := isSome_iff_exists

theorem mem_slotSeqs {slot : SlotId} : n ∈ m.slotSeqs slot ↔ n ∈ m.unacked slot := by
  rw [mem_unacked]
  unfold slotSeqs
  constructor
  · intro h
    obtain ⟨⟨key, e⟩, hin, rfl⟩ := mem_map.mp h
    obtain ⟨hmem, hslot⟩ := mem_filter.mp hin
    obtain rfl : key.slot = slot := by simpa using hslot
    exact ⟨e, get?_eq_some.mpr hmem⟩
  · rintro ⟨e, he⟩
    refine mem_map.mpr ⟨(⟨slot, n⟩, e), ?_, rfl⟩
    exact mem_filter.mpr ⟨get?_eq_some.mp he, by simp⟩

/-- Within a slot the keys are in the order of their seqs. -/
theorem seq_lt_of_key_lt {k' : PayloadKey} (h : k < k') (hslot : k.slot = k'.slot) : k.seq < k'.seq := by
  obtain hlt | ⟨-, hlt⟩ := (Prod.Lex.lt_iff).mp (show k.lex < k'.lex from h)
  · exact absurd hslot (ne_of_lt hlt)
  · exact hlt

theorem slotSeqs_ascending (m : AckManager) (slot : SlotId) : (m.slotSeqs slot).Pairwise (· < ·) := by
  unfold slotSeqs
  rw [pairwise_map]
  have hsorted := m.unackedPayloads.sorted.filter fun e => decide (e.1.slot = slot)
  refine hsorted.imp_of_mem ?_
  intro a b ha hb hab
  have hslot : ∀ e ∈ m.unackedPayloads.entries.filter (fun e => decide (e.1.slot = slot)), e.1.slot = slot :=
    fun e he => by simpa using (mem_filter.mp he).2
  exact seq_lt_of_key_lt hab ((hslot a ha).trans (hslot b hb).symm)

/-- **The oldest replayable seq is the least unacked one.** -/
theorem oldestReplayableSeq_eq_some {slot : SlotId} : m.oldestReplayableSeq slot = some a ↔ IsLeast (m.unacked slot) a := by
  unfold oldestReplayableSeq
  have hmem : ∀ n, n ∈ m.slotSeqs slot ↔ n ∈ m.unacked slot := fun n => mem_slotSeqs
  have hasc := slotSeqs_ascending m slot
  cases hl : m.slotSeqs slot with
  | nil =>
    rw [hl] at hmem
    constructor
    · intro h
      cases h
    · intro h
      exact absurd ((hmem a).mpr h.1) not_mem_nil
  | cons first rest =>
    rw [hl] at hmem hasc
    have hleast : IsLeast (m.unacked slot) first := by
      refine ⟨(hmem first).mp mem_cons_self, ?_⟩
      intro n hn
      obtain rfl | hn := mem_cons.mp ((hmem n).mpr hn)
      · exact le_rfl
      · exact le_of_lt ((pairwise_cons.mp hasc).1 n hn)
    rw [head?_cons, some.injEq]
    constructor
    · rintro rfl
      exact hleast
    · exact fun h => hleast.unique h

/-- Descending a list of lower seqs, highest first, ends where its run below the anchor ends. -/
theorem descend_isLeast {l : List Nat} (hdesc : l.Pairwise (· > ·)) (hlow : ∀ n ∈ l, n < a) :
    IsLeast {x | x ≤ a ∧ ∀ n, x ≤ n → n < a → n ∈ l} (descend a l) := by
  induction l generalizing a with
  | nil =>
    refine ⟨⟨le_rfl, fun n h₁ h₂ => absurd h₁ (not_le.mpr h₂)⟩, ?_⟩
    rintro x ⟨hx, hall⟩
    by_contra hlt
    exact not_mem_nil (hall x le_rfl (not_le.mp hlt))
  | cons seq rest ih =>
    obtain ⟨hbelow, hrest⟩ := pairwise_cons.mp hdesc
    unfold descend
    by_cases hadj : seq + 1 = a
    · -- one more step down: the run below `a` is `seq` with the run below `seq`
      rw [if_pos hadj]
      obtain ⟨⟨hle, hall⟩, hmin⟩ := ih hrest hbelow
      refine ⟨⟨by omega, ?_⟩, ?_⟩
      · intro n h₁ h₂
        by_cases hn : n = seq
        · exact mem_cons.mpr (.inl hn)
        · exact mem_cons_of_mem _ (hall n h₁ (by omega))
      · rintro x ⟨hx, hmem⟩
        by_cases hxa : x = a
        · omega
        · refine hmin ⟨by omega, ?_⟩
          intro n h₁ h₂
          obtain rfl | hn := mem_cons.mp (hmem n h₁ (by omega))
          · exact absurd h₂ (lt_irrefl _)
          · exact hn
    · -- the seq right below `a` is missing, so nothing lower has a full run up to `a`
      rw [if_neg hadj]
      refine ⟨⟨le_rfl, fun n h₁ h₂ => absurd h₁ (not_le.mpr h₂)⟩, ?_⟩
      rintro x ⟨hx, hmem⟩
      by_contra hlt
      have hseq : seq < a := hlow seq mem_cons_self
      obtain heq | hin := mem_cons.mp (hmem (a - 1) (by omega) (by omega))
      · omega
      · have := hbelow _ hin
        omega

/-- **The contiguous anchor is the lowest seq from which the window is full up to the front.** -/
theorem contiguousReplayableAnchor_isLeast (m : AckManager) (slot : SlotId) (front : Nat) :
    IsLeast {a | a ≤ front ∧ ∀ n, a ≤ n → n < front → n ∈ m.unacked slot} (m.contiguousReplayableAnchor slot front) := by
  have hmem : ∀ n, n ∈ ((m.slotSeqs slot).filter (· < front)).reverse ↔ n ∈ m.unacked slot ∧ n < front := by
    intro n
    rw [mem_reverse, mem_filter, mem_slotSeqs]
    simp
  have hleast := descend_isLeast (pairwise_reverse.mpr ((slotSeqs_ascending m slot).filter _))
    (a := front) fun n hn => ((hmem n).mp hn).2
  have hset : {a | a ≤ front ∧ ∀ n, a ≤ n → n < front → n ∈ ((m.slotSeqs slot).filter (· < front)).reverse} =
      {a | a ≤ front ∧ ∀ n, a ≤ n → n < front → n ∈ m.unacked slot} := by
    ext a
    refine and_congr_right fun _ => forall_congr' fun n => ?_
    exact ⟨fun h h₁ h₂ => ((hmem n).mp (h h₁ h₂)).1, fun h h₁ h₂ => (hmem n).mpr ⟨h h₁ h₂, h₂⟩⟩
  rw [hset] at hleast
  exact hleast

/-! ### What the operations do to it -/

variable {slot : SlotId}

theorem Shrinks.unacked_subset (h : Shrinks gone m m') : m'.unacked slot ⊆ m.unacked slot := by
  intro n hn
  obtain ⟨e, he⟩ := mem_unacked.mp hn
  exact mem_unacked.mpr ⟨e, h.get_of_some he⟩

theorem resetConnection_unacked (m : AckManager) (slot : SlotId) : m.resetConnection.unacked slot = m.unacked slot := by
  ext n
  show ((m.unackedPayloads.mapValues _).get? _).isSome = true ↔ (m.unackedPayloads.get? _).isSome = true
  rw [get?_mapValues, isSome_map]

/-- Re-injecting adds the payload's own seq. -/
theorem mem_unacked_reinject : n ∈ (m.reinjectUnacked sizes p).unacked slot ↔ n ∈ m.unacked slot ∨
    p.key? = some ⟨slot, n⟩ := by
  rw [mem_unacked, mem_unacked]
  obtain h | ⟨hkey, hnone, h⟩ := reinjectUnacked_window sizes m p ⟨slot, n⟩
  · rw [h]
    refine ⟨.inl, ?_⟩
    rintro (hin | hkey)
    · exact hin
    · -- the payload's key is in the window already, or it would have been registered
      by_contra hnot
      have hnone : m.unackedPayloads.get? ⟨slot, n⟩ = none := eq_none_iff_forall_ne_some.mpr fun e he => hnot ⟨e, he⟩
      have hreg : (m.reinjectUnacked sizes p).unackedPayloads.get? ⟨slot, n⟩ ≠ none := by
        unfold reinjectUnacked
        rw [hkey]
        simp only [hnone, isSome_none, Bool.false_eq_true, if_false]
        show (m.unackedPayloads.insert _ _).get? _ ≠ none
        rw [get?_insert_self]
        exact some_ne_none _
      exact hreg (h.trans hnone)
  · rw [h]
    exact ⟨fun _ => .inr hkey, fun _ => ⟨_, rfl⟩⟩

/-- A build adds at most the fresh payload's seq. -/
theorem Built.unacked_subset (h : Built sizes m payload maxPacketLen m' packet) (hn : n ∈ m'.unacked slot) :
    n ∈ m.unacked slot ∨ ∃ p, payload = some p ∧ p.key? = some ⟨slot, n⟩ := by
  by_cases hf : ∃ p, freshOf payload = some (⟨slot, n⟩, p)
  · obtain ⟨p, hp⟩ := hf
    have hkey := freshOf_key hp
    obtain ⟨q, hq, hmap⟩ := bind_eq_some_iff.mp hp
    obtain ⟨_, _, hpair⟩ := map_eq_some_iff.mp hmap
    cases hpair
    exact .inr ⟨p, hq, hkey⟩
  · obtain ⟨e, he⟩ := mem_unacked.mp hn
    rw [h.kept _ fun p hp => hf ⟨p, hp⟩] at he
    exact .inl (mem_unacked.mpr ⟨e, he⟩)

theorem recordSent_unacked_subset (m : AckManager) (packet : Packet) :
    (m.recordSent packet).unacked slot ⊆ m.unacked slot := by
  intro n hn
  obtain ⟨e, he⟩ := mem_unacked.mp hn
  by_contra hnot
  have hnone : m.unackedPayloads.get? ⟨slot, n⟩ = none :=
    eq_none_iff_forall_ne_some.mpr fun e he => hnot (mem_unacked.mpr ⟨e, he⟩)
  rw [(recordSent_window m packet ⟨slot, n⟩).2.2 hnone] at he
  cases he

end AckManager

end RallyPoint.Transport
