import RallyPoint.Proto.Token

/-!
# `Proto.Correctness.Token` — one encoding for each token

Each field's reader undoes its writer (`Lib.Codec.Inverse`), so the whole format does: a token has one
encoding, whatever decodes is that encoding, and the signed range says the key id and the claims and
nothing else.

The challenge a client signs starts with a tag that is the version byte of a token. The two messages are
told apart by their lengths only, and `challenge_collides_iff` says when those agree.
-/

namespace RallyPoint.Proto

open Lib Lib.Codec List

/-! ## The fields -/

/-- A string the format can carry. -/
def Fits (s : String) : Prop := s.utf8ByteSize ≤ maxStringLen

instance Fits.decidable (s : String) : Decidable (Fits s) := Nat.decLe _ _

/-- A string with its length in front. -/
def stringBytes (s : String) : List UInt8 := UInt8.ofNat s.utf8ByteSize :: asBytes s

@[simp] theorem length_asBytes (s : String) : (asBytes s).length = s.utf8ByteSize := rfl

@[simp] theorem length_stringBytes (s : String) : (stringBytes s).length = 1 + s.utf8ByteSize := by
  rw [stringBytes, length_cons, length_asBytes, Nat.add_comm]

theorem fromUtf8_asBytes (s : String) : fromUtf8 (asBytes s) = some s := by
  unfold fromUtf8 asBytes String.fromUTF8?
  exact dif_pos s.isValidUTF8

variable {claims : TokenClaims} {kid : KeyId} {s : String}

theorem fromUtf8_eq_some {bytes : List UInt8} (h : fromUtf8 bytes = some s) : asBytes s = bytes := by
  unfold fromUtf8 String.fromUTF8? at h
  split at h
  · cases h
    rfl
  · cases h

theorem Fits.toNat_ofNat (h : Fits s) : (UInt8.ofNat s.utf8ByteSize).toNat = s.utf8ByteSize := by
  rw [UInt8.toNat_ofNat']
  exact Nat.mod_eq_of_lt (Nat.lt_succ_of_le h)

theorem readString_inverse : Inverse Fits stringBytes readString where
  read_write := by
    intro s hs rest
    have hsplit : splitBytes (UInt8.ofNat s.utf8ByteSize).toNat (asBytes s ++ rest) =
      some (⟨asBytes s, hs.toNat_ofNat.symm⟩, rest) :=
      splitBytes_append ⟨asBytes s, hs.toNat_ofNat.symm⟩ rest
    have hutf : fromUtf8 (List.Vector.toList ⟨asBytes s, hs.toNat_ofNat.symm⟩) = some s := fromUtf8_asBytes s
    rw [stringBytes, cons_append, readString, hsplit]
    simp only [hutf]
  write_read := by
    intro bytes s rest h
    cases bytes with
    | nil => cases h
    | cons len body =>
      simp only [readString] at h
      cases hsplit : splitBytes len.toNat body with
      | none =>
        simp only [hsplit] at h
        cases h
      | some sr =>
        obtain ⟨v, tail⟩ := sr
        simp only [hsplit] at h
        cases hutf : fromUtf8 v.toList with
        | none =>
          simp only [hutf] at h
          cases h
        | some s' =>
          simp only [hutf] at h
          cases h
          have hbytes := fromUtf8_eq_some hutf
          have hlen : s.utf8ByteSize = len.toNat := by
            rw [← length_asBytes, hbytes, List.Vector.toList_length]
          refine ⟨?_, ?_⟩
          · show s.utf8ByteSize ≤ maxStringLen
            rw [hlen]
            exact Nat.le_of_lt_succ len.toNat_lt
          · rw [splitBytes_eq_some.mp hsplit, stringBytes, hlen, UInt8.ofNat_toNat, hbytes, cons_append]

theorem fromLeBytes_toLeBytes (x : U64) : fromLeBytes (toLeBytes x) = x := by
  have hlt : (x : Nat) < 256 ^ 8 := x.isLt
  exact Fin.ext (ofLe_toLe hlt)

theorem toLeBytes_fromLeBytes (v : List.Vector UInt8 8) : toLeBytes (fromLeBytes v) = v := by
  obtain ⟨l, hl⟩ := v
  refine Subtype.ext ?_
  show toLe 8 (ofLe l) = l
  rw [← hl]
  exact toLe_ofLe l

theorem readU64Le_inverse : Inverse (fun _ => True) (fun x => (toLeBytes x).toList) readU64Le where
  read_write := by
    intro x _ rest
    rw [readU64Le, splitBytes_append]
    simp only [fromLeBytes_toLeBytes]
  write_read := by
    intro bytes x rest h
    unfold readU64Le at h
    cases hsplit : splitBytes 8 bytes with
    | none =>
      rw [hsplit] at h
      cases h
    | some vr =>
      rw [hsplit] at h
      cases h
      refine ⟨trivial, ?_⟩
      rw [toLeBytes_fromLeBytes]
      exact splitBytes_eq_some.mp hsplit

theorem readSlot_inverse : Inverse (fun _ => True) (fun slot : SlotId => [UInt8.ofNat slot]) readSlot where
  read_write := by
    intro slot _ rest
    have hslot : (UInt8.ofNat slot).toNat = slot := by
      rw [UInt8.toNat_ofNat']
      exact Nat.mod_eq_of_lt slot.isLt
    simp only [cons_append, nil_append, readSlot]
    congr 2
    exact Fin.ext hslot
  write_read := by
    intro bytes slot rest h
    cases bytes with
    | nil => cases h
    | cons b tail =>
      cases h
      exact ⟨trivial, by rw [UInt8.ofNat_toNat]; rfl⟩

theorem readPubkey_inverse : Inverse (fun _ => True)
    (fun key : List.Vector UInt8 publicKeyLen => key.toList) readPubkey where
  read_write := by
    intro key _ rest
    rw [readPubkey, splitBytes_append]
  write_read := by
    intro bytes key rest h
    unfold readPubkey at h
    cases hsplit : splitBytes publicKeyLen bytes with
    | none =>
      rw [hsplit] at h
      cases h
    | some vr =>
      rw [hsplit] at h
      cases h
      exact ⟨trivial, splitBytes_eq_some.mp hsplit⟩

/-! ## The signed range -/

/-- The key id and the claims that the format can carry. -/
def Encodable (kid : KeyId) (claims : TokenClaims) : Prop := Fits kid.name ∧ Fits claims.tenant

/-- The bytes of the signed range after the version. -/
def rangeBytes (kid : KeyId) (claims : TokenClaims) : List UInt8 :=
  stringBytes kid.name ++ (stringBytes claims.tenant ++ ((toLeBytes claims.session).toList ++
    ([UInt8.ofNat claims.slot] ++ ((toLeBytes claims.expiresAt).toList ++ claims.clientPubkey.toList))))

theorem length_rangeBytes (kid : KeyId) (claims : TokenClaims) :
    1 + (rangeBytes kid claims).length = signedRangeLen kid claims := by
  simp only [rangeBytes, length_append, length_stringBytes, List.Vector.toList_length, length_singleton, signedRangeLen]
  omega

theorem pushString_fits (h : Fits s) (out : List UInt8) :
    pushString out s = .ok (out ++ stringBytes s) := if_neg (not_lt.mpr h)

theorem pushString_long (h : ¬ Fits s) (out : List UInt8) : pushString out s = .error .stringTooLong := if_pos (not_le.mp h)

/-- **What is signed**, and that a string too long is the only thing that is refused. -/
theorem encodeSignedRange_eq_ok {out m : List UInt8} {version : UInt8} :
    encodeSignedRange out version kid claims = .ok m ↔ Encodable kid claims ∧ m = out ++
      version :: rangeBytes kid claims := by
  unfold encodeSignedRange Encodable rangeBytes
  by_cases hkid : Fits kid.name
  · rw [pushString_fits hkid]
    show (pushString _ _ >>= _) = _ ↔ _
    by_cases htenant : Fits claims.tenant
    · rw [pushString_fits htenant]
      show Except.ok _ = _ ↔ _
      simp [hkid, htenant, eq_comm]
    · rw [pushString_long htenant]
      show Except.error _ = _ ↔ _
      simp [htenant]
  · rw [pushString_long hkid]
    show Except.error _ = _ ↔ _
    simp [hkid]

theorem decodeSignedRangeV1_write (h : Encodable kid claims) (version : UInt8) (rest : List UInt8) :
    decodeSignedRangeV1 (version :: rangeBytes kid claims ++ rest) = .ok (kid, claims, rest) := by
  unfold decodeSignedRangeV1 rangeBytes
  rw [cons_append, drop_succ_cons, drop_zero]
  simp only [append_assoc]
  rw [readString_inverse.read_bind h.1, readString_inverse.read_bind h.2, readU64Le_inverse.read_bind trivial,
    readSlot_inverse.read_bind trivial, readU64Le_inverse.read_bind trivial, readPubkey_inverse.read_bind trivial]
  rfl

theorem decodeSignedRangeV1_read {bytes rest : List UInt8} (h : decodeSignedRangeV1 bytes = .ok (kid, claims, rest)) :
    Encodable kid claims ∧ bytes.drop 1 = rangeBytes kid claims ++ rest := by
  obtain ⟨⟨k, r₁⟩, hk, h⟩ := bind_eq_ok h
  obtain ⟨⟨tenant, r₂⟩, ht, h⟩ := bind_eq_ok h
  obtain ⟨⟨session, r₃⟩, hs, h⟩ := bind_eq_ok h
  obtain ⟨⟨slot, r₄⟩, hslot, h⟩ := bind_eq_ok h
  obtain ⟨⟨expires, r₅⟩, he, h⟩ := bind_eq_ok h
  obtain ⟨⟨key, r₆⟩, hkey, h⟩ := bind_eq_ok h
  cases h
  obtain ⟨hkfits, hk⟩ := readString_inverse.write_read hk
  obtain ⟨htfits, ht⟩ := readString_inverse.write_read ht
  refine ⟨⟨hkfits, htfits⟩, ?_⟩
  rw [hk, ht, (readU64Le_inverse.write_read hs).2, (readSlot_inverse.write_read hslot).2,
    (readU64Le_inverse.write_read he).2, (readPubkey_inverse.write_read hkey).2]
  simp only [rangeBytes, append_assoc]

/-- No two key ids and claims share their signed bytes, whatever follows them. -/
theorem rangeBytes_inj {kid' : KeyId} {claims' : TokenClaims} {r s : List UInt8} (h : Encodable kid claims)
    (h' : Encodable kid' claims') (heq : rangeBytes kid claims ++ r = rangeBytes kid' claims' ++ s) :
    kid = kid' ∧ claims = claims' ∧ r = s := by
  have hread := decodeSignedRangeV1_write h tokenVersion r
  rw [cons_append, heq, ← cons_append, decodeSignedRangeV1_write h'] at hread
  cases hread
  exact ⟨rfl, rfl, rfl⟩

/-! ## The whole token -/

namespace SignedToken

/-- The bytes of a token. -/
def bytes (t : SignedToken) : List UInt8 := tokenVersion :: rangeBytes t.kid t.claims ++ t.signature.toList

theorem length_bytes (t : SignedToken) : t.bytes.length = signedRangeLen t.kid t.claims + signatureLen := by
  rw [bytes, length_append, length_cons, List.Vector.toList_length, ← length_rangeBytes, Nat.add_comm 1]

variable {t : SignedToken} {b : List UInt8}

theorem encode_eq_ok : t.encode = .ok b ↔ Encodable t.kid t.claims ∧ b = t.bytes := by
  unfold encode encodeTo
  constructor
  · intro h
    obtain ⟨m, hm, h⟩ := bind_eq_ok h
    obtain ⟨henc, rfl⟩ := encodeSignedRange_eq_ok.mp hm
    cases h
    exact ⟨henc, rfl⟩
  · rintro ⟨henc, rfl⟩
    rw [encodeSignedRange_eq_ok.mpr ⟨henc, rfl⟩]
    rfl

theorem decode_bytes (h : Encodable t.kid t.claims) : decode t.bytes = .ok t := by
  have hsig : splitBytes signatureLen t.signature.toList = some (t.signature, []) := by
    have hsplit := splitBytes_append t.signature []
    rwa [append_nil] at hsplit
  unfold decode bytes
  rw [cons_append, head?_cons, ← cons_append, decodeSignedRangeV1_write h]
  dsimp only [Except.bind, bind]
  rw [hsig]
  rfl

/-- **Only the token's own bytes decode to it.** -/
theorem decode_eq_ok (h : decode b = .ok t) : Encodable t.kid t.claims ∧ b = t.bytes := by
  unfold decode at h
  cases b with
  | nil => cases h
  | cons version body =>
    simp only [head?_cons] at h
    by_cases hv : version = tokenVersion
    · rw [if_neg (not_not.mpr hv)] at h
      obtain ⟨⟨kid, claims, rest⟩, hrange, h⟩ := bind_eq_ok h
      obtain ⟨henc, hbody⟩ := decodeSignedRangeV1_read hrange
      cases hsplit : splitBytes signatureLen rest with
      | none =>
        simp only [hsplit] at h
        cases h
      | some sr =>
        obtain ⟨signature, trailing⟩ := sr
        simp only [hsplit] at h
        by_cases htrail : trailing = []
        · rw [if_neg (not_not.mpr htrail)] at h
          cases h
          refine ⟨henc, ?_⟩
          rw [splitBytes_eq_some.mp hsplit, htrail, append_nil] at hbody
          rw [bytes, hv, cons_append, ← hbody]
          rfl
        · rw [if_pos htrail] at h
          cases h
    · rw [if_pos hv] at h
      cases h

end SignedToken

/-- **Token encoding is canonical and the signature covers every claim.** A token whose strings the
    format can carry is read back from its encoding, whose length `encoded_len` says; only that encoding
    decodes to it; what it signs is the encoding without the signature; and two tokens that sign the same
    bytes agree on the key id and every claim. -/
theorem token_encoding_canonical :
    (∀ t : SignedToken, t.kid.name.utf8ByteSize ≤ maxStringLen → t.claims.tenant.utf8ByteSize ≤ maxStringLen →
      ∃ b, t.encode = .ok b ∧ SignedToken.decode b = .ok t ∧ t.encodedLen = some b.length) ∧
    (∀ (b : List UInt8) (t : SignedToken), SignedToken.decode b = .ok t →
      t.encode = .ok b ∧ signatureLen ≤ b.length ∧ t.signedMessage [] = .ok (b.take (b.length - signatureLen))) ∧
    ∀ (t t' : SignedToken) (m : List UInt8), t.signedMessage [] = .ok m → t'.signedMessage [] = .ok m →
      t.kid = t'.kid ∧ t.claims = t'.claims := by
  refine ⟨?_, ?_, ?_⟩
  · intro t hkid htenant
    have henc : Encodable t.kid t.claims := ⟨hkid, htenant⟩
    refine ⟨t.bytes, SignedToken.encode_eq_ok.mpr ⟨henc, rfl⟩, SignedToken.decode_bytes henc, ?_⟩
    have hshort : ¬ (maxStringLen < t.kid.name.utf8ByteSize ∨ maxStringLen < t.claims.tenant.utf8ByteSize) := by omega
    rw [SignedToken.length_bytes, SignedToken.encodedLen, checkedSignedRangeLen, if_neg hshort]
    rfl
  · intro b t h
    obtain ⟨henc, rfl⟩ := SignedToken.decode_eq_ok h
    have hlen := t.length_bytes
    refine ⟨SignedToken.encode_eq_ok.mpr ⟨henc, rfl⟩, by omega, ?_⟩
    refine encodeSignedRange_eq_ok.mpr ⟨henc, ?_⟩
    have hcut : t.bytes.length - signatureLen = (tokenVersion :: rangeBytes t.kid t.claims).length := by
      rw [hlen, Nat.add_sub_cancel, length_cons, ← length_rangeBytes, Nat.add_comm]
    rw [hcut, SignedToken.bytes, take_left]
    rfl
  · intro t t' m h h'
    obtain ⟨henc, rfl⟩ := encodeSignedRange_eq_ok.mp h
    obtain ⟨henc', heq⟩ := encodeSignedRange_eq_ok.mp h'
    have hrange : rangeBytes t.kid t.claims ++ [] = rangeBytes t'.kid t'.claims ++ [] := by
      rw [append_nil, append_nil]
      exact (cons.inj heq).2
    obtain ⟨hkid, hclaims, -⟩ := rangeBytes_inj henc henc' hrange
    exact ⟨hkid, hclaims⟩

/-! ## Tokens and challenges -/

theorem ConnectionChallenge.length_signedMessage (c : ConnectionChallenge) (binding : List.Vector UInt8 channelBindingLen) :
    (c.signedMessage binding).length = 65 := by
  rw [signedMessage, length_append, length_cons, List.Vector.toList_length, List.Vector.toList_length]
  rfl

/-- The signed range of a token is as long as a challenge message for one total length of its strings. -/
theorem length_rangeBytes_eq_challenge :
    (rangeBytes kid claims).length = 64 ↔ kid.name.utf8ByteSize + claims.tenant.utf8ByteSize = 13 := by
  have h := length_rangeBytes kid claims
  simp only [signedRangeLen, publicKeyLen] at h
  omega

/-- **When a token's signed message is a challenge message**: one's tag is the other's version, so
    whenever their lengths agree some channel binding and nonce give the same bytes. -/
theorem challenge_collides_iff (t : SignedToken) :
    (∃ (c : ConnectionChallenge) (binding : List.Vector UInt8 channelBindingLen),
      t.signedMessage [] = .ok (c.signedMessage binding)) ↔
      Encodable t.kid t.claims ∧ t.kid.name.utf8ByteSize + t.claims.tenant.utf8ByteSize = 13 := by
  rw [← length_rangeBytes_eq_challenge]
  constructor
  · rintro ⟨c, binding, h⟩
    obtain ⟨henc, heq⟩ := encodeSignedRange_eq_ok.mp h
    have hlen := congrArg length heq
    rw [c.length_signedMessage, nil_append, length_cons] at hlen
    exact ⟨henc, by omega⟩
  · rintro ⟨henc, hlen⟩
    have hfirst : ((rangeBytes t.kid t.claims).take channelBindingLen).length = channelBindingLen :=
      by simp [hlen, channelBindingLen]
    have hlast : ((rangeBytes t.kid t.claims).drop channelBindingLen).length = challengeLen := by
      simp [hlen, channelBindingLen, challengeLen]
    refine ⟨⟨⟨_, hlast⟩⟩, ⟨_, hfirst⟩, encodeSignedRange_eq_ok.mpr ⟨henc, ?_⟩⟩
    show challengeDomainTag :: ((rangeBytes t.kid t.claims).take channelBindingLen ++
      (rangeBytes t.kid t.claims).drop channelBindingLen) = _
    rw [take_append_drop]
    rfl

/-- **A token's signed message is no challenge message exactly when the key id and the tenant are not 13
    bytes together**; then no signature that is good for one message at most is good for both. -/
theorem challenge_ne_signed_message (t : SignedToken) (m : List UInt8) (hm : t.signedMessage [] = .ok m) :
    ((∀ (c : ConnectionChallenge) binding, c.signedMessage binding ≠ m) ↔
      t.kid.name.utf8ByteSize + t.claims.tenant.utf8ByteSize ≠ 13) ∧
    (t.kid.name.utf8ByteSize + t.claims.tenant.utf8ByteSize ≠ 13 → ∀ (c : ConnectionChallenge) binding {Sig : Type}
      (verifies : List UInt8 → Sig → Prop), (∀ m m' s, verifies m s → verifies m' s → m = m') →
        ∀ s, ¬ (verifies (c.signedMessage binding) s ∧ verifies m s)) := by
  have hne : (∀ (c : ConnectionChallenge) binding, c.signedMessage binding ≠ m) ↔
      t.kid.name.utf8ByteSize + t.claims.tenant.utf8ByteSize ≠ 13 := by
    have hcollides := challenge_collides_iff t
    rw [and_iff_right (encodeSignedRange_eq_ok.mp hm).1] at hcollides
    rw [ne_eq, ← hcollides, hm]
    simp [eq_comm]
  refine ⟨hne, ?_⟩
  intro hlen c binding Sig verifies hone s h
  exact hne.mpr hlen c binding (hone _ _ s h.1 h.2)

/-- The claims of a token whose key id and tenant are 13 bytes together. -/
def exampleClaims : TokenClaims := ⟨"tenant-a", 7, 2, 1700000000, List.Vector.replicate 32 5⟩

def exampleToken : SignedToken := ⟨⟨"kid-1"⟩, exampleClaims, List.Vector.replicate 64 0⟩

theorem challenge_ne_signed_message_example :
    let t : SignedToken := ⟨⟨"kid-10"⟩, exampleClaims, List.Vector.replicate 64 0⟩
    let m := tokenVersion :: rangeBytes ⟨"kid-10"⟩ exampleClaims
    t.signedMessage [] = .ok m ∧ (⟨List.Vector.replicate 32 5⟩ : ConnectionChallenge).signedMessage
      (List.Vector.replicate 32 0) ≠ m := by
  intro t m
  have hm : t.signedMessage [] = .ok m := encodeSignedRange_eq_ok.mpr ⟨⟨by decide, by decide⟩, rfl⟩
  exact ⟨hm, (challenge_ne_signed_message t m hm).1.mpr (by decide) _ _⟩

/-- A token's signed message that is a challenge message: the nonce is the token's own key, and the
    binding all in front of it. -/
theorem challenge_eq_signed_message :
    let binding : List.Vector UInt8 channelBindingLen :=
      ⟨[5, 107, 105, 100, 45, 49, 8, 116, 101, 110, 97, 110, 116, 45, 97, 7, 0, 0, 0, 0, 0, 0, 0, 2,
        0, 241, 83, 101, 0, 0, 0, 0], by decide⟩
    exampleToken.signedMessage [] = .ok ((⟨List.Vector.replicate 32 5⟩ : ConnectionChallenge).signedMessage binding) := by
  decide

end RallyPoint.Proto
