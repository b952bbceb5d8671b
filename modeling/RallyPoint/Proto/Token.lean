import RallyPoint.Lib.Codec
import RallyPoint.Proto.Messages

/-!
# `Proto.Token` — authorization tokens and connection challenges

The model of `proto/src/token/mod.rs`: the canonical binary format of a signed token, and the message a
client signs to prove that it holds the key its token names. A string is the UTF-8 bytes it stands for;
its length is counted in bytes.

A reader here takes the bytes that are left and returns the ones after it, where the source keeps a
position.
-/

namespace RallyPoint.Proto

open Lib Lib.Codec

def tokenVersion : UInt8 := 1

def publicKeyLen : Nat := 32

def signatureLen : Nat := 64

def challengeLen : Nat := 32

def channelBindingLen : Nat := 32

/-- What the one-byte length of a string can say. -/
def maxStringLen : Nat := 255

def challengeDomainTag : UInt8 := 0x01

/-- The errors of encoding and decoding. -/
inductive TokenError where
  | malformed (what : String)
  | unsupportedVersion (version : UInt8)
  | stringTooLong
  | trailingBytes
deriving DecidableEq

/-- Which tenant signing key signed a token. -/
structure KeyId where
  name : String

structure TokenClaims where
  tenant : String
  session : U64
  slot : SlotId
  expiresAt : U64
  clientPubkey : List.Vector UInt8 publicKeyLen

structure SignedToken where
  kid : KeyId
  claims : TokenClaims
  signature : List.Vector UInt8 signatureLen

/-! ## Fields -/

/-- `s.as_bytes()`. -/
def asBytes (s : String) : List UInt8 := s.toUTF8.data.toList

def fromUtf8 (bytes : List UInt8) : Option String := String.fromUTF8? ⟨bytes.toArray⟩

def toLeBytes (x : U64) : List.Vector UInt8 8 := ⟨toLe 8 x, length_toLe 8 x⟩

theorem ofLe_lt_u64 (bytes : List.Vector UInt8 8) : ofLe bytes.toList < 2 ^ 64 := by
  have h := ofLe_lt bytes.toList
  rwa [List.Vector.toList_length] at h

def fromLeBytes (bytes : List.Vector UInt8 8) : U64 := ⟨ofLe bytes.toList, ofLe_lt_u64 bytes⟩

def pushString (out : List UInt8) (s : String) : Except TokenError (List UInt8) :=
  if maxStringLen < s.utf8ByteSize then .error .stringTooLong
  else .ok (out ++ UInt8.ofNat s.utf8ByteSize :: asBytes s)

def readString : List UInt8 → Except TokenError (String × List UInt8)
  | [] => .error (.malformed "truncated at string length")
  | len :: body =>
    match splitBytes len.toNat body with
    | none => .error (.malformed "truncated at string body")
    | some (s, rest) =>
      match fromUtf8 s.toList with
      | none => .error (.malformed "string field is not valid UTF-8")
      | some s => .ok (s, rest)

def readU64Le (bytes : List UInt8) : Except TokenError (U64 × List UInt8) :=
  match splitBytes 8 bytes with
  | none => .error (.malformed "truncated at u64")
  | some (v, rest) => .ok (fromLeBytes v, rest)

/-- The slot's byte. -/
def readSlot : List UInt8 → Except TokenError (SlotId × List UInt8)
  | [] => .error (.malformed "truncated at slot")
  | slot :: rest => .ok (⟨slot.toNat, slot.toNat_lt⟩, rest)

/-- The client's key. Its slice has the right length already, so `from_slice` does not refuse it. -/
def readPubkey (bytes : List UInt8) : Except TokenError (List.Vector UInt8 publicKeyLen × List UInt8) :=
  match splitBytes publicKeyLen bytes with
  | none => .error (.malformed "truncated at client_pubkey")
  | some v => .ok v

/-! ## The signed range -/

/-- The bytes from the version through the client's key, appended to `out`. -/
def encodeSignedRange (out : List UInt8) (version : UInt8) (kid : KeyId) (claims : TokenClaims) :
    Except TokenError (List UInt8) := do
  let out ← pushString (out ++ [version]) kid.name
  let out ← pushString out claims.tenant
  return out ++ (toLeBytes claims.session).toList ++ [UInt8.ofNat claims.slot] ++ (toLeBytes claims.expiresAt).toList ++
    claims.clientPubkey.toList

def signedRangeLen (kid : KeyId) (claims : TokenClaims) : Nat :=
  1 + 1 + kid.name.utf8ByteSize + 1 + claims.tenant.utf8ByteSize + 8 + 1 + 8 + publicKeyLen

def checkedSignedRangeLen (kid : KeyId) (claims : TokenClaims) : Option Nat :=
  if maxStringLen < kid.name.utf8ByteSize ∨ maxStringLen < claims.tenant.utf8ByteSize then none
  else some (signedRangeLen kid claims)

/-- `decode_signed_range_v1`, whose caller has checked the version byte. -/
def decodeSignedRangeV1 (bytes : List UInt8) : Except TokenError (KeyId × TokenClaims × List UInt8) := do
  let (kid, rest) ← readString (bytes.drop 1)
  let (tenant, rest) ← readString rest
  let (session, rest) ← readU64Le rest
  let (slot, rest) ← readSlot rest
  let (expiresAt, rest) ← readU64Le rest
  let (clientPubkey, rest) ← readPubkey rest
  return (⟨kid⟩, ⟨tenant, session, slot, expiresAt, clientPubkey⟩, rest)

namespace SignedToken

variable (t : SignedToken) (out : List UInt8)

/-- The bytes the signature covers, appended to `out`. -/
def signedMessage : Except TokenError (List UInt8) := encodeSignedRange out tokenVersion t.kid t.claims

def encodeTo : Except TokenError (List UInt8) := do
  let out ← encodeSignedRange out tokenVersion t.kid t.claims
  return out ++ t.signature.toList

def encode : Except TokenError (List UInt8) := t.encodeTo []

def encodedLen : Option Nat := (checkedSignedRangeLen t.kid t.claims).map (· + signatureLen)

/-- The version is looked at first, so that a token of another format is not called malformed. -/
def decode (bytes : List UInt8) : Except TokenError SignedToken :=
  match bytes.head? with
  | none => .error (.malformed "empty token")
  | some version =>
    if version ≠ tokenVersion then .error (.unsupportedVersion version)
    else do
      let (kid, claims, rest) ← decodeSignedRangeV1 bytes
      match splitBytes signatureLen rest with
      | none => .error (.malformed "signature too short")
      | some (signature, trailing) => if trailing ≠ [] then .error .trailingBytes else .ok ⟨kid, claims, signature⟩

end SignedToken

/-! ## The challenge -/

/-- The nonce a relay sends to a client that presented a token. -/
structure ConnectionChallenge where
  nonce : List.Vector UInt8 challengeLen

def ConnectionChallenge.signedMessage (c : ConnectionChallenge)
    (channelBinding : List.Vector UInt8 channelBindingLen) : List UInt8 :=
  challengeDomainTag :: channelBinding.toList ++ c.nonce.toList

end RallyPoint.Proto
