import RallyPoint.Lib.Word

/-!
# `Coordinator.Ledger` — the enrollment ledger of provisioned relays

The model of `coordinator/src/ledger/mod.rs`: the identities a coordinator has minted, the one-time token
that authorizes the first enroll of each, and the certificate each is bound to.

Every method takes the ledger's one lock for all its statements, so a call is one transition; a statement
that fails changes nothing, and which of them fail is an argument of the call. Token bytes come from the
system's random source and are an argument too. The digest function is a parameter, into a type of its
own. A row holds its address sets themselves, where the table holds their JSON.
-/

namespace RallyPoint.Coordinator

open Lib

inductive IpAddr where
  | v4 (octets : BitVec 32)
  | v6 (octets : BitVec 128)
deriving DecidableEq

instance SocketAddr.portNeZero : NeZero (2 ^ 16) := ⟨by decide⟩

structure SocketAddr where
  ip : IpAddr
  port : Fin (2 ^ 16)
deriving DecidableEq

/-- The SHA-256 of an enroll certificate. -/
abbrev Fingerprint := BitVec 256

/-- The digest function, a parameter throughout. -/
abbrev Sha256 := List UInt8 → Fingerprint

/-- A failure of the ledger's storage, or of what it needs to mint. -/
inductive LedgerError where
  | sqlite
  | rng
  | clock
deriving DecidableEq

/-- Why an enroll is refused. -/
inductive EnrollRefusal where
  | unknownId
  | retired
  | ipMismatch
  | fingerprintMismatch
  | tokenRequired
  | tokenInvalid
  | addrsPending
  | storage (error : LedgerError)
deriving DecidableEq

/-- How an enroll was authorized. -/
inductive Authorized where
  | firstEnroll (coldStartSecs : Option Nat)
  | reenroll
deriving DecidableEq

structure AuthorizedEnroll where
  kind : Authorized
  addrs : List SocketAddr
deriving DecidableEq

/-- A fresh identity, with its token in the clear. -/
structure Minted where
  relayId : Nat
  token : String

/-- One row of `provisioned_relays`. -/
structure LedgerRow (δ : Type) where
  region : Option String
  tokenHash : δ
  tokenExpiresAt : Nat
  tokenConsumedAt : Option U64
  certFingerprint : Option Fingerprint
  taskArn : Option String
  expectedIps : Option (List IpAddr)
  addrs : Option (List SocketAddr)
  launchedAt : U64
  enrolledAt : Option U64
  retiredAt : Option U64

/-- The table, and the next id of its `AUTOINCREMENT` key. -/
structure RelayLedger (δ : Type) where
  rows : Nat → Option (LedgerRow δ)
  nextId : Nat

/-- Which statements of an authorization fail. -/
structure Faults where
  select : Bool := false
  update : Bool := false

namespace RelayLedger

variable {δ : Type} (l : RelayLedger δ)

/-- A fresh database. -/
def empty : RelayLedger δ := ⟨fun _ => none, 1⟩

/-- An `UPDATE` of the row of one id, if there is one. -/
def updateRow (relayId : Nat) (f : LedgerRow δ → LedgerRow δ) : RelayLedger δ :=
  { l with rows := Function.update l.rows relayId ((l.rows relayId).map f) }

/-- `mint_at`. `random` is the token the random source gives, if it gives one. -/
def mintAt (sha256 : String → δ) (random : Option String) (fails : Bool) (now : U64)
    (region : Option String) (tokenTtl : U64) : RelayLedger δ × Except LedgerError Minted :=
  -- an expiry reckoned from a broken clock could never be enforced
  if (now : Nat) = u64Max then (l, .error .clock)
  else match random with
    | none => (l, .error .rng)
    | some token =>
      if fails then (l, .error .sqlite)
      else
        let row : LedgerRow δ := {
          region
          tokenHash := sha256 token
          tokenExpiresAt := saturatingAdd u64Max now tokenTtl
          tokenConsumedAt := none
          certFingerprint := none
          taskArn := none
          expectedIps := none
          addrs := none
          launchedAt := now
          enrolledAt := none
          retiredAt := none }
        ({ rows := Function.update l.rows l.nextId (some row), nextId := l.nextId + 1 }, .ok ⟨l.nextId, token⟩)

/-- The `UPDATE` that consumes the token and binds the certificate, with the number of affected rows. -/
def consumeAndBind [DecidableEq δ] (l : RelayLedger δ) (now : U64) (relayId : Nat) (certFingerprint : Fingerprint)
    (presented : δ) : RelayLedger δ × Nat :=
  match l.rows relayId with
  | none => (l, 0)
  | some row =>
    if row.tokenConsumedAt = none ∧ row.tokenHash = presented then
      (l.updateRow relayId fun row =>
        { row with tokenConsumedAt := some now, certFingerprint := some certFingerprint, enrolledAt := some now }, 1)
    else (l, 0)

def authorizeEnrollAt [DecidableEq δ] (l : RelayLedger δ) (sha256 : String → δ) (faults : Faults) (now : U64) (relayId : Nat)
    (certFingerprint : Fingerprint) (token : Option String) (peerIp : Option IpAddr) :
    RelayLedger δ × Except EnrollRefusal AuthorizedEnroll :=
  if faults.select then (l, .error (.storage .sqlite))
  else match l.rows relayId with
    | none => (l, .error .unknownId)
    | some row =>
      let expected := row.expectedIps.getD []
      let addrs := row.addrs.getD []
      if row.retiredAt.isSome then (l, .error .retired)
      -- the address gate holds for a first enroll and for every reconnect
      else if expected ≠ [] ∧ ¬ peerIp.any (· ∈ expected) then (l, .error .ipMismatch)
      else match row.certFingerprint with
        | some bound =>
          if bound ≠ certFingerprint then (l, .error .fingerprintMismatch)
          else if addrs = [] then (l, .error .addrsPending)
          else (l, .ok ⟨.reenroll, addrs⟩)
        | none =>
          match token with
          | none => (l, .error .tokenRequired)
          | some token =>
            if row.tokenExpiresAt < now then (l, .error .tokenInvalid)
            else if sha256 token ≠ row.tokenHash then (l, .error .tokenInvalid)
            -- refused before the token is spent
            else if addrs = [] then (l, .error .addrsPending)
            else if faults.update then (l, .error (.storage .sqlite))
            else
              let (l, affected) := l.consumeAndBind now relayId certFingerprint (sha256 token)
              if affected = 1 then
                let coldStartSecs := if (now : Nat) ≠ u64Max then some (now - row.launchedAt : Nat) else none
                (l, .ok ⟨.firstEnroll coldStartSecs, addrs⟩)
              else (l, .error .tokenInvalid)

/-- The first tombstone stands, and an unknown id gets none. -/
def retire (fails : Bool) (now : U64) (relayId : Nat) : RelayLedger δ × Except LedgerError Unit :=
  if fails then (l, .error .sqlite)
  else (l.updateRow relayId fun row => { row with retiredAt := row.retiredAt <|> some now }, .ok ())

def isRetired (relayId : Nat) : Bool := (l.rows relayId).any (·.retiredAt.isSome)

def recordTask (fails : Bool) (relayId : Nat) (taskArn : String) (expectedIps : List IpAddr)
    (addrs : List SocketAddr) : RelayLedger δ × Except LedgerError Unit :=
  if fails then (l, .error .sqlite)
  else (l.updateRow relayId fun row =>
    { row with taskArn := some taskArn, expectedIps := some expectedIps, addrs := some addrs }, .ok ())

def recordLaunch (fails : Bool) (relayId : Nat) (taskArn : String) : RelayLedger δ × Except LedgerError Unit :=
  if fails then (l, .error .sqlite)
  else (l.updateRow relayId fun row => { row with taskArn := some taskArn }, .ok ())

def advertisedAddrs (relayId : Nat) : Option (List SocketAddr) := (l.rows relayId).bind (·.addrs)

end RelayLedger

/-- A call that writes to the ledger. -/
inductive LedgerOp where
  | mintAt (random : Option String) (fails : Bool) (now : U64) (region : Option String) (tokenTtl : U64)
  | authorizeEnrollAt (faults : Faults) (now : U64) (relayId : Nat) (certFingerprint : Fingerprint) (token : Option String)
      (peerIp : Option IpAddr)
  | retire (fails : Bool) (now : U64) (relayId : Nat)
  | recordTask (fails : Bool) (relayId : Nat) (taskArn : String) (expectedIps : List IpAddr) (addrs : List SocketAddr)
  | recordLaunch (fails : Bool) (relayId : Nat) (taskArn : String)

/-- The ledger after one call. -/
def LedgerOp.apply {δ : Type} [DecidableEq δ] (sha256 : String → δ) (l : RelayLedger δ) : LedgerOp → RelayLedger δ
  | mintAt random fails now region tokenTtl => (l.mintAt sha256 random fails now region tokenTtl).1
  | authorizeEnrollAt faults now relayId certFingerprint token peerIp =>
    (l.authorizeEnrollAt sha256 faults now relayId certFingerprint token peerIp).1
  | retire fails now relayId => (l.retire fails now relayId).1
  | recordTask fails relayId taskArn expectedIps addrs => (l.recordTask fails relayId taskArn expectedIps addrs).1
  | recordLaunch fails relayId taskArn => (l.recordLaunch fails relayId taskArn).1

/-- The ledger after the calls `ops`, in the order the lock admits them. -/
def ledgerAfter {δ : Type} [DecidableEq δ] (sha256 : String → δ) (ops : List LedgerOp) : RelayLedger δ :=
  ops.foldl (LedgerOp.apply sha256) .empty

end RallyPoint.Coordinator
