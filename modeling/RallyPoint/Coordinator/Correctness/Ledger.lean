import Mathlib.Data.List.Induction
import RallyPoint.Coordinator.Ledger

/-!
# `Coordinator.Correctness.Ledger` — an id is bound to one certificate, once

A call changes the table in one of three ways (`Change`): not at all, by a fresh row under an id never
used before, or by an update of one row that undoes nothing (`LedgerRow.Extends`). What a row says of its
token, its certificate and its tombstone therefore holds in every later ledger, and the answers of
`authorize_enroll_at` follow from the row it reads (`authorize_eq_ok`).
-/

namespace RallyPoint.Coordinator

open Lib Function List Option RelayLedger

variable {δ : Type}

/-! ## What a call does to the table -/

/-- What no call undoes. -/
structure LedgerRow.Extends (r r' : LedgerRow δ) : Prop where
  tokenHash : r'.tokenHash = r.tokenHash
  expires : r'.tokenExpiresAt = r.tokenExpiresAt
  bound : ∀ fp, r.certFingerprint = some fp → r'.certFingerprint = some fp
  retired : r.retiredAt.isSome → r'.retiredAt.isSome

theorem LedgerRow.Extends.refl (r : LedgerRow δ) : r.Extends r := ⟨rfl, rfl, fun _ h => h, id⟩

theorem LedgerRow.Extends.trans {r r' r'' : LedgerRow δ} (h : r.Extends r') (h' : r'.Extends r'') : r.Extends r'' :=
  ⟨h'.tokenHash.trans h.tokenHash, h'.expires.trans h.expires, fun fp hfp => h'.bound fp (h.bound fp hfp),
    fun hr => h'.retired (h.retired hr)⟩

/-- The token is spent exactly when a certificate is bound. -/
def LedgerRow.Consistent (r : LedgerRow δ) : Prop := r.certFingerprint = none ↔ r.tokenConsumedAt = none

namespace RelayLedger

/-- The row a mint writes. -/
def mintRow (sha256 : String → δ) (token : String) (now : U64) (region : Option String) (tokenTtl : U64) : LedgerRow δ where
  region := region
  tokenHash := sha256 token
  tokenExpiresAt := saturatingAdd u64Max now tokenTtl
  tokenConsumedAt := none
  certFingerprint := none
  taskArn := none
  expectedIps := none
  addrs := none
  launchedAt := now
  enrolledAt := none
  retiredAt := none

/-- The row a first enroll writes. -/
def bindRow (now : U64) (certFingerprint : Fingerprint) (row : LedgerRow δ) : LedgerRow δ :=
  { row with tokenConsumedAt := some now, certFingerprint := some certFingerprint, enrolledAt := some now }

/-- Every row stands under an id already handed out, and is consistent. -/
structure Valid (l : RelayLedger δ) : Prop where
  used : ∀ id row, l.rows id = some row → id < l.nextId
  consistent : ∀ id row, l.rows id = some row → row.Consistent

theorem Valid.empty : (RelayLedger.empty : RelayLedger δ).Valid := ⟨by simp [RelayLedger.empty], by simp [RelayLedger.empty]⟩

theorem updateRow_rows (l : RelayLedger δ) (relayId : Nat) (f : LedgerRow δ → LedgerRow δ) (id : Nat) :
    (l.updateRow relayId f).rows id = if id = relayId then (l.rows id).map f else l.rows id := by
  unfold updateRow
  by_cases h : id = relayId
  · rw [h]
    simp
  · simp [h]

/-- The table with one more row, under the next id. -/
def mintedInto (l : RelayLedger δ) (row : LedgerRow δ) : RelayLedger δ := ⟨update l.rows l.nextId (some row), l.nextId + 1⟩

theorem mintedInto_rows (l : RelayLedger δ) (row : LedgerRow δ) (id : Nat) :
    (l.mintedInto row).rows id = if id = l.nextId then some row else l.rows id :=
  update_apply l.rows l.nextId (some row) id

/-- A refused mint changes nothing; any other has a usable clock, a token and a statement that ran. -/
theorem mintAt_cases (l : RelayLedger δ) (sha256 : String → δ) (random : Option String) (fails : Bool) (now : U64)
    (region : Option String) (tokenTtl : U64) :
    (∃ e, l.mintAt sha256 random fails now region tokenTtl = (l, .error e)) ∨
      ∃ token, random = some token ∧ fails = false ∧ (now : Nat) ≠ u64Max ∧
        l.mintAt sha256 random fails now region tokenTtl =
          (l.mintedInto (mintRow sha256 token now region tokenTtl), .ok ⟨l.nextId, token⟩) := by
  unfold mintAt
  by_cases hnow : (now : Nat) = u64Max
  · exact .inl ⟨_, if_pos hnow⟩
  · rw [if_neg hnow]
    cases random with
    | none => exact .inl ⟨_, rfl⟩
    | some token =>
      cases fails with
      | true => exact .inl ⟨_, rfl⟩
      | false => exact .inr ⟨token, rfl, rfl, hnow, rfl⟩

/-- **What a call can do.** -/
inductive Change (sha256 : String → δ) (op : LedgerOp) (l : RelayLedger δ) : RelayLedger δ → Prop where
  | same : Change sha256 op l l
  | mint {token : String} {now : U64} {region : Option String} {tokenTtl : U64} (hnow : (now : Nat) ≠ u64Max)
      (hop : op = .mintAt (some token) false now region tokenTtl) :
      Change sha256 op l (l.mintedInto (mintRow sha256 token now region tokenTtl))
  | update (relayId : Nat) (f : LedgerRow δ → LedgerRow δ)
      (h : ∀ row, l.rows relayId = some row → row.Consistent → row.Extends (f row) ∧ (f row).Consistent) :
      Change sha256 op l (l.updateRow relayId f)

/-! ## Authorization -/

section Authorize

variable [DecidableEq δ] {l l' : RelayLedger δ} {sha256 : String → δ} {faults : Faults} {now : U64} {relayId : Nat}
  {fp : Fingerprint} {token : Option String} {peerIp : Option IpAddr}

/-- The id's row lets the peer through. -/
def Gate (row : LedgerRow δ) (peerIp : Option IpAddr) : Prop :=
  row.retiredAt = none ∧ (row.expectedIps.getD [] = [] ∨ ∃ ip, peerIp = some ip ∧ ip ∈ row.expectedIps.getD [])

/-- The peer's address as the source tests it. -/
theorem peer_expected_iff {ips : List IpAddr} :
    ¬ (ips ≠ [] ∧ ¬ peerIp.any (· ∈ ips)) ↔ ips = [] ∨ ∃ ip, peerIp = some ip ∧ ip ∈ ips := by
  have hany : peerIp.any (· ∈ ips) = true ↔ ∃ ip, peerIp = some ip ∧ ip ∈ ips := by
    cases peerIp with
    | none => simp
    | some ip => simp
  rw [hany, not_and_not_right, ne_eq, ← or_iff_not_imp_left]

/-- The row lets a first enroll through. -/
def Enrollable (sha256 : String → δ) (row : LedgerRow δ) (now : U64) (token : Option String) : Prop :=
  row.certFingerprint = none ∧ row.tokenConsumedAt = none ∧ (now : Nat) ≤ row.tokenExpiresAt ∧
    ∃ t, token = some t ∧ sha256 t = row.tokenHash

/-- Row `row` authorizes the enroll as `a`, which leaves the ledger `l'`. -/
def Grants (l : RelayLedger δ) (sha256 : String → δ) (row : LedgerRow δ) (now : U64) (relayId : Nat) (fp : Fingerprint)
    (token : Option String) (a : AuthorizedEnroll) (l' : RelayLedger δ) : Prop :=
  row.certFingerprint = some fp ∧ a.kind = .reenroll ∧ l' = l ∨
    Enrollable sha256 row now token ∧ (∃ secs, a.kind = .firstEnroll secs) ∧ l' = l.updateRow relayId (bindRow now fp)

variable {row : LedgerRow δ}

theorem consumeAndBind_fresh (hrow : l.rows relayId = some row) (hfresh : row.tokenConsumedAt = none) :
    l.consumeAndBind now relayId fp row.tokenHash = (l.updateRow relayId (bindRow now fp), 1) := by
  unfold consumeAndBind
  rw [hrow]
  exact if_pos ⟨hfresh, rfl⟩

theorem consumeAndBind_spent {presented : δ} (hrow : l.rows relayId = some row)
    (hspent : row.tokenConsumedAt ≠ none) : l.consumeAndBind now relayId fp presented = (l, 0) := by
  unfold consumeAndBind
  rw [hrow]
  exact if_neg fun h => hspent h.1

/-- The caller has the bound certificate, or the token of an id that is not bound. -/
def Holder (sha256 : String → δ) (row : LedgerRow δ) (now : U64) (fp : Fingerprint) (token : Option String) : Prop :=
  row.certFingerprint = some fp ∨
    row.certFingerprint = none ∧ (now : Nat) ≤ row.tokenExpiresAt ∧ ∃ t, token = some t ∧ sha256 t = row.tokenHash

variable (l sha256 faults now relayId fp token peerIp)

/-- **What an authorization comes from**: the row it read. A refusal leaves the ledger as it was, and
    `AddrsPending` is said only to a caller that has proven it holds the id. -/
theorem authorize_cases :
    (∃ e, l.authorizeEnrollAt sha256 faults now relayId fp token peerIp = (l, .error e) ∧
        (e = .addrsPending → ∃ row, l.rows relayId = some row ∧ Gate row peerIp ∧ Holder sha256 row now fp token)) ∨
      ∃ row a l', l.authorizeEnrollAt sha256 faults now relayId fp token peerIp = (l', .ok a) ∧
        l.rows relayId = some row ∧ Gate row peerIp ∧ a.addrs = row.addrs.getD [] ∧ a.addrs ≠ [] ∧
        Grants l sha256 row now relayId fp token a l' := by
  unfold authorizeEnrollAt
  by_cases hsel : faults.select
  · exact Or.inl ⟨_, if_pos hsel, by simp⟩
  rw [if_neg hsel]
  cases hrow : l.rows relayId with
  | none => exact Or.inl ⟨_, rfl, by simp⟩
  | some row =>
    simp only
    by_cases hret : row.retiredAt.isSome
    · exact Or.inl ⟨_, if_pos hret, by simp⟩
    rw [if_neg hret]
    by_cases hip : row.expectedIps.getD [] ≠ [] ∧ ¬ peerIp.any (· ∈ row.expectedIps.getD [])
    · exact Or.inl ⟨_, if_pos hip, by simp⟩
    rw [if_neg hip]
    have hgate : Gate row peerIp := ⟨not_isSome_iff_eq_none.mp hret, peer_expected_iff.mp hip⟩
    cases hcert : row.certFingerprint with
    | some bound =>
      simp only
      by_cases hne : bound ≠ fp
      · exact Or.inl ⟨_, if_pos hne, by simp⟩
      rw [if_neg hne]
      have hbound : row.certFingerprint = some fp := by rw [hcert, not_not.mp hne]
      by_cases haddrs : row.addrs.getD [] = []
      · exact .inl ⟨_, if_pos haddrs, fun _ => ⟨row, rfl, hgate, .inl hbound⟩⟩
      rw [if_neg haddrs]
      exact .inr ⟨row, _, l, rfl, rfl, hgate, rfl, haddrs, .inl ⟨hbound, rfl, rfl⟩⟩
    | none =>
      cases token with
      | none => exact Or.inl ⟨_, rfl, by simp⟩
      | some t =>
        simp only
        by_cases hexp : row.tokenExpiresAt < now
        · exact Or.inl ⟨_, if_pos hexp, by simp⟩
        rw [if_neg hexp]
        by_cases hhash : sha256 t ≠ row.tokenHash
        · exact Or.inl ⟨_, if_pos hhash, by simp⟩
        rw [if_neg hhash]
        have htoken : ∃ t', some t = some t' ∧ sha256 t' = row.tokenHash := ⟨t, rfl, not_not.mp hhash⟩
        by_cases haddrs : row.addrs.getD [] = []
        · exact .inl ⟨_, if_pos haddrs, fun _ => ⟨row, rfl, hgate, .inr ⟨hcert, not_lt.mp hexp, htoken⟩⟩⟩
        rw [if_neg haddrs]
        by_cases hupd : faults.update
        · exact Or.inl ⟨_, if_pos hupd, by simp⟩
        rw [if_neg hupd, not_not.mp hhash]
        by_cases hspent : row.tokenConsumedAt = none
        · rw [consumeAndBind_fresh hrow hspent]
          refine .inr ⟨row, _, _, rfl, rfl, hgate, rfl, haddrs, .inr ⟨?_, ⟨_, rfl⟩, rfl⟩⟩
          exact ⟨hcert, hspent, not_lt.mp hexp, htoken⟩
        · rw [consumeAndBind_spent hrow hspent]
          exact Or.inl ⟨_, rfl, by simp⟩

variable {l sha256 faults now relayId fp token peerIp}

theorem authorize_eq_ok {a : AuthorizedEnroll}
    (h : (l.authorizeEnrollAt sha256 faults now relayId fp token peerIp).2 = .ok a) :
    ∃ row, l.rows relayId = some row ∧ Gate row peerIp ∧ a.addrs = row.addrs.getD [] ∧ a.addrs ≠ [] ∧
      Grants l sha256 row now relayId fp token a (l.authorizeEnrollAt sha256 faults now relayId fp token peerIp).1 := by
  obtain ⟨e, he, -⟩ | ⟨row, a', l', hres, hrow, hgate, haddrs, hne, hgrant⟩ :=
    authorize_cases l sha256 faults now relayId fp token peerIp
  · rw [he] at h
    cases h
  · rw [hres] at h ⊢
    cases h
    exact ⟨row, hrow, hgate, haddrs, hne, hgrant⟩

theorem authorize_pending (h : (l.authorizeEnrollAt sha256 faults now relayId fp token peerIp).2 = .error .addrsPending) :
    (l.authorizeEnrollAt sha256 faults now relayId fp token peerIp).1 = l ∧
      ∃ row, l.rows relayId = some row ∧ Gate row peerIp ∧ Holder sha256 row now fp token := by
  obtain ⟨e, he, hpending⟩ | ⟨row, a, l', hres, -⟩ := authorize_cases l sha256 faults now relayId fp token peerIp
  · rw [he] at h ⊢
    cases h
    exact ⟨rfl, hpending rfl⟩
  · rw [hres] at h
    cases h

/-- A row that lets the peer and a first enroll through, with its addresses recorded, grants it. -/
theorem authorize_first {addrs : List SocketAddr} (hrow : l.rows relayId = some row)
    (hgate : Gate row peerIp) (hfirst : Enrollable sha256 row now token) (haddrs : row.addrs = some addrs)
    (hne : addrs ≠ []) :
    ∃ secs, (l.authorizeEnrollAt sha256 {} now relayId fp token peerIp).2 = .ok ⟨.firstEnroll secs, addrs⟩ := by
  obtain ⟨hret, hip⟩ := hgate
  obtain ⟨hcert, hspent, hexp, t, rfl, hhash⟩ := hfirst
  have hpass := peer_expected_iff.mpr hip
  unfold authorizeEnrollAt
  rw [hrow]
  simp only [Bool.false_eq_true, if_false, hret, isSome_none, if_neg hpass, hcert, if_neg (not_lt.mpr hexp),
    hhash, ne_eq, not_true_eq_false, haddrs, getD_some, if_neg hne, consumeAndBind_fresh hrow hspent]
  exact ⟨_, rfl⟩

end Authorize

/-! ## One call -/

section Calls

variable {sha256 : String → δ} {op : LedgerOp} {l l' : RelayLedger δ}

/-- Every call is one of the changes. -/
theorem apply_change [DecidableEq δ] (sha256 : String → δ) (l : RelayLedger δ) (op : LedgerOp) :
    Change sha256 op l (op.apply sha256 l) := by
  cases op with
  | mintAt random fails now region ttl =>
    show Change sha256 _ l (l.mintAt sha256 random fails now region ttl).1
    obtain ⟨e, he⟩ | ⟨token, rfl, rfl, hnow, hmint⟩ := mintAt_cases l sha256 random fails now region ttl
    · rw [he]
      exact .same
    · rw [hmint]
      exact .mint hnow rfl
  | authorizeEnrollAt faults now relayId fp token peerIp =>
    show Change sha256 _ l (l.authorizeEnrollAt sha256 faults now relayId fp token peerIp).1
    obtain ⟨e, he, -⟩ | ⟨row, a, l', hres, hrow, -, -, -, ⟨-, -, rfl⟩ | ⟨hfirst, -, rfl⟩⟩ :=
      authorize_cases l sha256 faults now relayId fp token peerIp
    · rw [he]
      exact .same
    · rw [hres]
      exact .same
    · rw [hres]
      refine .update relayId (bindRow now fp) ?_
      intro row' hrow' _
      obtain rfl : row = row' := some.inj (hrow.symm.trans hrow')
      refine ⟨⟨rfl, rfl, ?_, id⟩, by simp [LedgerRow.Consistent, bindRow]⟩
      intro fp' hfp'
      rw [hfirst.1] at hfp'
      cases hfp'
  | retire fails now relayId =>
    cases fails with
    | true => exact .same
    | false =>
      refine .update relayId _ fun row _ hc => ⟨⟨rfl, rfl, fun _ h => h, ?_⟩, hc⟩
      intro hret
      obtain ⟨n, hn⟩ := isSome_iff_exists.mp hret
      simp [hn]
  | recordTask fails relayId | recordLaunch fails relayId =>
    cases fails with
    | true => exact .same
    | false => exact .update relayId _ fun row _ hc => ⟨⟨rfl, rfl, fun _ h => h, id⟩, hc⟩

theorem Change.valid (h : Change sha256 op l l') (hl : l.Valid) : l'.Valid := by
  cases h with
  | same => exact hl
  | mint hnow hop =>
    constructor
    · intro id row hrow
      by_cases hid : id = l.nextId
      · exact hid ▸ Nat.lt_succ_self _
      · rw [mintedInto_rows, if_neg hid] at hrow
        exact Nat.lt_succ_of_lt (hl.used id row hrow)
    · intro id row hrow
      by_cases hid : id = l.nextId
      · subst hid
        rw [mintedInto_rows, if_pos rfl] at hrow
        cases hrow
        exact iff_of_true rfl rfl
      · rw [mintedInto_rows, if_neg hid] at hrow
        exact hl.consistent id row hrow
  | update relayId f hf =>
    have hback : ∀ id row, (l.updateRow relayId f).rows id = some row →
        ∃ old, l.rows id = some old ∧ (row = old ∨ id = relayId ∧ row = f old) := by
      intro id row hrow
      rw [updateRow_rows] at hrow
      split at hrow
      · next hid =>
          obtain ⟨old, hold, rfl⟩ := map_eq_some_iff.mp hrow
          exact ⟨old, hold, .inr ⟨hid, rfl⟩⟩
      · exact ⟨row, hrow, .inl rfl⟩
    constructor
    · intro id row hrow
      obtain ⟨old, hold, -⟩ := hback id row hrow
      exact hl.used id old hold
    · intro id row hrow
      obtain ⟨old, hold, rfl | ⟨rfl, rfl⟩⟩ := hback id row hrow
      · exact hl.consistent id row hold
      · exact (hf old hold (hl.consistent id old hold)).2

/-- A row is only ever extended. -/
theorem Change.extends (h : Change sha256 op l l') (hl : l.Valid) {id : Nat} {row : LedgerRow δ}
    (hrow : l.rows id = some row) : ∃ row', l'.rows id = some row' ∧ row.Extends row' := by
  cases h with
  | same => exact ⟨row, hrow, .refl row⟩
  | mint hnow hop =>
    have hid : id ≠ l.nextId := Nat.ne_of_lt (hl.used id row hrow)
    exact ⟨row, by rw [mintedInto_rows, if_neg hid, hrow], .refl row⟩
  | update relayId f hf =>
    rw [updateRow_rows]
    by_cases hid : id = relayId
    · subst hid
      exact ⟨f row, by simp [hrow], (hf row hrow (hl.consistent id row hrow)).1⟩
    · exact ⟨row, by rw [if_neg hid, hrow], .refl row⟩

/-- A row was there before, or the call minted it. -/
theorem Change.origin (h : Change sha256 op l l') (hl : l.Valid) {id : Nat} {row' : LedgerRow δ}
    (hrow : l'.rows id = some row') :
    (∃ row, l.rows id = some row ∧ row.Extends row') ∨
      ∃ token, ∃ now : U64, ∃ region ttl, (now : Nat) ≠ u64Max ∧ op = .mintAt (some token) false now region ttl ∧
        id = l.nextId ∧ row' = mintRow sha256 token now region ttl := by
  cases h with
  | same => exact .inl ⟨row', hrow, .refl row'⟩
  | @mint token now region ttl hnow hop =>
    by_cases hid : id = l.nextId
    · subst hid
      rw [mintedInto_rows, if_pos rfl] at hrow
      exact .inr ⟨token, now, region, ttl, hnow, hop, rfl, (some.inj hrow).symm⟩
    · rw [mintedInto_rows, if_neg hid] at hrow
      exact .inl ⟨row', hrow, .refl row'⟩
  | update relayId f hf =>
    rw [updateRow_rows] at hrow
    by_cases hid : id = relayId
    · subst hid
      rw [if_pos rfl] at hrow
      obtain ⟨old, hold, rfl⟩ := map_eq_some_iff.mp hrow
      exact .inl ⟨old, hold, (hf old hold (hl.consistent id old hold)).1⟩
    · rw [if_neg hid] at hrow
      exact .inl ⟨row', hrow, .refl row'⟩

end Calls

end RelayLedger

/-! ## Any calls -/

section Runs

variable [DecidableEq δ] (sha256 : String → δ)

theorem ledgerAfter_append (ops more : List LedgerOp) :
    ledgerAfter sha256 (ops ++ more) = more.foldl (LedgerOp.apply sha256) (ledgerAfter sha256 ops) :=
  foldl_append

theorem ledgerAfter_valid (ops : List LedgerOp) : (ledgerAfter sha256 ops).Valid := by
  induction ops using reverseRecOn with
  | nil => exact .empty
  | append_singleton ops op ih =>
    rw [ledgerAfter_append]
    exact (apply_change sha256 _ op).valid ih

variable {id : Nat}

/-- **What a row says, it says in every later ledger.** -/
theorem ledgerAfter_extends (ops more : List LedgerOp) {row : LedgerRow δ}
    (hrow : (ledgerAfter sha256 ops).rows id = some row) :
    ∃ row', (ledgerAfter sha256 (ops ++ more)).rows id = some row' ∧ row.Extends row' := by
  induction more using reverseRecOn with
  | nil => exact ⟨row, by rwa [append_nil], .refl row⟩
  | append_singleton more op ih =>
    obtain ⟨row₁, hrow₁, hext₁⟩ := ih
    rw [← append_assoc, ledgerAfter_append _ (ops ++ more)]
    obtain ⟨row₂, hrow₂, hext₂⟩ := (apply_change sha256 _ op).extends (ledgerAfter_valid sha256 _) hrow₁
    exact ⟨row₂, hrow₂, hext₁.trans hext₂⟩

/-- One of the calls minted the id with the token. -/
def MintedBy (ops : List LedgerOp) (id : Nat) (token : String) (now tokenTtl : U64) : Prop :=
  ∃ before fails region after, ops = before ++ .mintAt (some token) fails now region tokenTtl :: after ∧
    ((ledgerAfter sha256 before).mintAt sha256 (some token) fails now region tokenTtl).2 = .ok ⟨id, token⟩

theorem MintedBy.row {sha256 : String → δ} {ops : List LedgerOp} {token : String} {now ttl : U64}
    (h : MintedBy sha256 ops id token now ttl) :
    ∃ row, (ledgerAfter sha256 ops).rows id = some row ∧ row.tokenHash = sha256 token ∧
      row.tokenExpiresAt = saturatingAdd u64Max now ttl := by
  obtain ⟨before, fails, region, after, rfl, hmint⟩ := h
  have hrow : (ledgerAfter sha256 (before ++ [.mintAt (some token) fails now region ttl])).rows id =
      some (mintRow sha256 token now region ttl) := by
    rw [ledgerAfter_append]
    show ((ledgerAfter sha256 before).mintAt sha256 (some token) fails now region ttl).1.rows id = _
    obtain ⟨e, he⟩ | ⟨t, ht, rfl, -, hres⟩ :=
      (ledgerAfter sha256 before).mintAt_cases sha256 (some token) fails now region ttl
    · rw [he] at hmint
      cases hmint
    · cases ht
      rw [hres] at hmint ⊢
      cases hmint
      exact update_self _ _ _
  obtain ⟨row, hrow', hext⟩ := ledgerAfter_extends sha256 _ after hrow
  rw [append_assoc] at hrow'
  exact ⟨row, hrow', hext.tokenHash, hext.expires⟩

/-- Every row was minted. -/
theorem exists_mintedBy (ops : List LedgerOp) {row : LedgerRow δ} (hrow : (ledgerAfter sha256 ops).rows id = some row) :
    ∃ token now ttl, MintedBy sha256 ops id token now ttl ∧ row.tokenHash = sha256 token ∧
      row.tokenExpiresAt = saturatingAdd u64Max now ttl := by
  induction ops using reverseRecOn generalizing row with
  | nil => cases hrow
  | append_singleton ops op ih =>
    rw [ledgerAfter_append] at hrow
    obtain ⟨old, hold, hext⟩ | ⟨token, now, region, ttl, hnow, rfl, rfl, rfl⟩ :=
      (apply_change sha256 _ op).origin (ledgerAfter_valid sha256 ops) hrow
    · obtain ⟨token, now, ttl, ⟨before, fails, region, after, rfl, hmint⟩, hhash, hexp⟩ := ih hold
      refine ⟨token, now, ttl, ⟨before, fails, region, after ++ [op], ?_, hmint⟩, ?_, ?_⟩
      · rw [append_assoc, cons_append]
      · rw [hext.tokenHash, hhash]
      · rw [hext.expires, hexp]
    · refine ⟨token, now, ttl, ⟨ops, false, region, [], rfl, ?_⟩, rfl, rfl⟩
      unfold mintAt
      rw [if_neg hnow]
      rfl

/-! ## Bound once, for good -/

/-- A minted token expires before the clock can no longer be told. -/
def LedgerOp.LifetimeFits : LedgerOp → Prop
  | mintAt _ _ now _ tokenTtl => (now : Nat) + tokenTtl < u64Max
  | _ => True

/-- The expected addresses recorded for an id. -/
def RelayLedger.expected (l : RelayLedger δ) (relayId : Nat) : List IpAddr := ((l.rows relayId).bind (·.expectedIps)).getD []

variable {sha256} {ops : List LedgerOp} {faults : Faults} {now : U64} {relayId : Nat} {fp : Fingerprint}
  {token : Option String} {peerIp : Option IpAddr} {a : AuthorizedEnroll}

/-- A first enroll presents the token the id was minted with, in time. -/
theorem first_enroll_minted (hsha : Injective sha256) (hlife : ∀ op ∈ ops, op.LifetimeFits)
    (h : ((ledgerAfter sha256 ops).authorizeEnrollAt sha256 faults now relayId fp token peerIp).2 = .ok a)
    (hkind : a.kind ≠ .reenroll) :
    ∃ t, ∃ mintNow ttl : U64, token = some t ∧ MintedBy sha256 ops relayId t mintNow ttl ∧
      (now : Nat) ≤ mintNow + ttl ∧ (now : Nat) ≠ u64Max ∧
      ∀ t' mintNow' ttl', MintedBy sha256 ops relayId t' mintNow' ttl' → t' = t := by
  obtain ⟨row, hrow, -, -, -, ⟨-, hre, -⟩ | ⟨⟨-, -, hexp, t, rfl, hhash⟩, -, -⟩⟩ := authorize_eq_ok h
  · exact absurd hre hkind
  obtain ⟨minted, mintNow, ttl, hmint, htoken, hrowexp⟩ := exists_mintedBy sha256 ops hrow
  obtain rfl : t = minted := hsha (hhash.trans htoken)
  have hfits : (mintNow : Nat) + ttl < u64Max := by
    obtain ⟨before, fails, region, after, rfl, -⟩ := hmint
    exact hlife (.mintAt (some t) fails mintNow region ttl) (by simp)
  have hle : (now : Nat) ≤ mintNow + ttl := by
    rw [hrowexp, saturatingAdd] at hexp
    omega
  refine ⟨t, mintNow, ttl, rfl, hmint, hle, by omega, ?_⟩
  intro t' mintNow' ttl' hmint'
  obtain ⟨row', hrow', hhash', -⟩ := hmint'.row
  obtain rfl : row = row' := some.inj (hrow.symm.trans hrow')
  exact hsha (hhash'.symm.trans hhash.symm)

/-- After an authorization, the id is authorized for the same certificate only, and without a token. -/
theorem later_reenrolls
    (h : ((ledgerAfter sha256 ops).authorizeEnrollAt sha256 faults now relayId fp token peerIp).2 = .ok a)
    (later : List LedgerOp) {faults' : Faults} {now' : U64} {fp' : Fingerprint} {token' : Option String}
    {peerIp' : Option IpAddr} {b : AuthorizedEnroll}
    (h' : ((ledgerAfter sha256 (ops ++ .authorizeEnrollAt faults now relayId fp token peerIp :: later)).authorizeEnrollAt
      sha256 faults' now' relayId fp' token' peerIp').2 = .ok b) : b.kind = .reenroll ∧ fp' = fp := by
  -- the row right after the first authorization is bound to its certificate
  have hbound : ∃ row, (ledgerAfter sha256 (ops ++ [.authorizeEnrollAt faults now relayId fp token peerIp])).rows relayId =
      some row ∧ row.certFingerprint = some fp := by
    rw [ledgerAfter_append]
    show ∃ row,
      ((ledgerAfter sha256 ops).authorizeEnrollAt sha256 faults now relayId fp token peerIp).1.rows relayId = some row ∧ _
    obtain ⟨row, hrow, -, -, -, ⟨hcert, -, hsame⟩ | ⟨-, -, hbind⟩⟩ := authorize_eq_ok h
    · exact ⟨row, by rw [hsame, hrow], hcert⟩
    · refine ⟨bindRow now fp row, ?_, rfl⟩
      rw [hbind, updateRow_rows, if_pos rfl, hrow]
      rfl
  obtain ⟨row, hrow, hcert⟩ := hbound
  obtain ⟨row', hrow', hext⟩ := ledgerAfter_extends sha256 _ later hrow
  rw [append_assoc] at hrow'
  have hcert' := hext.bound fp hcert
  obtain ⟨row'', hrow'', -, -, -, hgrant⟩ := authorize_eq_ok h'
  obtain rfl : row' = row'' := some.inj (hrow'.symm.trans hrow'')
  obtain ⟨hfp, hkind, -⟩ | ⟨⟨hnone, -⟩, -⟩ := hgrant
  · exact ⟨hkind, some.inj (hfp.symm.trans hcert')⟩
  · rw [hcert'] at hnone
    cases hnone

/-- What every authorization has in common. -/
theorem authorized_addrs
    (h : ((ledgerAfter sha256 ops).authorizeEnrollAt sha256 faults now relayId fp token peerIp).2 = .ok a) :
    a.addrs ≠ [] ∧ (ledgerAfter sha256 ops).advertisedAddrs relayId = some a.addrs ∧
      ((ledgerAfter sha256 ops).expected relayId ≠ [] →
        ∃ ip, peerIp = some ip ∧ ip ∈ (ledgerAfter sha256 ops).expected relayId) := by
  obtain ⟨row, hrow, ⟨-, hgate⟩, haddrs, hne, -⟩ := authorize_eq_ok h
  refine ⟨hne, ?_, ?_⟩
  · unfold advertisedAddrs
    rw [hrow, bind_some]
    cases hsome : row.addrs with
    | none =>
      rw [hsome] at haddrs
      exact absurd haddrs hne
    | some addrs => rw [haddrs, hsome, getD_some]
  · unfold expected
    rw [hrow, bind_some]
    intro hexp
    exact hgate.resolve_left hexp

/-- A call refused for want of addresses spends nothing: it is a first enroll once they are recorded. -/
theorem pending_token_usable
    (h : ((ledgerAfter sha256 ops).authorizeEnrollAt sha256 faults now relayId fp token peerIp).2 = .error .addrsPending)
    (hunbound : ∀ row, (ledgerAfter sha256 ops).rows relayId = some row → row.certFingerprint = none) (arn : String)
    {ips : List IpAddr} {addrs : List SocketAddr} (haddrs : addrs ≠ [])
    (hips : ips = [] ∨ ∃ ip, peerIp = some ip ∧ ip ∈ ips) :
    ∃ secs, (((ledgerAfter sha256 ops).recordTask false relayId arn ips addrs).1.authorizeEnrollAt sha256 {} now relayId fp
      token peerIp).2 = .ok ⟨.firstEnroll secs, addrs⟩ := by
  obtain ⟨-, row, hrow, ⟨hret, -⟩, hholder⟩ := authorize_pending h
  have hcert := hunbound row hrow
  have hspent := ((ledgerAfter_valid sha256 ops).consistent relayId row hrow).mp hcert
  obtain hbound | ⟨-, hexp, htoken⟩ := hholder
  · rw [hcert] at hbound
    cases hbound
  have hrow' : ((ledgerAfter sha256 ops).recordTask false relayId arn ips addrs).1.rows relayId =
      some { row with taskArn := some arn, expectedIps := some ips, addrs := some addrs } := by
    unfold recordTask
    rw [if_neg Bool.false_ne_true, updateRow_rows, if_pos rfl, hrow]
    rfl
  exact authorize_first hrow' ⟨hret, hips⟩ ⟨hcert, hspent, hexp, htoken⟩ rfl haddrs

/-- Once a minted id is retired, nothing authorizes it. -/
theorem retired_refused {before after : List LedgerOp} {at_ : U64}
    (hminted : ((ledgerAfter sha256 before).rows relayId).isSome) :
    ((ledgerAfter sha256 (before ++ .retire false at_ relayId :: after)).authorizeEnrollAt sha256 faults now relayId fp token
      peerIp).2 ≠ .ok a := by
  intro h
  obtain ⟨row, hrow⟩ := isSome_iff_exists.mp hminted
  have hret : (ledgerAfter sha256 (before ++ [.retire false at_ relayId])).rows relayId =
      some { row with retiredAt := row.retiredAt <|> some at_ } := by
    rw [ledgerAfter_append]
    show ((ledgerAfter sha256 before).retire false at_ relayId).1.rows relayId = _
    unfold retire
    rw [if_neg Bool.false_ne_true, updateRow_rows, if_pos rfl, hrow]
    rfl
  obtain ⟨row', hrow', hext⟩ := ledgerAfter_extends sha256 _ after hret
  rw [append_assoc] at hrow'
  have hsome := hext.retired (by cases row.retiredAt <;> rfl)
  obtain ⟨row'', hrow'', ⟨hnone, -⟩, -⟩ := authorize_eq_ok h
  obtain rfl : row' = row'' := some.inj (hrow'.symm.trans hrow'')
  rw [hnone] at hsome
  cases hsome

end Runs

/-- **A provisioned id is bound to one certificate, once, and for good.** For any calls, when no minted token lives to the end
    of the clock:

    - a first enroll presents the token minted for the id, at a time not past its expiry and not with a broken clock, and
      after it every authorization of the id is a re-enroll with the same certificate;
    - every authorization answers with the non-empty addresses recorded for the id, to a peer among the expected addresses
      when there are any;
    - a refusal for want of addresses changes nothing and leaves the token good for a first enroll;
    - an id that was minted and then retired is never authorized again;
    - a broken clock never mints. -/
theorem ledger_binds_once [DecidableEq δ] (sha256 : String → δ) (hsha : Injective sha256) (ops : List LedgerOp)
    (hlife : ∀ op ∈ ops, op.LifetimeFits) (faults : Faults) (now : U64) (relayId : Nat) (fp : Fingerprint)
    (token : Option String) (peerIp : Option IpAddr) :
    let l := ledgerAfter sha256 ops
    let res := l.authorizeEnrollAt sha256 faults now relayId fp token peerIp
    (∀ secs addrs, res.2 = .ok ⟨.firstEnroll secs, addrs⟩ →
      (∃ t, ∃ mintNow ttl : U64, token = some t ∧ MintedBy sha256 ops relayId t mintNow ttl ∧
        (now : Nat) ≤ mintNow + ttl ∧ (now : Nat) ≠ u64Max ∧
        ∀ t' mintNow' ttl', MintedBy sha256 ops relayId t' mintNow' ttl' → t' = t) ∧
      ∀ later faults' now' fp' token' peerIp' b,
        ((ledgerAfter sha256 (ops ++ .authorizeEnrollAt faults now relayId fp token peerIp :: later)).authorizeEnrollAt
          sha256 faults' now' relayId fp' token' peerIp').2 = .ok b → b.kind = .reenroll ∧ fp' = fp) ∧
    (∀ a, res.2 = .ok a → a.addrs ≠ [] ∧ l.advertisedAddrs relayId = some a.addrs ∧
      (l.expected relayId ≠ [] → ∃ ip, peerIp = some ip ∧ ip ∈ l.expected relayId)) ∧
    (res.2 = .error .addrsPending → res.1 = l ∧ ((∀ row, l.rows relayId = some row → row.certFingerprint = none) →
        ∀ arn ips addrs, addrs ≠ [] → (ips = [] ∨ ∃ ip, peerIp = some ip ∧ ip ∈ ips) →
        ∃ secs, ((l.recordTask false relayId arn ips addrs).1.authorizeEnrollAt sha256 {} now relayId fp token peerIp).2 =
          .ok ⟨.firstEnroll secs, addrs⟩)) ∧
    (∀ before after retiredAt, ops = before ++ .retire false retiredAt relayId :: after →
      ((ledgerAfter sha256 before).rows relayId).isSome → ∀ a, res.2 ≠ .ok a) ∧
    ((now : Nat) = u64Max → ∀ random fails region ttl, (l.mintAt sha256 random fails now region ttl).2 = .error .clock) := by
  intro l res
  refine ⟨?_, fun a h => authorized_addrs h, ?_, ?_, ?_⟩
  · intro secs addrs h
    exact ⟨first_enroll_minted hsha hlife h (by simp), fun later _ _ _ _ _ _ h' => later_reenrolls h later h'⟩
  · intro h
    refine ⟨(authorize_pending h).1, ?_⟩
    intro hunbound arn ips addrs haddrs hips
    exact pending_token_usable h hunbound arn haddrs hips
  · rintro before after retiredAt rfl hminted a
    exact retired_refused hminted
  · intro hnow random fails region ttl
    show (l.mintAt sha256 random fails now region ttl).2 = _
    unfold mintAt
    rw [if_pos hnow]

def exampleAddr : SocketAddr := ⟨.v4 0x0A000001, 14900⟩

/-- A relay minted at time 100 for a minute, with its addresses recorded. -/
def exampleCalls : List LedgerOp := [.mintAt (some "token") false 100 none 60, .recordTask false 1 "task" [] [exampleAddr]]

theorem ledger_binds_once_example :
    let l := ledgerAfter id exampleCalls
    (l.authorizeEnrollAt id {} 120 1 7 (some "token") none).2 = .ok ⟨.firstEnroll (some 20), [exampleAddr]⟩ ∧
      ∀ later faults now fp token peerIp b,
        ((ledgerAfter id (exampleCalls ++ .authorizeEnrollAt {} 120 1 7 (some "token") none :: later)).authorizeEnrollAt
          id faults now 1 fp token peerIp).2 = .ok b → b.kind = .reenroll ∧ fp = 7 := by
  intro l
  have hfirst : (l.authorizeEnrollAt id {} 120 1 7 (some "token") none).2 =
    .ok ⟨.firstEnroll (some 20), [exampleAddr]⟩ := by decide
  have hlife : ∀ op ∈ exampleCalls, op.LifetimeFits := by simp [exampleCalls, LedgerOp.LifetimeFits, u64Max]
  refine ⟨hfirst, ?_⟩
  exact ((ledger_binds_once id injective_id exampleCalls hlife {} 120 1 7 (some "token") none).1 _ _ hfirst).2

/-- A token that expires at the end of the clock is still good when the clock is broken; and retiring an
    id that was never minted does not refuse it once it is. -/
theorem ledger_edge_cases :
    ((ledgerAfter id [.mintAt (some "token") false 18446744073709551614 none 1, .recordTask false 1 "task" [] [exampleAddr]]
      ).authorizeEnrollAt id {} 18446744073709551615 1 7 (some "token") none).2 = .ok ⟨.firstEnroll none, [exampleAddr]⟩ ∧
      ((ledgerAfter id (.retire false 50 1 :: exampleCalls)).authorizeEnrollAt id {} 120 1 7 (some "token") none).2 =
        .ok ⟨.firstEnroll (some 20), [exampleAddr]⟩ := by
  decide

end RallyPoint.Coordinator
