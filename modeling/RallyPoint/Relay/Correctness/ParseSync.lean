import RallyPoint.Client.SyncGeneration
import RallyPoint.Relay.Correctness.Validation
import RallyPoint.Relay.Maker.Sync

/-!
# `Relay.Correctness.ParseSync` — relay and client read the same checksum

The client's `stamp_turn` walks the commands it sends, the relay's `parse_sync` what `validate_turn` left
of them. Both walks are the split of the turn into commands, and a checksum command is never stripped, so
both stop at the same command.
-/

namespace RallyPoint.Relay

open Lib Proto List

/-- Whether a command is a checksum. -/
def isSync (c : List UInt8) : Bool := decide (c.head? = some syncCommand ∧ c.length = syncCommandLen)

/-- What the client's walk comes to, told by the first checksum. -/
def readByClient : Option (List UInt8) → Client.FirstSync
  | some c => .found (readSyncCommand c).ring
  | none => .absent

variable {c : List UInt8} {cs : List (List UInt8)}

theorem head?_append_word (hc : WellFormed c) (rest : List UInt8) : (c ++ rest).head? = c.head? := by
  cases c with
  | nil => exact absurd rfl hc.ne_nil
  | cons _ _ => rfl

theorem not_stripped_of_isSync (h : isSync c = true) : isStrippedFromLiveTurn c = false := by
  obtain ⟨hhead, -⟩ := of_decide_eq_true h
  obtain ⟨rest, rfl⟩ := head?_eq_some_iff.mp hhead
  obtain _ | ⟨_, _ | ⟨_, _⟩⟩ := rest <;> rfl

/-- **The client's walk is the split**, by induction on the commands. -/
theorem firstSyncFrom_flatten (hcs : commandFraming.AllWords cs) {fuel : Nat} (hfuel : cs.flatten.length ≤ fuel) :
    Client.firstSyncFrom fuel cs.flatten = readByClient (cs.find? isSync) := by
  induction cs generalizing fuel with
  | nil => cases fuel <;> rfl
  | cons c cs ih =>
    obtain ⟨hc, hrest⟩ := Framing.allWords_cons.mp hcs
    have hlen : commandLength (c ++ cs.flatten) = some c.length := hc.len_append _
    have hpos := hc.length_pos
    rw [flatten_cons, length_append] at *
    obtain _ | fuel := fuel
    · omega
    have hne : c ++ cs.flatten ≠ [] := by simp [hc.ne_nil]
    have hfits : (some c.length).filter (fun length =>
      decide (0 < length ∧ length ≤ (c ++ cs.flatten).length)) = some c.length := by
      simp [Option.filter, hpos]
    rw [Client.firstSyncFrom, if_neg hne, hlen, hfits, head?_append_word hc]
    dsimp only
    by_cases hsync : isSync c = true
    · obtain ⟨hhead, hseven⟩ := of_decide_eq_true hsync
      have hget : (c ++ cs.flatten).getD 1 0 = c.getD 1 0 := by
        rw [getD_eq_getElem?_getD, getElem?_append_left (by rw [hseven]; decide), ← getD_eq_getElem?_getD]
      rw [if_pos ⟨hhead, hseven⟩, find?_cons_of_pos hsync, hget]
      rfl
    · have hnot : ¬ (c.head? = some Client.syncCommand ∧ c.length = Client.syncCommandLen) :=
        of_decide_eq_false (Bool.eq_false_iff.mpr hsync)
      rw [if_neg hnot, drop_left, find?_cons_of_neg hsync]
      exact ih hrest (by omega)

/-- **So is the relay's.** -/
theorem parseSyncFrom_flatten (hcs : commandFraming.AllWords cs) {fuel : Nat} (hfuel : cs.flatten.length ≤ fuel) :
    parseSyncFrom fuel cs.flatten = (cs.find? isSync).map readSyncCommand := by
  induction cs generalizing fuel with
  | nil => cases fuel <;> rfl
  | cons c cs ih =>
    obtain ⟨hc, hrest⟩ := Framing.allWords_cons.mp hcs
    have hlen : commandLength (c ++ cs.flatten) = some c.length := hc.len_append _
    have hpos := hc.length_pos
    rw [flatten_cons, length_append] at *
    obtain _ | fuel := fuel
    · omega
    have hfits : ¬ (c.length = 0 ∨ (c ++ cs.flatten).length < c.length) := by rw [length_append]; omega
    rw [parseSyncFrom, hlen]
    dsimp only
    rw [if_neg hfits, head?_append_word hc, take_left, drop_left]
    by_cases hsync : isSync c = true
    · rw [if_pos (of_decide_eq_true hsync), find?_cons_of_pos hsync]
      rfl
    · rw [if_neg (of_decide_eq_false (Bool.eq_false_iff.mpr hsync)), find?_cons_of_neg hsync]
      exact ih hrest (by omega)

/-- Stripping does not touch the first checksum. -/
theorem find?_kept (cs : List (List UInt8)) :
    (cs.filter fun c => !isStrippedFromLiveTurn c).find? isSync = cs.find? isSync := by
  rw [find?_filter]
  congr 1
  funext c
  by_cases hsync : isSync c = true
  · simp [hsync, not_stripped_of_isSync hsync]
  · simp [hsync]

/-- What both read of a turn that splits. -/
theorem read_of_split {commands : List UInt8} (h : SplitsInto commands cs) :
    Client.firstSync commands = readByClient (cs.find? isSync) ∧
      parseSync (keptCommands cs) = (cs.find? isSync).map readSyncCommand := by
  obtain ⟨hcs, rfl⟩ := h
  refine ⟨firstSyncFrom_flatten hcs le_rfl, ?_⟩
  rw [← find?_kept cs]
  exact parseSyncFrom_flatten (keptCommands_splits hcs).1 le_rfl

/-- **Relay and client read the same checksum of a turn**: the first one among its commands, or none.
    Commands before it that are no checksums and commands after it, stripped or not, change nothing. -/
theorem relay_reads_clients_checksum {slot : SlotId} {p : Payload} {v : ValidatedTurn} (h : validateTurn slot p = .ok v) :
    ∃ cs, SplitsInto p.commands cs ∧ Client.firstSync p.commands = readByClient (cs.find? isSync) ∧
      parseSync v.payload.commands = (cs.find? isSync).map readSyncCommand ∧
      ∀ c before after, cs.find? isSync = some c → commandFraming.AllWords before →
        commandFraming.AllWords after → (∀ d ∈ before, isSync d = false) →
        let p' := { p with commands := (before ++ c :: after).flatten }
        ∃ v', validateTurn slot p' = .ok v' ∧ Client.firstSync p'.commands = Client.firstSync p.commands ∧
          parseSync v'.payload.commands = parseSync v.payload.commands := by
  obtain ⟨cs, hcs, rfl⟩ := split_of_validateTurn h
  obtain ⟨hclient, hrelay⟩ := read_of_split hcs
  refine ⟨cs, hcs, hclient, hrelay, fun c before after hc hbefore hafter hnone => ?_⟩
  have hword : WellFormed c := hcs.1 c (mem_of_find?_eq_some hc)
  have hsplit : SplitsInto (before ++ c :: after).flatten (before ++ c :: after) :=
    ⟨Framing.allWords_append.mpr ⟨hbefore, Framing.allWords_cons.mpr ⟨hword, hafter⟩⟩, rfl⟩
  have hfind : (before ++ c :: after).find? isSync = cs.find? isSync := by
    rw [find?_append, find?_eq_none.mpr (fun d hd => by simp [hnone d hd]), hc, Option.none_or,
      find?_cons_of_pos (find?_some hc)]
  obtain ⟨hclient', hrelay'⟩ := read_of_split hsplit
  refine ⟨_, validateTurn_of_split (p := { p with commands := (before ++ c :: after).flatten }) hsplit, ?_, ?_⟩
  · rw [hclient, ← hfind]
    exact hclient'
  · show parseSync (keptCommands _) = parseSync (keptCommands cs)
    rw [hrelay', hrelay, hfind]

/-- A turn with a pacing command before its checksum. -/
theorem relay_reads_clients_checksum_paced :
    let commands : List UInt8 := [0x55, 0, 0x37, 0x21, 1, 2, 3, 4, 5]
    (∃ v, validateTurn 0 { seq := 0, slot := 0, commands } = .ok v ∧ v.payload.commands ≠ commands) ∧
      ∃ cs, SplitsInto commands cs ∧ Client.firstSync commands = readByClient (cs.find? isSync) :=
  ⟨⟨_, rfl, by decide⟩, by
    obtain ⟨cs, hcs, hclient, -⟩ := @relay_reads_clients_checksum 0
      { seq := 0, slot := 0, commands := [0x55, 0, 0x37, 0x21, 1, 2, 3, 4, 5] } _ rfl
    exact ⟨cs, hcs, hclient⟩⟩

end RallyPoint.Relay
