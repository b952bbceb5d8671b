import RallyPoint.Lib.Framing
import RallyPoint.Relay.Validation

/-!
# `Relay.Correctness.Validation` — turn validation is the command grammar

A turn is a string of commands, each as long as the table says: a `Framing` of bytes (`commandFraming`),
so a turn splits into commands in at most one way. `validate_turn` accepts exactly the turns that split,
returns the commands it does not strip, and on a turn that does not split points at the end of the part
that does.
-/

namespace RallyPoint.Relay

open Lib Proto List Option Framing

/-! ## Commands are self-delimiting -/

variable {cs : List (List UInt8)} {n : Nat} {s : List UInt8} {c : List UInt8} {slot : SlotId} {p : Payload}

theorem classify_fixed_pos {id : UInt8} (h : classify id = some (.fixed n)) : 0 < n := by
  unfold classify at h
  split at h
  · cases h
  · split at h
    · cases h
    · split at h
      · cases h
      · cases h; exact Nat.succ_pos _

/-- The length of a command, read off its opcode and, for a count-prefixed one, its second byte. -/
theorem commandLength_eq_some : commandLength s = some n ↔
    ∃ id, s.head? = some id ∧ (classify id = some (.fixed n) ∨ ∃ stride count,
      classify id = some (.variable stride) ∧ s[1]? = some count ∧
        n = 2 + stride * count.toNat) := by
  cases s with
  | nil => simp [commandLength]
  | cons id tail =>
    simp only [commandLength, head?_cons, bind_eq_bind, bind_some, some.injEq, exists_eq_left']
    cases hc : classify id with
    | none => simp
    | some len =>
      cases len with
      | fixed m => simp
      | «variable» stride =>
        simp only [bind_some, some.injEq, CommandLength.variable.injEq, reduceCtorEq, false_or]
        cases htail : (id :: tail)[1]? with
        | none => simp
        | some count => simp [eq_comm]

theorem commandLength_pos (h : commandLength s = some n) : 0 < n := by
  obtain ⟨id, -, hfix | ⟨stride, count, -, -, rfl⟩⟩ := commandLength_eq_some.mp h
  · exact classify_fixed_pos hfix
  · omega

/-- The bytes that decide a command's length lie inside the command. -/
theorem commandLength_stable (h : commandLength s = some n) (hle : n ≤ s.length)
    (t : List UInt8) : commandLength (s.take n ++ t) = some n := by
  have hpos := commandLength_pos h
  have hget : ∀ i < n, (s.take n ++ t)[i]? = s[i]? := by
    intro i hi
    have hlt : i < (s.take n).length := by
      rw [length_take]; omega
    rw [getElem?_append_left hlt, getElem?_take_of_lt hi]
  have hhead : (s.take n ++ t).head? = s.head? := by
    rw [head?_eq_getElem?, head?_eq_getElem?]
    exact hget 0 hpos
  obtain ⟨id, hid, hfix | ⟨stride, count, hvar, hcount, rfl⟩⟩ := commandLength_eq_some.mp h
  · exact commandLength_eq_some.mpr ⟨id, hhead.trans hid, .inl hfix⟩
  · refine commandLength_eq_some.mpr ⟨id, hhead.trans hid, .inr ⟨stride, count, hvar, ?_, rfl⟩⟩
    exact (hget 1 (by omega)).trans hcount

/-- The command grammar. -/
def commandFraming : Framing UInt8 := ⟨commandLength, commandLength_pos, commandLength_stable⟩

/-- A well-formed command: its opcode is known, and its length is the table's. -/
abbrev WellFormed (c : List UInt8) : Prop := commandFraming.IsWord c

/-- `commands` is the concatenation of the well-formed commands `cs`. -/
def SplitsInto (commands : List UInt8) (cs : List (List UInt8)) : Prop := commandFraming.AllWords cs ∧ commands = cs.flatten

/-! ## One command -/

variable {offset : Nat} {opcode : UInt8} {rest : List UInt8}

/-- Where a command fits, the bounds check cuts it off. -/
theorem nextCommand_of_len (hhead : rest.head? = some opcode) (h : commandLength rest = some n)
    (hle : n ≤ rest.length) : nextCommand offset opcode rest = .ok (rest.take n) := by
  obtain ⟨id, hid, hkind⟩ := commandLength_eq_some.mp h
  obtain rfl : id = opcode := some.inj (hid.symm.trans hhead)
  unfold nextCommand
  obtain hfix | ⟨stride, count, hvar, hcount, rfl⟩ := hkind
  · rw [hfix]
    exact if_pos hle
  · simp only [hvar, hcount]
    exact if_pos hle

/-- Where no command fits, the bounds check fails there, naming the opcode. -/
theorem nextCommand_of_stuck (hhead : rest.head? = some opcode) (h : commandFraming.Stuck rest) :
    ∃ e, nextCommand offset opcode rest = .error e ∧ e.offset = offset ∧ e.opcode = opcode := by
  unfold nextCommand
  cases hc : classify opcode with
  | none => exact ⟨.unknownOpcode offset opcode, rfl, rfl, rfl⟩
  | some len =>
    cases len with
    | fixed n =>
      have hlen : commandLength rest = some n := commandLength_eq_some.mpr ⟨opcode, hhead, .inl hc⟩
      have hlt : ¬ n ≤ rest.length := not_le.mpr (h n hlen)
      exact ⟨.truncated offset opcode, if_neg hlt, rfl, rfl⟩
    | «variable» stride =>
      cases hcount : rest[1]? with
      | none => exact ⟨.truncated offset opcode, rfl, rfl, rfl⟩
      | some count =>
        have hlen : commandLength rest = some (2 + stride * count.toNat) :=
          commandLength_eq_some.mpr ⟨opcode, hhead, .inr ⟨stride, count, hc, hcount, rfl⟩⟩
        have hlt : ¬ 2 + stride * count.toNat ≤ rest.length := not_le.mpr (h _ hlen)
        exact ⟨.truncated offset opcode, if_neg hlt, rfl, rfl⟩

/-! ## The walk -/

/-- The commands of a turn that are forwarded, joined. -/
def keptCommands (cs : List (List UInt8)) : List UInt8 := (cs.filter fun c => !isStrippedFromLiveTurn c).flatten

/-- How many commands of a turn are stripped. -/
def strippedCommands (cs : List (List UInt8)) : Nat := cs.countP isStrippedFromLiveTurn

/-- The copy the walk holds after the commands `cs`: none before the first stripped one. -/
def copyAfter (cs : List (List UInt8)) : Option (List UInt8) :=
  if cs.any isStrippedFromLiveTurn then some (keptCommands cs) else none

theorem keptCommands_append (cs ds : List (List UInt8)) : keptCommands (cs ++ ds) = keptCommands cs ++ keptCommands ds := by
  simp [keptCommands]

/-- The copy, or the walked bytes themselves while there is none, are the kept commands. -/
theorem copyAfter_getD (cs : List (List UInt8)) : (copyAfter cs).getD cs.flatten = keptCommands cs := by
  unfold copyAfter
  by_cases h : cs.any isStrippedFromLiveTurn = true
  · rw [if_pos h, getD_some]
  · rw [if_neg h, getD_none, keptCommands]
    have hall : cs.filter (fun c => !isStrippedFromLiveTurn c) = cs := by
      apply filter_eq_self.mpr
      intro c hc
      have hno := fun hs => h (any_eq_true.mpr ⟨c, hc, hs⟩)
      simpa using hno
    rw [hall]

theorem copyAfter_stripped (hc : isStrippedFromLiveTurn c = true) (cs : List (List UInt8)) :
    copyAfter (cs ++ [c]) = some ((copyAfter cs).getD cs.flatten) := by
  have hany : (cs ++ [c]).any isStrippedFromLiveTurn = true := by simp [hc]
  have hkept : keptCommands (cs ++ [c]) = keptCommands cs := by simp [keptCommands, hc]
  rw [copyAfter_getD]
  unfold copyAfter
  rw [if_pos hany, hkept]

theorem copyAfter_kept (hc : isStrippedFromLiveTurn c = false) (cs : List (List UInt8)) :
    copyAfter (cs ++ [c]) = (copyAfter cs).map (· ++ c) := by
  have hany : (cs ++ [c]).any isStrippedFromLiveTurn = cs.any isStrippedFromLiveTurn := by simp [hc]
  have hkept : keptCommands (cs ++ [c]) = keptCommands cs ++ c := by simp [keptCommands, hc]
  unfold copyAfter
  rw [hany, hkept]
  split <;> rfl

/-- One round of the walk over a well-formed command. -/
theorem validateLoop_command {fuel : Nat} {commands r : List UInt8}
    (hc : WellFormed c) (hcommands : commands = cs.flatten ++ (c ++ r)) :
    validateLoop commands (fuel + 1) cs.flatten.length (copyAfter cs) (strippedCommands cs) =
      validateLoop commands fuel (cs ++ [c]).flatten.length (copyAfter (cs ++ [c])) (strippedCommands (cs ++ [c])) := by
  have hdrop : commands.drop cs.flatten.length = c ++ r := by rw [hcommands, drop_left]
  have htake : commands.take cs.flatten.length = cs.flatten := by rw [hcommands, take_left]
  have hlen : (cs ++ [c]).flatten.length = cs.flatten.length + c.length := by simp
  obtain ⟨op, tail, rfl⟩ := exists_cons_of_ne_nil hc.ne_nil
  have hnext : nextCommand cs.flatten.length op ((op :: tail) ++ r) = .ok (op :: tail) := by
    rw [nextCommand_of_len rfl (hc.len_append r) (by simp), take_left]
  rw [validateLoop, hdrop]
  simp only [cons_append] at hnext ⊢
  simp only [hnext, bind, Except.bind]
  rw [hlen]
  by_cases hs : isStrippedFromLiveTurn (op :: tail) = true
  · rw [if_pos hs, copyAfter_stripped hs, htake]
    simp [strippedCommands, hs]
  · rw [if_neg hs, copyAfter_kept (by simpa using hs)]
    simp [strippedCommands, hs]

/-- **The walk ends where the commands end**: it accepts if they end with the turn, else it fails at the
    byte past them. -/
theorem validateLoop_spec {commands : List UInt8} : ∀ (fuel : Nat) (cs : List (List UInt8)) (rest : List UInt8),
    commandFraming.AllWords cs → commands = cs.flatten ++ rest → rest.length ≤ fuel →
    (∃ ds, commandFraming.AllWords ds ∧ rest = ds.flatten ∧
      validateLoop commands fuel cs.flatten.length (copyAfter cs) (strippedCommands cs) =
        .ok (copyAfter (cs ++ ds), strippedCommands (cs ++ ds))) ∨
    ∃ ds op tail e, commandFraming.AllWords ds ∧ rest = ds.flatten ++ op :: tail ∧ commandFraming.Stuck (op :: tail) ∧
      validateLoop commands fuel cs.flatten.length (copyAfter cs) (strippedCommands cs) = .error e ∧
      e.offset = (cs ++ ds).flatten.length ∧ e.opcode = op := by
  intro fuel
  induction fuel with
  | zero =>
    intro cs rest _ _ hfuel
    obtain rfl := eq_nil_of_length_eq_zero (Nat.le_zero.mp hfuel)
    exact Or.inl ⟨[], allWords_nil, rfl, by rw [append_nil]; rfl⟩
  | succ fuel ih =>
    intro cs rest hcs hcommands hfuel
    have hdrop : commands.drop cs.flatten.length = rest := by rw [hcommands, drop_left]
    cases rest with
    | nil =>
      refine .inl ⟨[], allWords_nil, rfl, ?_⟩
      rw [validateLoop, hdrop, append_nil]
    | cons op tail =>
      by_cases hstuck : commandFraming.Stuck (op :: tail)
      · obtain ⟨e, he, hoff, hop⟩ : ∃ e, nextCommand cs.flatten.length op (op :: tail) = .error e ∧
            e.offset = cs.flatten.length ∧ e.opcode = op := nextCommand_of_stuck rfl hstuck
        refine .inr ⟨[], op, tail, e, allWords_nil, rfl, hstuck, ?_, ?_, hop⟩
        · rw [validateLoop, hdrop]
          simp only [he, bind, Except.bind]
        · rw [append_nil]; exact hoff
      · -- the next command, and then the rest of the walk
        obtain ⟨n, hn, hle⟩ : ∃ n, commandLength (op :: tail) = some n ∧ n ≤ (op :: tail).length := by
          unfold Framing.Stuck at hstuck
          push Not at hstuck
          exact hstuck
        have hword : WellFormed ((op :: tail).take n) := isWord_take hn hle
        have hsplit : op :: tail = (op :: tail).take n ++ (op :: tail).drop n := (take_append_drop n _).symm
        generalize hc : (op :: tail).take n = c at hword hsplit
        generalize hr : (op :: tail).drop n = r at hsplit
        have hcw : commandFraming.AllWords (cs ++ [c]) :=
          allWords_append.mpr ⟨hcs, allWords_cons.mpr ⟨hword, allWords_nil⟩⟩
        have hcommands' : commands = (cs ++ [c]).flatten ++ r := by
          rw [hcommands, hsplit, flatten_append, flatten_singleton, append_assoc]
        have hfewer : r.length ≤ fuel := by
          have h₁ := congrArg length hsplit
          rw [length_append] at h₁
          have h₂ := hword.length_pos
          omega
        rw [validateLoop_command hword (hsplit ▸ hcommands)]
        obtain ⟨ds, hds, hrest, hrun⟩ | ⟨ds, op', tail', e, hds, hrest, hst, hrun, hoff, hop⟩ :=
          ih (cs ++ [c]) r hcw hcommands' hfewer
        · refine .inl ⟨c :: ds, allWords_cons.mpr ⟨hword, hds⟩, ?_, ?_⟩
          · rw [hsplit, hrest]; rfl
          · rw [hrun, append_assoc]; rfl
        · refine .inr ⟨c :: ds, op', tail', e, allWords_cons.mpr ⟨hword, hds⟩, ?_, hst, hrun, ?_, hop⟩
          · rw [hsplit, hrest, flatten_cons, append_assoc]
          · rw [hoff, append_assoc]; rfl

/-! ## The whole turn -/

/-- A turn that splits into `cs`, validated for `slot`. -/
def sanitized (slot : SlotId) (p : Payload) (cs : List (List UInt8)) : ValidatedTurn where
  payload := { p with slot := slot.toWire, bufferDirective := none, commands := keptCommands cs }
  strippedControl := strippedCommands cs

/-- **A turn is walked to its end, or to the first byte no command starts at.** -/
theorem validateTurn_cases (slot : SlotId) (p : Payload) :
    (∃ cs, SplitsInto p.commands cs ∧ validateTurn slot p = .ok (sanitized slot p cs)) ∨
    ∃ cs op tail e, commandFraming.AllWords cs ∧ p.commands = cs.flatten ++ op :: tail ∧
      commandFraming.Stuck (op :: tail) ∧ validateTurn slot p = .error e ∧ e.offset = cs.flatten.length ∧ e.opcode = op := by
  have hspec := @validateLoop_spec p.commands p.commands.length [] p.commands allWords_nil rfl le_rfl
  simp only [flatten_nil, length_nil, nil_append] at hspec
  unfold validateTurn
  obtain ⟨cs, hcs, hp, hrun⟩ | ⟨cs, op, tail, e, hcs, hp, hst, hrun, hoff, hop⟩ := hspec
  · refine .inl ⟨cs, ⟨hcs, hp⟩, ?_⟩
    have hkept : (copyAfter cs).getD p.commands = keptCommands cs := by rw [hp, copyAfter_getD]
    change validateLoop p.commands p.commands.length 0 none 0 = _ at hrun
    simp only [hrun, bind, Except.bind, hkept]
    rfl
  · refine .inr ⟨cs, op, tail, e, hcs, hp, hst, ?_, hoff, hop⟩
    change validateLoop p.commands p.commands.length 0 none 0 = _ at hrun
    simp only [hrun, bind, Except.bind]

/-- A turn that is stuck somewhere does not split. -/
theorem not_splitsInto_stuck {ds : List (List UInt8)} {op : UInt8} {tail : List UInt8}
    (hcs : commandFraming.AllWords cs) (hst : commandFraming.Stuck (op :: tail)) :
    ¬ SplitsInto (cs.flatten ++ op :: tail) ds := by
  rintro ⟨hds, heq⟩
  rw [← append_nil ds.flatten] at heq
  obtain ⟨t, rfl, ht⟩ | ⟨t, -, ht⟩ := flatten_compare hcs hds heq
  · cases t with
    | nil => simp at ht
    | cons c t =>
      have hcw := (allWords_cons.mp (allWords_append.mp hds).2).1
      rw [flatten_cons, append_assoc] at ht
      exact hst.not_append hcw ht
  · have := congrArg length ht
    rw [length_append, length_cons, length_nil] at this
    omega

theorem validateTurn_of_split (h : SplitsInto p.commands cs) : validateTurn slot p = .ok (sanitized slot p cs) := by
  obtain ⟨ds, hds, hok⟩ | ⟨ds, op, tail, e, hds, hp, hst, -, -, -⟩ := validateTurn_cases slot p
  · rw [hok, flatten_injective hds.1 h.1 (hds.2.symm.trans h.2)]
  · rw [hp] at h
    exact absurd h (not_splitsInto_stuck hds hst)

theorem split_of_validateTurn {v : ValidatedTurn}
    (h : validateTurn slot p = .ok v) : ∃ cs, SplitsInto p.commands cs ∧ v = sanitized slot p cs := by
  obtain ⟨cs, hcs, hok⟩ | ⟨cs, op, tail, e, -, -, -, herr, -, -⟩ := validateTurn_cases slot p
  · rw [hok] at h
    exact ⟨cs, hcs, (Except.ok.inj h).symm⟩
  · rw [herr] at h; cases h

/-- What is forwarded is itself a turn, with nothing left to strip. -/
theorem keptCommands_splits (hcs : commandFraming.AllWords cs) :
    SplitsInto (keptCommands cs) (cs.filter fun c => !isStrippedFromLiveTurn c) :=
  ⟨fun c hc => hcs c (mem_of_mem_filter hc), rfl⟩

theorem sanitized_idem (slot : SlotId) (p : Payload) (cs : List (List UInt8)) :
    sanitized slot (sanitized slot p cs).payload (cs.filter fun c => !isStrippedFromLiveTurn c) =
      ⟨(sanitized slot p cs).payload, 0⟩ := by
  have hzero : strippedCommands (cs.filter fun c => !isStrippedFromLiveTurn c) = 0 :=
    by simp [strippedCommands, countP_eq_zero]
  simp [sanitized, keptCommands, hzero]

/-- A stripped command has at least two bytes. -/
theorem two_le_of_stripped (hc : WellFormed c) (hs : isStrippedFromLiveTurn c = true) : 2 ≤ c.length := by
  by_contra hlt
  have hone : c.length = 1 := by
    have := hc.length_pos
    omega
  obtain ⟨op, rfl⟩ := length_eq_one_iff.mp hone
  have hop : op ∈ relayOwnedPacing ++ replayOnly := by simpa [isStrippedFromLiveTurn] using hs
  have hno : ∀ op ∈ relayOwnedPacing ++ replayOnly, commandLength [op] ≠ some 1 := by decide +kernel
  exact hno op hop hc

theorem two_mul_strippedCommands_le (hcs : commandFraming.AllWords cs) : 2 * strippedCommands cs ≤ cs.flatten.length := by
  induction cs with
  | nil => exact Nat.zero_le _
  | cons c cs ih =>
    obtain ⟨hc, hcs⟩ := allWords_cons.mp hcs
    have htail := ih hcs
    rw [strippedCommands, countP_cons, flatten_cons, length_append]
    by_cases hs : isStrippedFromLiveTurn c = true
    · have := two_le_of_stripped hc hs
      rw [if_pos hs]
      unfold strippedCommands at htail
      omega
    · rw [if_neg hs]
      unfold strippedCommands at htail
      omega

/-- **`validate_turn` is the command grammar with live-turn stripping.** It accepts exactly the turns that
    split into well-formed commands, and then returns the commands that are not stripped, in order, and how
    many were stripped (half the turn's bytes at most), bound to the authorized slot with no buffer directive
    and the client's other fields; what it returns validates to itself with nothing stripped; it distributes
    over concatenation; and a rejection names the end of the longest start of the turn that splits, and the
    opcode there. -/
theorem validateTurn_is_command_grammar (slot : SlotId) (p : Payload) :
    ((∃ v, validateTurn slot p = .ok v) ↔ ∃ cs, SplitsInto p.commands cs) ∧
    (∀ cs, SplitsInto p.commands cs → validateTurn slot p = .ok
        { payload := { p with
            slot := slot.toWire
            bufferDirective := none
            commands := (cs.filter fun c => !isStrippedFromLiveTurn c).flatten }
          strippedControl := cs.countP isStrippedFromLiveTurn } ∧
      2 * cs.countP isStrippedFromLiveTurn ≤ p.commands.length) ∧
    (∀ v, validateTurn slot p = .ok v → validateTurn slot v.payload = .ok ⟨v.payload, 0⟩) ∧
    (∀ a b va vb, validateTurn slot { p with commands := a } = .ok va → validateTurn slot { p with commands := b } = .ok vb →
      validateTurn slot { p with commands := a ++ b } = .ok
        { payload := { va.payload with commands := va.payload.commands ++ vb.payload.commands }
          strippedControl := va.strippedControl + vb.strippedControl }) ∧
    (∀ e, validateTurn slot p = .error e → IsGreatest
      {n | n ≤ p.commands.length ∧ ∃ cs, SplitsInto (p.commands.take n) cs} e.offset ∧
      p.commands[e.offset]? = some e.opcode) := by
  refine ⟨⟨?_, ?_⟩, ?_, ?_, ?_, ?_⟩
  · rintro ⟨v, hv⟩
    obtain ⟨cs, hcs, -⟩ := split_of_validateTurn hv
    exact ⟨cs, hcs⟩
  · rintro ⟨cs, hcs⟩
    exact ⟨_, validateTurn_of_split hcs⟩
  · intro cs hcs
    refine ⟨validateTurn_of_split hcs, ?_⟩
    rw [hcs.2]
    exact two_mul_strippedCommands_le hcs.1
  · intro v hv
    obtain ⟨cs, hcs, rfl⟩ := split_of_validateTurn hv
    have hkept : SplitsInto (sanitized slot p cs).payload.commands _ := keptCommands_splits hcs.1
    rw [validateTurn_of_split hkept, sanitized_idem]
  · intro a b va vb hva hvb
    obtain ⟨cs, hcs, rfl⟩ := split_of_validateTurn hva
    obtain ⟨ds, hds, rfl⟩ := split_of_validateTurn hvb
    have hab : SplitsInto (a ++ b) (cs ++ ds) :=
      ⟨allWords_append.mpr ⟨hcs.1, hds.1⟩, by rw [flatten_append, ← hcs.2, ← hds.2]⟩
    rw [validateTurn_of_split (p := { p with commands := a ++ b }) hab]
    simp [sanitized, keptCommands_append, strippedCommands]
  · intro e he
    obtain ⟨cs, -, hok⟩ | ⟨cs, op, tail, e', hcs, hp, hst, herr, hoff, hop⟩ := validateTurn_cases slot p
    · rw [hok] at he; cases he
    · obtain rfl : e' = e := Except.error.inj (herr.symm.trans he)
      -- the starts of the turn that split, as lengths of lists of words
      have hset : {n | n ≤ p.commands.length ∧ ∃ cs, SplitsInto (p.commands.take n) cs} =
          {n | ∃ ds, commandFraming.AllWords ds ∧ ds.flatten <+: cs.flatten ++ op :: tail ∧ n = ds.flatten.length} := by
        rw [← hp]
        ext n
        constructor
        · rintro ⟨hn, ds, hds, heq⟩
          refine ⟨ds, hds, heq ▸ take_prefix n _, ?_⟩
          rw [← heq, length_take, min_eq_left hn]
        · rintro ⟨ds, hds, hpre, rfl⟩
          exact ⟨hpre.length_le, ds, hds, (prefix_iff_eq_take.mp hpre).symm⟩
      rw [hset, hoff, hop]
      refine ⟨stuck_isGreatest hcs hst, ?_⟩
      rw [hp]
      simp

end RallyPoint.Relay
