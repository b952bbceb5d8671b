import RallyPoint.Client.SyncGeneration
import RallyPoint.Relay.Correctness.SyncTurns
import RallyPoint.Relay.Maker.Sync

/-!
# `Client.Correctness.SyncGeneration` — the tags of an honest client, and what the relay makes of them

The native game is followed by two numbers, its generation and the one staged by the last flush. `Honest`
says which calls it makes, and the tracker then knows both numbers exactly (`Tracks`), so that the tag of
a turn is the staged one.

The relay takes the tags in the order of the turns. It accepts a first tag below the ring's size and a
later one that is not too far past the last. Only the turns with a checksum have tags, so how far the
game moves from flush to flush does not bound how far apart two tags are: with turns without a checksum
in between they can be too far apart.
-/

namespace RallyPoint.Client

open Lib Proto List Option

/-! ## The two walks over a turn's commands -/

/-- The ring of the first checksum, if there is one. -/
def FirstSync.ring? : FirstSync → Option Nat
  | .found ring => some ring
  | _ => none

/-- **The relay reads the same checksum** off a turn as the client does. -/
theorem parseSync_ring (commands : List UInt8) : (Relay.parseSync commands).map (·.ring) = (firstSync commands).ring? := by
  unfold Relay.parseSync firstSync
  generalize commands.length = fuel
  induction fuel generalizing commands with
  | zero => rfl
  | succ fuel ih =>
    unfold Relay.parseSyncFrom firstSyncFrom
    by_cases hnil : commands = []
    · subst hnil
      rfl
    · rw [if_neg hnil]
      cases hlen : commandLength commands with
      | none => rfl
      | some len =>
        by_cases hfits : 0 < len ∧ len ≤ commands.length
        · have hkept : (some len).filter (fun length => decide (0 < length ∧ length ≤ commands.length)) = some len :=
            filter_eq_some_iff.mpr ⟨rfl, by simpa using hfits⟩
          have hover : ¬ (len = 0 ∨ commands.length < len) := by omega
          rw [hkept]
          dsimp only
          rw [if_neg hover]
          by_cases hsync : commands.head? = some Relay.syncCommand ∧ len = Relay.syncCommandLen
          · have hsync' : commands.head? = some syncCommand ∧ len = syncCommandLen := hsync
            rw [if_pos hsync, if_pos hsync', hsync.2]
            show some _ = some _
            simp [Relay.readSyncCommand, Relay.syncCommandLen]
          · have hsync' : ¬ (commands.head? = some syncCommand ∧ len = syncCommandLen) := hsync
            rw [if_neg hsync, if_neg hsync']
            exact ih _
        · have hdropped : (some len).filter (fun length =>
            decide (0 < length ∧ length ≤ commands.length)) = none := by simpa using hfits
          have hover : len = 0 ∨ commands.length < len := by omega
          rw [hdropped]
          dsimp only
          rw [if_pos hover]
          rfl

/-! ## An honest native game -/

/-- The calls of a native game at generation `g`, after a flush staged `staged`: a recording moves the
    ring by one, and a flush sends the checksum that was staged, or else the current one. -/
def Honest : Nat → Option Nat → List NativeCall → Prop
  | _, _, [] => True
  | g, staged, .recordSyncSlot before after :: calls =>
    before.toNat = g % ringSize ∧ after.toNat = (g + 1) % ringSize ∧ Honest (g + 1) staged calls
  | g, staged, .stampTurn commands nativeRing :: calls =>
    nativeRing.toNat = g % ringSize ∧ firstSync commands ≠ .malformed ∧
      (∀ ring ∈ (firstSync commands).ring?, ring = staged.getD g % ringSize) ∧ Honest g (some g) calls

instance decidableHonest : ∀ g staged calls, Decidable (Honest g staged calls)
  | _, _, [] => .isTrue trivial
  | g, staged, .recordSyncSlot before after :: calls =>
    have := decidableHonest (g + 1) staged calls
    inferInstanceAs (Decidable (before.toNat = g % ringSize ∧ after.toNat = (g + 1) % ringSize ∧
      Honest (g + 1) staged calls))
  | g, staged, .stampTurn commands nativeRing :: calls =>
    have := decidableHonest g (some g) calls
    inferInstanceAs (Decidable (nativeRing.toNat = g % ringSize ∧ firstSync commands ≠ .malformed ∧
      (∀ ring ∈ (firstSync commands).ring?, ring = staged.getD g % ringSize) ∧ Honest g (some g) calls))

/-- How often the game records. -/
def recordings : List NativeCall → Nat
  | [] => 0
  | .recordSyncSlot _ _ :: calls => recordings calls + 1
  | .stampTurn _ _ :: calls => recordings calls

/-- The turns of the game, each with the generation of its checksum if it has one. -/
def trueTags : Nat → Option Nat → List NativeCall → List (List UInt8 × Option Nat)
  | _, _, [] => []
  | g, staged, .recordSyncSlot _ _ :: calls => trueTags (g + 1) staged calls
  | g, staged, .stampTurn commands _ :: calls =>
    (commands, (firstSync commands).ring?.map fun _ => staged.getD g) :: trueTags g (some g) calls

/-- What the tracker knows of the game: nothing before the first call, in the game's first cycle. -/
structure Tracks (t : SyncGenerationTracker) (g : Nat) (staged : Option Nat) : Prop where
  sound : t.failed = false
  native : t.nativeGeneration = some g ∨ t.nativeGeneration = none ∧ g < ringSize
  staged : t.stagedGeneration = staged

namespace Tracks

variable {t : SyncGenerationTracker} {g : Nat} {staged : Option Nat}

variable {ring : UInt8}

section Tracks

variable (h : Tracks t g staged)
include h

theorem observeNativeRing (hring : ring.toNat = g % ringSize) :
    t.observeNativeRing ring = ({ t with nativeGeneration := some g }, some g) := by
  have hlt : ¬ ringSize ≤ ring.toNat := by
    rw [hring]
    exact not_le.mpr (Nat.mod_lt _ (by decide))
  have hgen : t.nativeGeneration.getD ring.toNat = g := by
    obtain hsome | ⟨hnone, hfirst⟩ := h.native
    · rw [hsome]
      rfl
    · rw [hnone, hring, Nat.mod_eq_of_lt hfirst]
      rfl
  unfold SyncGenerationTracker.observeNativeRing
  rw [h.sound, if_neg Bool.false_ne_true, if_neg hlt]
  dsimp only
  rw [hgen, if_neg (not_not.mpr hring.symm)]

theorem recordSyncSlot {before after : UInt8} (hbefore : before.toNat = g % ringSize)
    (hafter : after.toNat = (g + 1) % ringSize) (hmax : g + 1 < u64Max) :
    Tracks (t.recordSyncSlot before after) (g + 1) staged := by
  have hnext : after.toNat = (before.toNat + 1) % ringSize := by rw [hafter, hbefore, Nat.mod_add_mod]
  have hadd : (checkedAdd u64Max g 1).filter (· ≠ invalidGeneration) = some (g + 1) := by
    rw [checkedAdd_of_le hmax.le]
    exact filter_eq_some_iff.mpr ⟨rfl, decide_eq_true hmax.ne⟩
  unfold SyncGenerationTracker.recordSyncSlot
  rw [h.observeNativeRing hbefore]
  dsimp only
  rw [if_neg (not_not.mpr hnext), hadd]
  exact ⟨h.sound, .inl rfl, h.staged⟩

theorem stampTurn {commands : List UInt8} (hring : ring.toNat = g % ringSize)
    (hwell : firstSync commands ≠ .malformed)
    (hchecksum : ∀ r ∈ (firstSync commands).ring?, r = staged.getD g % ringSize) :
    Tracks (t.stampTurn commands ring).1 g (some g) ∧
      (t.stampTurn commands ring).2 = (firstSync commands).ring?.map fun _ => staged.getD g := by
  unfold SyncGenerationTracker.stampTurn
  rw [h.observeNativeRing hring]
  dsimp only
  cases hfirst : firstSync commands with
  | malformed => exact absurd hfirst hwell
  | absent => exact ⟨⟨h.sound, .inl rfl, rfl⟩, rfl⟩
  | found r =>
    have hstaged : (t.stagedGeneration <|> some g) = some (staged.getD g) := by
      rw [h.staged]
      cases staged <;> rfl
    have hok : ¬ (t.failed = true ∨ (some (staged.getD g)).all (· % ringSize ≠ r) = true) := by
      rw [h.sound, hchecksum r (by rw [hfirst]; rfl)]
      simp
    dsimp only
    rw [hstaged, if_neg hok]
    exact ⟨⟨h.sound, .inl rfl, rfl⟩, rfl⟩

/-- **The tracker never fails on an honest game, and tags each checksum with its generation.** -/
theorem run {calls : List NativeCall} (hhonest : Honest g staged calls) (hmax : g + recordings calls < u64Max) :
    (t.run calls).1.failed = false ∧ (t.run calls).2 = trueTags g staged calls := by
  induction calls generalizing t g staged with
  | nil => exact ⟨h.sound, rfl⟩
  | cons call calls ih =>
    cases call with
    | recordSyncSlot before after =>
      obtain ⟨hbefore, hafter, hrest⟩ := hhonest
      rw [recordings] at hmax
      exact ih (h.recordSyncSlot hbefore hafter (by omega)) hrest (by omega)
    | stampTurn commands ring =>
      obtain ⟨hring, hwell, hchecksum, hrest⟩ := hhonest
      obtain ⟨hnext, htag⟩ := h.stampTurn hring hwell hchecksum
      obtain ⟨hfailed, htags⟩ := ih hnext hrest hmax
      refine ⟨hfailed, ?_⟩
      show (commands, (t.stampTurn commands ring).2) :: ((t.stampTurn commands ring).1.run calls).2 = _
      rw [htag, htags]
      rfl

end Tracks

end Tracks

theorem new_tracks {g : Nat} (h : g < ringSize) : Tracks .new g none := ⟨rfl, .inr ⟨rfl, h⟩, rfl⟩

/-! ## What the relay makes of the tags -/

/-- The tags in order, each with the last one before it, satisfy `R`; turns without a tag are passed
    over. -/
def Chained (R : Option Nat → Nat → Prop) : Option Nat → List (Option Nat) → Prop
  | _, [] => True
  | last, none :: tags => Chained R last tags
  | last, some tag :: tags => R last tag ∧ Chained R (some tag) tags

/-- The relay's bound: a first tag is below the ring's size, a later one at most the safe buffer on. -/
def InReach : Option Nat → Nat → Prop
  | none, tag => tag < ringSize
  | some last, tag => tag ≤ last + Relay.gameSyncSafeBufferMax

/-- A tag is not below the last one. -/
def NotBack (last : Option Nat) (tag : Nat) : Prop := ∀ y, last = some y → y ≤ tag

/-- A turn as the relay receives it: the client's commands, with the tag on it. -/
structure Carries (sent : List UInt8 × Option Nat) (turn : Relay.SyncTurn) : Prop where
  command : turn.command = Relay.parseSync sent.1
  generation : turn.generation.map Fin.val = sent.2
  ordinal : turn.ordinal = none
  skipped : turn.skipped = none

/-- A turn as the relay accepts it after the tag `last`: the generations in between are skipped. -/
def acceptedTurn (last : Option Nat) (turn : Relay.SyncTurn) : Relay.SyncTurn :=
  match turn.generation with
  | none => turn
  | some tag =>
    { turn with ordinal := some (tag : Nat), skipped := last.bind fun y => Relay.SlotTurns.gapAfter y tag }

/-- The last tag after one more turn. -/
def tagAfter (last : Option Nat) (turn : Relay.SyncTurn) : Option Nat := turn.generation.map Fin.val <|> last

def accepted : Option Nat → List Relay.SyncTurn → List Relay.SyncTurn
  | _, [] => []
  | last, turn :: turns => acceptedTurn last turn :: accepted (tagAfter last turn) turns

/-- The relay's answers to a slot's turns in the order of their seqs, from `seq` on. -/
def feed (slot : SlotId) (t : Relay.SyncTurns) : Nat → List Relay.SyncTurn →
    Relay.SyncTurns × List (Except Relay.SyncOrderingFailure (Option Relay.SyncTurn))
  | _, [] => (t, [])
  | seq, turn :: turns =>
    let (t, result) := t.push slot seq turn
    let (t, results) := feed slot t (seq + 1) turns
    (t, result :: results)

/-- A slot's ordering after consecutive turns with tags, the last of them `last`. -/
structure Consumed (s : Relay.SlotTurns) (seq : Nat) (last : Option Nat) : Prop where
  failure : s.failure = none
  next : s.next = seq
  ordinal : s.ordinal = last
  mode : s.mode = last.map fun _ => .enhanced

/-- A turn whose tag, if it has one, is of its checksum, and has none if it has no checksum. -/
structure Tagged (turn : Relay.SyncTurn) : Prop where
  ring : turn.command.map (·.ring) = turn.generation.map fun (tag : U64) => (tag : Nat) % Relay.syncRingModulus
  below : ∀ tag, turn.generation = some tag → (tag : Nat) < u64Max
  skipped : turn.skipped = none

variable {calls : List NativeCall} {sent : List (List UInt8 × Option Nat)} {turns : List Relay.SyncTurn}
  {last : Option Nat} {slot : SlotId} {seq : Nat} {turn : Relay.SyncTurn}

/-- **The relay consumes the next turn**: one without a checksum, or one with a tag in reach under that
    tag. -/
theorem Consumed.consume {s : Relay.SlotTurns} (h : Consumed s seq last) (hmax : seq < u64Max)
    (hturn : Tagged turn)
    (hreach : ∀ tag, turn.generation = some tag → InReach last tag ∧ NotBack last tag) :
    ∃ s', s.consume seq turn = (s', .ok (acceptedTurn last turn)) ∧ Consumed s' (seq + 1) (tagAfter last turn) := by
  have hnext : checkedAdd u64Max s.next 1 = some (seq + 1) := by
    rw [h.next]
    exact checkedAdd_of_le hmax
  have hring := hturn.ring
  unfold Relay.SlotTurns.consume acceptedTurn tagAfter
  rw [hnext]
  dsimp only
  cases hgen : turn.generation with
  | none =>
    rw [hgen] at hring
    have hcommand : turn.command = none := map_eq_none_iff.mp hring
    rw [hcommand]
    exact ⟨_, rfl, h.failure, rfl, h.ordinal, h.mode⟩
  | some tag =>
    rw [hgen] at hring
    obtain ⟨command, hcommand, hring⟩ := map_eq_some_iff.mp hring
    obtain ⟨hin, hback⟩ := hreach tag hgen
    have hbelow := hturn.below tag hgen
    have hassign : s.assign command.ring (some tag) =
      .ok ((tag : Nat), last.bind fun y => Relay.SlotTurns.gapAfter y tag) := by
      rw [hring]
      cases last with
      | none => exact Relay.SlotTurns.assign_first h.mode hbelow hin
      | some y => exact Relay.SlotTurns.assign_next h.mode h.ordinal hbelow (hback y rfl) hin
    have hmode : s.modeAfter (some tag) = .enhanced := by
      unfold Relay.SlotTurns.modeAfter
      rw [h.mode]
      cases last <;> rfl
    rw [hcommand]
    dsimp only
    rw [hassign, hturn.skipped, hmode]
    dsimp only
    have hskipped : ((last.bind fun y => Relay.SlotTurns.gapAfter y tag) <|> none) = last.bind fun y =>
      Relay.SlotTurns.gapAfter y tag := by
      cases last.bind fun y => Relay.SlotTurns.gapAfter y tag <;> rfl
    rw [hskipped]
    exact ⟨_, rfl, h.failure, rfl, rfl, rfl⟩

theorem unavailable_of_entry {t : Relay.SyncTurns} (h : (t.entry slot).failure = none) : t.unavailable slot = false := by
  unfold Relay.SyncTurns.unavailable Relay.SyncTurns.failure
  unfold Relay.SyncTurns.entry at h
  cases hslot : t.slots slot with
  | none => rfl
  | some s =>
    rw [hslot] at h
    rw [bind_some, show s.failure = none from h]
    rfl

/-- The turn at `next` is consumed at once. -/
theorem push_next {t : Relay.SyncTurns} (h : Consumed (t.entry slot) seq last)
    (turn : Relay.SyncTurn) {s' : Relay.SlotTurns} {accepted : Relay.SyncTurn}
    (hconsume : (t.entry slot).consume seq turn = (s', .ok accepted)) :
    t.push slot seq turn = (t.setSlot slot s', .ok (some accepted)) := by
  have hlive : ¬ ((t.entry slot).failure.isSome = true ∨ seq < (t.entry slot).next) := by
    rw [h.failure, h.next]
    simp
  unfold Relay.SyncTurns.push Relay.SlotTurns.push
  rw [if_neg hlive, if_pos h.next.symm, hconsume]
  rfl

theorem entry_setSlot (t : Relay.SyncTurns) (slot : SlotId) (s : Relay.SlotTurns) : (t.setSlot slot s).entry slot = s := by
  simp [Relay.SyncTurns.entry, Relay.SyncTurns.setSlot]

/-- **Turns with tags in reach are all accepted**, fed in order. -/
theorem feed_accepted {t : Relay.SyncTurns} (h : Consumed (t.entry slot) seq last)
    (hmax : seq + turns.length ≤ u64Max) (hturns : ∀ turn ∈ turns, Tagged turn)
    (hchain : Chained (fun last tag => InReach last tag ∧ NotBack last tag) last
      (turns.map fun turn => turn.generation.map Fin.val)) :
    (feed slot t seq turns).2 = (accepted last turns).map (fun turn => .ok (some turn)) ∧
      (feed slot t seq turns).1.unavailable slot = false := by
  induction turns generalizing t seq last with
  | nil => exact ⟨rfl, unavailable_of_entry h.failure⟩
  | cons turn turns ih =>
    rw [length_cons] at hmax
    rw [map_cons] at hchain
    obtain ⟨hreach, hrest⟩ : (∀ tag, turn.generation = some tag → InReach last tag ∧ NotBack last tag) ∧
        Chained (fun last tag => InReach last tag ∧ NotBack last tag) (tagAfter last turn)
          (turns.map fun turn => turn.generation.map Fin.val) := by
      unfold tagAfter
      cases hgen : turn.generation with
      | none =>
        rw [hgen] at hchain
        exact ⟨fun _ htag => absurd htag (by simp), hchain⟩
      | some tag =>
        rw [hgen] at hchain
        refine ⟨fun tag' htag => ?_, hchain.2⟩
        obtain rfl := some.inj htag
        exact hchain.1
    obtain ⟨s', hconsume, hnext⟩ := h.consume (by omega) (hturns turn mem_cons_self) hreach
    have hpush := push_next h turn hconsume
    have hentry : Consumed ((t.setSlot slot s').entry slot) (seq + 1) (tagAfter last turn) := by
      rw [entry_setSlot]
      exact hnext
    obtain ⟨hresults, hlive⟩ := ih hentry (by omega) (fun x hx => hturns x (mem_cons_of_mem _ hx)) hrest
    unfold feed accepted
    rw [hpush]
    refine ⟨?_, hlive⟩
    rw [map_cons, ← hresults]

/-! ## From the game to the relay -/

/-- The tag of an honest turn is of its checksum's ring, and never past the game's own generation. -/
theorem trueTags_spec {g : Nat} {staged : Option Nat} (hhonest : Honest g staged calls)
    (hstaged : staged.getD g ≤ g) :
    ∀ x ∈ trueTags g staged calls, (firstSync x.1).ring? = x.2.map (· % ringSize) ∧ ∀ tag,
      x.2 = some tag → tag ≤ g + recordings calls := by
  induction calls generalizing g staged with
  | nil => exact fun x hx => absurd hx not_mem_nil
  | cons call calls ih =>
    cases call with
    | recordSyncSlot before after =>
      obtain ⟨-, -, hrest⟩ := hhonest
      have hnext : staged.getD (g + 1) ≤ g + 1 := by
        cases staged with
        | none => exact le_rfl
        | some p => exact Nat.le_succ_of_le hstaged
      intro x hx
      obtain ⟨hring, hle⟩ := ih hrest hnext x hx
      refine ⟨hring, fun tag htag => ?_⟩
      have := hle tag htag
      rw [recordings]
      omega
    | stampTurn commands ring =>
      obtain ⟨-, hwell, hchecksum, hrest⟩ := hhonest
      intro x hx
      obtain rfl | hx := mem_cons.mp hx
      · cases hfirst : firstSync commands with
        | malformed => exact absurd hfirst hwell
        | absent => exact ⟨rfl, fun tag htag => nomatch htag⟩
        | found r =>
          refine ⟨by rw [hchecksum r (by rw [hfirst]; rfl)]; rfl, fun tag htag => ?_⟩
          obtain rfl : staged.getD g = tag := some.inj htag
          exact hstaged.trans (Nat.le_add_right _ _)
      · exact ih hrest le_rfl x hx

/-- The tags of an honest game never go back. -/
theorem chained_notBack {R : Option Nat → Nat → Prop} {g : Nat} {staged : Option Nat}
    (hstaged : staged.getD g ≤ g) (hlast : NotBack last (staged.getD g))
    (h : Chained R last ((trueTags g staged calls).map Prod.snd)) :
    Chained (fun last tag => R last tag ∧ NotBack last tag) last ((trueTags g staged calls).map Prod.snd) := by
  induction calls generalizing g staged last with
  | nil => trivial
  | cons call calls ih =>
    cases call with
    | recordSyncSlot before after =>
      refine ih ?_ ?_ h
      · cases staged with
        | none => exact le_rfl
        | some p => exact Nat.le_succ_of_le hstaged
      · intro y hy
        cases staged with
        | none => exact Nat.le_succ_of_le (hlast y hy)
        | some p => exact hlast y hy
    | stampTurn commands ring =>
      unfold trueTags at h ⊢
      rw [map_cons] at h ⊢
      cases hring : (firstSync commands).ring? with
      | none =>
        rw [hring] at h
        exact ih le_rfl (fun y hy => (hlast y hy).trans hstaged) h
      | some r =>
        rw [hring] at h
        refine ⟨⟨h.1, hlast⟩, ih le_rfl (fun y hy => ?_) h.2⟩
        obtain rfl := some.inj hy
        exact hstaged

/-- The game's generation at each flush. -/
def flushGenerations : Nat → List NativeCall → List Nat
  | _, [] => []
  | g, .recordSyncSlot _ _ :: calls => flushGenerations (g + 1) calls
  | g, .stampTurn _ _ :: calls => g :: flushGenerations g calls

/-- The first flush is in the first cycle, and from flush to flush the game moves by at most the safe
    buffer. -/
structure Paced (g : Nat) (calls : List NativeCall) : Prop where
  first : ∀ h ∈ (flushGenerations g calls).head?, h < ringSize
  step : (flushGenerations g calls).IsChain fun a b => b ≤ a + Relay.gameSyncSafeBufferMax

/-- Every turn has a checksum. -/
def EveryTurn (calls : List NativeCall) : Prop :=
  ∀ commands ring, .stampTurn commands ring ∈ calls → (firstSync commands).ring?.isSome

theorem EveryTurn.tail {call : NativeCall} (h : EveryTurn (call :: calls)) : EveryTurn calls :=
  fun commands ring hmem => h commands ring (mem_cons_of_mem _ hmem)

theorem chained_of_step {g p q : Nat} (hpq : p ≤ q + Relay.gameSyncSafeBufferMax)
    (hstep : (p :: flushGenerations g calls).IsChain fun a b => b ≤ a + Relay.gameSyncSafeBufferMax)
    (hevery : EveryTurn calls) :
    Chained InReach (some q) ((trueTags g (some p) calls).map Prod.snd) := by
  induction calls generalizing g p q with
  | nil => trivial
  | cons call calls ih =>
    cases call with
    | recordSyncSlot before after => exact ih hpq hstep hevery.tail
    | stampTurn commands ring =>
      obtain ⟨r, hr⟩ := isSome_iff_exists.mp (hevery commands ring mem_cons_self)
      obtain ⟨hle, hchain⟩ := isChain_cons_cons.mp hstep
      unfold trueTags
      rw [map_cons, hr]
      exact ⟨hpq, ih hle hchain hevery.tail⟩

/-- **If every turn has a checksum, the pace of the flushes is enough**: a tag is the last flush's
    generation. -/
theorem chained_of_paced {g : Nat} (hpaced : Paced g calls) (hevery : EveryTurn calls) :
    Chained InReach none ((trueTags g none calls).map Prod.snd) := by
  induction calls generalizing g with
  | nil => trivial
  | cons call calls ih =>
    cases call with
    | recordSyncSlot before after => exact ih ⟨hpaced.first, hpaced.step⟩ hevery.tail
    | stampTurn commands ring =>
      obtain ⟨r, hr⟩ := isSome_iff_exists.mp (hevery commands ring mem_cons_self)
      unfold trueTags
      rw [map_cons, hr]
      exact ⟨hpaced.first g rfl, chained_of_step (Nat.le_add_right _ _) hpaced.step hevery.tail⟩

/-! ## Inconsistent observations -/

/-- A ring that is none, or not the one the tracker has the game at. -/
def RingMismatch (t : SyncGenerationTracker) (ring : UInt8) : Prop :=
  ringSize ≤ ring.toNat ∨ t.nativeGeneration.getD ring.toNat % ringSize ≠ ring.toNat

/-- A call that does not fit what the tracker has seen of the game. -/
def Inconsistent (t : SyncGenerationTracker) : NativeCall → Prop
  | .recordSyncSlot before after =>
    RingMismatch t before ∨ after.toNat ≠ (before.toNat + 1) % ringSize ∨
      invalidGeneration ≤ t.nativeGeneration.getD before.toNat + 1
  | .stampTurn commands nativeRing =>
    RingMismatch t nativeRing ∨ firstSync commands = .malformed ∨ ∃ ring, firstSync commands = .found ring ∧
        t.stagedGeneration.getD (t.nativeGeneration.getD nativeRing.toNat) % ringSize ≠ ring

section Latch

variable {t : SyncGenerationTracker}

theorem observeNativeRing_failed (h : t.failed = true) (ring : UInt8) : t.observeNativeRing ring = (t, none) := by
  unfold SyncGenerationTracker.observeNativeRing
  rw [if_pos h]

variable {ring : UInt8}

/-- A ring that does not fit fails the tracker. -/
theorem observeNativeRing_bad (h : t.failed = false) (hbad : RingMismatch t ring) :
    ∃ t', t.observeNativeRing ring = (t', none) ∧ t'.failed = true := by
  unfold SyncGenerationTracker.observeNativeRing
  rw [h, if_neg Bool.false_ne_true]
  by_cases hsize : ringSize ≤ ring.toNat
  · rw [if_pos hsize]
    exact ⟨_, rfl, rfl⟩
  · rw [if_neg hsize]
    dsimp only
    rw [if_pos (hbad.resolve_left hsize)]
    exact ⟨_, rfl, rfl⟩

theorem observeNativeRing_good (h : t.failed = false) (hgood : ¬ RingMismatch t ring) :
    t.observeNativeRing ring =
      ({ t with nativeGeneration := some (t.nativeGeneration.getD ring.toNat) },
        some (t.nativeGeneration.getD ring.toNat)) := by
  obtain ⟨hsize, hring⟩ := not_or.mp hgood
  unfold SyncGenerationTracker.observeNativeRing
  rw [h, if_neg Bool.false_ne_true, if_neg hsize]
  dsimp only
  rw [if_neg hring]

/-- The counter stops short of the invalid generation. -/
theorem nextGeneration_eq (g : Nat) :
    (checkedAdd u64Max g 1).filter (· ≠ invalidGeneration) = if invalidGeneration ≤ g + 1 then none else some (g + 1) := by
  unfold checkedAdd invalidGeneration
  by_cases hlt : u64Max ≤ g + 1
  · rw [if_pos hlt]
    by_cases heq : g + 1 = u64Max
    · rw [if_pos heq.le]
      simp [heq]
    · rw [if_neg (by omega)]
      rfl
  · rw [if_neg hlt, if_pos (by omega)]
    exact filter_eq_some_iff.mpr ⟨rfl, decide_eq_true (by omega)⟩

theorem recordSyncSlot_failed_iff (before after : UInt8) :
    (t.recordSyncSlot before after).failed = true ↔ t.failed = true ∨ Inconsistent t (.recordSyncSlot before after) := by
  unfold SyncGenerationTracker.recordSyncSlot Inconsistent
  dsimp only
  cases hfailed : t.failed with
  | true =>
    rw [observeNativeRing_failed hfailed]
    simp [hfailed]
  | false =>
    by_cases hbad : RingMismatch t before
    · obtain ⟨t', hobserve, hfailed'⟩ := observeNativeRing_bad hfailed hbad
      rw [hobserve]
      exact iff_of_true hfailed' (.inr (.inl hbad))
    · rw [observeNativeRing_good hfailed hbad]
      dsimp only
      rw [nextGeneration_eq]
      by_cases hafter : after.toNat ≠ (before.toNat + 1) % ringSize
      · rw [if_pos hafter]
        exact iff_of_true rfl (.inr (.inr (.inl hafter)))
      · rw [if_neg hafter]
        by_cases hmax : invalidGeneration ≤ t.nativeGeneration.getD before.toNat + 1
        · rw [if_pos hmax]
          exact iff_of_true rfl (.inr (.inr (.inr hmax)))
        · rw [if_neg hmax]
          refine iff_of_false ?_ ?_
          · rw [show t.failed = false from hfailed]
            exact Bool.false_ne_true
          · rintro (hf | hb | ha | hm)
            · cases hf
            · exact hbad hb
            · exact hafter ha
            · exact hmax hm

theorem stampTurn_failed_iff (commands : List UInt8) (ring : UInt8) :
    (t.stampTurn commands ring).1.failed = true ↔ t.failed = true ∨ Inconsistent t (.stampTurn commands ring) := by
  unfold SyncGenerationTracker.stampTurn Inconsistent
  dsimp only
  cases hfailed : t.failed with
  | true =>
    rw [observeNativeRing_failed hfailed]
    cases firstSync commands with
    | malformed => simp
    | absent => simp [hfailed]
    | found r => simp [hfailed]
  | false =>
    by_cases hbad : RingMismatch t ring
    · obtain ⟨t', hobserve, hfailed'⟩ := observeNativeRing_bad hfailed hbad
      rw [hobserve]
      refine iff_of_true ?_ (.inr (.inl hbad))
      cases firstSync commands with
      | malformed => rfl
      | absent => exact hfailed'
      | found r =>
        dsimp only
        rw [if_pos (Or.inl hfailed')]
    · rw [observeNativeRing_good hfailed hbad]
      have hstaged : (t.stagedGeneration <|> some (t.nativeGeneration.getD ring.toNat)) =
          some (t.stagedGeneration.getD (t.nativeGeneration.getD ring.toNat)) := by
        cases t.stagedGeneration <;> rfl
      dsimp only
      rw [hstaged]
      cases firstSync commands with
      | malformed => simp
      | absent => simp [hfailed, hbad]
      | found r =>
        by_cases hchecksum : t.stagedGeneration.getD (t.nativeGeneration.getD ring.toNat) % ringSize = r
        · simp [hfailed, hbad, hchecksum]
        · simp [hfailed, hchecksum]

/-- A turn with a checksum is tagged invalid by a failed tracker. -/
theorem stampTurn_of_failed (h : t.failed = true) (commands : List UInt8) (ring : UInt8)
    (hchecksum : (firstSync commands).ring?.isSome) : (t.stampTurn commands ring).2 = some invalidGeneration := by
  unfold SyncGenerationTracker.stampTurn
  rw [observeNativeRing_failed h]
  cases hfirst : firstSync commands with
  | malformed => rfl
  | absent =>
    rw [hfirst] at hchecksum
    cases hchecksum
  | found r =>
    dsimp only
    rw [if_pos (Or.inl h)]

/-- **Exactly an inconsistent call fails the tracker.** -/
theorem apply_failed_iff (call : NativeCall) : (call.apply t).1.failed = true ↔ t.failed = true ∨ Inconsistent t call := by
  cases call with
  | recordSyncSlot before after => exact recordSyncSlot_failed_iff before after
  | stampTurn commands ring => exact stampTurn_failed_iff commands ring

/-- **A failed tracker stays failed**, and tags every later checksum invalid. -/
theorem run_of_failed (h : t.failed = true) (calls : List NativeCall) :
    (t.run calls).1.failed = true ∧ ∀ x ∈ (t.run calls).2, (firstSync x.1).ring?.isSome → x.2 = some invalidGeneration := by
  induction calls generalizing t with
  | nil => exact ⟨h, fun x hx => absurd hx not_mem_nil⟩
  | cons call calls ih =>
    obtain ⟨hfailed, hrest⟩ := ih ((apply_failed_iff call).mpr (.inl h))
    refine ⟨hfailed, fun x hx => ?_⟩
    obtain hx | hx := mem_append.mp hx
    · cases call with
      | recordSyncSlot before after => cases hx
      | stampTurn commands ring =>
        obtain rfl := mem_singleton.mp hx
        exact stampTurn_of_failed h commands ring
    · exact hrest x hx

end Latch

/-- **No relay accepts the invalid generation**, whatever the slot's history. -/
theorem consume_invalid (s : Relay.SlotTurns) (seq : Nat)
    (hgen : turn.generation.map Fin.val = some invalidGeneration) :
    ∃ s' failure, s.consume seq turn = (s', .error failure) ∧ s'.failure = some failure := by
  obtain ⟨tag, htag, hmax⟩ := map_eq_some_iff.mp hgen
  have hmax : (tag : Nat) = u64Max := hmax
  have hassign : ∀ ring, ∃ reason, s.assign ring (some tag) = .error reason := by
    intro ring
    unfold Relay.SlotTurns.assign
    cases s.mode with
    | none => exact ⟨_, if_pos hmax⟩
    | some mode =>
      cases mode with
      | legacy => exact ⟨_, rfl⟩
      | enhanced => exact ⟨_, if_pos hmax⟩
  unfold Relay.SlotTurns.consume
  rw [htag]
  split
  · exact ⟨_, _, rfl, rfl⟩
  · split
    · next command _ =>
        obtain ⟨reason, hreason⟩ := hassign command.ring
        rw [hreason]
        exact ⟨_, _, rfl, rfl⟩
    · exact ⟨_, _, rfl, rfl⟩

/-- What the relay receives of honest turns is tagged as it should be. -/
theorem tagged_of_carries {g : Nat} (hhonest : Honest g none calls)
    (hmax : g + recordings calls < u64Max) (hsent : ∀ x ∈ sent, x ∈ trueTags g none calls)
    (hturns : List.Forall₂ Carries sent turns) : ∀ turn ∈ turns, Tagged turn := by
  induction hturns with
  | nil => exact fun turn hturn => absurd hturn not_mem_nil
  | cons hcarries _ ih =>
    intro turn hturn
    obtain rfl | hturn := mem_cons.mp hturn
    · obtain ⟨hring, hle⟩ := trueTags_spec hhonest le_rfl _ (hsent _ mem_cons_self)
      refine ⟨?_, fun tag htag => ?_, hcarries.skipped⟩
      · rw [hcarries.command, parseSync_ring, hring, ← hcarries.generation, Option.map_map]
        rfl
      · have hgen := hcarries.generation
        rw [htag] at hgen
        exact (hle tag hgen.symm).trans_lt hmax
    · exact ih (fun x hx => hsent x (mem_cons_of_mem _ hx)) turn hturn

theorem generations_of_carries (hturns : List.Forall₂ Carries sent turns) :
    (turns.map fun turn => turn.generation.map Fin.val) = sent.map Prod.snd := by
  induction hturns with
  | nil => rfl
  | cons hcarries _ ih => rw [map_cons, map_cons, ih, hcarries.generation]

/-- **An honest client's tags are accepted by the relay.** The tracker of an honest game never fails and
    tags each checksum with its generation. If each tag is in reach of the last one, the relay accepts
    every turn, with the tag as its ordinal and the generations in between as skipped; where every turn
    has a checksum, the pace of the flushes is enough for that. An inconsistent call fails the tracker
    for good: every later checksum is tagged invalid, and no relay accepts that tag. -/
theorem honest_tags_accepted {g : Nat} {calls : List NativeCall} (hfirst : g < ringSize) (hhonest : Honest g none calls)
    (hmax : g + recordings calls < u64Max) :
    ((SyncGenerationTracker.new.run calls).1.failed = false ∧
      (SyncGenerationTracker.new.run calls).2 = trueTags g none calls) ∧
    (Paced g calls → EveryTurn calls → Chained InReach none ((trueTags g none calls).map Prod.snd)) ∧
    (Chained InReach none ((trueTags g none calls).map Prod.snd) → (trueTags g none calls).length ≤ u64Max →
      ∀ slot t turns, t.slots slot = none → List.Forall₂ Carries (trueTags g none calls) turns →
        (feed slot t 0 turns).2 = (accepted none turns).map (fun turn => .ok (some turn)) ∧
          (feed slot t 0 turns).1.unavailable slot = false) ∧
    (∀ t call, (NativeCall.apply t call).1.failed = true ↔ t.failed = true ∨ Inconsistent t call) ∧
    (∀ t : SyncGenerationTracker, t.failed = true → ∀ later, (t.run later).1.failed = true ∧
      ∀ x ∈ (t.run later).2, (firstSync x.1).ring?.isSome → x.2 = some invalidGeneration) ∧
    (∀ (s : Relay.SlotTurns) seq (turn : Relay.SyncTurn), turn.generation.map Fin.val = some invalidGeneration →
      ∃ s' failure, s.consume seq turn = (s', .error failure) ∧ s'.failure = some failure) := by
  refine ⟨(new_tracks hfirst).run hhonest hmax, chained_of_paced, ?_, fun _ => apply_failed_iff, fun _ => run_of_failed,
    fun s seq _ => consume_invalid s seq⟩
  intro hchain hlength slot t turns hslot hturns
  have hempty : Consumed (t.entry slot) 0 none := by
    unfold Relay.SyncTurns.entry
    rw [hslot]
    exact ⟨rfl, rfl, rfl, rfl⟩
  have hboth : Chained (fun last tag => InReach last tag ∧ NotBack last tag) none ((trueTags g none calls).map Prod.snd) :=
    chained_notBack le_rfl (fun y hy => nomatch hy) hchain
  rw [← generations_of_carries hturns] at hboth
  refine feed_accepted hempty ?_ (tagged_of_carries hhonest hmax (fun _ hx => hx) hturns) hboth
  rw [Nat.zero_add, ← hturns.length_eq]
  exact hlength

/-! ## Two games -/

/-- A checksum of a ring, as the only command. -/
def checksum (ring : UInt8) : List UInt8 := [syncCommand, ring <<< 4 ||| 1, 0, 0, 0, 0, 0]

/-- `n` recordings from generation `g` on. -/
def recordFrom (g n : Nat) : List NativeCall :=
  (List.range n).map fun i =>
    .recordSyncSlot (UInt8.ofNat ((g + i) % ringSize)) (UInt8.ofNat ((g + i + 1) % ringSize))

/-- A turn as the relay receives it. -/
def relayTurn (sent : List UInt8 × Option Nat) : Relay.SyncTurn :=
  ⟨none, none, Relay.parseSync sent.1, sent.2.map (Fin.ofNat (2 ^ 64)), none⟩

/-- Three flushes, with a generation left out between the second and the third. -/
def shrinkingGame : List NativeCall :=
  [.stampTurn (checksum 0) 0] ++ recordFrom 0 2 ++ [.stampTurn (checksum 0) 2] ++ recordFrom 2 1 ++
    [.stampTurn (checksum 2) 3]

theorem relayTurn_carries (h : ∀ x ∈ sent, ∀ tag ∈ x.2, tag ≤ u64Max) : List.Forall₂ Carries sent (sent.map relayTurn) := by
  induction sent with
  | nil => exact .nil
  | cons x sent ih =>
    refine .cons ⟨rfl, ?_, rfl, rfl⟩ (ih fun y hy => h y (mem_cons_of_mem _ hy))
    unfold relayTurn
    cases htag : x.2 with
    | none => rfl
    | some tag =>
      have hle := h x mem_cons_self tag htag
      exact congrArg some (Nat.mod_eq_of_lt (Nat.lt_of_le_of_lt hle (by decide)))

theorem honest_tags_accepted_example :
    (SyncGenerationTracker.new.run shrinkingGame).1.failed = false ∧
      (trueTags 0 none shrinkingGame).map Prod.snd = [some 0, some 0, some 2] ∧
      (accepted none ((trueTags 0 none shrinkingGame).map relayTurn)).map (·.skipped) = [none, none, some ⟨1, 2⟩] ∧
      (feed 0 .empty 0 ((trueTags 0 none shrinkingGame).map relayTurn)).1.unavailable 0 = false := by
  have h := honest_tags_accepted (show 0 < ringSize by decide) (show Honest 0 none shrinkingGame by decide) (by decide)
  have hreach : Chained InReach none ((trueTags 0 none shrinkingGame).map Prod.snd) :=
    ⟨show 0 < 16 by decide, show 0 ≤ 0 + 14 by decide, show 2 ≤ 0 + 14 by decide, trivial⟩
  refine ⟨h.1.1, by decide, by decide, ?_⟩
  exact (h.2.2.1 hreach (by decide) 0 .empty _ rfl (relayTurn_carries (by decide))).2

/-- The game moves by the safe buffer from flush to flush, but the third flush sends no checksum. -/
def silentFlushGame : List NativeCall :=
  [.stampTurn (checksum 0) 0] ++ recordFrom 0 14 ++ [.stampTurn (checksum 0) 14] ++ recordFrom 14 14 ++ [.stampTurn [] 12] ++
    recordFrom 28 14 ++ [.stampTurn (checksum 12) 10]

/-- Why a turn was refused, if it was. -/
def refusal : Except Relay.SyncOrderingFailure (Option Relay.SyncTurn) → Option Relay.SyncFailureReason
  | .error failure => some failure.reason
  | .ok _ => none

/-- A turn without a checksum puts two tags out of reach: the relay refuses an honest client's fourth
    turn. -/
theorem silent_flush_refused :
    Honest 0 none silentFlushGame ∧ Paced 0 silentFlushGame ∧
      (SyncGenerationTracker.new.run silentFlushGame).1.failed = false ∧
      (SyncGenerationTracker.new.run silentFlushGame).2.map Prod.snd = [some 0, some 0, none, some 28] ∧
      (feed 0 .empty 0 ((SyncGenerationTracker.new.run silentFlushGame).2.map relayTurn)).2.map refusal =
        [none, none, none, some .generationJump] :=
  ⟨by decide, ⟨by decide, by decide⟩, by decide, by decide, by decide⟩

end RallyPoint.Client
