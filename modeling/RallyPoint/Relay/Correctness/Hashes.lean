import RallyPoint.Relay.Correctness.HashSteps

/-!
# `Relay.Correctness.Hashes` — state-hash verdicts name no honest slot

A slot is named for a hash in the minority or for a report it withheld. The first cannot happen to an
honest slot, since a single slot never is a majority of two. For the second, an honest slot's report is
still there when its step is judged: a report that is no longer there belongs to a step that is **gone**
(`Correctness/HashSteps`).

- `Outcome`: what judging returns, and that judgements compose.
- `Inv`: the reports that were taken are kept, and no honest slot is excluded. Every loop of
  `judge_ready` keeps it.
- `no_honest_slot_framed`: whole runs.
-/

namespace RallyPoint.Relay

open Lib Lib.Trace List StateHashTracker

/-- Everyone a verdict names. -/
def SyncDivergence.named (d : SyncDivergence) : List SlotId := d.diverged ++ d.missing

namespace StateHashTracker

variable {t t' t'' : StateHashTracker} {honest : SlotId → Prop} {value : Nat → Nat} {step : Nat}

/-! ## Judgements compose -/

/-- Everyone the verdicts name. -/
def named (verdicts : List SyncDivergence) : List SlotId := verdicts.flatMap (·.named)

/-- What judging gives. The named slots are not honest, new to the excluded set and distinct; they are
    excluded afterwards or nothing is judged any more. A verdict without a majority is the last. -/
structure Outcome (honest : SlotId → Prop) (t t' : StateHashTracker) (verdicts : List SyncDivergence) : Prop where
  grows : t.excluded ⊆ t'.excluded
  only : ∀ s ∈ t'.excluded, s ∈ t.excluded ∨ s ∈ named verdicts
  rests : t.dormant = true → t'.dormant = true ∧ verdicts = []
  nodup : (named verdicts).Nodup
  fresh : ∀ s ∈ named verdicts, s ∉ t.excluded
  barred : ∀ s ∈ named verdicts, s ∈ t'.excluded ∨ t'.dormant = true
  fair : ∀ s ∈ named verdicts, ¬ honest s
  last : verdicts.Pairwise fun earlier _ => earlier.noMajority = false
  ends : ∀ v ∈ verdicts, v.noMajority = true → t'.dormant = true

theorem Outcome.silent (hex : t'.excluded = t.excluded) (hd : t.dormant = true → t'.dormant = true) :
    Outcome honest t t' [] :=
  ⟨fun _ hs => hex ▸ hs, fun _ hs => .inl (hex ▸ hs), fun h => ⟨hd h, rfl⟩, nodup_nil, nofun, nofun, nofun, .nil, nofun⟩

theorem named_append (vs ws : List SyncDivergence) : named (vs ++ ws) = named vs ++ named ws := flatMap_append

/-- **One judgement after another.** Whom the first names the second does not. -/
theorem Outcome.trans {vs ws : List SyncDivergence} (h₁ : Outcome honest t t' vs) (h₂ : Outcome honest t' t'' ws) :
    Outcome honest t t'' (vs ++ ws) := by
  have hcarry : ∀ s, s ∈ t'.excluded ∨ t'.dormant = true → s ∈ t''.excluded ∨ t''.dormant = true :=
    fun s hs => hs.imp (fun hex => h₂.grows hex) (fun hd => (h₂.rests hd).1)
  refine ⟨h₁.grows.trans h₂.grows, ?_, ?_, ?_, ?_, ?_, ?_, ?_, ?_⟩
  · intro s hs
    rw [named_append, mem_append]
    obtain hs | hs := h₂.only s hs
    · exact (h₁.only s hs).imp id .inl
    · exact .inr (.inr hs)
  · intro hd
    obtain ⟨hd', rfl⟩ := h₁.rests hd
    obtain ⟨hd'', rfl⟩ := h₂.rests hd'
    exact ⟨hd'', rfl⟩
  · rw [named_append, nodup_append]
    refine ⟨h₁.nodup, h₂.nodup, ?_⟩
    rintro a ha b hb rfl
    -- whom the first names is excluded, unless it ended in a rest, and then there is no second
    obtain hex | hd := h₁.barred a ha
    · exact h₂.fresh a hb hex
    · rw [(h₂.rests hd).2] at hb
      cases hb
  · intro s hs
    rw [named_append] at hs
    obtain hs | hs := mem_append.mp hs
    · exact h₁.fresh s hs
    · exact fun hin => h₂.fresh s hs (h₁.grows hin)
  · intro s hs
    rw [named_append] at hs
    obtain hs | hs := mem_append.mp hs
    · exact hcarry s (h₁.barred s hs)
    · exact h₂.barred s hs
  · intro s hs
    rw [named_append] at hs
    obtain hs | hs := mem_append.mp hs
    · exact h₁.fair s hs
    · exact h₂.fair s hs
  · rw [pairwise_append]
    refine ⟨h₁.last, h₂.last, ?_⟩
    intro v hv w hw
    by_contra hno
    rw [(h₂.rests (h₁.ends v hv (by simpa using hno))).2] at hw
    cases hw
  · intro v hv hno
    obtain hv | hv := mem_append.mp hv
    · exact (h₂.rests (h₁.ends v hv hno)).1
    · exact h₂.ends v hv hno

/-! ## Judging one step -/

variable {reports : HashReports} {required : Finset SlotId}

theorem mem_counted {x : SlotId × Nat} : x ∈ t.counted reports required ↔ x ∈ reports ∧ x.1 ∈ t.takingPart required := by
  simp [counted]

variable {s : SlotId}

theorem mem_withholding :
    s ∈ t.withholding step reports required ↔
      s ∈ t.takingPart required ∧ s ∉ reports.map Prod.fst ∧
        saturatingAdd u64Max step stateHashLiveTurns ≤ t.forwarded s := by
  unfold withholding
  rw [Finset.mem_sort, Finset.mem_filter]
  simp

theorem takingPart_not_excluded (h : s ∈ t.takingPart required) : s ∉ t.excluded := (Finset.mem_sdiff.mp h).2

/-- The counted reports and the withholding slots are different voters. -/
theorem counted_le_voters (hnodup : (reports.map Prod.fst).Nodup) :
    (t.counted reports required).length ≤
      (t.takingPart required).card - (t.withholding step (t.counted reports required) required).length := by
  have hcounted : ((t.counted reports required).map Prod.fst).Nodup := hnodup.sublist (filter_sublist.map _)
  have htaking : ∀ x ∈ t.counted reports required, x.1 ∈ t.takingPart required := fun x hx => (mem_counted.mp hx).2
  generalize t.counted reports required = counted at hcounted htaking ⊢
  have hall : (counted.map Prod.fst ++ t.withholding step counted required).Nodup := by
    rw [nodup_append]
    refine ⟨hcounted, Finset.sort_nodup _ _, ?_⟩
    rintro a ha b hb rfl
    exact (mem_withholding.mp hb).2.1 ha
  have hsub : (counted.map Prod.fst ++ t.withholding step counted required).toFinset ⊆ t.takingPart required := by
    intro s hs
    obtain hs | hs := mem_append.mp (mem_toFinset.mp hs)
    · obtain ⟨x, hx, rfl⟩ := mem_map.mp hs
      exact htaking x hx
    · exact (mem_withholding.mp hs).1
  have hcard := Finset.card_le_card hsub
  rw [toFinset_card_of_nodup hall, length_append, length_map] at hcard
  omega

/-- Whichever way the trusted hash was found, it has a majority of at least the reports there are. -/
theorem trusted_majority {voters : Nat} {settle : Bool} {majority : Nat} (hvoters : reports.length ≤ voters)
    (h : trusted voters reports settle = some (some majority)) :
    ∃ count, reports.length ≤ count ∧ Majority.majority? count reports = some majority := by
  unfold trusted at h
  split at h
  · exact ⟨_, le_rfl, Option.some.inj h⟩
  · split at h
    · rename_i hmaj
      cases h
      exact ⟨voters, hvoters, hmaj⟩
    · split at h
      · cases h
      · exact ⟨_, le_rfl, Option.some.inj h⟩

/-- The verdict of a judgement. -/
def verdictOf : Judgment → List SyncDivergence
  | .undecided => []
  | .decided verdict => verdict.toList

/-- One verdict, from whom it names. -/
theorem Outcome.single {d : SyncDivergence} (hgrows : t.excluded ⊆ t'.excluded)
    (honly : ∀ s ∈ t'.excluded, s ∈ t.excluded ∨ s ∈ d.named) (hawake : t.dormant = false)
    (hnodup : d.named.Nodup) (hfresh : ∀ s ∈ d.named, s ∉ t.excluded)
    (hbarred : ∀ s ∈ d.named, s ∈ t'.excluded ∨ t'.dormant = true) (hfair : ∀ s ∈ d.named, ¬ honest s)
    (hends : d.noMajority = true → t'.dormant = true) : Outcome honest t t' [d] := by
  have hnamed : named [d] = d.named := by simp [named]
  refine ⟨hgrows, hnamed ▸ honly, fun hd => ?_, hnamed ▸ hnodup, hnamed ▸ hfresh, hnamed ▸ hbarred, hnamed ▸ hfair,
    pairwise_singleton _ _, ?_⟩
  · rw [hawake] at hd; cases hd
  · intro v hv
    cases mem_singleton.mp hv
    exact hends

/-- **Judging one step.** An honest slot's vote is the step's value, and so is a majority; an honest slot
    that sent its turns sent its report. -/
theorem judge_outcome (hone : ∀ a b, ¬ honest a → ¬ honest b → a = b) (hballot : Ballot honest value step reports)
    (hlive : ∀ s, honest s → saturatingAdd u64Max step stateHashLiveTurns ≤ t.forwarded s → s ∈ reports.map Prod.fst)
    (hawake : t.dormant = false) (settle : Bool) :
    Outcome honest t (t.judge step reports required settle).1 (verdictOf (t.judge step reports required settle).2) := by
  have hcounted : ((t.counted reports required).map Prod.fst).Nodup := hballot.nodup.sublist (filter_sublist.map _)
  have hmissing : ∀ s ∈ t.withholding step (t.counted reports required) required, s ∉ t.excluded ∧ ¬ honest s := by
    intro s hs
    obtain ⟨htaking, habsent, hforwarded⟩ := mem_withholding.mp hs
    refine ⟨takingPart_not_excluded htaking, fun hh => habsent ?_⟩
    obtain ⟨x, hx, rfl⟩ := mem_map.mp (hlive s hh hforwarded)
    exact mem_map.mpr ⟨x, mem_counted.mpr ⟨hx, htaking⟩, rfl⟩
  have hsorted : (t.withholding step (t.counted reports required) required).Nodup := Finset.sort_nodup _ _
  unfold judge
  dsimp only
  split
  · exact .silent rfl id
  · split
    · exact .silent rfl id
    · -- nobody to trust: only the withholding slots are named, and nothing is judged again
      refine .single (fun _ hs => hs) (fun _ hs => .inl hs) hawake hsorted
        (fun s hs => (hmissing s hs).1) (fun _ _ => .inr rfl)
        (fun s hs => (hmissing s hs).2) (fun _ => rfl)
    · rename_i majority htrusted
      obtain ⟨count, hcount, hmaj⟩ := trusted_majority (counted_le_voters hballot.nodup) htrusted
      have hperm := perm_insertionSort (· ≤ ·) ((((t.counted reports required).map (·.1)).filter
        (· ∉ (((t.counted reports required).filter (·.2 = majority)).map (·.1)))))
      have hdiverged : ∀ s ∈ (((t.counted reports required).map (·.1)).filter
            (· ∉ (((t.counted reports required).filter (·.2 = majority)).map (·.1)))).insertionSort (· ≤ ·),
          ∃ x ∈ t.counted reports required, x.1 = s ∧ x.2 ≠ majority := by
        intro s hs
        obtain ⟨hs, hout⟩ := mem_filter.mp (hperm.mem_iff.mp hs)
        obtain ⟨x, hx, rfl⟩ := mem_map.mp hs
        refine ⟨x, hx, rfl, fun heq => of_decide_eq_true hout ?_⟩
        exact mem_map.mpr ⟨x, mem_filter.mpr ⟨hx, decide_eq_true heq⟩, rfl⟩
      refine .single (Finset.subset_union_left) ?_ hawake ?_ ?_ ?_ ?_ nofun
      · intro s hs
        exact (Finset.mem_union.mp hs).imp id mem_toFinset.mp
      · refine nodup_append.mpr ⟨hperm.nodup_iff.mpr (hcounted.filter _), hsorted, ?_⟩
        rintro a ha b hb rfl
        obtain ⟨x, hx, rfl, -⟩ := hdiverged a ha
        exact (mem_withholding.mp hb).2.1 (mem_map.mpr ⟨x, hx, rfl⟩)
      · intro s hs
        obtain hs | hs := mem_append.mp hs
        · obtain ⟨x, hx, rfl, -⟩ := hdiverged s hs
          exact takingPart_not_excluded (mem_counted.mp hx).2
        · exact (hmissing s hs).1
      · intro s hs
        exact .inl (Finset.mem_union_right _ (mem_toFinset.mpr hs))
      · intro s hs
        obtain hs | hs := mem_append.mp hs
        · obtain ⟨x, hx, rfl, hne⟩ := hdiverged s hs
          intro hh
          have hagree : ∀ y ∈ t.counted reports required, honest y.1 → y.2 = value step :=
            fun y hy => hballot.agree y (mem_counted.mp hy).1
          have hmajv := Majority.majority_of_honest hcounted hagree hone hcount hmaj hx hh
          exact hne ((hagree x hx hh).trans hmajv.symm)
        · exact (hmissing s hs).2

theorem judge_sameSteps (settle : Bool) :
    SameSteps t (t.judge step reports required settle).1 ∧
      (t.judge step reports required settle).1.forwarded = t.forwarded := by
  unfold judge
  dsimp only
  split
  · exact ⟨⟨rfl, rfl, rfl, rfl, id⟩, rfl⟩
  · split
    · exact ⟨⟨rfl, rfl, rfl, rfl, id⟩, rfl⟩
    · exact ⟨⟨rfl, rfl, rfl, rfl, fun _ => rfl⟩, rfl⟩
    · exact ⟨⟨rfl, rfl, rfl, rfl, fun hd => by simp [hd]⟩, rfl⟩

/-! ## The judging loops -/

/-- The invariant of a run that took the reports `taken`: they are kept, an honest slot that has sent its
    turns had its report taken, and no honest slot is excluded. -/
structure Inv (honest : SlotId → Prop) (value : Nat → Nat) (taken : SlotId → Nat → Prop) (t : StateHashTracker) :
    Prop where
  wf : Wf honest value t
  kept : ∀ slot s, taken slot s → t.Kept slot s
  live : ∀ slot s, honest slot → IsStep s → saturatingAdd u64Max s stateHashLiveTurns ≤ t.forwarded slot → taken slot s
  spared : ∀ slot, honest slot → slot ∉ t.excluded

variable {taken : SlotId → Nat → Prop}

theorem empty_inv : Inv honest value (fun _ _ => False) empty := by
  refine ⟨empty_wf, fun _ _ h => h.elim, ?_, fun _ _ => Finset.notMem_empty _⟩
  intro slot s _ hstep hforwarded
  have hpos := (onInterval_iff.mp hstep.on).1
  have hmin : stateHashInterval ≤ saturatingAdd u64Max s stateHashLiveTurns :=
    le_min (Nat.le_add_right_of_le hpos) (hpos.trans hstep.le)
  exact absurd (hmin.trans hforwarded) (by show ¬ stateHashInterval ≤ 0; decide)

/-- A judgement keeps the invariant. -/
theorem Inv.judged {verdicts : List SyncDivergence} (h : Inv honest value taken t) (hwf : Wf honest value t')
    (hcarries : Carries t t') (hforwarded : t'.forwarded = t.forwarded) (hout : Outcome honest t t' verdicts) :
    Inv honest value taken t' := by
  refine ⟨hwf, fun slot s ht => hcarries slot s (h.kept slot s ht), ?_, ?_⟩
  · rw [hforwarded]
    exact h.live
  · intro slot hh hex
    obtain hex | hnamed := hout.only slot hex
    · exact h.spared slot hh hex
    · exact hout.fair slot hnamed hh

theorem isReady_confirmable {now : Nat} {p : PendingStep} (h : t.isReady now required p = true) :
    p.confirmableAt.isSome := by
  unfold isReady at h
  split at h
  · cases h
  · rename_i heq
    rw [heq]
    rfl

section
variable (hone : ∀ a b, ¬ honest a → ¬ honest b → a = b)
include hone

theorem Inv.judgeStep (h : Inv honest value taken t) (hawake : t.dormant = false) (step now : Nat) (settle : Bool) :
    Inv honest value taken (t.judgeStep step now required settle).1 ∧
      Outcome honest t (t.judgeStep step now required settle).1 (t.judgeStep step now required settle).2 := by
  unfold StateHashTracker.judgeStep
  split
  · exact ⟨h, .silent rfl id⟩
  · rename_i j hj
    have hok := h.wf.judged step j hj
    -- what the slot's turns prove was taken is among this step's reports: the step is judged, so it is not gone
    have hlive : ∀ s, honest s → saturatingAdd u64Max step stateHashLiveTurns ≤ t.forwarded s →
      s ∈ j.reports.map Prod.fst := by
      intro s hh hforwarded
      obtain hd | hg | ⟨p, hp, -⟩ | ⟨i, hi, hin⟩ := h.kept s step (h.live s step hh hok.isStep hforwarded)
      · rw [hawake] at hd; cases hd
      · cases hg.judged.symm.trans hj
      · cases hok.apart.symm.trans hp
      · cases hj.symm.trans hi
        exact hin
    generalize hr : t.judge step j.reports required (settle || j.holdIsOver now) = r
    have hout : Outcome honest t r.1 (verdictOf r.2) := hr ▸ judge_outcome hone hok.ballot hlive hawake _
    obtain ⟨hsame, hforwarded⟩ : SameSteps t r.1 ∧ r.1.forwarded = t.forwarded := hr ▸ judge_sameSteps _
    have hwf := h.wf.of_sameSteps hsame
    obtain ⟨t₁, judgment⟩ := r
    have hj₁ : t₁.judged.get? step = some j := by rw [hsame.judged]; exact hj
    cases judgment with
    | undecided =>
      obtain ⟨hwf', hcarries⟩ := hwf.setJudged (k := { j with dirty := false, held := true })
        hj₁ hok.ballot (fun _ hin => hin)
      have hout' : Outcome honest t { t₁ with judged := t₁.judged.insert step { j with dirty := false, held := true } } [] :=
        ⟨hout.grows, hout.only, hout.rests, hout.nodup, hout.fresh, hout.barred, hout.fair, hout.last, hout.ends⟩
      exact ⟨h.judged hwf' (hsame.carries.trans hcarries) hforwarded hout', hout'⟩
    | decided verdict =>
      obtain ⟨hwf', hcarries⟩ := hwf.setJudged (k := { j with dirty := false, held := false })
        hj₁ hok.ballot (fun _ hin => hin)
      have hout' : Outcome honest t
        { t₁ with judged := t₁.judged.insert step { j with dirty := false, held := false } } verdict.toList :=
        ⟨hout.grows, hout.only, hout.rests, hout.nodup, hout.fresh, hout.barred, hout.fair, hout.last, hout.ends⟩
      exact ⟨h.judged hwf' (hsame.carries.trans hcarries) hforwarded hout', hout'⟩

/-- **The first loop**, by induction on the steps that are due. -/
theorem Inv.rejudge (now : Nat) (due : List Nat) (h : Inv honest value taken t) :
    Inv honest value taken (rejudge now required due t).1 ∧
      Outcome honest t (rejudge now required due t).1 (rejudge now required due t).2 := by
  induction due generalizing t with
  | nil => exact ⟨h, .silent rfl id⟩
  | cons step due ih =>
    unfold StateHashTracker.rejudge
    split
    · exact ⟨h, .silent rfl id⟩
    · rename_i hawake
      obtain ⟨hinv, hout⟩ := h.judgeStep hone (by simpa using hawake) step now false
      obtain ⟨hinv', hout'⟩ := ih hinv
      exact ⟨hinv', hout.trans hout'⟩

/-- **The trimming loop**, by induction on its rounds. -/
theorem Inv.trimJudged (now fuel : Nat) (h : Inv honest value taken t) :
    Inv honest value taken (trimJudged now required fuel t).1 ∧
      Outcome honest t (trimJudged now required fuel t).1 (trimJudged now required fuel t).2 := by
  induction fuel generalizing t with
  | zero => exact ⟨h, .silent rfl id⟩
  | succ fuel ih =>
    unfold trimJudged
    split
    · exact ⟨h, .silent rfl id⟩
    · rename_i hmany
      rw [not_or, Bool.not_eq_true] at hmany
      split
      · exact ⟨h, .silent rfl id⟩
      · rename_i oldest j _
        have hsettled : Inv honest value taken (if j.held then t.judgeStep oldest now required true else (t, [])).1 ∧
            Outcome honest t (if j.held then t.judgeStep oldest now required true else (t, [])).1
              (if j.held then t.judgeStep oldest now required true else (t, [])).2 := by
          split
          · exact h.judgeStep hone hmany.2 oldest now true
          · exact ⟨h, .silent rfl id⟩
        obtain ⟨hinv, hout⟩ := hsettled
        generalize (if j.held then t.judgeStep oldest now required true else (t, [])) = r at hinv hout
        obtain ⟨hwf, hcarries⟩ := hinv.wf.dropJudged oldest
        have hdrop : Outcome honest r.1 { r.1 with judged := r.1.judged.erase oldest } [] := .silent rfl id
        obtain ⟨hinv', hout'⟩ := ih (hinv.judged hwf hcarries rfl hdrop)
        exact ⟨hinv', hout.trans (hdrop.trans hout')⟩

/-- **The second loop**, by induction on its rounds. -/
theorem Inv.judgePending (now fuel : Nat) (h : Inv honest value taken t) :
    Inv honest value taken (judgePending now required fuel t).1 ∧
      Outcome honest t (judgePending now required fuel t).1 (judgePending now required fuel t).2 := by
  induction fuel generalizing t with
  | zero => exact ⟨h, .silent rfl id⟩
  | succ fuel ih =>
    unfold judgePending
    split
    · exact ⟨h, .silent rfl id⟩
    · rename_i hawake
      split
      · exact ⟨h, .silent rfl id⟩
      · rename_i step p hfind
        have hp : t.pending.get? step = some p := OrdMap.get?_eq_some.mpr (mem_of_find?_eq_some hfind)
        have hready := find?_some hfind
        obtain ⟨hwf, hcarries⟩ := h.wf.retireStep hp (isReady_confirmable hready) now
        have hretired : Outcome honest t (t.retireStep step now p) [] := .silent rfl id
        have hinv := h.judged hwf hcarries rfl hretired
        have hawake' : (t.retireStep step now p).dormant = false := Bool.not_eq_true _ ▸ hawake
        obtain ⟨hinv₁, hout₁⟩ := hinv.judgeStep hone hawake' step now false
        obtain ⟨hinv₂, hout₂⟩ := hinv₁.trimJudged hone now
          ((t.retireStep step now p).judgeStep step now required false).1.judged.size
        obtain ⟨hinv₃, hout₃⟩ := ih hinv₂
        exact ⟨hinv₃, hretired.trans ((hout₁.trans hout₂).trans hout₃)⟩

theorem Inv.judgeReady (now : Nat) (h : Inv honest value taken t) :
    Inv honest value taken (t.judgeReady now required).1 ∧
      Outcome honest t (t.judgeReady now required).1 (t.judgeReady now required).2 := by
  obtain ⟨hinv, hout⟩ := h.rejudge hone now (t.due now)
  obtain ⟨hinv', hout'⟩ := hinv.judgePending hone now (StateHashTracker.rejudge now required (t.due now) t).1.pending.size
  exact ⟨hinv', hout.trans hout'⟩

end

end StateHashTracker

/-! ## Whole runs -/

/-- The honest slots of a rollback session, at most one other, and the hash of each step. -/
structure HashPlay where
  honest : SlotId → Prop
  others : ∀ a b, ¬ honest a → ¬ honest b → a = b
  value : Nat → Nat

/-- An honest slot reports the hash of the step. Everything else is arbitrary. -/
def HashOp.Reports (p : HashPlay) : HashOp → Prop
  | record slot step hash _ => p.honest slot → hash = p.value step
  | _ => True

namespace StateHashTracker

variable {p : HashPlay}

/-- `record` was called for the slot and the step, at a moment when the step was not too far ahead. -/
def Taken (ops : List HashOp) (slot : SlotId) (step : Nat) : Prop :=
  ∃ earlier hash now later t, ops = earlier ++ .record slot step hash now :: later ∧ after earlier = some t ∧
    step ≤ t.confirmableUntil + stateHashWindow * stateHashInterval

/-- An honest slot's report of a step is there before its turns run well past the step. -/
def Prompt (p : HashPlay) (ops : List HashOp) : Prop :=
  ∀ earlier slot count now required later, ops = earlier ++ .noteForwarded slot count now required :: later →
    p.honest slot → ∀ step, IsStep step → saturatingAdd u64Max step stateHashLiveTurns ≤ count → Taken earlier slot step

theorem after_concat (ops : List HashOp) (op : HashOp) : after (ops ++ [op]) = (HashOp.apply (after ops) op).1 := by
  unfold after
  rw [run_append, run_cons]
  rfl

theorem verdicts_concat (ops : List HashOp) (op : HashOp) :
    verdicts (ops ++ [op]) = verdicts ops ++ (HashOp.apply (after ops) op).2 := by
  unfold verdicts after
  rw [run_append, run_cons, flatMap_append]
  simp [run, runFrom]

variable {ops : List HashOp} {slot : SlotId} {op : HashOp}

theorem Taken.concat {step : Nat} (h : Taken ops slot step) (op : HashOp) : Taken (ops ++ [op]) slot step := by
  obtain ⟨earlier, hash, now, later, t, rfl, ht, hle⟩ := h
  exact ⟨earlier, hash, now, later ++ [op], t, by simp, ht, hle⟩

/-- A report was taken before the last call, or by it. -/
theorem taken_concat {step : Nat} (h : Taken (ops ++ [op]) slot step) :
    Taken ops slot step ∨ ∃ hash now t, op = .record slot step hash now ∧ after ops = some t ∧
      step ≤ t.confirmableUntil + stateHashWindow * stateHashInterval := by
  obtain ⟨earlier, hash, now, later, t, heq, ht, hle⟩ := h
  obtain rfl | ⟨later, last, rfl⟩ := eq_nil_or_concat later
  · obtain ⟨rfl, hop⟩ := append_inj' heq rfl
    exact .inr ⟨hash, now, t, singleton_inj.mp hop, ht, hle⟩
  · rw [concat_eq_append, ← cons_append, ← append_assoc] at heq
    obtain ⟨rfl, -⟩ := append_inj' heq rfl
    exact .inl ⟨earlier, hash, now, later, t, rfl, ht, hle⟩

/-- The reports of the honest slots that were taken. -/
def honestTaken (p : HashPlay) (ops : List HashOp) (slot : SlotId) (step : Nat) : Prop :=
  p.honest slot ∧ IsStep step ∧ Taken ops slot step

/-- What one more call does to the invariant, when it returns. -/
theorem Inv.apply {t t' : StateHashTracker} (ht : after ops = some t)
    (h : Inv p.honest p.value (honestTaken p ops) t) (hop : op.Reports p) (hprompt : Prompt p (ops ++ [op]))
    (hret : (HashOp.apply (some t) op).1 = some t') :
    Inv p.honest p.value (honestTaken p (ops ++ [op])) t' ∧ Outcome p.honest t t' (HashOp.apply (some t) op).2 := by
  have hmono : ∀ slot s, honestTaken p ops slot s → honestTaken p (ops ++ [op]) slot s :=
    fun slot s hk => ⟨hk.1, hk.2.1, hk.2.2.concat op⟩
  cases op with
  | record slot step hash now =>
    cases hret
    obtain ⟨hwf, hcarries, hnew⟩ := h.wf.record hop now
    have hsame := record_standing t slot step hash now
    refine ⟨⟨hwf, ?_, ?_, ?_⟩, .silent hsame.excluded (fun hd => hsame.dormant.trans hd)⟩
    · rintro other s ⟨hh, hs, htaken⟩
      obtain htaken | ⟨hash', now', t₀, heq, ht₀, hle⟩ := taken_concat htaken
      · exact hcarries other s (h.kept other s ⟨hh, hs, htaken⟩)
      · cases heq
        cases ht.symm.trans ht₀
        exact hnew (h.spared _ hh) hs hle
    · intro other s hh hs hforwarded
      rw [hsame.forwarded] at hforwarded
      exact hmono other s (h.live other s hh hs hforwarded)
    · intro other hh
      rw [hsame.excluded]
      exact h.spared other hh
  | noteForwarded slot count now required =>
    obtain ⟨hwf, hcarries, hsame⟩ := h.wf.noteForwarded hret
    refine ⟨⟨hwf, ?_, ?_, ?_⟩, .silent hsame.excluded (fun hd => hsame.dormant.trans hd)⟩
    · rintro other s ⟨hh, hs, htaken⟩
      obtain htaken | ⟨_, _, _, heq, -, -⟩ := taken_concat htaken
      · exact hcarries other s (h.kept other s ⟨hh, hs, htaken⟩)
      · cases heq
    · intro other s hh hs hforwarded
      rw [hsame.forwarded] at hforwarded
      dsimp only at hforwarded
      by_cases heq : other = slot
      · subst heq
        rw [Function.update_self] at hforwarded
        obtain hold | hcount := le_max_iff.mp hforwarded
        · exact hmono other s (h.live other s hh hs hold)
        · -- the turns now run past the step: this is where promptness is used
          exact ⟨hh, hs, (hprompt ops other count now required [] rfl hh s hs hcount).concat _⟩
      · rw [Function.update_of_ne heq] at hforwarded
        exact hmono other s (h.live other s hh hs hforwarded)
    · intro other hh
      rw [hsame.excluded]
      exact h.spared other hh
  | judgeReady now required =>
    cases hret
    obtain ⟨hinv, hout⟩ : Inv p.honest p.value (honestTaken p ops) (t.judgeReady now required).1 ∧
      Outcome p.honest t (t.judgeReady now required).1 (t.judgeReady now required).2 := h.judgeReady p.others now
    refine ⟨⟨hinv.wf, ?_, fun other s hh hs hf => hmono other s (hinv.live other s hh hs hf), hinv.spared⟩, hout⟩
    rintro other s ⟨hh, hs, htaken⟩
    obtain htaken | ⟨_, _, _, heq, -, -⟩ := taken_concat htaken
    · exact hinv.kept other s ⟨hh, hs, htaken⟩
    · cases heq

/-- **A run**, call by call: while the comparator is there, the invariant stays and the verdicts are
    sound. -/
theorem run_outcome (ops : List HashOp) (hops : ∀ op ∈ ops, op.Reports p) (hprompt : Prompt p ops) :
    ∃ t, Outcome p.honest empty t (verdicts ops) ∧ ∀ t', after ops = some t' → t' = t ∧
      Inv p.honest p.value (honestTaken p ops) t' := by
  induction ops using reverseRecOn with
  | nil =>
    have hempty : Inv p.honest p.value (fun _ _ => False) empty := empty_inv
    refine ⟨empty, .silent rfl id, ?_⟩
    rintro t' ⟨⟩
    refine ⟨rfl, hempty.wf, ?_, fun slot s hh hs hf => (hempty.live slot s hh hs hf).elim, hempty.spared⟩
    rintro slot s ⟨-, -, _, _, _, _, _, heq, -, -⟩
    simp at heq
  | append_singleton ops op ih =>
    have hprompt' : Prompt p ops := by
      rintro earlier slot count now required later rfl
      exact hprompt earlier slot count now required (later ++ [op]) (by simp)
    obtain ⟨t, hout, hinv⟩ := ih (fun o ho => hops o (mem_append_left _ ho)) hprompt'
    rw [verdicts_concat, after_concat]
    cases hafter : after ops with
    | none => exact ⟨t, by rw [HashOp.apply, append_nil]; exact hout, nofun⟩
    | some t₀ =>
      obtain ⟨rfl, hinv₀⟩ := hinv t₀ hafter
      cases hret : (HashOp.apply (some t₀) op).1 with
      | none =>
        -- an overflow in `note_forwarded` ends the run, with no verdict
        refine ⟨t₀, ?_, nofun⟩
        cases op with
        | noteForwarded => rw [HashOp.apply, append_nil]; exact hout
        | record => cases hret
        | judgeReady => cases hret
      | some t₁ =>
        have hop := hops op (mem_append_right _ (mem_singleton_self op))
        obtain ⟨hinv₁, hout₁⟩ := hinv₀.apply hafter hop hprompt hret
        refine ⟨t₁, hout.trans hout₁, ?_⟩
        rintro t' ⟨⟩
        exact ⟨rfl, hinv₁⟩

/-- **State-hash verdicts never frame an honest slot.** In every run in which the honest slots report the
    hash of each step, each before its turns run past it, no honest slot is named, no slot is named
    twice, and no verdict follows one without a majority. -/
theorem no_honest_slot_framed (p : HashPlay) (ops : List HashOp) (hops : ∀ op ∈ ops, op.Reports p) (hprompt : Prompt p ops) :
    (∀ v ∈ verdicts ops, ∀ slot, slot ∈ v.diverged ∨ slot ∈ v.missing → ¬ p.honest slot) ∧
    ((verdicts ops).flatMap fun v => v.diverged ++ v.missing).Nodup ∧
    (verdicts ops).Pairwise fun earlier _ => earlier.noMajority = false := by
  obtain ⟨t, hout, -⟩ := run_outcome ops hops hprompt
  refine ⟨?_, hout.nodup, hout.last⟩
  intro v hv slot hslot
  exact hout.fair slot (mem_flatMap.mpr ⟨v, hv, mem_append.mpr hslot⟩)

theorem exampleHashPlay_others (a b : SlotId) (ha : ¬ a ≠ 2) (hb : ¬ b ≠ 2) : a = b :=
  (not_not.mp ha).trans (not_not.mp hb).symm

/-- Every slot but the third is honest. -/
def exampleHashPlay : HashPlay where
  honest slot := slot ≠ 2
  others := exampleHashPlay_others
  value _ := 5

/-- Three slots report the first step, the third one differently; all of them send turns well past it. -/
def exampleHashOps : List HashOp :=
  [.record 0 8 5 0, .record 1 8 5 0, .record 2 8 6 0, .noteForwarded 0 104 1 [0, 1, 2], .noteForwarded 1 104 1 [0, 1, 2],
    .noteForwarded 2 104 1 [0, 1, 2], .judgeReady 2 {0, 1, 2}]

theorem exampleHashOps_prompt : Prompt exampleHashPlay exampleHashOps := by
  intro earlier slot count now required later heq hh step hs hle
  have hpos := (onInterval_iff.mp hs.on).1
  -- the first step is the only one the turns run past
  have hstep : count = 104 → step = 8 := by
    rintro rfl
    unfold saturatingAdd u64Max stateHashLiveTurns at hle
    unfold stateHashInterval at hpos
    omega
  have htaken : ∀ rest, Taken (.record 0 8 5 0 :: .record 1 8 5 0 :: rest) 0 8 ∧
      Taken (.record 0 8 5 0 :: .record 1 8 5 0 :: rest) 1 8 := fun rest =>
    ⟨⟨[], 5, 0, _, _, rfl, rfl, by decide⟩, ⟨[.record 0 8 5 0], 5, 0, _, _, rfl, rfl, by decide⟩⟩
  rcases earlier with _ | ⟨_, _ | ⟨_, _ | ⟨_, _ | ⟨_, _ | ⟨_, _ | ⟨_, _ | ⟨_, _⟩⟩⟩⟩⟩⟩⟩ <;>
    simp only [exampleHashOps, nil_append, cons_append, cons.injEq, reduceCtorEq, false_and, and_false,
      HashOp.noteForwarded.injEq, nil_eq, append_eq_nil_iff] at heq
  · obtain ⟨rfl, rfl, rfl, ⟨rfl, rfl, -⟩, -⟩ := heq
    rw [hstep rfl]
    exact (htaken _).1
  · obtain ⟨rfl, rfl, rfl, rfl, ⟨rfl, rfl, -⟩, -⟩ := heq
    rw [hstep rfl]
    exact (htaken _).2
  · obtain ⟨rfl, rfl, rfl, rfl, rfl, ⟨rfl, -⟩, -⟩ := heq
    exact absurd rfl hh

theorem no_honest_slot_framed_third :
    verdicts exampleHashOps = [⟨8, none, false, [2], []⟩] ∧
      ∀ v ∈ verdicts exampleHashOps, ∀ slot, slot ∈ v.diverged ∨ slot ∈ v.missing → ¬ slot ≠ 2 :=
  ⟨by decide +kernel, (no_honest_slot_framed exampleHashPlay exampleHashOps (by
    intro op hop
    simp only [exampleHashOps, mem_cons, not_mem_nil, or_false] at hop
    rcases hop with rfl | rfl | rfl | rfl | rfl | rfl | rfl
    · exact fun _ => rfl
    · exact fun _ => rfl
    · exact fun hh => absurd rfl hh
    all_goals trivial) exampleHashOps_prompt).1⟩

end StateHashTracker

end RallyPoint.Relay
