import RallyPoint.Client.Directive
import RallyPoint.Lib.Latest
import RallyPoint.Relay.Maker.Buffer

/-!
# `Client.Correctness.Directive` — relays and clients pick the same directive

A directive's key is its decision number and then the id of the relay that decided it. The relay's
adoption and the client's tracker are both registers of the greatest key, so they agree whatever the
order in which the copies arrive. A client that polls every frame surfaces a directive at its own frame
or not at all.

- `BufferDirective.key`, `relayRegister`, `trackerRegister`: both machines as instances of `Lib.Latest`.
- `Played`: what a client holds and has surfaced after some frames. One frame keeps it.
-/

namespace RallyPoint

open Lib List Prod

/-- What directives are compared by: a decision number, then the deciding relay's id; no id is the least. -/
abbrev DirectiveKey := Nat ×ₗ WithBot U64

/-- An id in the order of `Option<u64>`. -/
def idRank : Option U64 → WithBot U64
  | none => ⊥
  | some a => a

/-- A decision number and a relay id, compared lexicographically. -/
def directiveKey (seq : Nat) (id : Option U64) : DirectiveKey := toLex (seq, idRank id)

def BufferDirective.key (d : BufferDirective) : DirectiveKey := directiveKey d.decisionSeq d.authorityRelayId

/-- Nothing seen yet. -/
def unseen : DirectiveKey := directiveKey 0 none

theorem unseen_le (d : BufferDirective) : unseen ≤ d.key := by
  refine Prod.Lex.toLex_le_toLex.mpr ?_
  rcases Nat.eq_zero_or_pos (d.decisionSeq : Nat) with hzero | hpos
  · exact .inr ⟨hzero.symm, bot_le⟩
  · exact .inl hpos

theorem idBelow_iff (a b : Option U64) : idBelow a b = true ↔ idRank a < idRank b := by
  cases a <;> cases b <;> simp [idBelow, idRank]

variable {id id' : Option U64} {seq seq' : Nat}

theorem directiveKey_lt : directiveKey seq id < directiveKey seq' id' ↔ seq < seq' ∨ seq = seq' ∧ idBelow id id' = true := by
  unfold directiveKey
  rw [Prod.Lex.toLex_lt_toLex, idBelow_iff]

theorem directiveKey_inj (h : directiveKey seq id = directiveKey seq' id') : seq = seq' ∧ id = id' := by
  have heq := toLex.injective h
  refine ⟨congrArg fst heq, ?_⟩
  have hid : idRank id = idRank id' := congrArg snd heq
  cases id <;> cases id' <;> simp_all [idRank]

/-! ## The relay and the client as registers -/

namespace Relay

/-- What `observe_directive` writes when it adopts. -/
def BufferState.adopt (m : BufferState) (d : BufferDirective) : BufferState :=
  { m with decisionSeq := d.decisionSeq, decisionSeqTiebreak := d.authorityRelayId, buffer := d.bufferTurns }

def relayRegister : Latest BufferState BufferDirective DirectiveKey where
  rank m := directiveKey m.decisionSeq m.decisionSeqTiebreak
  key := BufferDirective.key
  adopt := BufferState.adopt
  rank_adopt := fun _ _ => rfl

theorem observeDirective_eq (m : BufferState) (d : BufferDirective) : m.observeDirective d = relayRegister.observe m d := by
  unfold BufferState.observeDirective Latest.observe relayRegister BufferDirective.key BufferState.adopt
  simp only [directiveKey_lt]
  rcases hcmp : compare (d.decisionSeq : Nat) m.decisionSeq with _ | _ | _
  · have hlt := compare_lt_iff_lt.mp hcmp
    simp [hlt.not_gt, hlt.ne']
  · have heq := compare_eq_iff_eq.mp hcmp
    simp [heq]
  · have hgt := compare_gt_iff_gt.mp hcmp
    simp [hgt]

theorem foldl_observeDirective (l : List BufferDirective) (m : BufferState) :
    l.foldl BufferState.observeDirective m = relayRegister.observeAll m l := by
  unfold Latest.observeAll
  congr 1
  funext m d
  exact observeDirective_eq m d

end Relay

namespace Client

/-- The tracker is shown a directive and the frame it arrives for. -/
def trackerRegister : Latest DirectiveTracker (BufferDirective × Nat) DirectiveKey where
  rank t := directiveKey t.highestSeq t.highestSeqTiebreak
  key o := o.1.key
  adopt _ o := DirectiveTracker.observe.adopt o.2 o.1
  rank_adopt := fun _ _ => rfl

theorem observe_eq (t : DirectiveTracker) (d : BufferDirective) (frame : Nat) :
    t.observe d frame = trackerRegister.observe t (d, frame) := by
  unfold DirectiveTracker.observe Latest.observe trackerRegister BufferDirective.key
  simp only [directiveKey_lt]
  rcases hcmp : compare (d.decisionSeq : Nat) t.highestSeq with _ | _ | _
  · have hlt := compare_lt_iff_lt.mp hcmp
    simp [hlt.not_gt, hlt.ne']
  · have heq := compare_eq_iff_eq.mp hcmp
    cases hbelow : idBelow t.highestSeqTiebreak d.authorityRelayId <;> simp [heq]
  · have hgt := compare_gt_iff_gt.mp hcmp
    simp [hgt]

/-! ## One client, frame by frame -/

/-- The stamps received for the frames below `n`, each with its frame. -/
def history (stamps : Nat → List BufferDirective) (n : Nat) : List (Nat × BufferDirective) :=
  (List.range n).flatMap fun f => (stamps f).map (f, ·)

theorem mem_history {stamps : Nat → List BufferDirective} {n : Nat} {o : Nat × BufferDirective} :
    o ∈ history stamps n ↔ o.1 < n ∧ o.2 ∈ stamps o.1 := by
  unfold history
  simp only [mem_flatMap, mem_range, mem_map]
  constructor
  · rintro ⟨f, hf, d, hd, rfl⟩
    exact ⟨hf, hd⟩
  · rintro ⟨hf, hd⟩
    exact ⟨o.1, hf, o.2, hd, rfl⟩

theorem history_succ (stamps : Nat → List BufferDirective) (n : Nat) :
    history stamps (n + 1) = history stamps n ++ (stamps n).map (n, ·) := by
  unfold history
  rw [range_succ, flatMap_append, flatMap_singleton]

/-- The tracker's rank. -/
abbrev DirectiveTracker.rank (t : DirectiveTracker) : DirectiveKey := trackerRegister.rank t

/-- **What a client holds** about to simulate frame `n`, having received the stamps `hist` and surfaced
    `out`. -/
structure Played (hist : List (Nat × BufferDirective)) (n : Nat) (t : DirectiveTracker)
    (out : List (Nat × BufferDirective)) :
    Prop where
  frames : ∀ o ∈ hist, o.1 ≤ n
  seen : ∀ o ∈ hist, o.2.key ≤ t.rank
  source : t.rank = unseen ∨ ∃ o ∈ hist, t.rank = o.2.key
  pending : ∀ d, t.pending = some d → d.key = t.rank ∧ n ≤ d.applyAtFrame ∧ ∃ g, (g, d) ∈ hist
  fresh : ∀ d, t.pending = some d → ∀ e ∈ out, e.2.key < d.key
  past : ∀ e ∈ out, e.2.key ≤ t.rank
  increasing : out.Pairwise fun a b => a.2.key < b.2.key
  surfaced : ∀ e ∈ out, e.1 = e.2.applyAtFrame ∧ e.1 < n ∧ (∃ g ≤ e.1, (g, e.2) ∈ hist) ∧
    ∀ o ∈ hist, o.1 ≤ e.1 → o.2.key ≤ e.2.key

variable {hist out : List (Nat × BufferDirective)} {n : Nat} {t : DirectiveTracker} {d top : BufferDirective}

theorem new_played : Played [] 0 .new [] := ⟨nofun, nofun, .inl rfl, nofun, nofun, nofun, .nil, nofun⟩

section Played

variable (h : Played hist n t out)
include h

/-- The stamps of the current frame are after everything surfaced. -/
theorem Played.surfaced_concat (d : BufferDirective) :
    ∀ e ∈ out, e.1 = e.2.applyAtFrame ∧ e.1 < n ∧ (∃ g ≤ e.1, (g, e.2) ∈ hist ++ [(n, d)]) ∧
      ∀ o ∈ hist ++ [(n, d)], o.1 ≤ e.1 → o.2.key ≤ e.2.key := by
  intro e he
  obtain ⟨hframe, hlt, ⟨g, hg, hmem⟩, htop⟩ := h.surfaced e he
  refine ⟨hframe, hlt, ⟨g, hg, mem_append_left _ hmem⟩, fun o ho hle => ?_⟩
  rcases mem_append.mp ho with ho | ho
  · exact htop o ho hle
  · cases mem_singleton.mp ho
    exact absurd hlt (not_lt.mpr hle)

theorem Played.observe (d : BufferDirective) : Played (hist ++ [(n, d)]) n (t.observe d n) out := by
  have hrank : (t.observe d n).rank = max t.rank d.key := by
    rw [observe_eq]
    exact trackerRegister.rank_observe t (d, n)
  have hframes : ∀ o ∈ hist ++ [(n, d)], o.1 ≤ n := by
    intro o ho
    rcases mem_append.mp ho with ho | ho
    · exact h.frames o ho
    · cases mem_singleton.mp ho
      exact le_rfl
  have hseen : ∀ o ∈ hist ++ [(n, d)], o.2.key ≤ (t.observe d n).rank := by
    intro o ho
    rw [hrank]
    rcases mem_append.mp ho with ho | ho
    · exact le_max_of_le_left (h.seen o ho)
    · cases mem_singleton.mp ho
      exact le_max_right _ _
  have hpast : ∀ e ∈ out, e.2.key ≤ (t.observe d n).rank := fun e he => hrank ▸ le_max_of_le_left (h.past e he)
  by_cases hnewer : t.rank < d.key
  · have hadopted : t.observe d n = DirectiveTracker.observe.adopt n d := by
      rw [observe_eq]
      exact if_pos hnewer
    have hpending : ∀ d', (t.observe d n).pending = some d' → d' = d ∧ n ≤ d.applyAtFrame := by
      intro d' hd'
      rw [hadopted, DirectiveTracker.observe.adopt] at hd'
      split at hd'
      · rename_i hdue
        cases hd'
        exact ⟨rfl, hdue⟩
      · cases hd'
    refine ⟨hframes, hseen, Or.inr ⟨(n, d), by simp, by rw [hrank, max_eq_right hnewer.le]⟩, ?_, ?_, hpast, h.increasing,
      h.surfaced_concat d⟩
    · intro d' hd'
      obtain ⟨rfl, hdue⟩ := hpending d' hd'
      exact ⟨by rw [hrank, max_eq_right hnewer.le], hdue, n, by simp⟩
    · intro d' hd' e he
      obtain ⟨rfl, _⟩ := hpending d' hd'
      exact (h.past e he).trans_lt hnewer
  · have hsame : t.observe d n = t := by
      rw [observe_eq]
      exact if_neg hnewer
    rw [hsame] at hseen hpast ⊢
    refine ⟨hframes, hseen, ?_, ?_, h.fresh, hpast, h.increasing, h.surfaced_concat d⟩
    · exact h.source.imp id fun ⟨o, ho, heq⟩ => ⟨o, mem_append_left _ ho, heq⟩
    · intro d' hd'
      obtain ⟨hkey, hdue, g, hg⟩ := h.pending d' hd'
      exact ⟨hkey, hdue, g, mem_append_left _ hg⟩

theorem Played.observeAll (l : List BufferDirective) :
    Played (hist ++ l.map (n, ·)) n (l.foldl (fun t d => t.observe d n) t) out := by
  induction l generalizing hist t with
  | nil => simpa using h
  | cons d l ih =>
    have hrest := ih (h.observe d)
    simpa using hrest

/-- The poll surfaces the pending directive exactly when its frame is the current one. -/
theorem Played.takeDue : Played hist (n + 1) (t.takeDue n).1 (out ++ (t.takeDue n).2.toList.map (n, ·)) := by
  have hframes : ∀ o ∈ hist, o.1 ≤ n + 1 := fun o ho => (h.frames o ho).trans n.le_succ
  have hsurfaced : ∀ e ∈ out, e.1 = e.2.applyAtFrame ∧ e.1 < n + 1 ∧ (∃ g ≤ e.1, (g, e.2) ∈ hist) ∧
      ∀ o ∈ hist, o.1 ≤ e.1 → o.2.key ≤ e.2.key := by
    intro e he
    obtain ⟨hframe, hlt, hrest⟩ := h.surfaced e he
    exact ⟨hframe, hlt.trans n.lt_succ_self, hrest⟩
  unfold DirectiveTracker.takeDue
  cases hpending : t.pending with
  | none =>
    simp only [Option.toList_none, map_nil, append_nil]
    exact ⟨hframes, h.seen, h.source, by simp [hpending], by simp [hpending], h.past, h.increasing, hsurfaced⟩
  | some d =>
    obtain ⟨hkey, hdue, g, hg⟩ := h.pending d hpending
    dsimp only
    split
    · rename_i hnow
      have heq : n = d.applyAtFrame := le_antisymm hdue hnow
      simp only [Option.toList_some, map_cons, map_nil]
      refine ⟨hframes, h.seen, h.source, nofun, nofun, ?_, ?_, ?_⟩
      · intro e he
        rcases mem_append.mp he with he | he
        · exact h.past e he
        · cases mem_singleton.mp he
          exact hkey.le
      · refine pairwise_append.mpr ⟨h.increasing, pairwise_singleton _ _, ?_⟩
        intro e he e' he'
        cases mem_singleton.mp he'
        exact h.fresh d hpending e he
      · intro e he
        rcases mem_append.mp he with he | he
        · exact hsurfaced e he
        · cases mem_singleton.mp he
          exact ⟨heq, n.lt_succ_self, ⟨g, h.frames _ hg, hg⟩, fun o ho _ => hkey ▸ h.seen o ho⟩
    · rename_i hlater
      simp only [Option.toList_none, map_nil, append_nil]
      refine ⟨hframes, h.seen, h.source, ?_, h.fresh, h.past, h.increasing, hsurfaced⟩
      intro d' hd'
      obtain rfl : d = d' := Option.some.inj (hpending.symm.trans hd')
      exact ⟨hkey, not_le.mp hlater, g, hg⟩

end Played

/-- **Every client, after any frames.** -/
theorem play_played (stamps : Nat → List BufferDirective) (n : Nat) :
    Played (history stamps n) n (play stamps n).1 (play stamps n).2 := by
  induction n with
  | zero => exact new_played
  | succ n ih =>
    rw [history_succ]
    exact (ih.observeAll (stamps n)).takeDue

/-! ## The greatest directive -/

/-- `top` has the greatest key of `ds`, and is the only one that has it. -/
structure Winner (ds : List BufferDirective) (top : BufferDirective) : Prop where
  mem : top ∈ ds
  greatest : ∀ d ∈ ds, d.key ≤ top.key
  only : ∀ d ∈ ds, d.key = top.key → d = top

variable {ds : List BufferDirective}

/-- Once the winner has been received it is pending until its frame. -/
def Leads (top : BufferDirective) (hist : List (Nat × BufferDirective)) (n : Nat) (t : DirectiveTracker) : Prop :=
  (∃ g, (g, top) ∈ hist) → n ≤ top.applyAtFrame → t.pending = some top

theorem Leads.observe (h : Leads top hist n t) (hp : Played hist n t out) (hw : Winner ds top) (hnamed : top.key ≠ unseen)
    (hfrom : ∀ o ∈ hist, o.2 ∈ ds) (hd : d ∈ ds) : Leads top (hist ++ [(n, d)]) n (t.observe d n) := by
  rintro ⟨g, hg⟩ hdue
  by_cases hreceived : ∃ g, (g, top) ∈ hist
  · -- the winner is in: nothing displaces it
    obtain ⟨g, hg⟩ := hreceived
    have hsame : t.observe d n = t := by
      rw [observe_eq]
      exact if_neg (not_lt.mpr ((hw.greatest d hd).trans (hp.seen _ hg)))
    rw [hsame]
    exact h ⟨g, hg⟩ hdue
  · -- this stamp is the winner's first copy, and what the tracker holds is below it
    have heq : top = d := by
      rcases mem_append.mp hg with hg | hg
      · exact absurd ⟨g, hg⟩ hreceived
      · exact congrArg snd (mem_singleton.mp hg)
    subst heq
    have hbelow : t.rank < top.key := by
      rcases hp.source with hsource | ⟨o, ho, hsource⟩
      · rw [hsource]
        exact lt_of_le_of_ne (unseen_le top) hnamed.symm
      · rw [hsource]
        refine lt_of_le_of_ne (hw.greatest o.2 (hfrom o ho)) fun hkey => hreceived ⟨o.1, ?_⟩
        rw [← hw.only o.2 (hfrom o ho) hkey]
        exact ho
    have hadopted : t.observe top n = DirectiveTracker.observe.adopt n top := by
      rw [observe_eq]
      exact if_pos hbelow
    rw [hadopted, DirectiveTracker.observe.adopt, if_pos hdue]

theorem Leads.observeAll (h : Leads top hist n t) (hp : Played hist n t out) (hw : Winner ds top) (hnamed : top.key ≠ unseen)
    (hfrom : ∀ o ∈ hist, o.2 ∈ ds) {l : List BufferDirective} (hl : ∀ d ∈ l, d ∈ ds) :
    Leads top (hist ++ l.map (n, ·)) n (l.foldl (fun t d => t.observe d n) t) := by
  induction l generalizing hist t with
  | nil => simpa using h
  | cons d l ih =>
    have hd := hl d mem_cons_self
    have hrest := ih (h.observe hp hw hnamed hfrom hd) (hp.observe d) (fun o ho => by
        rcases mem_append.mp ho with ho | ho
        · exact hfrom o ho
        · cases mem_singleton.mp ho
          exact hd)
      fun d' hd' => hl d' (mem_cons_of_mem d hd')
    simpa using hrest

/-- The tracker after the stamps of frame `n`, before the poll. -/
def received (stamps : Nat → List BufferDirective) (n : Nat) : DirectiveTracker :=
  (stamps n).foldl (fun t d => t.observe d n) (play stamps n).1

section Winning

variable {stamps : Nat → List BufferDirective} (hw : Winner ds top) (hnamed : top.key ≠ unseen)
  (hfrom : ∀ f, ∀ d ∈ stamps f, d ∈ ds)

include hw hnamed hfrom

theorem received_leads (h : Leads top (history stamps n) n (play stamps n).1) :
    Leads top (history stamps (n + 1)) n (received stamps n) := by
  rw [history_succ]
  exact h.observeAll (play_played stamps n) hw hnamed (fun o ho => hfrom o.1 o.2 (mem_history.mp ho).2) (hfrom n)

theorem play_leads (n : Nat) : Leads top (history stamps n) n (play stamps n).1 := by
  induction n with
  | zero =>
    rintro ⟨g, hg⟩
    simp [history] at hg
  | succ n ih =>
    intro hreceived hdue
    have hpending := received_leads hw hnamed hfrom ih hreceived (Nat.le_of_succ_le hdue)
    have hlater : ¬ (top.applyAtFrame : Nat) ≤ n := not_le.mpr (Nat.lt_of_succ_le hdue)
    show ((received stamps n).takeDue n).1.pending = some top
    simp [DirectiveTracker.takeDue, hpending, hlater]

/-- **The winner is surfaced at its frame**, if it was received by then. -/
theorem play_surfaces {g : Nat} (hg : top ∈ stamps g) (hdue : g ≤ (top.applyAtFrame : Nat))
    (hn : (top.applyAtFrame : Nat) < n) : ((top.applyAtFrame : Nat), top) ∈ (play stamps n).2 := by
  induction n with
  | zero => exact absurd hn (Nat.not_lt_zero _)
  | succ n ih =>
    show _ ∈ (play stamps n).2 ++ ((received stamps n).takeDue n).2.toList.map (n, ·)
    rcases Nat.lt_succ_iff_lt_or_eq.mp hn with hn | hn
    · exact mem_append_left _ (ih hn)
    · -- the poll of its own frame
      have hreceived : ∃ g, (g, top) ∈ history stamps (n + 1) := ⟨g, mem_history.mpr ⟨Nat.lt_succ_of_le (hn ▸ hdue), hg⟩⟩
      have hpending := received_leads hw hnamed hfrom (play_leads hw hnamed hfrom n) hreceived hn.ge
      refine mem_append_right _ ?_
      simp [DirectiveTracker.takeDue, hpending, hn]

/-- **A client that received every directive in time surfaces the winner at its frame, and nothing
    else.** -/
theorem play_surfaces_only (hall : ∀ d ∈ ds, ∃ g : Nat, (∀ d' ∈ ds, g ≤ (d'.applyAtFrame : Nat)) ∧ d ∈ stamps g) (n : Nat) :
    (play stamps n).2 = if (top.applyAtFrame : Nat) < n then [((top.applyAtFrame : Nat), top)] else [] := by
  have hp := play_played stamps n
  obtain ⟨g, hfirst, hg⟩ := hall top hw.mem
  have hdue := hfirst top hw.mem
  have honly : ∀ e ∈ (play stamps n).2, e = ((top.applyAtFrame : Nat), top) ∧ (top.applyAtFrame : Nat) < n := by
    intro e he
    obtain ⟨hframe, hlt, ⟨g', hle, hmem⟩, hgreatest⟩ := hp.surfaced e he
    have hds : e.2 ∈ ds := hfrom g' e.2 (mem_history.mp hmem).2
    have hreceived : (g, top) ∈ history stamps n := mem_history.mpr ⟨(hfirst e.2 hds).trans_lt (hframe ▸ hlt), hg⟩
    have hkey : top.key ≤ e.2.key := hgreatest (g, top) hreceived (hframe ▸ hfirst e.2 hds)
    have htop : e.2 = top := hw.only e.2 hds (le_antisymm (hw.greatest e.2 hds) hkey)
    refine ⟨Prod.ext (htop ▸ hframe) htop, ?_⟩
    rw [← htop, ← hframe]
    exact hlt
  split
  · rename_i hn
    have hmem := play_surfaces hw hnamed hfrom hg hdue hn
    -- the surfaced keys increase, so the winner is there once
    cases hout : (play stamps n).2 with
    | nil =>
      rw [hout] at hmem
      cases hmem
    | cons e rest =>
      rw [hout] at honly
      obtain rfl := (honly e mem_cons_self).1
      cases rest with
      | nil => rfl
      | cons e' rest =>
        have hincreasing := hp.increasing
        rw [hout] at hincreasing
        have hlt := (pairwise_cons.mp hincreasing).1 e' mem_cons_self
        rw [(honly e' (by simp)).1] at hlt
        exact absurd hlt (lt_irrefl _)
  · rename_i hn
    cases hout : (play stamps n).2 with
    | nil => rfl
    | cons e rest =>
      rw [hout] at honly
      exact absurd (honly e mem_cons_self).2 hn

end Winning

/-- What a client surfaces: each directive at most once, at its own frame, when it was received by then
    and was the greatest received. -/
theorem play_surfaced (stamps : Nat → List BufferDirective) (n : Nat) :
    ((play stamps n).2.map Prod.snd).Nodup ∧
      ∀ (f : Nat) (d : BufferDirective), (f, d) ∈ (play stamps n).2 → f = (d.applyAtFrame : Nat) ∧ (∃ g ≤ f, d ∈ stamps g) ∧
        ∀ g ≤ f, ∀ d' ∈ stamps g, d'.key ≤ d.key := by
  have hp := play_played stamps n
  constructor
  · rw [nodup_iff_pairwise_ne, pairwise_map]
    refine hp.increasing.imp fun hlt heq => ?_
    rw [heq] at hlt
    exact lt_irrefl _ hlt
  · intro f d hd
    obtain ⟨hframe, hlt, ⟨g, hg, hmem⟩, hgreatest⟩ := hp.surfaced (f, d) hd
    refine ⟨hframe, ⟨g, hg, (mem_history.mp hmem).2⟩, fun g' hg' d' hd' => ?_⟩
    exact hgreatest (g', d') (mem_history.mpr ⟨hg'.trans_lt hlt, hd'⟩) hg'

/-! ## Relays and clients -/

theorem foldl_observe (l : List (BufferDirective × Nat)) (t : DirectiveTracker) :
    l.foldl (fun t o => t.observe o.1 o.2) t = trackerRegister.observeAll t l := by
  unfold Latest.observeAll
  congr 1
  funext t o
  exact observe_eq t o.1 o.2

/-- **Relays and clients agree on the winning directive, and clients apply it at one step.** Of any directives with distinct
    keys, `top` the greatest:
    - a relay that observes them, in any order and with any repetition, ends with `top`'s number, id and buffer, unless
      `top` is the unnumbered directive that stands for none;
    - a client's tracker ends with the same number and id;
    - a client that polls every frame surfaces each directive at most once, at its own frame, only when it was received by
      then and was the greatest received;
    - clients that received all of them by the first of their frames surface `top` at its frame and nothing else. -/
theorem directives_agree (ds : List BufferDirective) (top : BufferDirective)
    (hdistinct : ∀ d ∈ ds, ∀ d' ∈ ds, d.key = d'.key → d = d') (htop : top ∈ ds) (hgreatest : ∀ d ∈ ds, d.key ≤ top.key) :
    (top.key ≠ unseen → ∀ (start : Nat) (observed : List BufferDirective), (∀ d, d ∈ observed ↔ d ∈ ds) →
      let m := observed.foldl Relay.BufferState.observeDirective (.new start)
      (m.decisionSeq, m.decisionSeqTiebreak, m.buffer) =
        ((top.decisionSeq : Nat), top.authorityRelayId, (top.bufferTurns : Nat))) ∧
    (∀ observed : List (BufferDirective × Nat), (∀ d, d ∈ observed.map fst ↔ d ∈ ds) →
      let t := observed.foldl (fun t o => t.observe o.1 o.2) DirectiveTracker.new
      (t.highestSeq, t.highestSeqTiebreak) = ((top.decisionSeq : Nat), top.authorityRelayId)) ∧
    (∀ stamps : Nat → List BufferDirective, (∀ f, ∀ d ∈ stamps f, d ∈ ds) → ∀ n,
      ((play stamps n).2.map snd).Nodup ∧
        ∀ (f : Nat) (d : BufferDirective), (f, d) ∈ (play stamps n).2 → f = (d.applyAtFrame : Nat) ∧
          (∃ g ≤ f, d ∈ stamps g) ∧
          ∀ g ≤ f, ∀ d' ∈ stamps g, d'.key ≤ d.key) ∧
    (top.key ≠ unseen → ∀ stamps : Nat → List BufferDirective, (∀ f, ∀ d ∈ stamps f, d ∈ ds) →
      (∀ d ∈ ds, ∃ g : Nat, (∀ d' ∈ ds, g ≤ (d'.applyAtFrame : Nat)) ∧ d ∈ stamps g) →
      ∀ n, (play stamps n).2 = if (top.applyAtFrame : Nat) < n then [((top.applyAtFrame : Nat), top)] else []) := by
  have hw : Winner ds top := ⟨htop, hgreatest, fun d hd => hdistinct d hd top htop⟩
  refine ⟨fun hnamed start observed hsame => ?_, fun observed hsame => ?_, fun stamps _ n => play_surfaced stamps n,
    fun hnamed stamps hfrom hall n => play_surfaces_only hw hnamed hfrom hall n⟩
  · have habove : Relay.relayRegister.rank (.new start) < top.key := lt_of_le_of_ne (unseen_le top) hnamed.symm
    obtain ⟨m, _, hm⟩ := Relay.relayRegister.observeAll_adopts habove ((hsame top).mpr htop)
      (fun d hd => hgreatest d ((hsame d).mp hd)) fun d hd => hw.only d ((hsame d).mp hd)
    rw [Relay.foldl_observeDirective, hm]
    rfl
  · obtain ⟨o, ho, rfl⟩ := mem_map.mp ((hsame top).mpr htop)
    have hbelow : trackerRegister.rank .new ≤ trackerRegister.key o := unseen_le o.1
    have hrank := trackerRegister.rank_observeAll hbelow ho fun o' ho' =>
      hgreatest o'.1 ((hsame o'.1).mp (mem_map_of_mem ho'))
    rw [foldl_observe]
    obtain ⟨hseq, hid⟩ := directiveKey_inj hrank
    exact Prod.ext hseq hid

/-- Two directives of one number by different relays, and an older one: two clients receive them in
    different orders and with copies. -/
theorem directives_agree_staggered :
    let first : BufferDirective := ⟨4, 6, 1, some 7⟩
    let second : BufferDirective := ⟨5, 4, 2, some 7⟩
    let winner : BufferDirective := ⟨6, 5, 2, some 9⟩
    let left : Nat → List BufferDirective := fun f => if f = 0 then [first, winner, second, first] else []
    let right : Nat → List BufferDirective := fun f => if f = 3 then [winner, second, first] else []
    let m := [winner, first, second, winner].foldl Relay.BufferState.observeDirective (.new 2)
    (m.decisionSeq, m.decisionSeqTiebreak, m.buffer) = (2, some 9, 6) ∧
      (play left 8).2 = [(5, winner)] ∧ (play right 8).2 = [(5, winner)] := by
  intro first second winner left right m
  obtain ⟨hrelay, _, _, hclient⟩ := directives_agree [first, second, winner] winner
    (by decide +kernel) (by decide) (by decide +kernel)
  have hnamed : winner.key ≠ unseen := by decide +kernel
  have hleft : ∀ f, ∀ d ∈ left f, d ∈ [first, second, winner] := by
    intro f
    by_cases hf : f = 0
    · subst hf
      decide
    · simp [left, hf]
  have hright : ∀ f, ∀ d ∈ right f, d ∈ [first, second, winner] := by
    intro f
    by_cases hf : f = 3
    · subst hf
      decide
    · simp [right, hf]
  have hmem : ∀ d, d ∈ [winner, first, second, winner] ↔ d ∈ [first, second, winner] := by
    intro d
    simp only [mem_cons, not_mem_nil, or_false]
    tauto
  refine ⟨hrelay hnamed 2 _ hmem, hclient hnamed left hleft ?_ 8, hclient hnamed right hright ?_ 8⟩
  · exact fun d hd => ⟨0, by decide +kernel, by revert d; decide⟩
  · exact fun d hd => ⟨3, by decide +kernel, by revert d; decide⟩

/-- A directive without a number and an id is taken for none: no relay and no client adopts it. -/
theorem unnumbered_directive_is_ignored :
    let d : BufferDirective := ⟨5, 3, 0, none⟩
    (([d].foldl Relay.BufferState.observeDirective (.new 2)).buffer, (play (fun _ => [d]) 8).2) =
      (2, []) ∧ (d.bufferTurns : Nat) ≠ 2 := by
  decide +kernel

end Client

end RallyPoint
