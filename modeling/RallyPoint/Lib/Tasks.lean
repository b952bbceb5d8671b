import Mathlib.Data.List.Induction

/-!
# `Lib.Tasks` — tasks that share a state

A task is a program cut where it gives up its locks: `next` is what it does from one cut to the following
one, in one piece. A task that cannot take a lock stays where it is. A **world** is the shared state and
where each task stands; a **schedule** starts tasks and advances them, in any order.

A property of all schedules follows from what each piece keeps (`run_invariant`, `move_cases`). A
schedule may be restricted by a condition on the world each piece is taken in (`Obeys`). What a task
answered, it answered in some piece of its own (`returned_cases`). A lock that outlives a piece is a flag
of the shared state; `Guards` says that the pieces respect it, and then at most one task holds it
(`Excluded`). Two tasks of different programs are a `Pair`. A task that nobody interrupts is run by
`alone`, and `Returns` is its big step.
-/

namespace Lib

open List

universe u v w

/-- Where a task stands: at a point of its program, or returned. -/
inductive Progress (τ : Type u) (ρ : Type v) where
  | going (point : τ)
  | done (result : ρ)

/-- A program: what it does from a point to the following one. -/
abbrev Program (σ : Type u) (τ : Type v) (ρ : Type w) := τ → σ → σ × Progress τ ρ

/-- A call: the points of the callee seen from the caller, and how the caller goes on with its result. -/
def Progress.call {τ τ' : Type u} {ρ ρ' : Type v} (within : τ → τ') (after : ρ → Progress τ' ρ') :
    Progress τ ρ → Progress τ' ρ'
  | going point => going (within point)
  | done result => after result

def Progress.isDone {τ : Type u} {ρ : Type v} : Progress τ ρ → Bool
  | going _ => false
  | done _ => true

/-- What a task carries at its point, if anything. -/
def Progress.carries {τ : Type u} {ρ : Type v} {α : Type w} (f : τ → Option α) : Progress τ ρ → Option α
  | going point => f point
  | done _ => none

/-- Whether a task stands at a point of `p`. -/
def Progress.at {τ : Type u} {ρ : Type v} (p : τ → Bool) : Progress τ ρ → Bool
  | going point => p point
  | done _ => false

namespace Progress

/-! ### Calls that return with their callee -/

section Call

variable {τ τ' : Type u} {ρ ρ' : Type v} {within : τ → τ'} {after : ρ → ρ'} {progress : Progress τ ρ}

/-- Such a call goes on only inside the callee. -/
theorem call_eq_going {point' : τ'} (h : progress.call within (fun result => .done (after result)) = .going point') :
    ∃ point, progress = .going point ∧ within point = point' := by
  cases progress with
  | going point => exact ⟨point, rfl, by simpa [call] using h⟩
  | done => cases h

theorem call_eq_done {result' : ρ'} (h : progress.call within (fun result => .done (after result)) = .done result') :
    ∃ result, progress = .done result ∧ after result = result' := by
  cases progress with
  | going => cases h
  | done result => exact ⟨result, rfl, by simpa [call] using h⟩

theorem not_at_call {p : τ' → Bool} (h : ∀ point, p (within point) = false) :
    (progress.call within fun result => .done (after result)).at p = false := by
  cases progress with
  | going point => exact h point
  | done => rfl

/-- What the callee carries is what the caller carries. -/
theorem carries_call {α : Type w} {f : τ → Option α} {f' : τ' → Option α} (h : ∀ point, f' (within point) = f point) :
    (progress.call within fun result => .done (after result)).carries f' = progress.carries f := by
  cases progress with
  | going point => exact h point
  | done => rfl

end Call

end Progress

/-- The shared state, and the tasks started so far. -/
structure World (σ : Type u) (τ : Type v) (ρ : Type w) where
  shared : σ
  tasks : List (Progress τ ρ)

/-- Start a task at a point, or let the task of a number run to its next cut. -/
inductive Move (τ : Type v) where
  | start (point : τ)
  | advance (i : Nat)

namespace World

variable {σ : Type u} {τ : Type v} {ρ : Type w}

/-- No task of the world is under way. -/
def Idle (w : World σ τ ρ) : Prop := ∀ point, .going point ∉ w.tasks

instance (w : World σ τ ρ) : Decidable w.Idle :=
  decidable_of_iff (∀ p ∈ w.tasks, p.isDone = true) <| by
    constructor
    · intro h point hmem
      cases h _ hmem
    · intro h p hp
      cases p with
      | going point => exact absurd hp (h point)
      | done => rfl

/-- The world where no task has started. -/
def init (s : σ) : World σ τ ρ := ⟨s, []⟩

/-- One move. A task that returned stays as it is. -/
def move (next : Program σ τ ρ) (w : World σ τ ρ) : Move τ → World σ τ ρ
  | .start point => { w with tasks := w.tasks ++ [.going point] }
  | .advance i =>
    match w.tasks[i]? with
    | some (.going point) =>
      let (s, progress) := next point w.shared
      ⟨s, w.tasks.set i progress⟩
    | _ => w

/-- The world after a schedule. -/
def run (next : Program σ τ ρ) (w : World σ τ ρ) (moves : List (Move τ)) : World σ τ ρ := moves.foldl (move next) w

/-- Every move of the schedule meets the condition `ok`, in the world it is taken in. -/
def Obeys (next : Program σ τ ρ) (ok : World σ τ ρ → Move τ → Prop) : World σ τ ρ → List (Move τ) → Prop
  | _, [] => True
  | w, m :: moves => ok w m ∧ Obeys next ok (w.move next m) moves

/-- The point a task is advanced from. -/
def pointOf (w : World σ τ ρ) : Move τ → Option τ
  | .start _ => none
  | .advance i =>
    match w.tasks[i]? with
    | some (.going point) => some point
    | _ => none

variable {next : Program σ τ ρ} {ok : World σ τ ρ → Move τ → Prop} {w : World σ τ ρ}

variable {α : Type u} {l : List α} {I : World σ τ ρ → Prop} {m : Move τ}

/-- **What every move keeps holds after every schedule.** -/
theorem run_invariant (hmove : ∀ w m, I w → ok w m → I (w.move next m)) {moves : List (Move τ)}
    (h0 : I w) (hobeys : Obeys next ok w moves) : I (w.run next moves) := by
  induction moves generalizing w with
  | nil => exact h0
  | cons m moves ih => exact ih (hmove w m h0 hobeys.1) hobeys.2

/-- **A move starts a task, advances one, or does nothing.** -/
theorem move_cases (m : Move τ) (h : I w)
    (hstart : ∀ point, m = .start point → I { w with tasks := w.tasks ++ [.going point] })
    (hadvance : ∀ i point, m = .advance i → w.pointOf m = some point → w.tasks[i]? = some (.going point) →
      I ⟨(next point w.shared).1, w.tasks.set i (next point w.shared).2⟩) : I (w.move next m) := by
  cases m with
  | start point => exact hstart point rfl
  | advance i =>
    simp only [move]
    split
    · rename_i point hgoing
      exact hadvance i point rfl (by simp [pointOf, hgoing]) hgoing
    · exact h

/-! ### The shared state -/

/-- A condition on the pieces of a schedule, in the shared state each is taken in. -/
def Each (ok : σ → τ → Bool) (w : World σ τ ρ) (m : Move τ) : Prop := (w.pointOf m).all (ok w.shared) = true
deriving Decidable

theorem shared_move_of_pointOf {point : τ} (h : w.pointOf m = some point) :
    (w.move next m).shared = (next point w.shared).1 := by
  cases m with
  | start => cases h
  | advance i =>
    unfold pointOf at h
    unfold move
    dsimp only at h ⊢
    split at h
    · obtain rfl := Option.some.inj h
      rfl
    · cases h

section Shared

variable {P : σ → Prop} {moves : List (Move τ)}

/-- **What every piece keeps of the shared state**, under a condition on the pieces. -/
theorem shared_invariant_of {ok : σ → τ → Bool} (hnext : ∀ s point, ok s point = true → P s → P (next point s).1)
    (h0 : P w.shared) (hobeys : Obeys next (Each ok) w moves) : P (w.run next moves).shared := by
  refine run_invariant (I := fun w => P w.shared) ?_ h0 hobeys
  intro w m h hok
  refine move_cases (I := fun w => P w.shared) m h (fun _ _ => h) ?_
  intro i point _ hpoint _
  refine hnext w.shared point ?_ h
  unfold Each at hok
  rw [hpoint] at hok
  exact hok

/-- **What every piece keeps of the shared state.** -/
theorem shared_invariant (hnext : ∀ s point, P s → P (next point s).1) (h0 : P w.shared) : P (w.run next moves).shared := by
  induction moves generalizing w with
  | nil => exact h0
  | cons m moves ih =>
    exact ih (move_cases (I := fun w => P w.shared) m h0 (fun _ _ => h0) fun _ point _ _ _ => hnext _ point h0)

end Shared

/-! ### The tasks -/

/-- A task other than the one advanced stands where it stood. -/
theorem mem_set_of_ne {i : Nat} {a b c : α} (hi : l[i]? = some a) (hb : b ∈ l) (hne : b ≠ a) : b ∈ l.set i c := by
  obtain ⟨j, hj, rfl⟩ := mem_iff_getElem.mp hb
  have hij : i ≠ j := by
    rintro rfl
    exact hne (Option.some.inj ((getElem?_eq_getElem hj).symm.trans hi))
  exact List.mem_iff_getElem.mpr ⟨j, by simpa using hj, getElem_set_ne hij _⟩

/-- A task after a move stands where it stood, where it was started, or where the move took it. -/
theorem mem_of_mem_set {i : Nat} {b c : α} (h : b ∈ l.set i c) : b = c ∨ b ∈ l := (mem_or_eq_of_mem_set h).symm

/-- The task advanced stands where its piece took it. -/
theorem mem_set_self {i : Nat} {a c : α} (hi : l[i]? = some a) : c ∈ l.set i c :=
  List.mem_iff_getElem.mpr ⟨i, by simpa using (List.getElem?_eq_some_iff.mp hi).1, by simp⟩

/-- A task of a kind is still there after a move, or is the one advanced. -/
theorem exists_set {P : α → Prop} {i : Nat} {a : α} (c : α) (hi : l[i]? = some a) (h : ∃ b ∈ l, P b) :
    P a ∨ ∃ b ∈ l.set i c, P b := by
  obtain ⟨b, hb, hP⟩ := h
  by_cases hne : b = a
  · exact .inl (hne ▸ hP)
  · exact .inr ⟨b, mem_set_of_ne hi hb hne, hP⟩

/-- A condition that does not depend on the world. -/
theorem Obeys.of_forall {ok : Move τ → Prop} {moves : List (Move τ)} (h : ∀ m ∈ moves, ok m) :
    Obeys next (fun _ => ok) w moves := by
  induction moves generalizing w with
  | nil => trivial
  | cons m moves ih => exact ⟨h m mem_cons_self, ih fun m' hm' => h m' (mem_cons_of_mem m hm')⟩

theorem run_append (w : World σ τ ρ) (earlier later : List (Move τ)) :
    w.run next (earlier ++ later) = (w.run next earlier).run next later :=
  foldl_append

theorem Obeys.append {earlier later : List (Move τ)} :
    Obeys next ok w (earlier ++ later) ↔ Obeys next ok w earlier ∧ Obeys next ok (w.run next earlier) later := by
  induction earlier generalizing w with
  | nil => simp [Obeys, run]
  | cons m earlier ih => simp only [cons_append, Obeys, ih, run, foldl_cons, and_assoc]

instance decidableObeys [∀ w m, Decidable (ok w m)] :
    ∀ (w : World σ τ ρ) (moves : List (Move τ)), Decidable (Obeys next ok w moves)
  | _, [] => .isTrue trivial
  | w, m :: moves =>
    have := decidableObeys (w.move next m) moves
    inferInstanceAs (Decidable (ok w m ∧ Obeys next ok (w.move next m) moves))

/-- **A task that has returned did so in a piece of its own**, in a world the run went through. -/
theorem returned_cases {moves : List (Move τ)} {result : ρ} (h : .done result ∈ (w.run next moves).tasks) :
    .done result ∈ w.tasks ∨ ∃ earlier m later point, moves = earlier ++ m :: later ∧
      (w.run next earlier).pointOf m = some point ∧ (next point (w.run next earlier).shared).2 = .done result := by
  induction moves using reverseRecOn with
  | nil => exact .inl h
  | append_singleton moves m ih =>
    rw [run_append] at h
    suffices hcase : .done result ∈ (w.run next moves).tasks ∨ ∃ point, (w.run next moves).pointOf m = some point ∧
        (next point (w.run next moves).shared).2 = .done result by
      rcases hcase with hbefore | ⟨point, hpoint, hreturn⟩
      · rcases ih hbefore with hinit | ⟨earlier, m', later, point, rfl, hpoint, hreturn⟩
        · exact .inl hinit
        · exact .inr ⟨earlier, m', later ++ [m], point, by simp, hpoint, hreturn⟩
      · exact .inr ⟨moves, m, [], point, rfl, hpoint, hreturn⟩
    refine move_cases (I := fun w' => .done result ∈ w'.tasks → .done result ∈ (w.run next moves).tasks ∨ _) m .inl ?_ ?_ h
    · intro point _ hmem
      rcases mem_append.mp hmem with hmem | hmem
      · exact .inl hmem
      · simp at hmem
    · intro i point _ hpoint _ hmem
      rcases mem_of_mem_set hmem with heq | hmem
      · exact .inr ⟨point, hpoint, heq.symm⟩
      · exact .inl hmem

/-! ## Locks -/

/-- **How the pieces treat a lock.** `locked` is its flag; a task at a point of `holder` has it. It is
    taken when it is free, and given back only by the task that has it. -/
structure Guards (next : Program σ τ ρ) (locked : σ → Bool) (holder : τ → Bool) : Prop where
  mine : ∀ point s, holder point = true → locked (next point s).1 = (next point s).2.at holder
  others : ∀ point s, holder point = false → (next point s).2.at holder = false → locked (next point s).1 = locked s
  takes : ∀ point s, holder point = false → (next point s).2.at holder = true → locked s = false ∧
    locked (next point s).1 = true

/-- The lock is taken exactly when one task has it. -/
def Excluded (locked : σ → Bool) (holder : τ → Bool) (w : World σ τ ρ) : Prop :=
  w.tasks.countP (·.at holder) = (locked w.shared).toNat

section Locks

variable {locked : σ → Bool} {holder : τ → Bool} {i : Nat} {point : τ}

theorem Excluded.move (hguards : Guards next locked holder) (h : Excluded locked holder w)
    (hstart : ∀ point, m = .start point → holder point = false) : Excluded locked holder (w.move next m) := by
  refine move_cases m h ?_ ?_
  · intro point hm
    simpa [Excluded, Progress.at, hstart point hm] using h
  · intro i point _ _ hi
    have hlt : i < w.tasks.length := (List.getElem?_eq_some_iff.mp hi).1
    have hget : w.tasks[i] = .going point := (List.getElem?_eq_some_iff.mp hi).2
    have hcount : (w.tasks.set i (next point w.shared).2).countP (·.at holder) =
        w.tasks.countP (·.at holder) - (holder point).toNat + ((next point w.shared).2.at holder).toNat := by
      rw [countP_set hlt, hget]
      cases hp : holder point <;> cases hq : (next point w.shared).2.at holder <;> simp [Progress.at, hp]
    show _ = _
    rw [hcount, show w.tasks.countP (·.at holder) = (locked w.shared).toNat from h]
    cases hp : holder point with
    | true =>
      -- the count was positive, so the lock was taken
      have hpos : 0 < w.tasks.countP (·.at holder) := countP_pos_iff.mpr ⟨_, mem_of_getElem? hi, hp⟩
      rw [show w.tasks.countP (·.at holder) = (locked w.shared).toNat from h] at hpos
      rw [hguards.mine point w.shared hp]
      cases hl : locked w.shared with
      | true => simp
      | false => simp [hl] at hpos
    | false =>
      cases hq : (next point w.shared).2.at holder with
      | false => simp [hguards.others point w.shared hp hq]
      | true =>
        obtain ⟨hfree, htaken⟩ := hguards.takes point w.shared hp hq
        simp [hfree, htaken]

/-- A task that has the lock keeps it taken. -/
theorem Excluded.taken (h : Excluded locked holder w) (hmem : .going point ∈ w.tasks) (hp : holder point = true) :
    locked w.shared = true := by
  have hpos : 0 < w.tasks.countP (·.at holder) := countP_pos_iff.mpr ⟨_, hmem, hp⟩
  rw [show w.tasks.countP (·.at holder) = (locked w.shared).toNat from h] at hpos
  cases hl : locked w.shared with
  | true => rfl
  | false => simp [hl] at hpos

end Locks

end World

/-! ## Two tasks -/

/-- Which of two tasks goes on. -/
inductive Turn where
  | first
  | second

/-- A shared state and two tasks of different programs. -/
structure Pair (σ : Type u) (τ₁ τ₂ : Type v) (ρ₁ ρ₂ : Type w) where
  shared : σ
  first : Progress τ₁ ρ₁
  second : Progress τ₂ ρ₂

namespace Pair

variable {σ : Type u} {τ₁ τ₂ : Type v} {ρ₁ ρ₂ : Type w}
variable (next₁ : Program σ τ₁ ρ₁) (next₂ : Program σ τ₂ ρ₂)

/-- One piece of the task whose turn it is. -/
def move (w : Pair σ τ₁ τ₂ ρ₁ ρ₂) : Turn → Pair σ τ₁ τ₂ ρ₁ ρ₂
  | .first =>
    match w.first with
    | .going point => ⟨(next₁ point w.shared).1, (next₁ point w.shared).2, w.second⟩
    | .done _ => w
  | .second =>
    match w.second with
    | .going point => ⟨(next₂ point w.shared).1, w.first, (next₂ point w.shared).2⟩
    | .done _ => w

/-- The pair after the turns. -/
def run (w : Pair σ τ₁ τ₂ ρ₁ ρ₂) (turns : List Turn) : Pair σ τ₁ τ₂ ρ₁ ρ₂ := turns.foldl (move next₁ next₂) w

/-- Every turn meets the condition `ok`, in the pair it is taken in. -/
def Obeys (ok : Pair σ τ₁ τ₂ ρ₁ ρ₂ → Turn → Prop) : Pair σ τ₁ τ₂ ρ₁ ρ₂ → List Turn → Prop
  | _, [] => True
  | w, t :: turns => ok w t ∧ Obeys ok (w.move next₁ next₂ t) turns

variable {next₁ next₂} {ok : Pair σ τ₁ τ₂ ρ₁ ρ₂ → Turn → Prop} {w : Pair σ τ₁ τ₂ ρ₁ ρ₂}

instance decidableObeys [∀ w t, Decidable (ok w t)] :
    ∀ (w : Pair σ τ₁ τ₂ ρ₁ ρ₂) (turns : List Turn), Decidable (Obeys next₁ next₂ ok w turns)
  | _, [] => .isTrue trivial
  | w, t :: turns =>
    have := decidableObeys (w.move next₁ next₂ t) turns
    inferInstanceAs (Decidable (ok w t ∧ Obeys next₁ next₂ ok (w.move next₁ next₂ t) turns))

/-- **What every piece of either task keeps holds after every schedule.** -/
theorem run_invariant {I : Pair σ τ₁ τ₂ ρ₁ ρ₂ → Prop}
    (hfirst : ∀ s point second, I ⟨s, .going point, second⟩ → ok ⟨s, .going point, second⟩ .first →
      I ⟨(next₁ point s).1, (next₁ point s).2, second⟩)
    (hsecond : ∀ s first point, I ⟨s, first, .going point⟩ → ok ⟨s, first, .going point⟩ .second →
      I ⟨(next₂ point s).1, first, (next₂ point s).2⟩)
    {turns : List Turn} (h0 : I w) (hobeys : Obeys next₁ next₂ ok w turns) : I (w.run next₁ next₂ turns) := by
  induction turns generalizing w with
  | nil => exact h0
  | cons t turns ih =>
    obtain ⟨hok, hrest⟩ := hobeys
    refine ih ?_ hrest
    obtain ⟨s, p₁, p₂⟩ := w
    cases t with
    | first =>
      cases p₁ with
      | going point => exact hfirst s point p₂ h0 hok
      | done => exact h0
    | second =>
      cases p₂ with
      | going point => exact hsecond s p₁ point h0 hok
      | done => exact h0

end Pair

/-! ## One task by itself -/

section Alone

variable {σ : Type u} {τ τ' : Type v} {ρ ρ' : Type w}

/-- At most `n` pieces of a task that nobody interrupts. -/
def alone (next : Program σ τ ρ) : Nat → Progress τ ρ → σ → σ × Progress τ ρ
  | n + 1, .going point, s => alone next n (next point s).2 (next point s).1
  | _, progress, s => (s, progress)

/-- The task returns `result`, and leaves `s'`. -/
def Returns (next : Program σ τ ρ) (progress : Progress τ ρ) (s s' : σ) (result : ρ) : Prop :=
  ∃ n, alone next n progress s = (s', .done result)

variable {next : Program σ τ ρ} {s s₁ s' : σ} {result : ρ}

theorem Returns.done : Returns next (.done result) s s result := ⟨0, rfl⟩

theorem Returns.step {point : τ} {progress : Progress τ ρ} (hnext : next point s = (s₁, progress))
    (h : Returns next progress s₁ s' result) : Returns next (.going point) s s' result := by
  obtain ⟨n, hn⟩ := h
  exact ⟨n + 1, by rw [alone, hnext]; exact hn⟩

theorem alone_done (n : Nat) : alone next n (.done result) s = (s, .done result) := by
  cases n <;> rfl

theorem alone_add (n k : Nat) (progress : Progress τ ρ) :
    alone next (n + k) progress s = alone next k (alone next n progress s).2 (alone next n progress s).1 := by
  induction n generalizing progress s with
  | zero => rw [Nat.zero_add]; rfl
  | succ n ih =>
    cases progress with
    | going point => rw [Nat.succ_add]; exact ih _
    | done r => simp only [alone_done]

/-- A task returns at most once. -/
theorem Returns.unique {progress : Progress τ ρ} {s₂ : σ} {result₂ : ρ} (h : Returns next progress s s' result)
    (h₂ : Returns next progress s s₂ result₂) : s' = s₂ ∧ result = result₂ := by
  obtain ⟨n, hn⟩ := h
  obtain ⟨k, hk⟩ := h₂
  have hleft : alone next (n + k) progress s = (s', .done result) := by rw [alone_add, hn, alone_done]
  have hright : alone next (n + k) progress s = (s₂, .done result₂) := by rw [Nat.add_comm, alone_add, hk, alone_done]
  simpa using hleft.symm.trans hright

/-- **A call returns what its caller goes on to**, after the callee has returned. -/
theorem Returns.call {next' : Program σ τ' ρ'} (within : τ → τ') (after : ρ → Progress τ' ρ')
    (hcall : ∀ point s, next' (within point) s = ((next point s).1, (next point s).2.call within after))
    {progress : Progress τ ρ} {result' : ρ'} (h : Returns next progress s s₁ result)
    (hafter : Returns next' (after result) s₁ s' result') : Returns next' (progress.call within after) s s' result' := by
  obtain ⟨n, hn⟩ := h
  induction n generalizing progress s with
  | zero =>
    obtain ⟨rfl, rfl⟩ : s = s₁ ∧ progress = .done result := by simpa [alone] using hn
    exact hafter
  | succ n ih =>
    cases progress with
    | going point => exact .step (hcall point s) (ih hn)
    | done r =>
      obtain ⟨rfl, rfl⟩ : s = s₁ ∧ r = result := by simpa [alone] using hn
      exact hafter

end Alone

end Lib
