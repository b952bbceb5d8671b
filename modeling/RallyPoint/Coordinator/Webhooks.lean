import RallyPoint.Coordinator.Tasks

/-!
# `Coordinator.Webhooks` — the dispatch queues of a session

A session's state has a bounded queue of webhooks. An ordinary notice is sent only while the queue has
room beyond its last slot; the `sessionClosed` job of a session that is over takes that slot. The state
is removed from the map under the session lock, and the job is pushed after that lock is given up: a
notice that comes between the two finds no state, and makes another one, with another queue.

`Dispatch` is a coordinator together with the queues of all the states one session has had. Any piece of
any task of the coordinator may run between two steps of the queues; the queues follow the session's
state in the lifecycle. `terminal_webhook_is_last` is the guarantee: nothing waits, and nothing comes
after the terminal job.
-/

namespace RallyPoint.Coordinator

open Lib List

/-- The ordinary notices. -/
inductive NoticeKind where
  | departure
  | desync
  | result
  | slotConnected
  | sessionStarted
  | slotStarted
  | lobbyViolation
deriving DecidableEq

inductive WebhookKind where
  | notice (kind : NoticeKind)
  | sessionClosed
deriving DecidableEq

structure WebhookJob where
  kind : WebhookKind
  body : List UInt8
deriving DecidableEq

def WebhookJob.isOrdinary (job : WebhookJob) : Bool := job.kind ≠ .sessionClosed

/-- The queue of one session state, and what was done with it. -/
structure DispatchQueue where
  /-- Every job the channel accepted, in order. -/
  accepted : List WebhookJob := []
  /-- How many of them the drain task has received. -/
  received : Nat := 0
  /-- How often `close_and_retire` was called with the state. -/
  closes : Nat := 0
  /-- How many of these calls have not come to their push. -/
  pushing : Nat := 0
  /-- The bodies that `push_terminal` was called with. -/
  pushed : List (List UInt8) := []
  /-- The terminal jobs that found the queue full, and wait for capacity. -/
  waiting : List WebhookJob := []

namespace DispatchQueue

variable (bound : Nat) (q : DispatchQueue)

def capacity : Nat := bound - (q.accepted.length - q.received)

/-- `Sender::try_send`. The receiver lives as long as a sender does. -/
def trySend (job : WebhookJob) : Option DispatchQueue :=
  if 0 < q.capacity bound then some { q with accepted := q.accepted ++ [job] } else none

/-- The drain task takes a job. -/
def recv : DispatchQueue := if q.received < q.accepted.length then { q with received := q.received + 1 } else q

/-- The state is handed to `close_and_retire`. -/
def close : DispatchQueue := { q with closes := q.closes + 1, pushing := q.pushing + 1 }

def pushTerminal (body : List UInt8) : DispatchQueue :=
  let job := ⟨.sessionClosed, body⟩
  let q := { q with pushed := q.pushed ++ [body] }
  (q.trySend bound job).getD { q with waiting := q.waiting ++ [job] }

/-- The push of `close_and_retire`; `session_closed_dispatch` gives no body to a tenant without notify
    config. -/
def closeAndRetire (body : Option (List UInt8)) : DispatchQueue :=
  if q.pushing = 0 then q
  else
    let q := { q with pushing := q.pushing - 1 }
    body.elim q (q.pushTerminal bound)

/-- A job that waits is sent. -/
def sendWaiting : DispatchQueue :=
  match q.waiting with
  | [] => q
  | job :: rest => ({ q with waiting := rest }.trySend bound job).getD q

end DispatchQueue

/-- The tasks that call `close_and_retire`. The reap of a webhook-only state drops it without. -/
def CoordinatorTask.closes : CoordinatorTask → Bool
  | onSessionClosed .. | fireNeverStarted _ | fireEmptySession .. | retireUnevidenced .. => true
  | _ => false

/-- A coordinator, and the queues of one session. -/
structure Dispatch (δ : Type) where
  coordinator : CoordinatorState δ
  /-- How many states the session has had; the queue of each has its number. -/
  made : Nat
  queues : Nat → DispatchQueue
  /-- The queue of the state in the map. -/
  current : Option Nat
  /-- The push that found room, and has the session lock until it has sent. -/
  sending : Option (Nat × WebhookJob)
  /-- `DROPPED_NOTICE_COUNT`. -/
  dropped : Nat

inductive DispatchOp where
  /-- A piece of any task. -/
  | task (task : CoordinatorTask)
  | enqueueWebhook (kind : NoticeKind) (body : List UInt8)
  | send
  | closeAndRetire (i : Nat) (body : Option (List UInt8))
  | sendWaiting (i : Nat)
  | recv (i : Nat)

namespace Dispatch

variable {δ : Type} [DecidableEq δ] (sha256 : Sha256) (tokenHash : String → δ) (bound : Nat) (key : SessionKey)
  (d : Dispatch δ)

/-- A coordinator whose state for the session, if it has one, was just made. -/
def new (s : CoordinatorState δ) : Dispatch δ where
  coordinator := s
  made := 1
  queues _ := {}
  current := (s.lifecycle.sessions key).map fun _ => 0
  sending := none
  dropped := 0

def update (d : Dispatch δ) (i : Nat) (f : DispatchQueue → DispatchQueue) : Dispatch δ :=
  { d with queues := Function.update d.queues i (f (d.queues i)) }

/-- The queue follows the session's state. Whoever removes it waits for a push that has the lock. -/
def follow (closes : Bool) (s : CoordinatorState δ) : Dispatch δ :=
  match d.current, (s.lifecycle.sessions key).isSome with
  | none, true => { d with coordinator := s, current := some d.made, made := d.made + 1 }
  | some i, false =>
    if d.sending.isSome then d
    else { d.update i (if closes then .close else id) with coordinator := s, current := none }
  | none, false =>
    -- an assigned session without a state is retired with a state made for it
    if closes && !(d.coordinator.setup.servingRelays key).isEmpty && (s.setup.servingRelays key).isEmpty then
      { d.update d.made .close with coordinator := s, made := d.made + 1 }
    else { d with coordinator := s }
  | some _, true => { d with coordinator := s }

/-- `push_ordinary`, up to its send: the last slot is not for an ordinary notice. -/
def pushOrdinary (job : WebhookJob) : Dispatch δ :=
  match d.current with
  | none => d
  | some i =>
    if (d.queues i).capacity bound ≤ 1 then { d with dropped := d.dropped + 1 } else { d with sending := some (i, job) }

/-- `enqueue_webhook`. A state is made if there is none. -/
def enqueueWebhook (kind : NoticeKind) (body : List UInt8) : Dispatch δ :=
  if d.sending.isSome then d
  else
    (d.follow key false
      { d.coordinator with lifecycle := d.coordinator.lifecycle.ensureOrphanTracked key }).pushOrdinary bound
      ⟨.notice kind, body⟩

/-- The send of `push_ordinary`. -/
def send : Dispatch δ :=
  match d.sending with
  | none => d
  | some (i, job) => { d.update i fun q => (q.trySend bound job).getD q with sending := none }

def step : DispatchOp → Dispatch δ
  | .task t => d.follow key t.closes (t.next sha256 tokenHash d.coordinator).1
  | .enqueueWebhook kind body => d.enqueueWebhook bound key kind body
  | .send => d.send bound
  | .closeAndRetire i body => d.update i (·.closeAndRetire bound body)
  | .sendWaiting i => d.update i (·.sendWaiting bound)
  | .recv i => d.update i .recv

end Dispatch

/-! ## The queue of one state -/

namespace DispatchQueue

variable {bound : Nat} {q : DispatchQueue}

/-- **What holds of every queue**: a slot is free until the terminal job has been pushed. -/
structure Sound (bound : Nat) (q : DispatchQueue) : Prop where
  closes : q.closes ≤ 1
  pushed : q.pushing + q.pushed.length ≤ q.closes
  waiting : q.waiting = []
  order : q.accepted = q.accepted.filter (·.isOrdinary) ++ q.pushed.map (⟨.sessionClosed, ·⟩)
  room : q.pushed = [] → 0 < q.capacity bound

theorem Sound.empty (hbound : 1 ≤ bound) : Sound bound {} := ⟨by simp, by simp, rfl, rfl, fun _ => hbound⟩

section Sound

variable (h : q.Sound bound)
include h

theorem Sound.recv : q.recv.Sound bound ∧ q.recv.closes = q.closes ∧ q.capacity bound ≤ q.recv.capacity bound := by
  unfold DispatchQueue.recv
  split
  · have hcapacity : q.capacity bound ≤ capacity bound { q with received := q.received + 1 } := by
      simp only [capacity]
      omega
    exact ⟨⟨h.closes, h.pushed, h.waiting, h.order, fun hp => Nat.lt_of_lt_of_le (h.room hp) hcapacity⟩, rfl, hcapacity⟩
  · exact ⟨h, rfl, Nat.le_refl _⟩

theorem Sound.close (hopen : q.closes = 0) : q.close.Sound bound := by
  have hpushed := h.pushed
  refine ⟨?_, ?_, h.waiting, h.order, h.room⟩ <;> simp only [DispatchQueue.close] <;> omega

/-- Nothing waits. -/
theorem Sound.sendWaiting : q.sendWaiting bound = q := by simp [DispatchQueue.sendWaiting, h.waiting]

/-- A state that is not closed has no terminal job to push. -/
theorem Sound.closeAndRetire_open (hopen : q.closes = 0) (body : Option (List UInt8)) :
    q.closeAndRetire bound body = q := by
  have hcount := h.pushed
  rw [DispatchQueue.closeAndRetire, if_pos (by omega)]

/-- Before the terminal job is pushed, the jobs are ordinary ones. -/
theorem Sound.ordinary (hnone : q.pushed = []) : q.accepted.filter (·.isOrdinary) = q.accepted := by
  have horder := h.order
  rw [hnone, map_nil, append_nil] at horder
  exact horder.symm

/-- The push of the terminal job finds a free slot. -/
theorem Sound.closeAndRetire (body : Option (List UInt8)) : (q.closeAndRetire bound body).Sound bound := by
  unfold DispatchQueue.closeAndRetire
  split
  · exact h
  rename_i hpushing
  have hcloses := h.closes
  have hcount := h.pushed
  cases body with
  | none => exact ⟨hcloses, by simp only [Option.elim]; omega, h.waiting, h.order, h.room⟩
  | some body =>
    have hnone : q.pushed = [] := eq_nil_of_length_eq_zero (by omega)
    have hroom : 0 < bound - (q.accepted.length - q.received) := h.room hnone
    simp only [Option.elim, pushTerminal, trySend, capacity, if_pos hroom, Option.getD_some, hnone]
    refine ⟨hcloses, ?_, h.waiting, ?_, by simp⟩
    · simp only [nil_append, length_singleton]
      omega
    · rw [filter_append, h.ordinary hnone]
      rw [append_assoc]
      rfl

/-- An ordinary notice leaves the last slot. -/
theorem Sound.send {job : WebhookJob} (hordinary : job.isOrdinary = true) (hopen : q.closes = 0)
    (hroom : 1 < q.capacity bound) : ((q.trySend bound job).getD q).Sound bound := by
  have hcount := h.pushed
  have hnone : q.pushed = [] := eq_nil_of_length_eq_zero (by omega)
  simp only [trySend, if_pos (Nat.zero_lt_of_lt hroom), Option.getD_some]
  refine ⟨h.closes, hcount, h.waiting, ?_, fun _ => ?_⟩
  · rw [filter_append, h.ordinary hnone, hnone]
    simp [hordinary]
  · simp only [capacity, length_append, length_singleton] at hroom ⊢
    omega

end Sound

end DispatchQueue

/-! ## Runs -/

namespace Dispatch

section Keeps

variable {δ : Type} {bound : Nat} {key : SessionKey} {d : Dispatch δ}

theorem queues_update (i : Nat) (f : DispatchQueue → DispatchQueue) (j : Nat) :
    (d.update i f).queues j = if j = i then f (d.queues i) else d.queues j :=
  Function.update_apply _ _ _ _

/-- **The state in the map has not been closed**, and the push that has the lock leaves a slot. -/
structure Sound (bound : Nat) (key : SessionKey) (d : Dispatch δ) : Prop where
  queues : ∀ i, (d.queues i).Sound bound
  fresh : ∀ i, d.made ≤ i → (d.queues i).closes = 0
  current : ∀ i, d.current = some i → i < d.made ∧ (d.queues i).closes = 0
  follows : d.current.isSome = (d.coordinator.lifecycle.sessions key).isSome
  sending : ∀ i job, d.sending = some (i, job) → d.current = some i ∧ job.isOrdinary = true ∧ 1 < (d.queues i).capacity bound

theorem Sound.new (hbound : 1 ≤ bound) (s : CoordinatorState δ) : Sound bound key (new key s) := by
  refine ⟨fun _ => .empty hbound, fun _ _ => rfl, fun i hi => ?_, by simp [Dispatch.new], nofun⟩
  obtain ⟨-, -, rfl⟩ : ∃ st, s.lifecycle.sessions key = some st ∧ 0 = i := by simpa [Dispatch.new] using hi
  exact ⟨Nat.one_pos, rfl⟩

section Sound

variable (h : Sound bound key d)
include h

/-- A step of one queue: a state that is not closed stays so, and a push keeps its slots. -/
theorem Sound.update {i : Nat} {f : DispatchQueue → DispatchQueue} (hsound : (f (d.queues i)).Sound bound)
    (hopen : (d.queues i).closes = 0 → (f (d.queues i)).closes = 0 ∧
      (d.sending = none ∨ (d.queues i).capacity bound ≤
        (f (d.queues i)).capacity bound)) : Sound bound key (d.update i f) := by
  have hstill : ∀ j, (d.queues j).closes = 0 → ((d.update i f).queues j).closes = 0 := by
    intro j hj
    rw [queues_update]
    split
    · rename_i hi
      exact (hopen (hi ▸ hj)).1
    · exact hj
  refine ⟨fun j => ?_, fun j hj => hstill j (h.fresh j hj),
    fun j hj => ⟨(h.current j hj).1, hstill j (h.current j hj).2⟩, h.follows,
    fun j job hj => ?_⟩
  · rw [queues_update]
    split
    · exact hsound
    · exact h.queues j
  · obtain ⟨hcurrent, hordinary, hroom⟩ := h.sending j job hj
    refine ⟨hcurrent, hordinary, ?_⟩
    rw [queues_update]
    split
    · rename_i hi
      subst hi
      rcases (hopen (h.current j hcurrent).2).2 with hidle | hcapacity
      · exact absurd (hidle.symm.trans hj) nofun
      · exact Nat.lt_of_lt_of_le hroom hcapacity
    · exact hroom

theorem Sound.follow (closes : Bool) (s : CoordinatorState δ) : Sound bound key (d.follow key closes s) := by
  unfold Dispatch.follow
  split
  · rename_i hcurrent hstate
    refine ⟨h.queues, fun i hi => h.fresh i (Nat.le_of_succ_le hi), fun i hi => ?_, hstate.symm, fun i job hi => ?_⟩
    · cases hi
      exact ⟨Nat.lt_succ_self _, h.fresh _ (Nat.le_refl _)⟩
    · exact absurd (hcurrent.symm.trans (h.sending i job hi).1) nofun
  · rename_i i hcurrent hstate
    obtain ⟨hmade, hopen⟩ := h.current i hcurrent
    split
    · exact h
    -- nobody has the lock: the state leaves the map
    rename_i hsending
    refine ⟨fun j => ?_, fun j hj => ?_, nofun, hstate.symm, fun j job hj => absurd (congrArg Option.isSome hj) hsending⟩
    · simp only [queues_update]
      split
      · cases closes with
        | false => exact h.queues i
        | true => exact (h.queues i).close hopen
      · exact h.queues j
    · simp only [queues_update]
      rw [if_neg (Nat.ne_of_gt (Nat.lt_of_lt_of_le hmade hj))]
      exact h.fresh j hj
  · rename_i hcurrent hstate
    have hfollows : d.current.isSome = (s.lifecycle.sessions key).isSome := by rw [hcurrent, hstate]; rfl
    split
    · refine ⟨fun j => ?_, fun j hj => ?_, fun j hj => absurd (hcurrent.symm.trans hj) nofun, hfollows,
        fun j job hj => absurd (hcurrent.symm.trans (h.sending j job hj).1) nofun⟩
      · simp only [queues_update]
        split
        · exact (h.queues d.made).close (h.fresh _ (Nat.le_refl _))
        · exact h.queues j
      · simp only [queues_update]
        rw [if_neg (Nat.ne_of_gt hj)]
        exact h.fresh j (Nat.le_of_succ_le hj)
    · exact ⟨h.queues, h.fresh, h.current, hfollows, h.sending⟩
  · rename_i i hcurrent hstate
    exact ⟨h.queues, h.fresh, h.current, by rw [hcurrent, hstate]; rfl, h.sending⟩

theorem Sound.pushOrdinary {job : WebhookJob} (hordinary : job.isOrdinary = true) :
    Sound bound key (d.pushOrdinary bound job) := by
  unfold Dispatch.pushOrdinary
  split
  · exact h
  rename_i i hcurrent
  split
  · exact ⟨h.queues, h.fresh, h.current, h.follows, h.sending⟩
  · rename_i hroom
    refine ⟨h.queues, h.fresh, h.current, h.follows, fun j _ hj => ?_⟩
    cases hj
    exact ⟨hcurrent, hordinary, Nat.lt_of_not_le hroom⟩

theorem Sound.send : Sound bound key (d.send bound) := by
  unfold Dispatch.send
  split
  · exact h
  rename_i i job hsending
  obtain ⟨hcurrent, hordinary, hroom⟩ := h.sending i job hsending
  -- the lock is given up
  have hidle : Sound bound key { d with sending := none } := ⟨h.queues, h.fresh, h.current, h.follows, nofun⟩
  refine hidle.update ((h.queues i).send hordinary (h.current i hcurrent).2 hroom) fun hopen => ⟨?_, .inl rfl⟩
  simpa only [DispatchQueue.trySend, if_pos (Nat.zero_lt_of_lt hroom), Option.getD_some] using hopen

end Sound

end Keeps

variable {δ : Type} [DecidableEq δ] {sha256 : Sha256} {tokenHash : String → δ} {bound : Nat} {key : SessionKey}

/-- **Every step keeps it.** -/
theorem Sound.step {d : Dispatch δ} (h : Sound bound key d) (op : DispatchOp) :
    Sound bound key (d.step sha256 tokenHash bound key op) := by
  cases op with
  | task t => exact h.follow t.closes _
  | enqueueWebhook kind body =>
    simp only [Dispatch.step, Dispatch.enqueueWebhook]
    split
    · exact h
    · exact (h.follow false _).pushOrdinary rfl
  | send => exact h.send
  | closeAndRetire i body =>
    refine h.update (f := (·.closeAndRetire bound body)) ((h.queues i).closeAndRetire body) fun hopen => ?_
    rw [(h.queues i).closeAndRetire_open hopen]
    exact ⟨hopen, .inr (Nat.le_refl _)⟩
  | sendWaiting i =>
    have hsame := (h.queues i).sendWaiting
    refine h.update (f := (·.sendWaiting bound)) (hsame.symm ▸ h.queues i) fun hopen => ?_
    rw [hsame]
    exact ⟨hopen, .inr (Nat.le_refl _)⟩
  | recv i =>
    obtain ⟨hsound, hcloses, hcapacity⟩ := (h.queues i).recv
    exact h.update hsound fun hopen => ⟨hcloses.trans hopen, .inr hcapacity⟩

/-- **The terminal webhook is not dropped, and is the last on its queue.** Whatever runs in between:
    `close_and_retire` is called at most once with a state, its push finds a free slot, and what the
    state's queue accepted are ordinary notices, and then the terminal job if there was one to push. -/
theorem terminal_webhook_is_last (hbound : 1 ≤ bound) (s : CoordinatorState δ) (ops : List DispatchOp) (i : Nat) :
    let q := (ops.foldl (step sha256 tokenHash bound key) (new key s)).queues i
    q.closes ≤ 1 ∧ q.waiting = [] ∧ q.pushed.length ≤ q.closes ∧
    q.accepted = q.accepted.filter (·.isOrdinary) ++ q.pushed.map (⟨.sessionClosed, ·⟩) := by
  have hsound : Sound bound key (ops.foldl (step sha256 tokenHash bound key) (new key s)) :=
    foldlRecOn ops _ (.new hbound s) fun d h op _ => h.step op
  obtain ⟨hcloses, hpushed, hwaiting, horder, -⟩ := hsound.queues i
  exact ⟨hcloses, hwaiting, by omega, horder⟩

/-- A session that two notices come for, on a queue of two, and that is reaped before it started. -/
def reaped : Dispatch Unit :=
  let setup := SessionSetup.new .new (fun _ => none) 1 none none false fun _ _ => none
  let s := { CoordinatorState.new setup none ⟨[], 0, none⟩ with lifecycle := Lifecycle.new.registerSession ⟨"t", 1⟩ [7] }
  [.enqueueWebhook .slotConnected [1], .send, .enqueueWebhook .result [2], .send, .task (.fireNeverStarted ⟨"t", 1⟩),
    .enqueueWebhook .result [3], .closeAndRetire 0 (some [4]),
      .recv 0].foldl (step (fun _ => 0) (fun _ => ()) 2 ⟨"t", 1⟩) (new ⟨"t", 1⟩ s)

theorem terminal_webhook_is_last_of_two :
    (reaped.queues 0).accepted = [⟨.notice .slotConnected, [1]⟩, ⟨.sessionClosed, [4]⟩] ∧
    (reaped.queues 0).closes = 1 ∧ (reaped.queues 0).waiting = [] :=
  ⟨by decide +kernel, by decide +kernel, (terminal_webhook_is_last (by decide) _ _ 0).2.1⟩

end Dispatch

end RallyPoint.Coordinator
