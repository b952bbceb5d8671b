import Mathlib.Data.List.MinMax
import RallyPoint.Lib.OrdMap
import RallyPoint.Lib.Trace
import RallyPoint.Lib.Word

/-!
# `Coordinator.RateLimit` — the keyed token buckets

`coordinator/src/rate_limit/mod.rs`. A key whose bucket is dropped starts again with a full burst. A
pruned bucket was full, so that gives nothing away; but the cap drops the stalest bucket whatever is in
it, so keys sprayed past the cap refill a key that has just spent its burst (`spray_refills_key`). As
long as the cap spares a key until it is full (`Spares`), what the key holds pays for every call it is
admitted (`checkAt_pays`).

Amounts are exact: an instant is a number of nanoseconds, and a token is counted as the `refillInterval`
nanoseconds it takes to come. A hash map is iterated over in any order, so a call comes with its own
(`Call.iter`), which settles what goes first of equally stale buckets.
-/

namespace RallyPoint.Coordinator

open Lib OrdMap List

/-- A token bucket for one key. -/
structure Bucket where
  /-- The tokens, in nanoseconds of refill. -/
  tokens : Nat
  lastRefill : Nat

/-- A call of `check_at`: of a key, at an instant, with the order in which it iterates over the map. -/
structure Call (κ : Type) [LinearOrder κ] where
  key : κ
  now : Nat
  iter : OrdMap κ Bucket → List (κ × Bucket)
  iter_perm : ∀ buckets, (iter buckets).Perm buckets.entries

/-- The limits of a rate limiter. Its buckets stand behind their lock. -/
structure KeyedTokenBuckets where
  burst : U32
  refillInterval : Nat
  bucketCap : Nat

namespace KeyedTokenBuckets

variable {κ : Type} [LinearOrder κ] (l : KeyedTokenBuckets) (buckets : OrdMap κ Bucket)

def new (burst : U32) (refillInterval bucketCap : Nat) : KeyedTokenBuckets := ⟨burst, refillInterval, max bucketCap 1⟩

/-- A full bucket. -/
def full : Nat := l.burst * l.refillInterval

/-- What is in a bucket by `now`. -/
def accrued (now : Nat) (b : Bucket) : Nat := min (b.tokens + (now - b.lastRefill)) l.full

/-- The idle buckets go. -/
def prune (now : Nat) : OrdMap κ Bucket :=
  buckets.filter fun _ b => now - b.lastRefill < l.refillInterval * saturatingAdd u32Max l.burst 1

/-- The key of the bucket that was refilled longest ago, the first there is. -/
def stalest (buckets : List (κ × Bucket)) : Option κ := (buckets.argmin fun e => e.2.lastRefill).map Prod.fst

/-- The loop that makes room under the cap; a turn drops one bucket, so `size` turns are enough. -/
def evict (l : KeyedTokenBuckets) (iter : OrdMap κ Bucket → List (κ × Bucket)) : Nat → OrdMap κ Bucket → OrdMap κ Bucket
  | 0, buckets => buckets
  | turns + 1, buckets =>
    if buckets.size < l.bucketCap then buckets
    else match stalest (iter buckets) with
      | none => buckets
      | some key => l.evict iter turns (buckets.erase key)

/-- The buckets that a check leaves in place. -/
def makeRoom (call : Call κ) : OrdMap κ Bucket :=
  let buckets := l.prune buckets call.now
  if (buckets.get? call.key).isSome then buckets else l.evict call.iter buckets.size buckets

def checkAt (call : Call κ) : OrdMap κ Bucket × Bool :=
  let room := l.makeRoom buckets call
  let tokens := l.accrued call.now ((room.get? call.key).getD ⟨l.full, call.now⟩)
  if l.refillInterval ≤ tokens then (room.insert call.key ⟨tokens - l.refillInterval, call.now⟩, true)
  else (room.insert call.key ⟨tokens, call.now⟩, false)

/-- How many of the calls are admitted for a key. -/
def admitted (key : κ) (buckets : OrdMap κ Bucket) (calls : List (Call κ)) : Nat :=
  (Trace.run l.checkAt buckets calls).2.countP fun e => e.1.key = key ∧ e.2 = true

/-! ## What a key holds -/

/-- What a check of the key at `now` would find. -/
def level (key : κ) (now : Nat) : Nat :=
  ((buckets.get? key).map (l.accrued now)).getD l.full

/-- The cap does not drop the bucket of `key` before it is full. -/
def Spares (key : κ) (buckets : OrdMap κ Bucket) (call : Call κ) : Prop :=
  ∀ b, (l.prune buckets call.now).get? key = some b → (l.makeRoom buckets call).get? key = none →
    l.accrued call.now b = l.full

variable {l buckets} {key : κ} {b : Bucket} {now : Nat} {call : Call κ}

theorem level_le_full : l.level buckets key now ≤ l.full := by
  unfold level
  cases buckets.get? key with
  | none => exact le_rfl
  | some b => exact min_le_right _ _

/-- **Time brings what it brings.** -/
theorem level_later {later : Nat} (h : now ≤ later) :
    l.level buckets key later ≤ l.level buckets key now + (later - now) := by
  unfold level
  cases buckets.get? key with
  | none => exact Nat.le_add_right _ _
  | some b =>
    show min (b.tokens + (later - b.lastRefill)) l.full ≤ min (b.tokens + (now - b.lastRefill)) l.full + (later - now)
    omega

/-- A bucket that is pruned is full. -/
theorem full_of_idle (h : l.refillInterval * saturatingAdd u32Max l.burst 1 ≤ now - b.lastRefill) :
    l.accrued now b = l.full := by
  have hburst : (l.burst : Nat) ≤ saturatingAdd u32Max l.burst 1 :=
    le_min (Nat.le_succ _) (Nat.le_sub_one_of_lt l.burst.isLt)
  have hfull : l.full ≤ l.refillInterval * saturatingAdd u32Max l.burst 1 := by
    rw [full, mul_comm]
    exact Nat.mul_le_mul_left _ hburst
  exact min_eq_right (hfull.trans (h.trans (Nat.le_add_left _ _)))

theorem get?_of_evict {turns : Nat} (h : (l.evict call.iter turns buckets).get? key = some b) :
    buckets.get? key = some b := by
  induction turns generalizing buckets with
  | zero => exact h
  | succ turns ih =>
    unfold evict at h
    split at h
    · exact h
    · split at h
      · exact h
      · exact (get?_erase_eq_some.mp (ih h)).2

theorem get?_of_makeRoom (h : (l.makeRoom buckets call).get? key = some b) :
    (l.prune buckets call.now).get? key = some b := by
  unfold makeRoom at h
  dsimp only at h
  split at h
  · exact h
  · exact get?_of_evict h

/-- **Making room takes nothing from a key and gives it nothing**, if the cap spares it. -/
theorem level_makeRoom (h : l.Spares key buckets call) :
    l.level (l.makeRoom buckets call) key call.now = l.level buckets key call.now := by
  unfold level
  cases hroom : (l.makeRoom buckets call).get? key with
  | some b => rw [(get?_filter_eq_some.mp (get?_of_makeRoom hroom)).1]
  | none =>
    cases hget : buckets.get? key with
    | none => rfl
    | some b =>
      by_cases hidle : call.now - b.lastRefill < l.refillInterval * saturatingAdd u32Max l.burst 1
      · exact (h b (get?_filter_eq_some.mpr ⟨hget, decide_eq_true hidle⟩) hroom).symm
      · exact (full_of_idle (not_lt.mp hidle)).symm

/-- **An admitted call is paid for with a token of its key**, and no call brings any. -/
theorem checkAt_pays (h : l.Spares key buckets call) :
    l.level (l.checkAt buckets call).1 key call.now +
      (if call.key = key ∧ (l.checkAt buckets call).2 = true then l.refillInterval else 0) ≤
        l.level buckets key call.now := by
  rw [← level_makeRoom h]
  unfold checkAt
  dsimp only
  generalize l.makeRoom buckets call = room
  have hput : ∀ tokens, l.level (room.insert call.key ⟨tokens, call.now⟩) key call.now =
      if key = call.key then min (tokens + (call.now - call.now)) l.full else l.level room key call.now := by
    intro tokens
    unfold level
    rw [get?_insert]
    split <;> rfl
  by_cases hkey : key = call.key
  · subst hkey
    have hfound : l.accrued call.now ((room.get? call.key).getD ⟨l.full, call.now⟩) ≤ l.level room call.key call.now := by
      unfold level
      cases room.get? call.key with
      | none => exact min_le_right _ _
      | some b => exact le_rfl
    split <;> rw [hput, if_pos rfl] <;> simp only [true_and, if_true, Bool.false_eq_true, if_false] <;> omega
  · have hother : ∀ admitted : Bool, ¬ (call.key = key ∧ admitted = true) := fun _ hboth => hkey hboth.1.symm
    split <;> rw [hput, if_neg hkey, if_neg (hother _)] <;> exact le_rfl

/-- What the key holds and what time brings pay for the run. -/
theorem admitted_le {calls : List (Call κ)} (hspares : Trace.Obeys l.checkAt (l.Spares key) buckets calls)
    (hsorted : calls.Pairwise (·.now ≤ ·.now)) {start stop : Nat}
    (hwindow : ∀ call ∈ calls, start ≤ call.now ∧ call.now ≤ stop) :
    l.admitted key buckets calls * l.refillInterval ≤ l.level buckets key start + (stop - start) := by
  induction calls generalizing buckets start with
  | nil =>
    rw [show l.admitted key buckets [] = 0 from rfl, Nat.zero_mul]
    exact Nat.zero_le _
  | cons call calls ih =>
    obtain ⟨hstart, hstop⟩ := hwindow call mem_cons_self
    obtain ⟨hcall, hcalls⟩ := pairwise_cons.mp hsorted
    have hrest := ih hspares.2 hcalls fun c hc => ⟨hcall c hc, (hwindow c (mem_cons_of_mem _ hc)).2⟩
    have hpays := checkAt_pays hspares.1
    have hlater : l.level buckets key call.now ≤ l.level buckets key start + (call.now - start) := level_later hstart
    have hcount : l.admitted key buckets (call :: calls) * l.refillInterval =
        l.admitted key (l.checkAt buckets call).1 calls * l.refillInterval +
          if call.key = key ∧ (l.checkAt buckets call).2 = true then l.refillInterval else 0 := by
      unfold admitted
      rw [Trace.run_cons, countP_cons, Nat.add_mul, ite_mul, Nat.one_mul, Nat.zero_mul]
      simp only [decide_eq_true_eq]
    rw [hcount]
    omega

/-- **No key is admitted more than its burst and what the time brings**, in any window of any sequence of
    calls in which the cap spares the key until it is full. -/
theorem admitted_within_rate (burst : U32) (refillInterval bucketCap : Nat) (hr : 0 < refillInterval) (key : κ)
    (before window : List (Call κ)) (hsorted : (before ++ window).Pairwise (·.now ≤ ·.now)) (start length : Nat)
    (hwindow : ∀ call ∈ window, start ≤ call.now ∧ call.now ≤ start + length) :
    let l := new burst refillInterval bucketCap
    let found := (Trace.run l.checkAt .empty before).1
    Trace.Obeys l.checkAt (l.Spares key) found window → l.admitted key found window ≤ burst + length / refillInterval := by
  intro l found hspares
  have hle := admitted_le hspares (pairwise_append.mp hsorted).2.1 hwindow
  have hfull : l.level found key start ≤ burst * refillInterval := level_le_full
  rw [Nat.add_sub_cancel_left] at hle
  rw [Nat.add_comm, ← Nat.add_mul_div_right _ _ hr, Nat.le_div_iff_mul_le hr, Nat.add_comm]
  exact hle.trans (Nat.add_le_add_right hfull length)

/-- The calls of the keys, each at its index in the list, with the map iterated over in the order of its
    keys. -/
def inTurn (keys : List Nat) : List (Call Nat) := keys.zipIdx.map fun e => ⟨e.1, e.2, entries, fun _ => .refl _⟩

/-- Two keys under a cap of two: key 0 asks again before its token is back. -/
theorem admitted_within_rate_two_keys :
    (new 1 10 2).admitted 0 (Trace.run (new 1 10 2).checkAt .empty []).1 (inTurn [0, 1, 0]) ≤ 1 + 2 / 10 := by
  refine admitted_within_rate 1 10 2 (by decide) 0 [] (inTurn [0, 1, 0]) (by decide) 0 2 (by decide) ⟨?_, ?_, ?_, trivial⟩
  · intro b hb
    cases hb
  · intro b _ hnone
    cases hnone
  · intro b _ hnone
    cases hnone

/-- Under a cap of one, a call for key 1 drops the empty bucket of key 0, which is admitted again two
    nanoseconds after it spent its only token, with eight to go. -/
theorem spray_refills_key :
    1 + 2 / 10 < (new 1 10 1).admitted 0 (Trace.run (new 1 10 1).checkAt .empty []).1 (inTurn [0, 1, 0]) := by
  decide

end KeyedTokenBuckets

end RallyPoint.Coordinator
