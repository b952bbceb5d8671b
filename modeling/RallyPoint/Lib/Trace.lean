import Mathlib.Data.List.Basic

/-!
# `Lib.Trace` — runs of a deterministic machine, with their log

A machine is a step function from a state and an input to the next state and an output. `Trace.run` feeds
it a list of inputs and keeps the **log**: every input with the output it got, in order. A property of
whole runs is a property of the final state and the log, and follows from one step by
`Trace.run_invariant`.

A step may itself be made of smaller ones. `Trace.Steps` is a sequence of steps of a relation, with the
events they emit in order, and `Trace.Steps.keeps` the rule for what each of them keeps.
-/

namespace Lib.Trace

open List

universe u v w

variable {σ : Type u} {ι : Type v} {ο : Type w}

/-- The state and log after the inputs `is`, from `s` with the log `log`. -/
def runFrom (step : σ → ι → σ × ο) (s : σ) (log : List (ι × ο)) : List ι → σ × List (ι × ο)
  | [] => (s, log)
  | i :: is => runFrom step (step s i).1 (log ++ [(i, (step s i).2)]) is

/-- The state and log after the inputs `is`, from `s` with an empty log. -/
def run (step : σ → ι → σ × ο) (s : σ) (is : List ι) : σ × List (ι × ο) := runFrom step s [] is

variable {step : σ → ι → σ × ο}

variable {I : σ → List (ι × ο) → Prop} {is : List ι}

/-- **What every step keeps holds after every run.** The step hypothesis may use that the input is one of
    the run's own. -/
theorem runFrom_invariant {s : σ} {log : List (ι × ο)} (h0 : I s log)
    (hstep : ∀ s log, ∀ i ∈ is, I s log → I (step s i).1 (log ++ [(i, (step s i).2)])) :
    I (runFrom step s log is).1 (runFrom step s log is).2 := by
  induction is generalizing s log with
  | nil => exact h0
  | cons i is ih =>
    apply ih
    · exact hstep s log i mem_cons_self h0
    · intro s log j hj
      exact hstep s log j (mem_cons_of_mem i hj)

theorem run_invariant {s : σ} (is : List ι) (h0 : I s [])
    (hstep : ∀ s log, ∀ i ∈ is, I s log → I (step s i).1 (log ++ [(i, (step s i).2)])) :
    I (run step s is).1 (run step s is).2 :=
  runFrom_invariant h0 hstep

/-- The log so far only goes in front. -/
theorem runFrom_eq (s : σ) (log : List (ι × ο)) (is : List ι) :
    runFrom step s log is = ((run step s is).1, log ++ (run step s is).2) := by
  unfold run
  induction is generalizing s log with
  | nil => simp [runFrom]
  | cons i is ih =>
    simp only [runFrom]
    rw [ih, ih _ ([] ++ _)]
    simp

theorem run_cons (s : σ) (i : ι) (is : List ι) :
    run step s (i :: is) = ((run step (step s i).1 is).1, (i, (step s i).2) :: (run step (step s i).1 is).2) := by
  rw [run, runFrom, runFrom_eq]
  rfl

theorem run_append (s : σ) (is js : List ι) :
    run step s (is ++ js) = ((run step (run step s is).1 js).1, (run step s is).2 ++ (run step (run step s is).1 js).2) := by
  induction is generalizing s with
  | nil => rfl
  | cons i is ih => rw [cons_append, run_cons, ih, run_cons, cons_append]

/-- Every input of the run meets the condition `ok`, in the state it finds. -/
def Obeys (step : σ → ι → σ × ο) (ok : σ → ι → Prop) : σ → List ι → Prop
  | _, [] => True
  | s, i :: is => ok s i ∧ Obeys step ok (step s i).1 is

/-- **What every step that meets the condition keeps holds after a run that meets it.** -/
theorem run_invariant_of_obeys {ok : σ → ι → Prop} {I : σ → Prop} {s : σ} (h0 : I s)
    (hstep : ∀ s i, I s → ok s i → I (step s i).1) (hobeys : Obeys step ok s is) : I (run step s is).1 := by
  induction is generalizing s with
  | nil => exact h0
  | cons i is ih =>
    rw [run_cons]
    exact ih (hstep s i h0 hobeys.1) hobeys.2

/-! ## Sequences of labelled steps -/

/-- Steps of `R` in a row; the label of each is the events it emits. -/
inductive Steps (R : σ → List ο → σ → Prop) : σ → List ο → σ → Prop where
  | refl (s : σ) : Steps R s [] s
  | head {s s' s'' : σ} {e es : List ο} (h : R s e s') (hs : Steps R s' es s'') : Steps R s (e ++ es) s''

namespace Steps

variable {R : σ → List ο → σ → Prop} {s s' s'' : σ} {e es : List ο}

theorem single (h : R s e s') : Steps R s e s' := by
  have hs := head h (refl s')
  rwa [append_nil] at hs

theorem trans (h₁ : Steps R s e s') (h₂ : Steps R s' es s'') : Steps R s (e ++ es) s'' := by
  induction h₁ with
  | refl => exact h₂
  | head h _ ih =>
    rw [append_assoc]
    exact head h (ih h₂)

/-- A step that emits nothing, then the rest. -/
theorem silent (h : R s [] s') (hs : Steps R s' es s'') : Steps R s es s'' := head h hs

/-- **What each step keeps, the sequence keeps**, together with the events so far. -/
theorem keeps {I : σ → List ο → Prop} (hstep : ∀ s log e s', R s e s' → I s log → I s' (log ++ e))
    (h : Steps R s es s') (log : List ο) (h0 : I s log) : I s' (log ++ es) := by
  induction h generalizing log with
  | refl => rwa [append_nil]
  | head h _ ih =>
    rw [← append_assoc]
    exact ih _ (hstep _ _ _ _ h h0)

end Steps

end Lib.Trace
