import Mathlib.Logic.Basic

/-! Versions of a state. Some actions of a system outdate what was read from it before; the others leave it
    readable as it was. Over a run, what was read is still good exactly when no action outdated it. -/

/-- How the actions of a system relate to one thing that is read from its state: `Outdates` says which
    actions outdate it, `Same` that it still reads the same, and `Past` that it can never be read so again. -/
structure Version {σ ι : Type} (step : σ → ι → σ) where
  Invariant : σ → Prop
  Outdates : σ → ι → Prop
  Same : σ → σ → Prop
  Past : σ → σ → Prop
  invariant_step : ∀ {s}, Invariant s → ∀ i, Invariant (step s i)
  same_refl : ∀ s, Same s s
  same_trans : ∀ {s t u}, Same s t → Same t u → Same s u
  past_trans : ∀ {s t u}, Past s t → Past t u → Past s u
  past_of_same : ∀ {s t u}, Same s t → Past t u → Past s u
  past_same : ∀ {s t u}, Past s t → Same t u → Past s u
  same_step : ∀ {s i}, Invariant s → ¬Outdates s i → Same s (step s i)
  past_step : ∀ {s i}, Invariant s → Outdates s i → Past s (step s i)

namespace Version
variable {σ ι : Type} {step : σ → ι → σ} (V : Version step)

/-- No action of the run outdates what was read at its start. -/
def Current : σ → List ι → Prop
  | _, [] => True
  | s, i :: rest => ¬V.Outdates s i ∧ Current (step s i) rest

theorem same_run {s : σ} {actions : List ι} (hs : V.Invariant s) (h : V.Current s actions) :
    V.Same s (actions.foldl step s) := by
  induction actions generalizing s with
  | nil => exact V.same_refl s
  | cons i rest ih => exact V.same_trans (V.same_step hs h.1) (ih (V.invariant_step hs i) h.2)

theorem same_or_past {s : σ} (actions : List ι) (hs : V.Invariant s) :
    V.Same s (actions.foldl step s) ∨ V.Past s (actions.foldl step s) := by
  induction actions generalizing s with
  | nil => exact Or.inl (V.same_refl s)
  | cons i rest ih =>
    have hrest := ih (V.invariant_step hs i)
    by_cases hi : V.Outdates s i
    · exact Or.inr (hrest.elim (V.past_same (V.past_step hs hi)) (V.past_trans (V.past_step hs hi)))
    · exact hrest.imp (V.same_trans (V.same_step hs hi)) (V.past_of_same (V.same_step hs hi))

theorem past_run {s : σ} {actions : List ι} (hs : V.Invariant s) (h : ¬V.Current s actions) :
    V.Past s (actions.foldl step s) := by
  induction actions generalizing s with
  | nil => exact absurd trivial h
  | cons i rest ih =>
    have hnext := V.invariant_step hs i
    by_cases hi : V.Outdates s i
    · exact (V.same_or_past rest hnext).elim (V.past_same (V.past_step hs hi)) (V.past_trans (V.past_step hs hi))
    · exact V.past_of_same (V.same_step hs hi) (ih hnext fun hrest => h ⟨hi, hrest⟩)

/-- Once an action has outdated what was read, no further action brings it back. -/
theorem past_cons {s : σ} {i : ι} (rest : List ι) (hs : V.Invariant s) (hi : V.Outdates s i) :
    V.Past s ((i :: rest).foldl step s) :=
  V.past_run hs fun h => h.1 hi

end Version
