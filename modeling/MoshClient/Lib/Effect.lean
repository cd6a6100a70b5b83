import Mathlib.Logic.Basic

/-! Fallible methods on mutable state, as `EStateM ε σ`: a method returns a value or an error, and in
    both cases leaves a state. `wp` is the weakest precondition of a method for a postcondition of its
    value and one of its error, `zoom` runs a method on a part of a larger state, and `runAll` runs one
    call after another and stops at the first error. -/

namespace Effect

variable {ε ε' σ τ ι α β : Type}

/-- From `s` the method returns a value and a state with `Q`, or an error and a state with `E`. -/
def wp (m : EStateM ε σ α) (Q : α → σ → Prop) (E : ε → σ → Prop) (s : σ) : Prop :=
  match m s with
  | .ok a t => Q a t
  | .error e t => E e t

theorem wp_of_ok {m : EStateM ε σ α} {Q : α → σ → Prop} {E : ε → σ → Prop} {s t : σ} {a : α}
    (h : m s = .ok a t) : wp m Q E s ↔ Q a t := by
  simp only [wp, h]

theorem wp_of_error {m : EStateM ε σ α} {Q : α → σ → Prop} {E : ε → σ → Prop} {s t : σ} {e : ε}
    (h : m s = .error e t) : wp m Q E s ↔ E e t := by
  simp only [wp, h]

theorem wp.ok {m : EStateM ε σ α} {Q : α → σ → Prop} {E : ε → σ → Prop} {s t : σ} {a : α}
    (hw : wp m Q E s) (h : m s = .ok a t) : Q a t := (wp_of_ok h).mp hw

theorem wp.error {m : EStateM ε σ α} {Q : α → σ → Prop} {E : ε → σ → Prop} {s t : σ} {e : ε}
    (hw : wp m Q E s) (h : m s = .error e t) : E e t := (wp_of_error h).mp hw

theorem wp_intro {m : EStateM ε σ α} {Q : α → σ → Prop} {E : ε → σ → Prop} {s : σ}
    (hQ : ∀ a t, m s = .ok a t → Q a t) (hE : ∀ e t, m s = .error e t → E e t) : wp m Q E s := by
  unfold wp
  split
  · exact hQ _ _ ‹_›
  · exact hE _ _ ‹_›

/-- The rule of consequence. -/
theorem wp.mono {m : EStateM ε σ α} {Q Q' : α → σ → Prop} {E E' : ε → σ → Prop} {s : σ} (hw : wp m Q E s)
    (hQ : ∀ a t, Q a t → Q' a t) (hE : ∀ e t, E e t → E' e t) : wp m Q' E' s :=
  wp_intro (fun a t h => hQ a t (hw.ok h)) (fun e t h => hE e t (hw.error h))

theorem wp.and {m : EStateM ε σ α} {Q Q' : α → σ → Prop} {E E' : ε → σ → Prop} {s : σ} (hw : wp m Q E s)
    (hw' : wp m Q' E' s) : wp m (fun a t => Q a t ∧ Q' a t) (fun e t => E e t ∧ E' e t) s :=
  wp_intro (fun _ _ h => ⟨hw.ok h, hw'.ok h⟩) (fun _ _ h => ⟨hw.error h, hw'.error h⟩)

/-- A method that cannot fail returns a value. -/
theorem wp.returns {m : EStateM ε σ α} {Q : α → σ → Prop} {s : σ} (hw : wp m Q (fun _ _ => False) s) :
    ∃ a t, m s = .ok a t ∧ Q a t := by
  cases h : m s with
  | ok a t => exact ⟨a, t, rfl, hw.ok h⟩
  | error e t => exact (hw.error h).elim

/-- The state that a method leaves, whether it returns a value or an error. -/
def exec (m : EStateM ε σ α) (s : σ) : σ :=
  match m s with
  | .ok _ t => t
  | .error _ t => t

theorem exec_of_wp {m : EStateM ε σ α} {P : σ → Prop} {s : σ} (h : wp m (fun _ t => P t) (fun _ t => P t) s) :
    P (exec m s) := by
  unfold wp at h
  unfold exec
  cases hm : m s <;> simpa only [hm] using h

/-- The error that a method returns, if it does. -/
def failure (m : EStateM ε σ α) (s : σ) : Option ε :=
  match m s with
  | .ok _ _ => none
  | .error e _ => some e

theorem failure_of_wp {m : EStateM ε σ α} {E : ε → σ → Prop} {s : σ} (h : wp m (fun _ _ => False) E s) :
    ∃ e, failure m s = some e ∧ E e (exec m s) := by
  unfold failure exec
  cases hm : m s with
  | ok a t => exact (h.ok hm).elim
  | error e t => exact ⟨e, rfl, h.error hm⟩

/-! ### The operations of the monad -/

section Rules
variable {Q : α → σ → Prop} {E : ε → σ → Prop} {s : σ}

@[simp] theorem wp_pure {a : α} : wp (pure a : EStateM ε σ α) Q E s ↔ Q a s := Iff.rfl

@[simp] theorem wp_bind {m : EStateM ε σ β} {f : β → EStateM ε σ α} :
    wp (m >>= f) Q E s ↔ wp m (fun b t => wp (f b) Q E t) E s := by
  show wp (EStateM.bind m f) Q E s ↔ _
  unfold wp EStateM.bind
  cases m s <;> rfl

/-- What the second method returns does not depend on the first. -/
theorem wp_bind_of_forall {m : EStateM ε σ β} {f : β → EStateM ε σ α} (hf : ∀ b t, wp (f b) Q E t)
    (hE : ∀ e t, E e t) : wp (m >>= f) Q E s :=
  wp_bind.mpr (wp_intro (fun b t _ => hf b t) fun e t _ => hE e t)

@[simp] theorem wp_throw {e : ε} : wp (throw e : EStateM ε σ α) Q E s ↔ E e s := Iff.rfl

@[simp] theorem wp_get {Q : σ → σ → Prop} : wp (get : EStateM ε σ σ) Q E s ↔ Q s s := Iff.rfl

@[simp] theorem wp_modify {Q : PUnit → σ → Prop} {f : σ → σ} :
    wp (modify f : EStateM ε σ PUnit) Q E s ↔ Q ⟨⟩ (f s) := Iff.rfl

@[simp] theorem wp_ite {c : Prop} [Decidable c] {m n : EStateM ε σ α} :
    wp (if c then m else n) Q E s ↔ (c → wp m Q E s) ∧ (¬c → wp n Q E s) := by
  by_cases h : c <;> simp [h]

end Rules

/-! ### Parts of a state, and values that may be missing -/

/-- Runs a method on the part `get s` of the state, and reports its errors as `raise`. -/
def zoom (get : σ → τ) (set : τ → σ → σ) (raise : ε → ε') (m : EStateM ε τ α) : EStateM ε' σ α := fun s =>
  match m (get s) with
  | .ok a t => .ok a (set t s)
  | .error e t => .error (raise e) (set t s)

@[simp] theorem wp_zoom {get : σ → τ} {set : τ → σ → σ} {raise : ε → ε'} {m : EStateM ε τ α}
    {Q : α → σ → Prop} {E : ε' → σ → Prop} {s : σ} :
    wp (zoom get set raise m) Q E s ↔
      wp m (fun a t => Q a (set t s)) (fun e t => E (raise e) (set t s)) (get s) := by
  unfold wp zoom
  cases m (get s) <;> rfl

theorem exists_of_bind_ok {x : Except ε α} {f : α → Except ε β} {b : β} (h : x >>= f = .ok b) :
    ∃ a, x = .ok a ∧ f a = .ok b := by
  cases x with
  | ok a => exact ⟨a, rfl, h⟩
  | error e => cases h

theorem exists_of_bind_error {x : Except ε α} {f : α → Except ε β} {e : ε} (h : x >>= f = .error e) :
    x = .error e ∨ ∃ a, x = .ok a ∧ f a = .error e := by
  cases x with
  | ok a => exact Or.inr ⟨a, rfl, h⟩
  | error e =>
    cases h
    exact Or.inl rfl

/-- Returns the value of a fallible function, or raises its error. -/
def ofExcept (raise : ε → ε') : Except ε α → EStateM ε' σ α
  | .ok a => pure a
  | .error e => throw (raise e)

@[simp] theorem wp_ofExcept {raise : ε → ε'} {x : Except ε α} {Q : α → σ → Prop} {E : ε' → σ → Prop} {s : σ} :
    wp (ofExcept raise x) Q E s ↔ (∀ a, x = .ok a → Q a s) ∧ ∀ e, x = .error e → E (raise e) s := by
  cases x <;> simp [ofExcept]

/-- Returns the value that is there, or raises `e`. -/
def ofOption (e : ε) : Option α → EStateM ε σ α
  | some a => pure a
  | none => throw e

@[simp] theorem wp_ofOption {e : ε} {x : Option α} {Q : α → σ → Prop} {E : ε → σ → Prop} {s : σ} :
    wp (ofOption e x) Q E s ↔ (∀ a, x = some a → Q a s) ∧ (x = none → E e s) := by
  cases x <;> simp [ofOption]

/-! ### Properties that hold whenever a method returns -/

/-- From every state with `I` the method returns to one with `I`, or fails. -/
def Preserves (I : σ → Prop) (m : EStateM ε σ α) : Prop := ∀ s, I s → wp m (fun _ t => I t) (fun _ _ => True) s

section Preserves
variable {I : σ → Prop}

theorem preserves_pure (a : α) : Preserves I (pure a : EStateM ε σ α) := fun _ hs => hs

theorem preserves_throw (e : ε) : Preserves I (throw e : EStateM ε σ α) := fun _ _ => trivial

theorem preserves_get : Preserves I (get : EStateM ε σ σ) := fun _ hs => hs

theorem preserves_modify {f : σ → σ} (h : ∀ s, I s → I (f s)) : Preserves I (modify f : EStateM ε σ PUnit) := h

theorem Preserves.bind {m : EStateM ε σ β} {f : β → EStateM ε σ α} (hm : Preserves I m) (hf : ∀ b, Preserves I (f b)) :
    Preserves I (m >>= f) := fun s hs =>
  wp_bind.mpr ((hm s hs).mono (fun b t ht => hf b t ht) fun _ _ h => h)

theorem Preserves.ite {c : Prop} [Decidable c] {m n : EStateM ε σ α} (hm : Preserves I m) (hn : Preserves I n) :
    Preserves I (if c then m else n) := by
  split
  · exact hm
  · exact hn

end Preserves

/-! ### One call after another -/

/-- Runs the calls in order and stops at the first error. -/
def runAll (step : ι → EStateM ε σ Unit) : List ι → EStateM ε σ Unit
  | [] => pure ()
  | i :: is => do
    step i
    runAll step is

end Effect
