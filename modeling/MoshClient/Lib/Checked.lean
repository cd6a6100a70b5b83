import Mathlib.Data.List.Basic

/-! Computations that may panic, as `Except Fault`: checked subtraction, access to the elements of a vector, and
    loops. `Returns m Q` says that `m` does not panic, and that its value has `Q`; `Allows m Q` says the latter alone. -/

namespace Checked

inductive Fault where
  | overflow
  | index
  | unwrap
  | assertion
  | unreachable
  deriving DecidableEq, Repr

variable {α β : Type}

/-! ### Operations -/

/-- The difference of unsigned numbers. -/
def sub (a b : Nat) : Except Fault Nat := if b ≤ a then .ok (a - b) else .error .overflow

def unwrap : Option α → Except Fault α
  | some a => .ok a
  | none => .error .unwrap

def index (xs : List α) (i : Nat) : Except Fault α :=
  match xs[i]? with
  | some x => .ok x
  | none => .error .index

/-- Changes the element at `i` in place. -/
def update (xs : List α) (i : Nat) (f : α → α) : Except Fault (List α) :=
  match xs[i]? with
  | some x => .ok (xs.set i (f x))
  | none => .error .index

def insert (xs : List α) (i : Nat) (x : α) : Except Fault (List α) :=
  if i ≤ xs.length then .ok (xs.insertIdx i x) else .error .index

def remove (xs : List α) (i : Nat) : Except Fault (List α) :=
  if i < xs.length then .ok (xs.eraseIdx i) else .error .index

/-- The elements from `i` on. -/
def sliceFrom (xs : List α) (i : Nat) : Except Fault (List α) := if i ≤ xs.length then .ok (xs.drop i) else .error .index

/-- The elements before `i`. -/
def sliceTo (xs : List α) (i : Nat) : Except Fault (List α) := if i ≤ xs.length then .ok (xs.take i) else .error .index

/-- Writes `source` over the elements from `start` up to, not including, `stop`. -/
def copyFromSlice (xs : List α) (start stop : Nat) (source : List α) : Except Fault (List α) :=
  if start ≤ stop ∧ stop ≤ xs.length ∧ source.length = stop - start then .ok (xs.take start ++ source ++ xs.drop stop)
  else .error .index

def clamp (x lo hi : Nat) : Except Fault Nat := if lo ≤ hi then .ok (max lo (min x hi)) else .error .assertion

/-- The body `n` times. -/
def iterate (f : α → Except Fault α) : Nat → α → Except Fault α
  | 0, a => .ok a
  | n + 1, a => f a >>= iterate f n

/-- The body for every number from `start` up to, not including, `stop`. -/
def forRange (start stop : Nat) (f : Nat → α → Except Fault α) (a : α) : Except Fault α :=
  (List.range' start (stop - start)).foldlM (fun a i => f i a) a

/-! ### Returning -/

def Returns (m : Except Fault α) (Q : α → Prop) : Prop := ∃ a, m = .ok a ∧ Q a

section Rules
variable {m : Except Fault α} {Q Q' : α → Prop}

theorem Returns.mono (h : Returns m Q) (hQ : ∀ a, Q a → Q' a) : Returns m Q' := by
  obtain ⟨a, ha, hq⟩ := h
  exact ⟨a, ha, hQ a hq⟩

theorem returns_eq_iff {a : α} : Returns m (· = a) ↔ m = .ok a := by simp [Returns]

theorem Returns.and (h : Returns m Q) (h' : Returns m Q') : Returns m fun a => Q a ∧ Q' a := by
  obtain ⟨a, ha, hq⟩ := h
  obtain ⟨b, hb, hq'⟩ := h'
  cases ha.symm.trans hb
  exact ⟨a, ha, hq, hq'⟩

@[simp] theorem returns_ok {a : α} : Returns (.ok a) Q ↔ Q a := by simp [Returns]

@[simp] theorem returns_pure {a : α} : Returns (pure a) Q ↔ Q a := returns_ok

@[simp] theorem returns_error {e : Fault} : Returns (.error e) Q ↔ False := by simp [Returns]

@[simp] theorem returns_bind {f : α → Except Fault β} {Q : β → Prop} :
    Returns (m >>= f) Q ↔ Returns m fun a => Returns (f a) Q := by
  cases m with
  | ok a => exact (returns_ok (Q := fun a => Returns (f a) Q)).symm
  | error e =>
    show Returns (.error e) Q ↔ _
    simp only [returns_error]

@[simp] theorem returns_map {f : α → β} {Q : β → Prop} : Returns (f <$> m) Q ↔ Returns m fun a => Q (f a) := by
  cases m with
  | ok a =>
    show Returns (.ok (f a)) Q ↔ _
    simp only [returns_ok]
  | error e =>
    show Returns (.error e) Q ↔ _
    simp only [returns_error]

@[simp] theorem returns_ite {c : Prop} [Decidable c] {n : Except Fault α} :
    Returns (if c then m else n) Q ↔ (c → Returns m Q) ∧ (¬c → Returns n Q) := by
  by_cases h : c <;> simp [h]

@[simp] theorem returns_sub {a b : Nat} {Q : Nat → Prop} : Returns (sub a b) Q ↔ b ≤ a ∧ Q (a - b) := by
  by_cases h : b ≤ a <;> simp [sub, h]

@[simp] theorem returns_unwrap {o : Option α} : Returns (unwrap o) Q ↔ ∃ a, o = some a ∧ Q a := by
  cases o <;> simp [unwrap]

@[simp] theorem returns_index {xs : List α} {i : Nat} : Returns (index xs i) Q ↔ ∃ a, xs[i]? = some a ∧ Q a := by
  unfold index
  cases xs[i]? <;> simp

@[simp] theorem returns_update {xs : List α} {i : Nat} {f : α → α} {Q : List α → Prop} :
    Returns (update xs i f) Q ↔ ∃ x, xs[i]? = some x ∧ Q (xs.set i (f x)) := by
  unfold update
  cases xs[i]? <;> simp

@[simp] theorem returns_insert {xs : List α} {i : Nat} {x : α} {Q : List α → Prop} :
    Returns (insert xs i x) Q ↔ i ≤ xs.length ∧ Q (xs.insertIdx i x) := by
  by_cases h : i ≤ xs.length <;> simp [insert, h]

@[simp] theorem returns_remove {xs : List α} {i : Nat} {Q : List α → Prop} :
    Returns (remove xs i) Q ↔ i < xs.length ∧ Q (xs.eraseIdx i) := by
  by_cases h : i < xs.length <;> simp [remove, h]

end Rules

/-! ### Allowing -/

def Allows (m : Except Fault α) (Q : α → Prop) : Prop := ∀ a, m = .ok a → Q a

section Allowing
variable {m : Except Fault α} {Q Q' : α → Prop}

theorem Allows.mono (h : Allows m Q) (hQ : ∀ a, Q a → Q' a) : Allows m Q' := fun a ha => hQ a (h a ha)

theorem Allows.of_forall (hQ : ∀ a, Q a) : Allows m Q := fun a _ => hQ a

theorem Returns.allows (h : Returns m Q) : Allows m Q := by
  intro a ha
  obtain ⟨b, hb, hQ⟩ := h
  cases hb.symm.trans ha
  exact hQ

theorem Allows.and (h : Allows m Q) (h' : Allows m Q') : Allows m fun a => Q a ∧ Q' a := fun a ha => ⟨h a ha, h' a ha⟩

@[simp] theorem allows_ok {a : α} : Allows (.ok a) Q ↔ Q a := by simp [Allows]

@[simp] theorem allows_pure {a : α} : Allows (pure a) Q ↔ Q a := allows_ok

@[simp] theorem allows_error {e : Fault} : Allows (.error e) Q := by simp [Allows]

@[simp] theorem allows_bind {f : α → Except Fault β} {Q : β → Prop} :
    Allows (m >>= f) Q ↔ Allows m fun a => Allows (f a) Q := by
  cases m with
  | ok a => exact (allows_ok (Q := fun a => Allows (f a) Q)).symm
  | error e => exact iff_of_true allows_error allows_error

@[simp] theorem allows_ite {c : Prop} [Decidable c] {n : Except Fault α} :
    Allows (if c then m else n) Q ↔ (c → Allows m Q) ∧ (¬c → Allows n Q) := by
  by_cases h : c <;> simp [h]

theorem allows_sub {a b : Nat} {Q : Nat → Prop} : Allows (sub a b) Q ↔ (b ≤ a → Q (a - b)) := by
  by_cases h : b ≤ a <;> simp [sub, h]

theorem allows_unwrap {o : Option α} : Allows (unwrap o) Q ↔ ∀ a, o = some a → Q a := by
  cases o <;> simp [unwrap]

end Allowing

/-! ### Writing from front to back -/

/-- The next write of a buffer that is written up to `done`, and what follows it. -/
theorem copyFromSlice_bind {start stop : Nat} {done rest source : List α} (f : List α → Except Fault β)
    (hstart : done.length = start) (hstop : start + source.length = stop) (hroom : source.length ≤ rest.length) :
    (copyFromSlice (done ++ rest) start stop source >>= f) = f ((done ++ source) ++ rest.drop source.length) := by
  subst hstart hstop
  have hdrop : (done ++ rest).drop (done.length + source.length) = rest.drop source.length := by
    rw [← List.drop_drop, List.drop_left]
  rw [copyFromSlice, if_pos ⟨by omega, by rw [List.length_append]; omega, by omega⟩, List.take_left, hdrop]
  rfl

/-! ### Elements -/

section Elements
variable {P : α → Prop} {xs : List α} {i : Nat} {y : α}

theorem forall_mem_set (h : ∀ x ∈ xs, P x) (hy : P y) : ∀ x ∈ xs.set i y, P x := by
  intro x hx
  rcases List.mem_or_eq_of_mem_set hx with hmem | rfl
  · exact h x hmem
  · exact hy

theorem forall_mem_insertIdx (h : ∀ x ∈ xs, P x) (hy : P y) (hi : i ≤ xs.length) : ∀ x ∈ xs.insertIdx i y, P x := by
  intro x hx
  rcases (List.mem_insertIdx hi).mp hx with rfl | hmem
  · exact hy
  · exact h x hmem

theorem forall_mem_eraseIdx (h : ∀ x ∈ xs, P x) : ∀ x ∈ xs.eraseIdx i, P x :=
  fun x hx => h x (List.mem_of_mem_eraseIdx hx)

theorem allows_update (h : ∀ x ∈ xs, P x) {f : α → α} (hf : ∀ x, P x → P (f x)) :
    Allows (update xs i f) fun ys => ∀ y ∈ ys, P y := by
  unfold update
  split
  · rename_i x hx
    exact allows_ok.mpr (forall_mem_set h (hf x (h x (List.mem_of_getElem? hx))))
  · exact allows_error

theorem allows_insert (h : ∀ x ∈ xs, P x) (hy : P y) : Allows (insert xs i y) fun ys => ∀ y ∈ ys, P y := by
  refine allows_ite.mpr ⟨fun hi => ?_, fun _ => allows_error⟩
  exact allows_ok.mpr (forall_mem_insertIdx h hy hi)

theorem allows_remove (h : ∀ x ∈ xs, P x) : Allows (remove xs i) fun ys => ∀ y ∈ ys, P y := by
  refine allows_ite.mpr ⟨fun _ => ?_, fun _ => allows_error⟩
  exact allows_ok.mpr (forall_mem_eraseIdx h)

end Elements

/-! ### Loops -/

/-- `P k` holds when `k` rounds are left. -/
theorem Returns.iterate {f : α → Except Fault α} {P : Nat → α → Prop} {n : Nat} {a : α} (h : P n a)
    (hstep : ∀ k a, P (k + 1) a → Returns (f a) (P k)) : Returns (iterate f n a) (P 0) := by
  induction n generalizing a with
  | zero => exact returns_ok.mpr h
  | succ n ih => exact returns_bind.mpr ((hstep n a h).mono fun _ => ih)

/-- `P` holds before every round. -/
theorem Returns.foldlM {f : α → β → Except Fault α} {P : α → Prop} {xs : List β} {a : α} (h : P a)
    (hstep : ∀ a x, x ∈ xs → P a → Returns (f a x) P) : Returns (xs.foldlM f a) P := by
  induction xs generalizing a with
  | nil => exact returns_pure.mpr h
  | cons x xs ih =>
    rw [List.foldlM_cons, returns_bind]
    refine (hstep a x List.mem_cons_self h).mono fun b hb => ?_
    exact ih hb fun c y hy => hstep c y (List.mem_cons_of_mem x hy)

theorem Allows.iterate {f : α → Except Fault α} {P : α → Prop} {a : α} (h : P a) (hstep : ∀ a, P a → Allows (f a) P)
    (n : Nat) : Allows (iterate f n a) P := by
  induction n generalizing a with
  | zero => exact allows_ok.mpr h
  | succ n ih => exact allows_bind.mpr ((hstep a h).mono fun _ => ih)

theorem Allows.foldlM {f : α → β → Except Fault α} {P : α → Prop} {a : α} (h : P a)
    (hstep : ∀ a x, P a → Allows (f a x) P) (xs : List β) : Allows (xs.foldlM f a) P := by
  induction xs generalizing a with
  | nil => exact allows_pure.mpr h
  | cons x xs ih =>
    rw [List.foldlM_cons, allows_bind]
    exact (hstep a x h).mono fun _ => ih

/-- `P i` holds when the loop has come to `i`. -/
theorem Returns.forRange {f : Nat → α → Except Fault α} {P : Nat → α → Prop} {start stop : Nat} {a : α}
    (h : P start a) (hle : start ≤ stop) (hstep : ∀ i a, i < stop → P i a → Returns (f i a) (P (i + 1))) :
    Returns (forRange start stop f a) (P stop) := by
  obtain ⟨n, rfl⟩ := Nat.exists_eq_add_of_le hle
  unfold Checked.forRange
  rw [Nat.add_sub_cancel_left]
  induction n generalizing start a with
  | zero => exact returns_pure.mpr h
  | succ n ih =>
    rw [List.range'_succ, List.foldlM_cons, returns_bind]
    refine (hstep start a (by omega) h).mono fun a ha => ?_
    have := ih ha (by omega) fun i a hi => hstep i a (by omega)
    rwa [Nat.add_assoc, Nat.add_comm 1 n] at this

end Checked
