import Mathlib.Logic.Relation
import MoshClient.Lib.Effect

/-! Simulation of fallible methods by an abstract transition system. A `Simulation` shows a part of the
    concrete state as an abstract state, with the steps that the abstract state may take and an invariant
    that they keep. A method follows it when, from every state with the invariant, it takes the abstract
    state through a sequence of steps, and fails only with the errors that are allowed. -/

open Effect

structure Simulation (ε σ τ : Type) where
  view : σ → τ
  Step : τ → τ → Prop
  Invariant : τ → Prop
  invariant_step : ∀ {a b}, Invariant a → Step a b → Invariant b
  Allowed : ε → Prop

namespace Simulation

variable {ε ε' σ τ ρ ι α β : Type} (V : Simulation ε σ τ)

def Reaches : τ → τ → Prop := Relation.ReflTransGen V.Step

/-- From `s`, the method takes the view through a sequence of steps. -/
def FollowsFrom (m : EStateM ε σ α) (s : σ) : Prop :=
  V.Invariant (V.view s) →
    wp m (fun _ t => V.Reaches (V.view s) (V.view t)) (fun e t => V.Reaches (V.view s) (V.view t) ∧ V.Allowed e) s

def Follows (m : EStateM ε σ α) : Prop := ∀ s, V.FollowsFrom m s

/-- The simulation that only watches whether a part of the state changes. -/
def frame (view : σ → τ) : Simulation ε σ τ where
  view := view
  Step _ _ := False
  Invariant _ := True
  invariant_step _ _ := trivial
  Allowed _ := True

/-- The simulation whose steps are all those that keep `I`. -/
def keeping (view : σ → τ) (I : τ → Prop) : Simulation ε σ τ where
  view := view
  Step a b := I a → I b
  Invariant := I
  invariant_step ha h := h ha
  Allowed _ := True

variable {V}

theorem invariant_reaches {a b : τ} (ha : V.Invariant a) (h : V.Reaches a b) : V.Invariant b := by
  induction h with
  | refl => exact ha
  | tail _ hstep ih => exact V.invariant_step ih hstep

/-- A method that follows from a state reached by steps goes on from where they started. -/
theorem FollowsFrom.after {m : EStateM ε σ α} {s t : σ} (h : V.FollowsFrom m t) (hs : V.Invariant (V.view s))
    (hreach : V.Reaches (V.view s) (V.view t)) :
    wp m (fun _ u => V.Reaches (V.view s) (V.view u)) (fun e u => V.Reaches (V.view s) (V.view u) ∧ V.Allowed e) t :=
  (h (invariant_reaches hs hreach)).mono (fun _ _ h => hreach.trans h) (fun _ _ h => ⟨hreach.trans h.1, h.2⟩)

/-! ### One method after another -/

/-- What the first method returns and the state it leaves may be used to show that the second follows. -/
theorem followsFrom_bind {m : EStateM ε σ β} {f : β → EStateM ε σ α} {s : σ} {Q : β → σ → Prop}
    (hm : V.Invariant (V.view s) → wp m (fun b t => V.Reaches (V.view s) (V.view t) ∧ Q b t)
      (fun e t => V.Reaches (V.view s) (V.view t) ∧ V.Allowed e) s)
    (hf : ∀ b t, Q b t → V.FollowsFrom (f b) t) : V.FollowsFrom (m >>= f) s := by
  intro hs
  rw [wp_bind]
  refine (hm hs).mono (fun b t h => ?_) (fun _ _ h => h)
  obtain ⟨hreach, hb⟩ := h
  exact (hf b t hb).after hs hreach

/-- The first method only reads the state. -/
theorem followsFrom_read_bind {m : EStateM ε σ β} {f : β → EStateM ε σ α} {s : σ} {Q : β → Prop}
    (hm : V.Invariant (V.view s) → wp m (fun b t => t = s ∧ Q b) (fun e t => t = s ∧ V.Allowed e) s)
    (hf : ∀ b, Q b → V.FollowsFrom (f b) s) : V.FollowsFrom (m >>= f) s := by
  intro hs
  rw [wp_bind]
  refine (hm hs).mono (fun b t h => ?_) (fun e t h => ?_)
  · obtain ⟨rfl, hb⟩ := h
    exact hf b hb hs
  · obtain ⟨rfl, he⟩ := h
    exact ⟨.refl, he⟩

theorem FollowsFrom.bind_of_wp {m : EStateM ε σ β} {f : β → EStateM ε σ α} {s : σ} {Q : β → σ → Prop}
    {E : ε → σ → Prop} (hm : V.FollowsFrom m s) (hQ : wp m Q E s) (hf : ∀ b t, Q b t → V.FollowsFrom (f b) t) :
    V.FollowsFrom (m >>= f) s :=
  followsFrom_bind (fun hs => ((hm hs).and hQ).mono (fun _ _ h => h) (fun _ _ h => h.1)) hf

theorem FollowsFrom.bind {m : EStateM ε σ β} {f : β → EStateM ε σ α} {s : σ} (hm : V.FollowsFrom m s)
    (hf : ∀ b, V.Follows (f b)) : V.FollowsFrom (m >>= f) s :=
  followsFrom_bind (Q := fun _ _ => True) (fun hs => (hm hs).mono (fun _ _ h => ⟨h, trivial⟩) (fun _ _ h => h))
    (fun b t _ => hf b t)

theorem Follows.bind {m : EStateM ε σ β} {f : β → EStateM ε σ α} (hm : V.Follows m) (hf : ∀ b, V.Follows (f b)) :
    V.Follows (m >>= f) := fun s => (hm s).bind hf

theorem follows_get_bind {f : σ → EStateM ε σ α} (h : ∀ s, V.FollowsFrom (f s) s) : V.Follows (get >>= f) := by
  intro s hs
  rw [wp_bind, wp_get]
  exact h s hs

theorem FollowsFrom.ofOption_bind {e : ε} {x : Option β} {f : β → EStateM ε σ α} {s : σ}
    (hnone : V.Invariant (V.view s) → x = none → V.Allowed e) (hsome : ∀ b, x = some b → V.FollowsFrom (f b) s) :
    V.FollowsFrom (ofOption e x >>= f) s := by
  intro hs
  rw [wp_bind, wp_ofOption]
  exact ⟨fun b hb => hsome b hb hs, fun hn => ⟨.refl, hnone hs hn⟩⟩

theorem FollowsFrom.ofExcept_bind {raise : ε' → ε} {x : Except ε' β} {f : β → EStateM ε σ α} {s : σ}
    (herror : V.Invariant (V.view s) → ∀ e, x = .error e → V.Allowed (raise e))
    (hok : ∀ b, x = .ok b → V.FollowsFrom (f b) s) : V.FollowsFrom (ofExcept raise x >>= f) s := by
  intro hs
  rw [wp_bind, wp_ofExcept]
  exact ⟨fun b hb => hok b hb hs, fun e he => ⟨.refl, herror hs e he⟩⟩

theorem FollowsFrom.ite {c : Prop} [Decidable c] {m n : EStateM ε σ α} {s : σ} (hm : c → V.FollowsFrom m s)
    (hn : ¬c → V.FollowsFrom n s) : V.FollowsFrom (if c then m else n) s := by
  split
  · exact hm ‹_›
  · exact hn ‹_›

theorem Follows.ite {c : Prop} [Decidable c] {m n : EStateM ε σ α} (hm : V.Follows m) (hn : V.Follows n) :
    V.Follows (if c then m else n) := fun s => .ite (fun _ => hm s) (fun _ => hn s)

theorem follows_runAll {step : ι → EStateM ε σ Unit} (h : ∀ i, V.Follows (step i)) (is : List ι) :
    V.Follows (runAll step is) := by
  induction is with
  | nil => exact fun _ _ => .refl
  | cons i is ih => exact (h i).bind fun _ => ih

/-- More steps may be allowed. -/
theorem FollowsFrom.mono {V' : Simulation ε σ τ} {m : EStateM ε σ α} {s : σ} (h : V.FollowsFrom m s)
    (hview : V'.view = V.view) (hstep : ∀ a b, V.Step a b → V'.Step a b)
    (hinvariant : ∀ a, V'.Invariant a → V.Invariant a) (hallowed : ∀ e, V.Allowed e → V'.Allowed e) :
    V'.FollowsFrom m s := by
  intro hs
  rw [hview] at hs ⊢
  have hreach : ∀ a b, V.Reaches a b → V'.Reaches a b := Relation.ReflTransGen.mono hstep
  exact (h (hinvariant _ hs)).mono (fun _ _ hr => hreach _ _ hr) (fun _ _ he => ⟨hreach _ _ he.1, hallowed _ he.2⟩)

/-! ### Methods that the view does not see -/

/-- The method leaves the view as it is. -/
def Unseen (V : Simulation ε σ τ) (m : EStateM ε σ α) : Prop :=
  ∀ s, wp m (fun _ t => V.view t = V.view s) (fun e t => V.view t = V.view s ∧ V.Allowed e) s

theorem Unseen.follows {m : EStateM ε σ α} (h : V.Unseen m) : V.Follows m := by
  intro s _
  refine (h s).mono (fun _ t ht => ?_) (fun _ t ht => ⟨?_, ht.2⟩)
  · rw [ht]; exact .refl
  · rw [ht.1]; exact .refl

theorem unseen_pure (a : α) : V.Unseen (pure a) := fun _ => rfl

theorem unseen_throw {e : ε} (he : V.Allowed e) : V.Unseen (throw e : EStateM ε σ α) := fun _ => ⟨rfl, he⟩

theorem unseen_get : V.Unseen (get : EStateM ε σ σ) := fun _ => rfl

theorem unseen_modify {f : σ → σ} (h : ∀ s, V.view (f s) = V.view s) :
    V.Unseen (modify f : EStateM ε σ PUnit) := fun s => h s

theorem Unseen.bind {m : EStateM ε σ β} {f : β → EStateM ε σ α} (hm : V.Unseen m) (hf : ∀ b, V.Unseen (f b)) :
    V.Unseen (m >>= f) := by
  intro s
  rw [wp_bind]
  refine (hm s).mono (fun b t ht => ?_) (fun _ _ ht => ht)
  exact (hf b t).mono (fun _ _ hu => hu.trans ht) (fun _ _ hu => ⟨hu.1.trans ht, hu.2⟩)

theorem Unseen.ite {c : Prop} [Decidable c] {m n : EStateM ε σ α} (hm : V.Unseen m) (hn : V.Unseen n) :
    V.Unseen (if c then m else n) := by
  split
  · exact hm
  · exact hn

theorem unseen_ofExcept {raise : ε' → ε} {x : Except ε' α} (h : ∀ e, V.Allowed (raise e)) :
    V.Unseen (ofExcept raise x) := by
  intro s
  rw [wp_ofExcept]
  exact ⟨fun _ _ => rfl, fun e _ => ⟨rfl, h e⟩⟩

theorem unseen_ofOption {e : ε} {x : Option α} (he : V.Allowed e) : V.Unseen (ofOption e x) := by
  intro s
  rw [wp_ofOption]
  exact ⟨fun _ _ => rfl, fun _ => ⟨rfl, he⟩⟩

/-- A method on a part of the state that the view leaves out. -/
theorem unseen_zoom {get : σ → ρ} {set : ρ → σ → σ} {raise : ε' → ε} {m : EStateM ε' ρ α}
    (hset : ∀ r s, V.view (set r s) = V.view s)
    (hm : ∀ r, wp m (fun _ _ => True) (fun e _ => V.Allowed (raise e)) r) : V.Unseen (zoom get set raise m) := by
  intro s
  rw [wp_zoom]
  exact (hm (get s)).mono (fun _ r _ => hset r s) (fun _ r he => ⟨hset r s, he⟩)

theorem Unseen.of_view {W : Simulation ε σ ρ} {m : EStateM ε σ α} (h : V.Unseen m) {f : τ → ρ}
    (hview : ∀ s, W.view s = f (V.view s)) (hallowed : ∀ e, W.Allowed e) : W.Unseen m := by
  intro s
  simp only [hview]
  exact (h s).mono (fun _ _ ht => congrArg f ht) fun e _ ht => ⟨congrArg f ht.1, hallowed e⟩

theorem frame_zoom {view : σ → τ} {get : σ → ρ} {set : ρ → σ → σ} {raise : ε' → ε} {m : EStateM ε' ρ α}
    (hset : ∀ r s, view (set r s) = view s) : (frame view).Unseen (zoom get set raise m) :=
  unseen_zoom hset fun _ => wp_intro (fun _ _ _ => trivial) fun _ _ _ => trivial

/-- A method on a part of the state, of which the view only shows what the method leaves. -/
theorem frame_zoom_of_wp {view : σ → τ} {get : σ → ρ} {set : ρ → σ → σ} {raise : ε' → ε} {m : EStateM ε' ρ α}
    {R : ρ → ρ → Prop} (hset : ∀ r s, R (get s) r → view (set r s) = view s)
    (hm : ∀ r, wp m (fun _ r' => R r r') (fun _ r' => R r r') r) : (frame view).Unseen (zoom get set raise m) := by
  intro s
  rw [wp_zoom]
  exact (hm (get s)).mono (fun _ r h => hset r s h) fun _ r h => ⟨hset r s h, trivial⟩

/-- Where no step is possible, a method that follows leaves the view. -/
theorem unseen_of_follows {view : σ → τ} {m : EStateM ε σ α} (h : (frame view).Follows m) : (frame view).Unseen m := by
  have hsame {a b : τ} (hreach : Reaches (frame view : Simulation ε σ τ) a b) : b = a := by
    induction hreach with
    | refl => rfl
    | tail _ hstep => exact hstep.elim
  intro s
  exact (h s trivial).mono (fun _ _ ht => hsame ht) fun _ _ ht => ⟨hsame ht.1, trivial⟩

theorem Unseen.preserves {view : σ → τ} {I : σ → Prop} {m : EStateM ε σ α} (h : (frame view).Unseen m)
    (hI : ∀ {s t : σ}, view t = view s → I s → I t) : Preserves I m := fun s hs =>
  (h s).mono (fun _ _ ht => hI ht hs) fun _ _ _ => trivial

/-! ### Methods that keep a property -/

section Keeping
variable {view : σ → τ} {I : τ → Prop}

theorem followsFrom_keeping {m : EStateM ε σ α} {s : σ} :
    (keeping view I).FollowsFrom m s ↔
      (I (view s) → wp m (fun _ t => I (view t)) (fun _ t => I (view t)) s) := by
  constructor
  · intro h hs
    exact (h hs).mono (fun _ _ ht => invariant_reaches hs ht) fun _ _ ht => invariant_reaches hs ht.1
  · intro h hs
    exact (h hs).mono (fun _ _ ht => .single fun _ => ht) fun _ _ ht => ⟨.single fun _ => ht, trivial⟩

theorem followsFrom_keeping_bind {m : EStateM ε σ β} {f : β → EStateM ε σ α} {s : σ} {Q : β → σ → Prop}
    (hm : I (view s) → wp m (fun b t => I (view t) ∧ Q b t) (fun _ t => I (view t)) s)
    (hf : ∀ b t, Q b t → (keeping view I).FollowsFrom (f b) t) : (keeping view I).FollowsFrom (m >>= f) s := by
  refine followsFrom_bind (Q := Q) (fun hs => ?_) hf
  exact (hm hs).mono (fun _ _ ht => ⟨.single fun _ => ht.1, ht.2⟩) fun _ _ ht => ⟨.single fun _ => ht, trivial⟩

end Keeping
end Simulation
