import Mathlib.Order.Lattice
import Mathlib.Order.Defs.LinearOrder
import Mathlib.Data.List.Pairwise

/-! Maps with ordered keys: a list of entries whose keys strictly increase, so that the entries are
    listed in key order and two maps with the same lookups are equal. -/

/-- A finite map that lists its entries in the order of their keys. -/
structure OrderedMap (κ α : Type) [LinearOrder κ] where
  entries : List (κ × α)
  sorted : entries.Pairwise fun a b => a.1 < b.1

namespace OrderedMap

variable {κ α : Type} [LinearOrder κ]

/-! ### Entry lists -/

/-- The value stored under `k`. -/
def lookup (k : κ) : List (κ × α) → Option α
  | [] => none
  | (k', x) :: rest => if k' = k then some x else lookup k rest

/-- Stores `x` under `k` at its place in the key order, in place of an earlier value of `k`. -/
def insertEntry (k : κ) (x : α) : List (κ × α) → List (κ × α)
  | [] => [(k, x)]
  | (k', y) :: rest =>
    if k < k' then (k, x) :: (k', y) :: rest
    else if k = k' then (k, x) :: rest
    else (k', y) :: insertEntry k x rest

theorem lookup_eq_some_of_mem {l : List (κ × α)} (hl : l.Pairwise fun a b => a.1 < b.1) {k : κ} {x : α}
    (h : (k, x) ∈ l) : lookup k l = some x := by
  induction l with
  | nil => cases h
  | cons e rest ih =>
    obtain ⟨k', y⟩ := e
    rw [List.pairwise_cons] at hl
    rcases List.mem_cons.mp h with heq | hmem
    · cases heq
      simp [lookup]
    · have hne : k' ≠ k := ne_of_lt (hl.1 _ hmem)
      simp only [lookup, if_neg hne]
      exact ih hl.2 hmem

theorem mem_of_lookup_eq_some {l : List (κ × α)} {k : κ} {x : α} (h : lookup k l = some x) : (k, x) ∈ l := by
  induction l with
  | nil => cases h
  | cons e rest ih =>
    obtain ⟨k', y⟩ := e
    simp only [lookup] at h
    split at h
    · rename_i heq
      cases h
      subst heq
      exact List.mem_cons_self
    · exact List.mem_cons_of_mem _ (ih h)

theorem mem_insertEntry {k : κ} {x : α} {e : κ × α} {l : List (κ × α)} (h : e ∈ insertEntry k x l) :
    e = (k, x) ∨ e ∈ l := by
  induction l with
  | nil => exact Or.inl (by simpa [insertEntry] using h)
  | cons e' rest ih =>
    obtain ⟨k', y⟩ := e'
    simp only [insertEntry] at h
    split at h
    · exact List.mem_cons.mp h
    · split at h
      · rcases List.mem_cons.mp h with rfl | h
        · exact Or.inl rfl
        · exact Or.inr (List.mem_cons_of_mem _ h)
      · rcases List.mem_cons.mp h with rfl | h
        · exact Or.inr List.mem_cons_self
        · rcases ih h with h | h
          · exact Or.inl h
          · exact Or.inr (List.mem_cons_of_mem _ h)

theorem sorted_insertEntry {k : κ} {x : α} {l : List (κ × α)} (hl : l.Pairwise fun a b => a.1 < b.1) :
    (insertEntry k x l).Pairwise fun a b => a.1 < b.1 := by
  induction l with
  | nil => simp [insertEntry]
  | cons e rest ih =>
    obtain ⟨k', y⟩ := e
    have hc := List.pairwise_cons.mp hl
    simp only [insertEntry]
    split
    · rename_i hlt
      refine List.pairwise_cons.mpr ⟨fun e he => ?_, hl⟩
      rcases List.mem_cons.mp he with rfl | he
      · exact hlt
      · exact lt_trans hlt (hc.1 e he)
    · rename_i hnlt
      split
      · rename_i heq
        subst heq
        exact List.pairwise_cons.mpr ⟨hc.1, hc.2⟩
      · rename_i hne
        refine List.pairwise_cons.mpr ⟨fun e he => ?_, ih hc.2⟩
        rcases mem_insertEntry he with rfl | he
        · exact lt_of_le_of_ne (not_lt.mp hnlt) (Ne.symm hne)
        · exact hc.1 e he

theorem lookup_insertEntry {k k' : κ} {x : α} {l : List (κ × α)} :
    lookup k' (insertEntry k x l) = if k = k' then some x else lookup k' l := by
  induction l with
  | nil => simp [insertEntry, lookup]
  | cons e rest ih =>
    obtain ⟨k₀, y⟩ := e
    simp only [insertEntry]
    split
    · simp [lookup]
    · split
      · rename_i heq
        subst heq
        by_cases h : k = k' <;> simp [lookup, h]
      · rename_i hne
        simp only [lookup, ih]
        by_cases h : k₀ = k'
        · subst h
          simp [hne]
        · simp [h]

theorem lookup_filter {k : κ} {p : κ → Bool} {l : List (κ × α)} :
    lookup k (l.filter fun e => p e.1) = if p k then lookup k l else none := by
  induction l with
  | nil => simp [lookup]
  | cons e rest ih =>
    obtain ⟨k', y⟩ := e
    rw [List.filter_cons]
    by_cases hp : p k' <;> by_cases hk : k' = k
    · subst hk
      simp [lookup, hp]
    · simp [lookup, hp, hk, ih]
    · subst hk
      simp [hp, ih]
    · simp [lookup, hp, hk, ih]

/-! ### Maps -/

instance [DecidableEq α] : DecidableEq (OrderedMap κ α) := fun a b =>
  if h : a.entries = b.entries then
    .isTrue (by cases a; cases b; cases h; rfl)
  else
    .isFalse fun heq => h (congrArg entries heq)

def empty : OrderedMap κ α := ⟨[], List.Pairwise.nil⟩

def get? (m : OrderedMap κ α) (k : κ) : Option α := lookup k m.entries

def insert (m : OrderedMap κ α) (k : κ) (x : α) : OrderedMap κ α :=
  ⟨insertEntry k x m.entries, sorted_insertEntry m.sorted⟩

/-- Keeps the entries whose key satisfies `p`. -/
def retain (m : OrderedMap κ α) (p : κ → Bool) : OrderedMap κ α :=
  ⟨m.entries.filter fun e => p e.1, m.sorted.filter _⟩

def remove (m : OrderedMap κ α) (k : κ) : OrderedMap κ α := m.retain fun k' => decide (k' ≠ k)

def keys (m : OrderedMap κ α) : List κ := m.entries.map Prod.fst

def values (m : OrderedMap κ α) : List α := m.entries.map Prod.snd

def size (m : OrderedMap κ α) : Nat := m.entries.length

@[simp] theorem get?_empty (k : κ) : (empty : OrderedMap κ α).get? k = none := rfl

@[simp] theorem get?_insert (m : OrderedMap κ α) (k k' : κ) (x : α) :
    (m.insert k x).get? k' = if k = k' then some x else m.get? k' := lookup_insertEntry

@[simp] theorem get?_retain (m : OrderedMap κ α) (p : κ → Bool) (k : κ) :
    (m.retain p).get? k = if p k then m.get? k else none := lookup_filter

@[simp] theorem get?_remove (m : OrderedMap κ α) (k k' : κ) :
    (m.remove k).get? k' = if k' = k then none else m.get? k' := by
  by_cases h : k' = k <;> simp [remove, h]

theorem mem_entries {m : OrderedMap κ α} {k : κ} {x : α} : (k, x) ∈ m.entries ↔ m.get? k = some x :=
  ⟨lookup_eq_some_of_mem m.sorted, mem_of_lookup_eq_some⟩

theorem mem_keys {m : OrderedMap κ α} {k : κ} : k ∈ m.keys ↔ ∃ x, m.get? k = some x := by
  simp only [keys, List.mem_map, Prod.exists, exists_and_right, exists_eq_right, mem_entries]

theorem mem_keys_insert {m : OrderedMap κ α} {k k' : κ} {x : α} :
    k' ∈ (m.insert k x).keys ↔ k' = k ∨ k' ∈ m.keys := by
  simp only [mem_keys, get?_insert]
  by_cases h : k = k'
  · simp [h]
  · simp [h, Ne.symm h]

theorem mem_keys_retain {m : OrderedMap κ α} {p : κ → Bool} {k : κ} :
    k ∈ (m.retain p).keys ↔ k ∈ m.keys ∧ p k = true := by
  simp only [mem_keys, get?_retain]
  by_cases h : p k = true <;> simp [h]

theorem mem_keys_remove {m : OrderedMap κ α} {k k' : κ} : k' ∈ (m.remove k).keys ↔ k' ∈ m.keys ∧ k' ≠ k := by
  rw [remove, mem_keys_retain, decide_eq_true_eq]

theorem keys_sorted (m : OrderedMap κ α) : m.keys.Pairwise (· < ·) := by
  unfold keys
  rw [List.pairwise_map]
  exact m.sorted

theorem keys_nodup (m : OrderedMap κ α) : m.keys.Nodup := (keys_sorted m).imp ne_of_lt

theorem insertEntry_perm {k : κ} {l : List (κ × α)} (h : lookup k l = none) (x : α) :
    (insertEntry k x l).Perm ((k, x) :: l) := by
  induction l with
  | nil => exact List.Perm.refl _
  | cons e rest ih =>
    obtain ⟨k', y⟩ := e
    simp only [lookup] at h
    split at h
    · cases h
    · rename_i hne
      simp only [insertEntry, if_neg (Ne.symm hne)]
      split
      · exact List.Perm.refl _
      · exact ((ih h).cons (k', y)).trans (List.Perm.swap _ _ _)

/-- A new entry joins the others. -/
theorem entries_insert_perm {m : OrderedMap κ α} {k : κ} (h : m.get? k = none) (x : α) :
    (m.insert k x).entries.Perm ((k, x) :: m.entries) := insertEntry_perm h x

/-- A new key joins the others. -/
theorem keys_insert_perm {m : OrderedMap κ α} {k : κ} (h : m.get? k = none) (x : α) :
    (m.insert k x).keys.Perm (k :: m.keys) := (entries_insert_perm h x).map Prod.fst

/-- The value of a new key joins the others. -/
theorem values_insert_perm {m : OrderedMap κ α} {k : κ} (h : m.get? k = none) (x : α) :
    (m.insert k x).values.Perm (x :: m.values) := (entries_insert_perm h x).map Prod.snd

/-- The last key is the largest. -/
theorem le_last {m : OrderedMap κ α} {k last : κ} (hlast : m.keys.getLast? = some last) (hk : k ∈ m.keys) : k ≤ last := by
  have hsorted := m.keys_sorted
  obtain ⟨older, hkeys⟩ := List.getLast?_eq_some_iff.mp hlast
  rw [hkeys] at hk hsorted
  rcases List.mem_append.mp hk with hk | hk
  · exact le_of_lt ((List.pairwise_append.mp hsorted).2.2 k hk last (List.mem_singleton_self last))
  · exact le_of_eq (List.mem_singleton.mp hk)

/-- The values of a map are those stored under its keys, in key order. -/
theorem values_eq_map_keys {m : OrderedMap κ α} {f : κ → α} (h : ∀ k x, m.get? k = some x → x = f k) :
    m.values = m.keys.map f := by
  unfold values keys
  rw [List.map_map]
  apply List.map_congr_left
  intro e he
  exact h e.1 e.2 (mem_entries.mp he)

end OrderedMap
