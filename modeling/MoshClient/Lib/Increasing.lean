import Mathlib.Data.List.Perm.Basic
import Mathlib.Order.Defs.LinearOrder
import Mathlib.Order.Lattice

/-! Strictly increasing lists, used as windows of numbers: insertion before the first greater element,
    and how many elements are greater than a given one. -/

namespace Increasing

variable {α : Type} [LinearOrder α]

/-- Inserts `a` before the first element greater than `a`. -/
def insert (a : α) (l : List α) : List α := l.insertIdx (l.findIdx fun b => decide (a < b)) a

theorem insert_perm (a : α) (l : List α) : (insert a l).Perm (a :: l) :=
  List.perm_insertIdx _ _ List.findIdx_le_length

@[simp] theorem mem_insert {a b : α} {l : List α} : b ∈ insert a l ↔ b = a ∨ b ∈ l := by
  rw [(insert_perm a l).mem_iff, List.mem_cons]

theorem length_insert (a : α) (l : List α) : (insert a l).length = l.length + 1 := (insert_perm a l).length_eq

theorem insert_cons (a b : α) (l : List α) :
    insert a (b :: l) = if a < b then a :: b :: l else b :: insert a l := by
  by_cases h : a < b <;> simp [insert, List.findIdx_cons, h]

theorem increasing_insert {a : α} {l : List α} (hl : l.Pairwise (· < ·)) (ha : a ∉ l) :
    (insert a l).Pairwise (· < ·) := by
  induction l with
  | nil => simp [insert]
  | cons b l ih =>
    have hc := List.pairwise_cons.mp hl
    rw [insert_cons]
    split
    · rename_i hab
      refine List.pairwise_cons.mpr ⟨fun c hc' => ?_, hl⟩
      rcases List.mem_cons.mp hc' with rfl | hc'
      · exact hab
      · exact lt_trans hab (hc.1 c hc')
    · rename_i hab
      have hne : b ≠ a := fun h => ha (h ▸ List.mem_cons_self)
      refine List.pairwise_cons.mpr ⟨fun c hc' => ?_, ih hc.2 fun h => ha (List.mem_cons_of_mem _ h)⟩
      rcases mem_insert.mp hc' with rfl | hc'
      · exact lt_of_le_of_ne (not_lt.mp hab) hne
      · exact hc.1 c hc'

/-! ### Greater elements -/

/-- The number of elements greater than `a`. -/
def above (a : α) (l : List α) : Nat := l.countP fun b => decide (a < b)

theorem above_insert (a b : α) (l : List α) : above a (insert b l) = above a l + if a < b then 1 else 0 := by
  unfold above
  rw [(insert_perm b l).countP_eq, List.countP_cons]
  simp

/-- Dropping elements that are not greater than `a` leaves as many greater ones. -/
theorem above_filter {a : α} {p : α → Bool} {l : List α} (h : ∀ b ∈ l, a < b → p b) :
    above a (l.filter p) = above a l := by
  unfold above
  rw [List.countP_filter]
  apply List.countP_congr
  intro b hb
  simp only [Bool.and_eq_true, decide_eq_true_eq]
  exact ⟨fun h' => h'.1, fun h' => ⟨h', h b hb h'⟩⟩

/-- All elements of an increasing list are greater than what stands before it. -/
theorem above_of_forall {a : α} {l : List α} (h : ∀ b ∈ l, a < b) : above a l = l.length := by
  unfold above
  rw [List.countP_eq_length]
  intro b hb
  exact decide_eq_true (h b hb)

end Increasing
