import Mathlib.Data.List.Flatten
import Mathlib.Data.List.Perm.Subperm

/-! A list cut into consecutive pieces of one length, of which the last may be shorter. -/

namespace Chunks

variable {α : Type}

/-- The number of pieces of length `n` that `length` elements need. -/
def count (n length : Nat) : Nat := (length + n - 1) / n

/-- The piece at place `i`. -/
def piece (n : Nat) (l : List α) (i : Nat) : List α := (l.drop (i * n)).take n

def chunks (n : Nat) (l : List α) : List (List α) := (List.range (count n l.length)).map (piece n l)

theorem length_le_count_mul {n : Nat} (hn : 0 < n) (length : Nat) : length ≤ count n length * n := by
  unfold count
  have := Nat.div_add_mod (length + n - 1) n
  have := Nat.mod_lt (length + n - 1) hn
  rw [Nat.mul_comm]
  omega

theorem count_le {n k length : Nat} (hn : 0 < n) (h : length ≤ k * n) : count n length ≤ k := by
  unfold count
  rw [Nat.div_le_iff_le_mul_add_pred hn, Nat.mul_comm]
  omega

theorem flatten_map_piece (n k : Nat) (l : List α) : ((List.range k).map (piece n l)).flatten = l.take (k * n) := by
  induction k with
  | zero => simp
  | succ k ih =>
    rw [List.range_succ, List.map_append, List.flatten_append, ih, Nat.succ_mul, List.take_add]
    simp [piece]

/-- The pieces in order are the whole list. -/
theorem flatten_chunks {n : Nat} (hn : 0 < n) (l : List α) : (chunks n l).flatten = l := by
  unfold chunks
  rw [flatten_map_piece]
  exact List.take_of_length_le (length_le_count_mul hn l.length)

/-- Distinct pieces together are no longer than the whole list. -/
theorem length_flatten_pieces_le {n : Nat} (hn : 0 < n) (l : List α) {places : List Nat} (hnodup : places.Nodup)
    (hlt : ∀ i ∈ places, i < count n l.length) : (places.map (piece n l)).flatten.length ≤ l.length := by
  obtain ⟨places', hperm, hsub⟩ := List.subperm_of_subset hnodup fun i hi => List.mem_range.mpr (hlt i hi)
  calc (places.map (piece n l)).flatten.length
      = (places'.map (piece n l)).flatten.length := (hperm.symm.map _).flatten.length_eq
    _ ≤ (chunks n l).flatten.length := (hsub.map _).flatten.length_le
    _ = l.length := by rw [flatten_chunks hn]

end Chunks
