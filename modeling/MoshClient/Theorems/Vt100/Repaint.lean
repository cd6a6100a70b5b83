import MoshClient.Theorems.Vt100.Paint

/-! Full repaints. One of a screen of 24,000 cells fits in an output chunk. A screen of stripes, where the colours
    change with every column, takes 37 bytes a cell, and does not fit from 56,700 cells on. -/

namespace MoshClient.Vt100
open Checked

/-! ### Stripes -/

/-- Two colours in turn. -/
def stripe (col : Nat) : Attrs :=
  if col % 2 = 0 then ⟨.rgb 100 100 100, .rgb 101 101 101, 0⟩ else ⟨.rgb 200 200 200, .rgb 201 201 201, 0⟩

def stripeCell (col : Nat) : Cell := ⟨['x'], false, false, stripe col⟩

section Stripes
variable {size : Size} {r c col : Nat} {attrs : Attrs}

theorem returns_diff_stripe {prev : Attrs} (h : prev = .default ∨ prev = stripe (col + 1)) :
    prev ≠ stripe col ∧ Returns ((stripe col).writeEscapeCodeDiff prev) fun bytes => bytes.length = 36 := by
  have hmod (col : Nat) : stripe col = stripe (col % 2) := by simp [stripe]
  rw [hmod (col + 1), Nat.add_mod] at h
  rw [hmod col]
  rcases Nat.mod_two_eq_zero_or_one col with hcol | hcol <;> rw [hcol] at h ⊢ <;> rcases h with rfl | rfl <;>
    exact ⟨by decide, _, rfl, rfl⟩

/-- A row of stripes has been written up to `col`. -/
structure RowWriter.Striped (row col : Nat) (w : RowWriter) : Prop where
  prevWasWide : w.prevWasWide = false
  erase : w.erase = none
  prevAttrs : w.prevAttrs = .default ∨ w.prevAttrs = stripe (col + 1)
  prevPos : col ≠ 0 → w.prevPos = ⟨row, col⟩

section Writer
variable {w : RowWriter} {cols row n : Nat}

theorem RowWriter.Striped.returns_writeContents (h : w.Striped row col) (hrow : row < 999) (hcol : col < 999) :
    Returns (w.writeContents cols row false col (stripeCell col)) fun t =>
      t.Striped row (col + 1) ∧ w.contents.length + 37 ≤ t.contents.length := by
  obtain ⟨hprev, hdiff⟩ := returns_diff_stripe h.prevAttrs
  have hstripe : stripe col = stripe (col + 1 + 1) := by simp [stripe, Nat.add_assoc]
  refine returns_bind.mpr (returns_sub.mpr ⟨Nat.zero_le _, ?_⟩)
  obtain ⟨move, -, hstart⟩ := w.startContents_eq (cols - 0) false hrow hcol
  refine returns_bind.mpr ?_
  rw [show (w.startContents (cols - if (stripeCell col).isWide then 1 else 0) row false col) = _ from hstart]
  refine returns_ite.mpr ⟨fun _ => ?_, fun heq => absurd (Classical.not_not.mp heq) hprev⟩
  refine returns_bind.mpr (hdiff.mono fun bytes hbytes => returns_pure.mpr (returns_pure.mpr ?_))
  refine ⟨⟨h.prevWasWide, h.erase, Or.inr hstripe, fun _ => rfl⟩, ?_⟩
  show w.contents.length + 37 ≤ (w.contents ++ move ++ bytes ++ [0x78]).length
  simp only [List.length_append, List.length_cons, List.length_nil]
  omega

/-- A stripe takes 37 bytes. -/
theorem RowWriter.Striped.returns_cell (h : w.Striped row col) (hrow : row < 999) (hcol : col < 999) :
    Returns (w.cell cols row false col (stripeCell col)) fun t =>
      t.Striped row (col + 1) ∧ w.contents.length + 37 ≤ t.contents.length := by
  have hnew : stripeCell col ≠ .new := fun heq => List.cons_ne_nil _ _ (congrArg Cell.contents heq)
  have hflush : Returns ({ w with prevWasWide := (stripeCell col).isWide }.flushErase cols row false col (stripeCell col))
      (· = w) := by
    have hself : { w with prevWasWide := (stripeCell col).isWide } = w := by
      rw [show (stripeCell col).isWide = w.prevWasWide from h.prevWasWide.symm]
    rw [hself, RowWriter.flushErase, h.erase]
    exact returns_pure.mpr rfl
  unfold RowWriter.cell
  rw [if_neg (by rw [h.prevWasWide]; decide)]
  refine returns_bind.mpr (hflush.mono ?_)
  rintro _ rfl
  rw [if_neg hnew, if_pos (show (stripeCell col).hasContents = true from rfl)]
  exact h.returns_writeContents hrow hcol

theorem RowWriter.Striped.returns_cells (h : w.Striped row col) (hrow : row < 999) (hcol : col + n < 999) :
    Returns (RowWriter.cells cols row false col ((List.range' col n).map stripeCell) w) fun t =>
      t.Striped row (col + n) ∧ w.contents.length + 37 * n ≤ t.contents.length := by
  induction n generalizing col w with
  | zero => exact returns_pure.mpr ⟨h, Nat.le_refl _⟩
  | succ n ih =>
    rw [List.range'_succ, List.map_cons]
    refine returns_bind.mpr ((h.returns_cell hrow (by omega)).mono ?_)
    rintro t ⟨ht, hlength⟩
    refine (ih ht (by omega)).mono ?_
    rintro u ⟨hu, hlength'⟩
    rw [Nat.add_right_comm, Nat.add_assoc] at hu
    exact ⟨hu, by omega⟩

end Writer

end Stripes

/-! ### A full repaint -/

namespace TerminalState

variable {crates : Crates} {s : TerminalState}

theorem Sound.returns_full (h : s.Sound) (hcells : s.screen.size.rows * s.screen.size.cols ≤ 24000) :
    Returns (TerminalPainter.full s) fun result => ∃ output, result = .ok output := by
  have hsize := size_le_of_valid h.valid
  rw [← h.screen.size] at hsize
  refine returns_bind.mpr ((Screen.returns_stateFormatted h.screen (by omega) (by omega)).mono fun bytes hlength => ?_)
  refine returns_pure.mpr ⟨_, if_neg (Nat.not_lt.mpr ?_)⟩
  rw [List.length_append]
  show 24 + _ ≤ 2097152
  have hrows : s.screen.size.rows * (86 * s.screen.size.cols + 59) =
      86 * (s.screen.size.rows * s.screen.size.cols) + 59 * s.screen.size.rows := by ring
  omega

end TerminalState

end MoshClient.Vt100
