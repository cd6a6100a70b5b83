import MoshClient.Theorems.Paint
import MoshClient.Theorems.Vt100.Grid
import MoshClient.Vt100.Screen

/-! Screens. Text is drawn without a panic, unless it is wider than the grid or wraps in a grid of one row. No other
    control function panics, and each leaves a screen of the same size. -/

namespace MoshClient.Vt100
open Checked

/-! ### Text -/

namespace UnicodeWidth

variable (unicode : UnicodeWidth)

theorem terminalWidth_space : unicode.terminalWidth ' ' = some 1 := by
  have hwide : inRanges ' '.toNat wideOverrides = false := by decide
  have hnarrow : inRanges ' '.toNat narrowOverrides = false := by decide
  simp only [terminalWidth, hwide, hnarrow, unicode.space]
  decide

theorem terminalWidth_le (c : Char) {columns : Nat} (h : unicode.terminalWidth c = some columns) : columns ≤ 2 := by
  simp only [terminalWidth] at h
  split at h
  · cases h
    decide
  · split at h
    · cases h
      decide
    · split at h
      · cases h
        decide
      · exact unicode.le_two c columns h

/-- The columns of a character that is drawn. -/
def columns (c : Char) : Nat := (unicode.terminalWidth c).getD 1

theorem columns_eq {unicode : UnicodeWidth} {c : Char} {width : Nat} (h : unicode.terminalWidth c = some width) :
    unicode.columns c = width := by
  simp [columns, h]

theorem columns_le (c : Char) : unicode.columns c ≤ 2 := by
  unfold columns
  cases h : unicode.terminalWidth c with
  | none => decide
  | some columns => exact unicode.terminalWidth_le c h

end UnicodeWidth

namespace Grid

variable {g t : Grid} {row : Row} {attrs : Attrs} {unicode : UnicodeWidth}

/-- The grid with another row at the cursor. -/
def withRow (g : Grid) (row : Row) : Grid := { g with rows := g.rows.set g.pos.row row }

/-- The row at the cursor, whose cells from there on are free to change. -/
structure Freed (g : Grid) (n : Nat) (row : Row) : Prop where
  length : row.cells.length = g.size.cols
  loose : Loose row.cells g.pos.col n
  cells : ∀ cell ∈ row.cells, cell.Sound

theorem withRow_self (hrow : g.rows[g.pos.row]? = some row) : g.withRow row = g := by
  obtain ⟨hlt, rfl⟩ := List.getElem?_eq_some_iff.mp hrow
  unfold withRow
  rw [List.set_getElem_self hlt]

theorem Ready.getElem?_withRow (h : g.Ready) (row : Row) : (g.withRow row).rows[g.pos.row]? = some row := by
  have hlt : g.pos.row < g.rows.length := h.length.symm ▸ h.row_lt
  exact List.getElem?_set_self hlt

theorem Ready.withRow (h : g.Ready) (hrow : row.Sound g.size.cols) : Redrawn g (g.withRow row) :=
  h.redrawn (forall_mem_set h.rows hrow) (List.length_set.trans h.length)

section Cells
variable {col : Nat} {Q : Cell → Prop} {R : Grid → Prop}

theorem returns_cell (h : g.Ready) :
    Returns ((g.withRow row).drawingCell ⟨g.pos.row, col⟩) Q ↔ ∃ cell, row.cells[col]? = some cell ∧ Q cell :=
  returns_drawingCell (h.getElem?_withRow row)

theorem returns_rowMut (h : g.Ready) {change : Row → Except Fault Row} :
    Returns ((g.withRow row).drawingRowMut g.pos.row change) R ↔ Returns (change row) fun next => R (g.withRow next) := by
  simp only [drawingRowMut, returns_bind, returns_drawingRow, returns_pure]
  constructor
  · rintro ⟨other, hother, hreturns⟩
    cases (h.getElem?_withRow row).symm.trans hother
    exact hreturns.mono fun next hnext => by simpa [withRow, List.set_set] using hnext
  · intro hreturns
    exact ⟨row, h.getElem?_withRow row, hreturns.mono fun next hnext => by simpa [withRow, List.set_set] using hnext⟩

theorem returns_cellMut (h : g.Ready) {change : Cell → Except Fault Cell} :
    Returns ((g.withRow row).drawingCellMut ⟨g.pos.row, col⟩ change) R ↔
      ∃ cell, row.cells[col]? = some cell ∧
        Returns (change cell) fun next => R (g.withRow { row with cells := row.cells.set col next }) := by
  refine (returns_rowMut h).trans ?_
  simp only [returns_bind, returns_unwrap, returns_pure]

end Cells

theorem Freed.exists_cell {n col : Nat} (h : Freed g n row) (hcol : col < g.size.cols) :
    ∃ cell, row.cells[col]? = some cell ∧ cell.Sound := by
  obtain ⟨cell, hcell⟩ : ∃ cell, row.cells[col]? = some cell := Row.exists_cell (h.length.symm ▸ hcol)
  exact ⟨cell, hcell, h.cells cell (List.mem_of_getElem? hcell)⟩

/-- The cell at the cursor is freed when it is a second half. -/
theorem returns_clearFirstHalf (h : g.Ready) (ha : attrs.Sound) (hrow : row.Sound g.size.cols)
    (hcol : g.pos.col < g.size.cols) :
    Returns ((g.withRow row).clearFirstHalf attrs) fun t => ∃ next, t = g.withRow next ∧
      (Freed g 1 next ∧ wideAt next.cells g.pos.col = false ∨
        next = row ∧ continuationAt row.cells g.pos.col = false) := by
  have hlt : g.pos.col < row.cells.length := hrow.length.symm ▸ hcol
  obtain ⟨cell, hcell⟩ := Row.exists_cell hlt
  have hcont : continuationAt row.cells g.pos.col = cell.isWideContinuation := flagAt_of_getElem? hcell
  refine returns_bind.mpr ((returns_cell h).mpr ⟨cell, hcell, returns_ite.mpr ⟨fun hc => ?_, fun hc => ?_⟩⟩)
  · rw [hc] at hcont
    obtain ⟨k, hk⟩ : ∃ k, g.pos.col = k + 1 := by
      refine Nat.exists_eq_succ_of_ne_zero fun hzero => ?_
      rw [hzero, hrow.paired.head] at hcont
      cases hcont
    have hprev : k < row.cells.length := by omega
    obtain ⟨prev, hget⟩ := Row.exists_cell hprev
    have hloose := hrow.paired.loosen_continuation (hk ▸ hcont) (prev.narrow_clear attrs)
    have hwide : wideAt row.cells g.pos.col = false := by
      by_contra hw
      rw [hrow.paired.once _ (eq_true_of_ne_false hw)] at hcont
      cases hcont
    have hpos : (g.withRow row).pos.col = k + 1 := hk
    refine returns_bind.mpr (returns_sub.mpr ⟨hpos ▸ Nat.succ_pos k, ?_⟩)
    rw [hpos, Nat.add_sub_cancel]
    refine (returns_cellMut h).mpr ⟨prev, hget, returns_pure.mpr ⟨_, rfl, Or.inl ⟨⟨?_, ?_, ?_⟩, ?_⟩⟩⟩
    · exact List.length_set.trans hrow.length
    · rw [hk]
      exact hloose
    · exact forall_mem_set hrow.cells (prev.sound_clear ha)
    · refine (flagAt_set hprev).trans ((if_neg ?_).trans hwide)
      omega
  · exact returns_pure.mpr ⟨row, rfl, Or.inr ⟨rfl, hcont.trans (Bool.eq_false_iff.mpr hc)⟩⟩

/-- The cell at the cursor is freed when it is a first half, or none. -/
theorem returns_clearSecondHalf (h : g.Ready) (ha : attrs.Sound) (hrow : row.Sound g.size.cols)
    (hcol : g.pos.col < g.size.cols) (hcont : continuationAt row.cells g.pos.col = false) :
    Returns ((g.withRow row).clearSecondHalf unicode attrs) fun t => ∃ next, t = g.withRow next ∧ Freed g 1 next := by
  have hlt : g.pos.col < row.cells.length := hrow.length.symm ▸ hcol
  obtain ⟨cell, hcell⟩ := Row.exists_cell hlt
  have hwide : wideAt row.cells g.pos.col = cell.isWide := flagAt_of_getElem? hcell
  refine returns_bind.mpr ((returns_cell h).mpr ⟨cell, hcell, returns_ite.mpr ⟨fun hw => ?_, fun hw => ?_⟩⟩)
  · obtain ⟨other, hother⟩ := Row.exists_cell (hrow.paired.lt_length (hwide.trans hw))
    refine (returns_cellMut h).mpr ⟨other, hother, (Cell.returns_set unicode other ' ' ha).mono ?_⟩
    rintro space ⟨hspace, hplain, hnarrow⟩
    rw [unicode.terminalWidth_space] at hnarrow
    refine ⟨_, rfl, List.length_set.trans hrow.length, ?_, forall_mem_set hrow.cells hspace⟩
    exact hrow.paired.loosen_wide (hwide.trans hw) ⟨hnarrow, hplain⟩
  · refine returns_pure.mpr ⟨row, rfl, hrow.length, ?_, hrow.cells⟩
    exact hrow.paired.loose (hwide.trans (Bool.eq_false_iff.mpr hw)) hcont

/-- Before a character is drawn, the other half of one that it covers is cleared. -/
theorem returns_clearHalves (h : g.Ready) (ha : attrs.Sound) (hcol : g.pos.col < g.size.cols) :
    Returns (g.clearFirstHalf attrs) fun t => Returns (t.clearSecondHalf unicode attrs) fun t =>
      ∃ row, t = g.withRow row ∧ Freed g 1 row := by
  obtain ⟨row, hrow, hsound⟩ := h.exists_row h.row_lt
  have hfirst := returns_clearFirstHalf h ha hsound hcol
  rw [withRow_self hrow] at hfirst
  refine hfirst.mono ?_
  rintro t ⟨next, rfl, ⟨hfreed, hwide⟩ | ⟨rfl, hcont⟩⟩
  · obtain ⟨cell, hcell, -⟩ := hfreed.exists_cell hcol
    have hnarrow : cell.isWide = false := (flagAt_of_getElem? hcell).symm.trans hwide
    refine returns_bind.mpr ((returns_cell h).mpr ⟨cell, hcell, returns_ite.mpr ⟨fun hw => ?_, fun _ => ?_⟩⟩)
    · rw [hnarrow] at hw
      cases hw
    · exact returns_pure.mpr ⟨next, rfl, hfreed⟩
  · exact returns_clearSecondHalf h ha hsound hcol hcont

/-- A character of one column. -/
theorem returns_put (h : g.Ready) (ha : attrs.Sound) (hcol : g.pos.col < g.size.cols) (hfreed : Freed g 1 row) {c : Char}
    (hwidth : unicode.columns c ≤ 1) :
    Returns ((g.withRow row).drawingCellMut g.pos fun cell => cell.set unicode c attrs) (Redrawn g) := by
  obtain ⟨cell, hcell, -⟩ := hfreed.exists_cell hcol
  refine (returns_cellMut h).mpr ⟨cell, hcell, (Cell.returns_set unicode cell c ha).mono ?_⟩
  rintro next ⟨hnext, hcont, hwide⟩
  refine h.withRow ⟨⟨?_, forall_mem_set hfreed.cells hnext⟩, List.length_set.trans hfreed.length⟩
  refine hfreed.loose.set (hfreed.length.symm ▸ hcol) ⟨hwide.trans (decide_eq_false ?_), hcont⟩
  exact Nat.not_lt.mpr hwidth

theorem colInc_pos (h : g.Ready) {n : Nat} (hcol : g.pos.col + n ≤ g.size.cols) : (g.colInc n).pos.col = g.pos.col + n := by
  have := h.cols_le
  show saturatingAdd g.pos.col n = g.pos.col + n
  unfold saturatingAdd
  omega

theorem Ready.colInc (h : g.Ready) {n : Nat} (hcol : g.pos.col + n ≤ g.size.cols) : (g.colInc n).Ready :=
  h.withPos h.row_lt ((colInc_pos h hcol).symm ▸ hcol)

/-- The cell behind a first half is freed. -/
theorem returns_clearNextHalf (h : g.Ready) (ha : attrs.Sound) (hcol : g.pos.col + 1 < g.size.cols)
    (hfreed : Freed g 1 row) (first : Cell) :
    Returns (((g.colInc 1).withRow { row with cells := row.cells.set g.pos.col first }).clearNextHalf attrs) fun t =>
      ∃ next, t = (g.colInc 1).withRow { next with cells := next.cells.set g.pos.col first } ∧ Freed g 2 next := by
  have hready := h.colInc (n := 1) (Nat.le_of_lt hcol)
  have hpos : (g.colInc 1).pos.col = g.pos.col + 1 := colInc_pos h (Nat.le_of_lt hcol)
  obtain ⟨cell, hcell, -⟩ := hfreed.exists_cell hcol
  have hwide : wideAt row.cells (g.pos.col + 1) = cell.isWide := flagAt_of_getElem? hcell
  have hget : (row.cells.set g.pos.col first)[(g.colInc 1).pos.col]? = some cell := by
    rw [hpos, List.getElem?_set_ne (by omega), hcell]
  refine returns_bind.mpr ((returns_cell hready).mpr ⟨cell, hget, returns_ite.mpr ⟨fun hw => ?_, fun hw => ?_⟩⟩)
  · have hlt : g.pos.col + 2 < row.cells.length :=
      lt_length_of_flagAt ((hfreed.loose.next (g.pos.col + 1) (Or.inr (Nat.le_refl _))).trans (hwide.trans hw))
    obtain ⟨other, hother⟩ := Row.exists_cell hlt
    have hnext (wrapped : Bool) : Freed g 2 ⟨row.cells.set (g.pos.col + 2) (other.clear attrs), wrapped⟩ :=
      ⟨List.length_set.trans hfreed.length, hfreed.loose.extend_wide (hwide.trans hw) (other.narrow_clear attrs),
        forall_mem_set hfreed.cells (other.sound_clear ha)⟩
    have hcomm := row.cells.set_comm (i := g.pos.col) (j := g.pos.col + 2) first (other.clear attrs) (by omega)
    have hcol' : ((g.colInc 1).withRow { row with cells := row.cells.set g.pos.col first }).pos.col + 1 = g.pos.col + 2 := by
      show (g.colInc 1).pos.col + 1 = _
      rw [hpos]
    refine returns_bind.mpr ((returns_cellMut hready).mpr ⟨other, ?_, returns_pure.mpr ?_⟩)
    · rw [hcol', List.getElem?_set_ne (by omega), hother]
    · rw [hcol', hcomm]
      refine returns_bind.mpr (returns_sub.mpr ⟨h.cols_pos, returns_ite.mpr ⟨fun _ => ?_, fun _ => ?_⟩⟩)
      · exact (returns_rowMut hready).mpr (returns_pure.mpr ⟨_, rfl, hnext false⟩)
      · exact returns_pure.mpr ⟨_, rfl, hnext row.wrapped⟩
  · refine returns_pure.mpr ⟨row, rfl, hfreed.length, ?_, hfreed.cells⟩
    exact hfreed.loose.extend (hwide.trans (Bool.eq_false_iff.mpr hw))

/-- A wide character, first and second half. -/
theorem returns_continueWide (h : g.Ready) (ha : attrs.Sound) (hcol : g.pos.col + 1 < g.size.cols)
    (hfreed : Freed g 1 row) {first : Cell} (hsound : first.Sound)
    (hfirst : first.isWide = true ∧ first.isWideContinuation = false) :
    Returns (((g.colInc 1).withRow { row with cells := row.cells.set g.pos.col first }).continueWide attrs) fun t =>
      t.Ready ∧ t.size = g.size := by
  have hready := h.colInc (n := 1) (Nat.le_of_lt hcol)
  have hpos : (g.colInc 1).pos.col = g.pos.col + 1 := colInc_pos h (Nat.le_of_lt hcol)
  refine returns_bind.mpr ((returns_clearNextHalf h ha hcol hfreed first).mono ?_)
  rintro t ⟨next, rfl, hnext⟩
  obtain ⟨cell, hcell, -⟩ := hnext.exists_cell hcol
  have hget : (next.cells.set g.pos.col first)[(g.colInc 1).pos.col]? = some cell := by
    rw [hpos, List.getElem?_set_ne (by omega), hcell]
  refine returns_bind.mpr ((returns_cellMut hready).mpr ⟨cell, hget, returns_pure.mpr (returns_pure.mpr ?_)⟩)
  have hpair : Redrawn (g.colInc 1) ((g.colInc 1).withRow
      ⟨(next.cells.set g.pos.col first).set (g.colInc 1).pos.col ((cell.clear .default).setWideContinuation true),
        next.wrapped⟩) := by
    refine hready.withRow ⟨⟨?_, ?_⟩, ?_⟩
    · rw [hpos]
      exact hnext.loose.set_pair (hnext.length.symm ▸ hcol) hfirst ⟨rfl, rfl⟩
    · exact forall_mem_set (forall_mem_set hnext.cells hsound)
        ((cell.sound_clear Attrs.sound_default).setWideContinuation true)
    · rw [List.length_set, List.length_set, hnext.length]
      rfl
  refine ⟨hpair.ready.colInc ?_, hpair.size⟩
  show (g.colInc 1).pos.col + 1 ≤ g.size.cols
  omega

theorem returns_draw (h : g.Ready) (ha : attrs.Sound) {c : Char} (hpos : 1 ≤ unicode.columns c)
    (hcol : g.pos.col + unicode.columns c ≤ g.size.cols) :
    Returns (g.draw unicode (unicode.columns c) attrs c) fun t => t.Ready ∧ t.size = g.size := by
  have hle := unicode.columns_le c
  have hlt : g.pos.col < g.size.cols := by omega
  refine returns_bind.mpr ((returns_clearHalves h ha hlt).mono fun t ht => returns_bind.mpr (ht.mono ?_))
  rintro t ⟨row, rfl, hfreed⟩
  by_cases hwide : unicode.columns c > 1
  · obtain ⟨cell, hcell, -⟩ := hfreed.exists_cell hlt
    refine returns_bind.mpr ((returns_cellMut h).mpr ⟨cell, hcell, (Cell.returns_set unicode cell c ha).mono ?_⟩)
    rintro first ⟨hsound, hcont, hfirst⟩
    rw [if_pos hwide]
    exact returns_continueWide h ha (by omega) hfreed hsound ⟨hfirst.trans (decide_eq_true hwide), hcont⟩
  · refine returns_bind.mpr ((returns_put h ha hlt hfreed (Nat.le_of_not_lt hwide)).mono fun t ht => ?_)
    rw [if_neg hwide]
    refine returns_pure.mpr ⟨ht.ready.colInc ?_, ht.size⟩
    rw [ht.pos, ht.size]
    omega

/-! ### Combining -/

/-- A scalar joins a cell, or the first half that the cell is the second half of. -/
theorem returns_join (h : g.Ready) {r col : Nat} (hr : r < g.size.rows) (hcol : col < g.size.cols) (c : Char) :
    Returns (g.drawingCellMut ⟨r, col⟩ (·.append c)) (Redrawn g) := by
  refine returns_drawingRowMut h hr fun row hrow hsound => ?_
  obtain ⟨cell, hcell⟩ := hsound.exists_cell hcol
  refine returns_bind.mpr (returns_unwrap.mpr ⟨cell, hcell, returns_bind.mpr ?_⟩)
  refine (Cell.returns_append (hsound.getElem? hcell) c).mono ?_
  rintro next ⟨hnext, hwide, hcont⟩
  exact returns_pure.mpr ⟨⟨hsound.paired.set hcell hwide hcont, forall_mem_set hsound.cells hnext⟩,
    List.length_set.trans hsound.length⟩

/-- The character before `col`, which may be wide, takes the scalar. -/
theorem returns_joinBefore (h : g.Ready) {r col : Nat} (hr : r < g.size.rows) (hpos : 1 ≤ col) (hcol : col ≤ g.size.cols)
    (c : Char) {R : Grid → Prop} (hR : ∀ t, Redrawn g t → R t) :
    Returns (do
      let prev ← Checked.sub col 1
      let prevCell ← g.drawingCell ⟨r, prev⟩
      let prev ← if prevCell.isWideContinuation then Checked.sub col 2 else pure prev
      g.drawingCellMut ⟨r, prev⟩ (·.append c)) R := by
  obtain ⟨row, hrow, hsound⟩ := h.exists_row hr
  have hlt : col - 1 < row.cells.length := by
    rw [hsound.length]
    omega
  obtain ⟨cell, hcell⟩ := Row.exists_cell hlt
  refine returns_bind.mpr (returns_sub.mpr ⟨hpos, returns_bind.mpr ?_⟩)
  refine (returns_drawingCell hrow).mpr ⟨cell, hcell, returns_ite.mpr ⟨fun hcont => ?_, fun _ => ?_⟩⟩
  · have hat : continuationAt row.cells (col - 1) = true := (flagAt_of_getElem? hcell).trans hcont
    have htwo : 2 ≤ col := by
      by_contra hone
      rw [show col - 1 = 0 by omega, hsound.paired.head] at hat
      cases hat
    exact returns_bind.mpr (returns_sub.mpr ⟨htwo, (returns_join h hr (by omega) c).mono hR⟩)
  · exact (returns_join h hr (by omega) c).mono hR

theorem returns_combine (h : g.Ready) (c : Char) : Returns (g.combine c) fun t => t.Ready ∧ t.size = g.size := by
  refine returns_ite.mpr ⟨fun hcol => ?_, fun _ => returns_ite.mpr ⟨fun hrow => ?_, fun _ => ?_⟩⟩
  · exact returns_joinBefore h h.row_lt hcol h.col_le c fun t ht => ht.keeps
  · have hr : g.pos.row - 1 < g.size.rows := Nat.lt_of_le_of_lt (Nat.sub_le _ _) h.row_lt
    obtain ⟨row, hget, -⟩ := h.exists_row hr
    refine returns_bind.mpr (returns_sub.mpr ⟨hrow, returns_bind.mpr (returns_drawingRow.mpr ⟨row, hget, ?_⟩)⟩)
    refine returns_ite.mpr ⟨fun _ => ?_, fun _ => returns_pure.mpr ⟨h, rfl⟩⟩
    exact returns_joinBefore h hr h.cols_pos (Nat.le_refl _) c fun t ht => ht.keeps
  · exact returns_pure.mpr ⟨h, rfl⟩

/-! ### Text -/

/-- A character of `columns` columns has room: in its row, or in a next one. -/
structure Fits (g : Grid) (columns : Nat) : Prop where
  width : columns ≤ g.size.cols
  wraps : g.Wraps columns → 2 ≤ g.size.rows

/-- A control character is not drawn. -/
def Invisible (unicode : UnicodeWidth) (c : Char) : Prop := unicode.terminalWidth c = none ∧ c.toNat < 256

theorem returns_endsInText (h : g.Ready) {columns : Nat} (hwidth : columns ≤ g.size.cols) :
    Returns (g.endsInText columns) fun _ => True := by
  have hcols := h.cols_pos
  obtain ⟨row, hrow, hsound⟩ := h.exists_row h.row_lt
  obtain ⟨cell, hcell⟩ := hsound.exists_cell (Nat.sub_lt hcols Nat.one_pos)
  refine returns_bind.mpr (returns_sub.mpr ⟨hwidth, returns_ite.mpr ⟨fun _ => ?_, fun _ => returns_pure.mpr trivial⟩⟩)
  refine returns_bind.mpr (returns_sub.mpr ⟨hcols, returns_bind.mpr ?_⟩)
  exact (returns_drawingCell hrow).mpr ⟨cell, hcell, returns_pure.mpr trivial⟩

theorem text_of_invisible {c : Char} (hc : Invisible unicode c) : g.text unicode attrs c = .ok g := by
  unfold text
  rw [if_pos (by simp [hc.1, hc.2])]
  rfl

theorem text_of_visible {c : Char} (hc : ¬Invisible unicode c) :
    g.text unicode attrs c = g.endsInText (unicode.columns c) >>= fun wrap =>
      g.colWrap (unicode.columns c) wrap >>= fun t =>
        if unicode.columns c = 0 then t.combine c else t.draw unicode (unicode.columns c) attrs c := by
  unfold text
  rw [if_neg fun hand => hc (by simpa [Invisible] using hand)]
  rfl

theorem text_of_width {c : Char} {width : Nat} (h : unicode.terminalWidth c = some width) :
    g.text unicode attrs c = g.endsInText width >>= fun wrap =>
      g.colWrap width wrap >>= fun t => if width = 0 then t.combine c else t.draw unicode width attrs c := by
  rw [text_of_visible (by simp [Invisible, h]), UnicodeWidth.columns_eq h]

theorem returns_text (h : g.Ready) (ha : attrs.Sound) {c : Char}
    (hfits : ¬Invisible unicode c → g.Fits (unicode.columns c)) :
    Returns (g.text unicode attrs c) fun t => t.Ready ∧ t.size = g.size := by
  by_cases hc : Invisible unicode c
  · rw [text_of_invisible hc]
    exact returns_ok.mpr ⟨h, rfl⟩
  · obtain ⟨hwidth, hwraps⟩ := hfits hc
    rw [text_of_visible hc]
    refine returns_bind.mpr ((returns_endsInText h hwidth).mono fun wrap _ => returns_bind.mpr ?_)
    refine (returns_colWrap h wrap hwidth hwraps).mono ?_
    rintro t ⟨ht, hsize, hcol⟩
    refine returns_ite.mpr ⟨fun _ => ?_, fun hzero => ?_⟩
    · exact (returns_combine ht c).mono fun u hu => ⟨hu.1, hu.2.trans hsize⟩
    · rw [← hsize] at hcol
      exact (returns_draw ht ha (Nat.one_le_iff_ne_zero.mpr hzero) hcol).mono fun u hu => ⟨hu.1, hu.2.trans hsize⟩

/-- A character without room panics. -/
theorem not_returns_text (h : g.Ready) {c : Char} (hc : ¬Invisible unicode c) (hfits : ¬g.Fits (unicode.columns c))
    (Q : Grid → Prop) : ¬Returns (g.text unicode attrs c) Q := by
  rw [text_of_visible hc]
  intro hreturns
  obtain ⟨wrap, -, hreturns⟩ := returns_bind.mp hreturns
  refine not_returns_colWrap h wrap ?_ _ (returns_bind.mp hreturns)
  by_contra hnot
  rw [not_or, not_and] at hnot
  refine hfits ⟨Nat.le_of_not_lt hnot.1, fun hwraps => ?_⟩
  have := hnot.2 hwraps
  have := h.rows_pos
  omega

end Grid

/-! ### Screens -/

/-- Both grids have the size of the screen, and the one that is shown has its rows. -/
structure Screen.Sound (s : Screen) : Prop where
  grid : s.grid.Ready
  alternate : s.alternateGrid.Sound
  size_eq : s.alternateGrid.size = s.grid.size
  allocated : s.alternateGrid.rows = [] ∨ s.alternateGrid.rows.length = s.alternateGrid.size.rows
  shown : s.modes.mode .alternateScreen = true → s.alternateGrid.rows.length = s.alternateGrid.size.rows
  attrs : s.attrs.Sound
  savedAttrs : s.savedAttrs.Sound

namespace Screen

variable {s t : Screen}

theorem Sound.active (h : s.Sound) : s.activeGrid.Ready := by
  unfold activeGrid
  split
  · exact { h.alternate with length := h.shown ‹_› }
  · exact h.grid

theorem Sound.size (h : s.Sound) : s.size = s.grid.size := by
  unfold Screen.size activeGrid
  split
  · exact h.size_eq
  · rfl

/-- A control function returns, and leaves a screen of the same size. -/
def Keeps (op : Screen → Except Fault Screen) : Prop :=
  ∀ s, s.Sound → Returns (op s) fun t => t.Sound ∧ t.grid.size = s.grid.size

/-- The same, for one that may call `unhandled`. -/
def KeepsFlagged (op : Screen → Except Fault (Screen × Bool)) : Prop :=
  ∀ s, s.Sound → Returns (op s) fun result => result.1.Sound ∧ result.1.grid.size = s.grid.size

theorem Keeps.bind {op next : Screen → Except Fault Screen} (hop : Keeps op) (hnext : Keeps next) :
    Keeps fun s => op s >>= next := by
  intro s h
  exact returns_bind.mpr ((hop s h).mono fun t ht => (hnext t ht.1).mono fun u hu => ⟨hu.1, hu.2.trans ht.2⟩)

theorem Keeps.flagged {op : Screen → Except Fault Screen} (hop : Keeps op) :
    KeepsFlagged fun s => do return (← op s, false) :=
  fun s h => returns_bind.mpr ((hop s h).mono fun _ ht => returns_pure.mpr ht)

theorem Sound.returns_gridMut (h : s.Sound) {change : Grid → Except Fault Grid}
    (hchange : Returns (change s.activeGrid) fun g => g.Ready ∧ g.size = s.activeGrid.size) :
    Returns (s.gridMut change) fun t => t.Sound ∧ t.grid.size = s.grid.size := by
  refine returns_bind.mpr (hchange.mono ?_)
  rintro g ⟨hg, hsize⟩
  refine returns_pure.mpr ?_
  unfold activeGrid at hsize
  split
  · rw [if_pos ‹_›] at hsize
    exact ⟨{ h with
      alternate := hg.toSound, size_eq := hsize.trans h.size_eq, allocated := Or.inr hg.length,
      shown := fun _ => hg.length }, rfl⟩
  · rw [if_neg ‹_›] at hsize
    exact ⟨{ h with grid := hg, size_eq := h.size_eq.trans hsize.symm }, hsize⟩

theorem keeps_gridMut {change : Grid → Except Fault Grid} (hchange : Grid.Keeps change) : Keeps (·.gridMut change) :=
  fun _ h => h.returns_gridMut (hchange _ h.active)

/-- What is changed depends on the attributes. -/
theorem keeps_gridMut_attrs {change : Attrs → Grid → Except Fault Grid}
    (hchange : ∀ attrs : Attrs, attrs.Sound → Grid.Keeps (change attrs)) : Keeps fun s => s.gridMut (change s.attrs) :=
  fun _ h => h.returns_gridMut (hchange _ h.attrs _ h.active)

/-! ### Text -/

theorem returns_text (h : s.Sound) {unicode : UnicodeWidth} {c : Char}
    (hfits : ¬Grid.Invisible unicode c → s.activeGrid.Fits (unicode.columns c)) :
    Returns (s.text unicode c) fun t => t.Sound ∧ t.grid.size = s.grid.size :=
  h.returns_gridMut (Grid.returns_text h.active h.attrs hfits)

theorem not_returns_text (h : s.Sound) {unicode : UnicodeWidth} {c : Char} (hc : ¬Grid.Invisible unicode c)
    (hfits : ¬s.activeGrid.Fits (unicode.columns c)) (Q : Screen → Prop) : ¬Returns (s.text unicode c) Q :=
  fun hreturns => Grid.not_returns_text h.active hc hfits _ (returns_bind.mp hreturns)

/-! ### Control functions -/

theorem keeps_saveCursor : Keeps saveCursor := by
  intro s h
  refine returns_bind.mpr ((keeps_gridMut Grid.keeps_saveCursor s h).mono fun t ht => returns_pure.mpr ?_)
  exact ⟨{ ht.1 with savedAttrs := ht.1.attrs }, ht.2⟩

theorem keeps_restoreCursor : Keeps restoreCursor := by
  intro s h
  refine returns_bind.mpr ((keeps_gridMut Grid.keeps_restoreCursor s h).mono fun t ht => returns_pure.mpr ?_)
  exact ⟨{ ht.1 with attrs := ht.1.savedAttrs }, ht.2⟩

theorem returns_new {size : Size} (hrows : 1 ≤ size.rows) (hrows' : size.rows ≤ u16Max) (hcols : 1 ≤ size.cols)
    (hcols' : size.cols ≤ u16Max) : Returns (Screen.new size) fun s => s.Sound ∧ s.grid.size = size := by
  refine returns_bind.mpr ((Grid.sound_new hrows hrows' hcols hcols').mono ?_)
  rintro grid ⟨hgrid, hsize, hempty⟩
  refine returns_bind.mpr ((Grid.sound_new hrows hrows' hcols hcols').mono ?_)
  rintro alternate ⟨halternate, hsize', hempty'⟩
  refine returns_pure.mpr ⟨⟨hgrid.allocateRows (Or.inl hempty), halternate, ?_, Or.inl hempty', ?_,
    Attrs.sound_default, Attrs.sound_default⟩, Grid.size_allocateRows.trans hsize⟩
  · exact hsize'.trans (Grid.size_allocateRows.trans hsize).symm
  · intro hmode
    exact absurd hmode (show ¬ScreenModes.new.mode .alternateScreen = true by decide)

theorem Sound.returns_setSize (h : s.Sound) {rows cols : Nat} (hrows : 1 ≤ rows) (hrows' : rows ≤ u16Max)
    (hcols : 1 ≤ cols) (hcols' : cols ≤ u16Max) (hcut : s.grid.CutsNothing cols) (hcut' : s.alternateGrid.CutsNothing cols) :
    Returns (s.setSize rows cols) fun t => t.Sound ∧ t.grid.size = ⟨rows, cols⟩ := by
  refine returns_bind.mpr ((h.grid.returns_setSize hrows hrows' hcols hcols' hcut).mono ?_)
  rintro grid ⟨hgrid, hsize⟩
  refine returns_bind.mpr ((h.alternate.returns_setSize hrows hrows' hcols hcols' hcut').mono ?_)
  rintro alternate ⟨halternate, hsize'⟩
  exact returns_pure.mpr ⟨⟨hgrid, halternate.toSound, hsize'.trans hsize.symm, Or.inr halternate.length,
    fun _ => halternate.length, h.attrs, h.savedAttrs⟩, hsize⟩

theorem keeps_ris : Keeps ris := by
  intro s h
  exact returns_new h.grid.rows_pos h.grid.rows_le h.grid.cols_pos h.grid.cols_le

theorem Sound.enterAlternateGrid (h : s.Sound) :
    s.enterAlternateGrid.Sound ∧ s.enterAlternateGrid.grid.size = s.grid.size := by
  have hready := h.alternate.allocateRows h.allocated
  refine ⟨{ h with
    alternate := hready.toSound, size_eq := Grid.size_allocateRows.trans h.size_eq, allocated := Or.inr hready.length,
    shown := fun _ => hready.length }, rfl⟩

/-- A change of modes that does not show another grid. -/
theorem Sound.withModes (h : s.Sound) {modes : ScreenModes}
    (hmodes : modes.mode .alternateScreen = true → s.modes.mode .alternateScreen = true) : { s with modes }.Sound :=
  { h with shown := fun hmode => h.shown (hmodes hmode) }

theorem Sound.setMode (h : s.Sound) {flag : ModeFlag} (hflag : flag ≠ .alternateScreen) : (s.setMode flag).Sound := by
  refine h.withModes fun hmode => ?_
  simpa [ScreenModes.mode_setMode, hflag] using hmode

theorem Sound.clearMode (h : s.Sound) (flag : ModeFlag) : (s.clearMode flag).Sound := by
  refine h.withModes fun hmode => ?_
  rw [ScreenModes.mode_clearMode, Bool.and_eq_true] at hmode
  exact hmode.2

theorem returns_withModes (h : s.Sound) {modes : ScreenModes} {flag : Bool}
    (hmodes : modes.mode .alternateScreen = true → s.modes.mode .alternateScreen = true) :
    Returns (pure ({ s with modes }, flag)) fun result => result.1.Sound ∧ result.1.grid.size = s.grid.size :=
  returns_pure.mpr ⟨h.withModes hmodes, rfl⟩

theorem mode_decset (m : ScreenModes) {param : Nat} (h : param ∈ [1, 5, 9, 25, 1000, 1002, 1003, 1005, 1006, 2004]) :
    (m.decset [param]).mode .alternateScreen = m.mode .alternateScreen := by
  simp only [List.mem_cons, List.not_mem_nil, or_false] at h
  have hmouse (mode : MouseProtocolMode) : (m.setMouseMode mode).mode .alternateScreen = m.mode .alternateScreen := rfl
  have hencoding (encoding : MouseProtocolEncoding) :
      (m.setMouseEncoding encoding).mode .alternateScreen = m.mode .alternateScreen := rfl
  rcases h with rfl | rfl | rfl | rfl | rfl | rfl | rfl | rfl | rfl | rfl <;>
    simp [ScreenModes.decset, ScreenModes.mode_setMode, ScreenModes.mode_clearMode, hmouse, hencoding]

theorem mode_decrst (m : ScreenModes) {param : Nat} (h : param ∈ [1, 5, 9, 25, 1000, 1002, 1003, 1005, 1006, 2004]) :
    (m.decrst [param]).mode .alternateScreen = m.mode .alternateScreen := by
  simp only [List.mem_cons, List.not_mem_nil, or_false] at h
  have hmouse (mode : MouseProtocolMode) : (m.clearMouseMode mode).mode .alternateScreen = m.mode .alternateScreen := by
    unfold ScreenModes.clearMouseMode
    split <;> rfl
  have hencoding (encoding : MouseProtocolEncoding) :
      (m.clearMouseEncoding encoding).mode .alternateScreen = m.mode .alternateScreen := by
    unfold ScreenModes.clearMouseEncoding
    split <;> rfl
  rcases h with rfl | rfl | rfl | rfl | rfl | rfl | rfl | rfl | rfl | rfl <;>
    simp [ScreenModes.decrst, ScreenModes.mode_setMode, ScreenModes.mode_clearMode, hmouse, hencoding]

theorem keeps_decsetParam (param : List Nat) : KeepsFlagged (·.decsetParam param) := by
  intro s h
  unfold decsetParam
  split
  · exact (keeps_gridMut (Grid.keeps_setOriginMode true)).flagged s h
  · exact returns_pure.mpr h.enterAlternateGrid
  · refine returns_bind.mpr ((keeps_saveCursor s h).mono ?_)
    rintro t ⟨ht, hsize⟩
    refine returns_bind.mpr (ht.alternate.returns_clear.mono ?_)
    rintro alternateGrid ⟨hclear, hclear', hlength⟩
    have hnext : { t with alternateGrid }.Sound := by
      refine { ht with
        alternate := hclear, size_eq := hclear'.trans ht.size_eq, allocated := ht.allocated.imp (fun hempty => ?_) ?_,
        shown := fun hmode => ?_ }
      · exact List.length_eq_zero_iff.mp (hlength.trans (List.length_eq_zero_iff.mpr hempty))
      · exact fun hrows => hlength.trans (hrows.trans (congrArg Size.rows hclear').symm)
      · exact hlength.trans ((ht.shown hmode).trans (congrArg Size.rows hclear').symm)
    exact returns_pure.mpr ⟨hnext.enterAlternateGrid.1, hnext.enterAlternateGrid.2.trans hsize⟩
  · refine returns_ite.mpr ⟨fun hparam => ?_, fun _ => returns_pure.mpr ⟨h, rfl⟩⟩
    exact returns_withModes h fun hmode => (mode_decset s.modes hparam).symm.trans hmode
  · exact returns_pure.mpr ⟨h, rfl⟩

theorem keeps_decrstParam (param : List Nat) : KeepsFlagged (·.decrstParam param) := by
  intro s h
  unfold decrstParam
  split
  · exact (keeps_gridMut (Grid.keeps_setOriginMode false)).flagged s h
  · exact returns_pure.mpr ⟨h.clearMode _, rfl⟩
  · exact keeps_restoreCursor.flagged _ (h.clearMode .alternateScreen)
  · refine returns_ite.mpr ⟨fun hparam => ?_, fun _ => returns_pure.mpr ⟨h, rfl⟩⟩
    exact returns_withModes h fun hmode => (mode_decrst s.modes hparam).symm.trans hmode
  · exact returns_pure.mpr ⟨h, rfl⟩

theorem keeps_forParams {handle : Screen → List Nat → Except Fault (Screen × Bool)}
    (hhandle : ∀ param, KeepsFlagged (handle · param)) (params : List (List Nat)) : KeepsFlagged (·.forParams handle params) := by
  intro s h
  refine Returns.foldlM (P := fun result : Screen × Bool => result.1.Sound ∧ result.1.grid.size = s.grid.size) ⟨h, rfl⟩ ?_
  rintro start param - ⟨hstart, hsize⟩
  refine returns_bind.mpr ((hhandle param start.1 hstart).mono fun next hnext => returns_pure.mpr ?_)
  exact ⟨hnext.1, hnext.2.trans hsize⟩

theorem keeps_ed (mode : Nat) : KeepsFlagged (·.ed mode) := by
  intro s h
  unfold ed
  split
  · exact (keeps_gridMut_attrs fun _ ha => Grid.keeps_eraseAllForward ha).flagged s h
  · exact (keeps_gridMut_attrs fun _ ha => Grid.keeps_eraseAllBackward ha).flagged s h
  · exact (keeps_gridMut_attrs fun _ ha => Grid.keeps_eraseAll ha).flagged s h
  · exact returns_pure.mpr ⟨h, rfl⟩

theorem keeps_el (mode : Nat) : KeepsFlagged (·.el mode) := by
  intro s h
  unfold el
  split
  · exact (keeps_gridMut_attrs fun _ ha => Grid.keeps_eraseRowForward ha).flagged s h
  · exact (keeps_gridMut_attrs fun _ ha => Grid.keeps_eraseRowBackward ha).flagged s h
  · exact (keeps_gridMut_attrs fun _ ha => Grid.keeps_eraseRow ha).flagged s h
  · exact returns_pure.mpr ⟨h, rfl⟩

end Screen

/-! ### Graphic rendition -/

namespace Attrs

theorem Sound.of_mode {attrs next : Attrs} (h : attrs.Sound) (hmode : next.mode = attrs.mode) : next.Sound := by
  unfold Sound intensity
  rw [hmode]
  exact h

theorem sound_setIntensity (attrs : Attrs) : attrs.setBold.Sound ∧ attrs.setDim.Sound ∧ attrs.setNormalIntensity.Sound := by
  have hall : ∀ mode : BitVec 8,
      (mode &&& ~~~textModeIntensity ||| textModeBold) &&& textModeIntensity ≠ textModeIntensity ∧
      (mode &&& ~~~textModeIntensity ||| textModeDim) &&& textModeIntensity ≠ textModeIntensity ∧
      (mode &&& ~~~textModeIntensity) &&& textModeIntensity ≠ textModeIntensity := by
    decide +kernel
  exact hall attrs.mode

/-- A flag beside the bits of the intensity leaves them alone. -/
theorem intensity_setFlag (attrs : Attrs) {bit : BitVec 8} (hbit : bit &&& textModeIntensity = 0) (on : Bool) :
    (attrs.setFlag bit on).intensity = attrs.intensity := by
  have hat (i : Nat) (hi : i < 8) : (bit[i] && textModeIntensity[i]) = false := by
    simpa using congrArg (·[i]) hbit
  refine BitVec.eq_of_getElem_eq fun i hi => ?_
  have := hat i hi
  cases on with
  | false => cases hb : bit[i] <;> simp_all [intensity, setFlag]
  | true => cases hb : bit[i] <;> simp_all [intensity, setFlag]

theorem Sound.setFlag {attrs : Attrs} (h : attrs.Sound) {bit : BitVec 8} (hbit : bit &&& textModeIntensity = 0) (on : Bool) :
    (attrs.setFlag bit on).Sound := by
  unfold Sound
  rw [intensity_setFlag attrs hbit]
  exact h

/-- A property of attributes that every change of a mode or of a colour keeps. -/
structure Rendition (Q : Attrs → Prop) : Prop where
  default : Q .default
  colors : ∀ {attrs next : Attrs}, Q attrs → next.mode = attrs.mode → Q next
  intensity : ∀ attrs : Attrs, Q attrs → Q attrs.setBold ∧ Q attrs.setDim ∧ Q attrs.setNormalIntensity
  flags : ∀ (attrs : Attrs) (on : Bool) {bit : BitVec 8}, Q attrs →
    bit ∈ [textModeItalic, textModeUnderline, textModeInverse, textModeBlink, textModeHidden] → Q (attrs.setFlag bit on)

theorem rendition_sound : Rendition Sound where
  default := sound_default
  colors := Sound.of_mode
  intensity := fun attrs _ => sound_setIntensity attrs
  flags := fun attrs on bit h hbit => by
    refine h.setFlag ?_ on
    revert bit
    decide

namespace Rendition

variable {Q : Attrs → Prop} {attrs next : Attrs}

theorem sgrNumber (hQ : Rendition Q) (h : Q attrs) {n : Nat} (hnext : attrs.sgrNumber n = .attrs next) : Q next := by
  obtain ⟨hbold, hdim, hnormal⟩ := hQ.intensity attrs h
  unfold Attrs.sgrNumber at hnext
  split at hnext
  -- The last case is that of the colours, by ranges.
  case h_17 => split_ifs at hnext <;> cases hnext <;> exact hQ.colors h rfl
  all_goals
    cases hnext
    first
      | exact hQ.default
      | exact hbold
      | exact hdim
      | exact hnormal
      | exact hQ.flags attrs _ h (by decide)
      | exact hQ.colors h rfl

theorem sgrParam (hQ : Rendition Q) (h : Q attrs) {param : List Nat} (hnext : attrs.sgrParam param = .attrs next) :
    Q next := by
  have hcolor {select : Color → Attrs} (hselect : ∀ color, (select color).mode = attrs.mode) {color : Option Color}
      (hnext : sgrColor select color = .attrs next) : Q next := by
    cases color with
    | none => cases hnext
    | some color =>
      cases hnext
      exact hQ.colors h (hselect color)
  unfold Attrs.sgrParam at hnext
  split at hnext
  case h_1 => exact hQ.sgrNumber h hnext
  case h_6 => cases hnext
  all_goals
    refine hcolor ?_ hnext
    intro color
    rfl

theorem sgrLoop (hQ : Rendition Q) (h : Q attrs) (params : List (List Nat)) (taken : Nat) (unhandled : Bool) :
    Q (Attrs.sgrLoop params taken (attrs, unhandled)).1 := by
  induction params generalizing taken attrs unhandled with
  | nil => cases taken <;> exact h
  | cons param params ih =>
    cases taken with
    | succ taken => exact ih h taken unhandled
    | zero =>
      unfold Attrs.sgrLoop
      split_ifs
      · split
        · refine ih ?_ _ _
          exact hQ.colors h rfl
        · exact h
      · split
        · refine ih ?_ _ _
          exact hQ.colors h rfl
        · exact h
      · split
        · rename_i hnext
          exact ih (hQ.sgrParam h hnext) _ _
        · exact ih h _ _
        · exact h

end Rendition

end Attrs

theorem Screen.keeps_sgr (params : List (List Nat)) : Screen.KeepsFlagged fun s => pure (s.sgr params) := by
  intro s h
  refine returns_pure.mpr ?_
  unfold Screen.sgr
  split
  · exact ⟨{ h with attrs := Attrs.sound_default }, rfl⟩
  · exact ⟨{ h with attrs := Attrs.rendition_sound.sgrLoop h.attrs params 0 false }, rfl⟩

end MoshClient.Vt100
