import MoshClient.Theorems.Vt100.Row

/-! Grids. The cursor and the scroll region stay within the rows, and every row has the width of the grid. On such a
    grid no operation panics but wrapping, which needs a second row. -/

namespace MoshClient.Vt100
open Checked

namespace Grid

variable {g t : Grid}

/-- The cursor may stand behind the last column, and only a grid of one row scrolls in its first row alone. -/
structure Sound (g : Grid) : Prop where
  rows_pos : 1 ≤ g.size.rows
  rows_le : g.size.rows ≤ u16Max
  cols_pos : 1 ≤ g.size.cols
  cols_le : g.size.cols ≤ u16Max
  row_lt : g.pos.row < g.size.rows
  col_le : g.pos.col ≤ g.size.cols
  saved_row_lt : g.savedPos.row < g.size.rows
  saved_col_le : g.savedPos.col ≤ g.size.cols
  top_le : g.scrollTop ≤ g.scrollBottom
  bottom_lt : g.scrollBottom < g.size.rows
  bottom_pos : 2 ≤ g.size.rows → 1 ≤ g.scrollBottom
  rows : ∀ row ∈ g.rows, row.Sound g.size.cols

/-- A grid that is drawn on has its rows. -/
structure Ready (g : Grid) : Prop extends g.Sound where
  length : g.rows.length = g.size.rows

/-- An operation returns, and leaves a grid of the same size to draw on. -/
def Keeps (op : Grid → Except Fault Grid) : Prop := ∀ g, g.Ready → Returns (op g) fun t => t.Ready ∧ t.size = g.size

/-- The rows have changed, and nothing else. -/
structure Redrawn (g t : Grid) : Prop where
  ready : t.Ready
  eq : t = { g with rows := t.rows }

theorem Redrawn.refl (h : g.Ready) : Redrawn g g := ⟨h, rfl⟩

theorem Redrawn.size (h : Redrawn g t) : t.size = g.size := by rw [h.eq]

theorem Redrawn.pos (h : Redrawn g t) : t.pos = g.pos := by rw [h.eq]

theorem Redrawn.trans {u : Grid} (h : Redrawn g t) (hu : Redrawn t u) : Redrawn g u :=
  ⟨hu.ready, hu.eq.trans (by rw [h.eq])⟩

theorem Redrawn.keeps (h : Redrawn g t) : t.Ready ∧ t.size = g.size := ⟨h.ready, h.size⟩

theorem Sound.withPos (h : g.Sound) {pos : Pos} (hrow : pos.row < g.size.rows) (hcol : pos.col ≤ g.size.cols) :
    { g with pos }.Sound :=
  { h with row_lt := hrow, col_le := hcol }

theorem Ready.withPos (h : g.Ready) {pos : Pos} (hrow : pos.row < g.size.rows) (hcol : pos.col ≤ g.size.cols) :
    { g with pos }.Ready :=
  { h.toSound.withPos hrow hcol with length := h.length }

theorem Ready.redrawn (h : g.Ready) {rows : List Row} (hrows : ∀ row ∈ rows, row.Sound g.size.cols)
    (hlength : rows.length = g.size.rows) : Redrawn g { g with rows } :=
  ⟨{ h with rows := hrows, length := hlength }, rfl⟩

/-! ### Clamping -/

section Clamp
variable {region : Bool} {Q : Nat × Grid → Prop} {R : Grid → Prop}

/-- The first row that the cursor may stand in. -/
def firstRow (g : Grid) (region : Bool) : Nat := if region then g.scrollTop else 0

/-- The last row that the cursor may stand in. -/
def lastRow (g : Grid) (region : Bool) : Nat := if region then g.scrollBottom else g.size.rows - 1

theorem returns_rowClampTop
    (hQ : Q (g.firstRow region - g.pos.row, { g with pos.row := max g.pos.row (g.firstRow region) })) :
    Returns (g.rowClampTop region) Q := by
  cases region with
  | false => simpa [rowClampTop, firstRow] using hQ
  | true =>
    by_cases h : g.pos.row < g.scrollTop
    · have hle := Nat.le_of_lt h
      simpa [rowClampTop, firstRow, h, hle, Nat.max_eq_right hle] using hQ
    · have hle := Nat.le_of_not_lt h
      simpa [rowClampTop, firstRow, h, Nat.max_eq_left hle, Nat.sub_eq_zero_of_le hle] using hQ

theorem returns_rowClampBottom (hrows : 1 ≤ g.size.rows)
    (hQ : Q (g.pos.row - g.lastRow region, { g with pos.row := min g.pos.row (g.lastRow region) })) :
    Returns (g.rowClampBottom region) Q := by
  have hclamp {bottom : Nat} (hQ : Q (g.pos.row - bottom, { g with pos.row := min g.pos.row bottom })) :
      Returns (if g.pos.row > bottom then do
        let rows ← Checked.sub g.pos.row bottom
        return (rows, { g with pos.row := bottom })
      else return (0, g)) Q := by
    by_cases h : g.pos.row > bottom
    · have hle := Nat.le_of_lt h
      simpa [h, hle, Nat.min_eq_right hle] using hQ
    · have hle := Nat.le_of_not_lt h
      simpa [h, Nat.min_eq_left hle, Nat.sub_eq_zero_of_le hle] using hQ
  cases region with
  | false => exact returns_bind.mpr (returns_sub.mpr ⟨hrows, hclamp hQ⟩)
  | true => exact hclamp hQ

theorem returns_rowClamp (hrows : 1 ≤ g.size.rows) (hR : R { g with pos.row := min g.pos.row (g.size.rows - 1) }) :
    Returns g.rowClamp R := returns_bind.mpr (returns_sub.mpr ⟨hrows, returns_pure.mpr hR⟩)

theorem returns_colClamp (hcols : 1 ≤ g.size.cols) (hR : R { g with pos.col := min g.pos.col (g.size.cols - 1) }) :
    Returns g.colClamp R := returns_bind.mpr (returns_sub.mpr ⟨hcols, returns_pure.mpr hR⟩)

theorem Sound.firstRow_lt (h : g.Sound) (region : Bool) : g.firstRow region < g.size.rows := by
  have := h.top_le
  have := h.bottom_lt
  cases region <;> simp only [firstRow, Bool.false_eq_true, if_false, if_true] <;> omega

theorem Sound.lastRow_lt (h : g.Sound) (region : Bool) : g.lastRow region < g.size.rows := by
  have := h.bottom_lt
  have := h.rows_pos
  cases region <;> simp only [lastRow, Bool.false_eq_true, if_false, if_true] <;> omega

end Clamp

/-! ### The cursor -/

theorem keeps_saveCursor : Keeps fun g => pure g.saveCursor := by
  intro g h
  exact returns_pure.mpr ⟨{ h with saved_row_lt := h.row_lt, saved_col_le := h.col_le }, rfl⟩

theorem keeps_restoreCursor : Keeps fun g => pure g.restoreCursor := by
  intro g h
  exact returns_pure.mpr ⟨{ h with row_lt := h.saved_row_lt, col_le := h.saved_col_le }, rfl⟩

theorem keeps_setPos (pos : Pos) : Keeps (·.setPos pos) := by
  intro g h
  have hlast := h.lastRow_lt g.originMode
  have hcols := h.cols_pos
  refine returns_bind.mpr (returns_rowClampTop (returns_bind.mpr (returns_rowClampBottom h.rows_pos ?_)))
  refine returns_colClamp h.cols_pos ⟨h.withPos ?_ ?_, rfl⟩
  · exact Nat.lt_of_le_of_lt (Nat.min_le_right _ _) hlast
  · simp only
    omega

theorem keeps_setOriginMode (mode : Bool) : Keeps (·.setOriginMode mode) := by
  intro g h
  exact keeps_setPos ⟨0, 0⟩ { g with originMode := mode } { h with }

theorem keeps_setScrollRegion (top bottom : Nat) : Keeps (·.setScrollRegion top bottom) := by
  intro g h
  have hrows := h.rows_pos
  unfold setScrollRegion
  rw [returns_bind, returns_sub, returns_pure]
  refine ⟨hrows, ?_⟩
  split
  · refine ⟨{ h with row_lt := ?_, col_le := Nat.zero_le _, top_le := ?_, bottom_lt := ?_, bottom_pos := ?_ }, rfl⟩
      <;> simp only <;> omega
  · refine ⟨{ h with row_lt := ?_, col_le := Nat.zero_le _, top_le := Nat.zero_le _, bottom_lt := ?_, bottom_pos := ?_ }, rfl⟩
      <;> simp only <;> omega

theorem keeps_rowSet (i : Nat) : Keeps (·.rowSet i) := by
  intro g h
  have hrows := h.rows_pos
  refine returns_rowClamp h.rows_pos ⟨h.withPos ?_ h.col_le, rfl⟩
  simp only
  omega

theorem keeps_colSet (i : Nat) : Keeps (·.colSet i) := by
  intro g h
  have hcols := h.cols_pos
  refine returns_colClamp h.cols_pos ⟨h.withPos h.row_lt ?_, rfl⟩
  simp only
  omega

theorem keeps_colIncClamp (count : Nat) : Keeps (·.colIncClamp count) := by
  intro g h
  exact keeps_colSet _ g h

theorem keeps_colDec (count : Nat) : Keeps fun g => pure (g.colDec count) := by
  intro g h
  have hcol := h.col_le
  refine returns_pure.mpr ⟨h.withPos h.row_lt ?_, rfl⟩
  simp only
  omega

theorem keeps_colTab : Keeps colTab := by
  intro g h
  unfold colTab
  rw [returns_bind, returns_sub]
  exact ⟨Nat.mod_le _ _, keeps_colSet _ g h⟩

theorem keeps_rowIncClamp (count : Nat) : Keeps (·.rowIncClamp count) := by
  intro g h
  have hlast := h.lastRow_lt g.inScrollRegion
  refine returns_bind.mpr (returns_rowClampBottom h.rows_pos ?_)
  exact returns_pure.mpr ⟨h.withPos (Nat.lt_of_le_of_lt (Nat.min_le_right _ _) hlast) h.col_le, rfl⟩

theorem keeps_rowDecClamp (count : Nat) : Keeps (·.rowDecClamp count) := by
  intro g h
  have hfirst := h.firstRow_lt g.inScrollRegion
  have hrow := h.row_lt
  refine returns_bind.mpr (returns_rowClampTop ?_)
  refine returns_pure.mpr ⟨h.withPos (Nat.max_lt.mpr ⟨?_, hfirst⟩) h.col_le, rfl⟩
  simp only
  omega

/-! ### Rows -/

section Rows
variable {r : Nat} {change : Row → Except Fault Row} {attrs : Attrs}

theorem Ready.exists_row (h : g.Ready) (hr : r < g.size.rows) : ∃ row, g.rows[r]? = some row ∧ row.Sound g.size.cols := by
  have hlt : r < g.rows.length := h.length.symm ▸ hr
  exact ⟨g.rows[r], List.getElem?_eq_getElem hlt, h.rows _ (List.getElem_mem hlt)⟩

theorem returns_drawingRow {Q : Row → Prop} : Returns (g.drawingRow r) Q ↔ ∃ row, g.rows[r]? = some row ∧ Q row :=
  returns_unwrap

theorem returns_drawingRowMut (h : g.Ready) (hr : r < g.size.rows)
    (hchange : ∀ row, g.rows[r]? = some row → row.Sound g.size.cols → Returns (change row) (Row.Sound g.size.cols)) :
    Returns (g.drawingRowMut r change) (Redrawn g) := by
  obtain ⟨row, hrow, hsound⟩ := h.exists_row hr
  refine returns_bind.mpr (returns_drawingRow.mpr ⟨row, hrow, returns_bind.mpr ?_⟩)
  refine (hchange row hrow hsound).mono fun changed hchanged => returns_pure.mpr ?_
  exact h.redrawn (forall_mem_set h.rows hchanged) (List.length_set.trans h.length)

theorem returns_currentRowMut (h : g.Ready)
    (hchange : ∀ row, g.rows[g.pos.row]? = some row → row.Sound g.size.cols → Returns (change row) (Row.Sound g.size.cols)) :
    Returns (g.currentRowMut change) fun t => t.Ready ∧ t.size = g.size :=
  (returns_drawingRowMut h h.row_lt hchange).mono fun _ ht => ht.keeps

/-- Erasing cells of a row, up to `stop`. -/
theorem returns_eraseRange {row : Row} {cols start stop : Nat} (h : row.Sound cols) (hcols : cols ≤ u16Max)
    (ha : attrs.Sound) (hle : start ≤ stop) (hstop : stop ≤ cols) :
    Returns (forRange start stop (fun col row => row.erase col attrs) row) (Row.Sound cols) :=
  Returns.forRange (P := fun _ row => Row.Sound cols row) h hle fun _ _ hi hrow =>
    Row.returns_erase hrow (Nat.lt_of_lt_of_le hi hstop) hcols ha

theorem keeps_eraseRow (ha : attrs.Sound) : Keeps (·.eraseRow attrs) := by
  intro g h
  exact returns_currentRowMut h fun row _ hrow => returns_pure.mpr (hrow.clear ha)

theorem keeps_eraseRowForward (ha : attrs.Sound) : Keeps (·.eraseRowForward attrs) := by
  intro g h
  exact returns_currentRowMut h fun row _ hrow => returns_eraseRange hrow h.cols_le ha h.col_le (Nat.le_refl _)

theorem keeps_eraseRowBackward (ha : attrs.Sound) : Keeps (·.eraseRowBackward attrs) := by
  intro g h
  have hcols := h.cols_pos
  refine returns_bind.mpr (returns_sub.mpr ⟨hcols, returns_currentRowMut h fun row _ hrow => ?_⟩)
  exact returns_eraseRange hrow h.cols_le ha (Nat.zero_le _) (by omega)

theorem keeps_eraseCells (count : Nat) (ha : attrs.Sound) : Keeps (·.eraseCells count attrs) := by
  intro g h
  have hcol := h.col_le
  have hcols := h.cols_le
  refine returns_currentRowMut h fun row _ hrow => returns_eraseRange hrow h.cols_le ha ?_ (Nat.min_le_right _ _)
  unfold saturatingAdd
  omega

/-- Some rows are cleared. -/
theorem Ready.clearRows (h : g.Ready) (ha : attrs.Sound) {rows : List Row} (hlength : rows.length = g.size.rows)
    (hrows : ∀ row ∈ rows, row ∈ g.rows ∨ ∃ old ∈ g.rows, old.clear attrs = row) : Redrawn g { g with rows } := by
  refine h.redrawn (fun row hrow => ?_) hlength
  rcases hrows row hrow with hold | ⟨old, hold, rfl⟩
  · exact h.rows row hold
  · exact (h.rows old hold).clear ha

theorem keeps_eraseAll (ha : attrs.Sound) : Keeps fun g => pure (g.eraseAll attrs) := by
  intro g h
  refine returns_pure.mpr (h.clearRows ha ?_ fun row hrow => Or.inr (List.mem_map.mp hrow)).keeps
  rw [List.length_map, h.length]

theorem keeps_eraseAllForward (ha : attrs.Sound) : Keeps (·.eraseAllForward attrs) := by
  intro g h
  have hcleared : Redrawn g
      { g with rows := g.rows.take (g.pos.row + 1) ++ (g.rows.drop (g.pos.row + 1)).map (·.clear attrs) } := by
    refine h.clearRows ha ?_ fun row hrow => ?_
    · have hrow := h.row_lt
      simp only [List.length_append, List.length_take, List.length_map, List.length_drop, h.length]
      omega
    · rcases List.mem_append.mp hrow with hrow | hrow
      · exact Or.inl (List.mem_of_mem_take hrow)
      · obtain ⟨old, hold, hclear⟩ := List.mem_map.mp hrow
        exact Or.inr ⟨old, List.mem_of_mem_drop hold, hclear⟩
  exact keeps_eraseRowForward ha _ hcleared.ready

theorem keeps_eraseAllBackward (ha : attrs.Sound) : Keeps (·.eraseAllBackward attrs) := by
  intro g h
  have hcleared : Redrawn g { g with rows := (g.rows.take g.pos.row).map (·.clear attrs) ++ g.rows.drop g.pos.row } := by
    refine h.clearRows ha ?_ fun row hrow => ?_
    · have hrow := h.row_lt
      simp only [List.length_append, List.length_take, List.length_map, List.length_drop, h.length]
      omega
    · rcases List.mem_append.mp hrow with hrow | hrow
      · obtain ⟨old, hold, hclear⟩ := List.mem_map.mp hrow
        exact Or.inr ⟨old, List.mem_of_mem_take hold, hclear⟩
      · exact Or.inl (List.mem_of_mem_drop hrow)
  exact keeps_eraseRowBackward ha _ hcleared.ready

/-! ### Inserting and deleting cells -/

theorem returns_drawingCell {col : Nat} {Q : Cell → Prop} {row : Row} (hrow : g.rows[r]? = some row) :
    Returns (g.drawingCell ⟨r, col⟩) Q ↔ ∃ cell, row.cells[col]? = some cell ∧ Q cell := by
  simp [drawingCell, drawingRow, hrow]

/-- The rounds of `insert_cells`, and the cut behind them. -/
theorem returns_insertRounds (h : g.Ready) (count : Nat) {wide : Bool}
    (hwide : ∀ row, g.rows[g.pos.row]? = some row → continuationAt row.cells g.pos.col = wide) :
    Returns (g.currentRowMut fun row => do
      let row ← iterate (insertCell g.pos.col wide) count row
      row.truncate g.size.cols) fun t => t.Ready ∧ t.size = g.size := by
  refine returns_currentRowMut h fun row hrow hsound => returns_bind.mpr ?_
  refine (Returns.iterate (P := fun _ next => next.Whole ∧ g.size.cols ≤ next.cells.length ∧
    continuationAt next.cells g.pos.col = wide) ⟨hsound.toWhole, Nat.le_of_eq hsound.length.symm, hwide row hrow⟩
    ?_).mono ?_
  · rintro k next ⟨hwhole, hle, hcont⟩
    refine (Row.returns_insertCell hwhole (Nat.le_trans h.col_le hle) hcont).mono ?_
    rintro last ⟨hlast, hlength, hcont⟩
    exact ⟨hlast, by omega, hcont⟩
  · rintro next ⟨hwhole, hle, -⟩
    exact Row.returns_truncate hwhole h.cols_pos hle

theorem keeps_insertCells (count : Nat) : Keeps (·.insertCells count) := by
  intro g h
  obtain ⟨row, hrow, hsound⟩ := h.exists_row h.row_lt
  have hwide {wide : Bool} (hcont : continuationAt row.cells g.pos.col = wide) :
      ∀ other, g.rows[g.pos.row]? = some other → continuationAt other.cells g.pos.col = wide := by
    intro other hother
    cases hrow.symm.trans hother
    exact hcont
  refine returns_ite.mpr ⟨fun hcol => ?_, fun hcol => ?_⟩
  · obtain ⟨cell, hcell⟩ := hsound.exists_cell hcol
    refine returns_bind.mpr ((returns_drawingCell hrow).mpr ⟨cell, hcell, ?_⟩)
    exact returns_insertRounds h count (hwide (flagAt_of_getElem? hcell))
  · refine returns_insertRounds h count (hwide (Bool.eq_false_iff.mpr fun hcont => ?_))
    have := lt_length_of_flagAt hcont
    rw [hsound.length] at this
    omega

theorem keeps_deleteCells (count : Nat) : Keeps (·.deleteCells count) := by
  intro g h
  have hcol := h.col_le
  refine returns_bind.mpr (returns_sub.mpr ⟨hcol, returns_currentRowMut h fun row _ hsound => returns_bind.mpr ?_⟩)
  have hlength := hsound.length
  refine (Returns.iterate (P := fun k next => next.Whole ∧ g.pos.col + k ≤ next.cells.length ∧
    next.cells.length ≤ g.size.cols) ⟨hsound.toWhole, by omega, by omega⟩ ?_).mono ?_
  · rintro k next ⟨hwhole, hle, hcols⟩
    refine (Row.returns_remove hwhole (by omega)).mono ?_
    rintro last ⟨hlast, hlength⟩
    exact ⟨hlast, by omega, by omega⟩
  · rintro next ⟨hwhole, -, hcols⟩
    exact returns_pure.mpr (hwhole.resize (hwhole.paired.wideAt_last hcols))

/-! ### Inserting and deleting lines -/

theorem returns_insertLine (h : g.Ready) (hr : r < g.size.rows) : Returns (g.insertLine r) (Redrawn g) := by
  have hbottom : g.scrollBottom < g.rows.length := h.length.symm ▸ h.bottom_lt
  have herase : (g.rows.eraseIdx g.scrollBottom).length + 1 = g.size.rows := by
    rw [List.length_eraseIdx_of_lt hbottom, h.length]
    have := h.rows_pos
    omega
  have hr' : r ≤ (g.rows.eraseIdx g.scrollBottom).length := by omega
  have hlength : ((g.rows.eraseIdx g.scrollBottom).insertIdx r g.newRow).length = g.size.rows := by
    rw [List.length_insertIdx_of_le_length hr', herase]
  obtain ⟨last, hlast⟩ : ∃ last, ((g.rows.eraseIdx g.scrollBottom).insertIdx r g.newRow)[g.scrollBottom]? = some last :=
    ⟨_, List.getElem?_eq_getElem (hlength.symm ▸ h.bottom_lt)⟩
  have hsound : ∀ row ∈ (g.rows.eraseIdx g.scrollBottom).insertIdx r g.newRow, row.Sound g.size.cols :=
    forall_mem_insertIdx (forall_mem_eraseIdx h.rows) (Row.sound_new _) hr'
  unfold insertLine
  simp only [returns_bind, returns_remove, returns_insert, returns_update, returns_pure]
  refine ⟨hbottom, hr', last, hlast, h.redrawn (forall_mem_set hsound ?_) (List.length_set.trans hlength)⟩
  exact (hsound last (List.mem_of_getElem? hlast)).wrap false

theorem returns_deleteLine (h : g.Ready) (hr : r < g.size.rows) : Returns (g.deleteLine r) (Redrawn g) := by
  have hbottom : g.scrollBottom + 1 ≤ g.rows.length := h.length.symm ▸ h.bottom_lt
  have hinsert : (g.rows.insertIdx (g.scrollBottom + 1) g.newRow).length = g.size.rows + 1 := by
    rw [List.length_insertIdx_of_le_length hbottom, h.length]
  have hr' : r < (g.rows.insertIdx (g.scrollBottom + 1) g.newRow).length := by omega
  unfold deleteLine
  simp only [returns_bind, returns_remove, returns_insert, returns_pure]
  refine ⟨hbottom, hr', h.redrawn (forall_mem_eraseIdx (forall_mem_insertIdx h.rows (Row.sound_new _) hbottom)) ?_⟩
  rw [List.length_eraseIdx_of_lt hr', hinsert, Nat.add_sub_cancel]

/-- Lines that are inserted or deleted one after another. -/
theorem returns_lines {line : Grid → Except Fault Grid} (h : g.Ready)
    (hline : ∀ t, Redrawn g t → Returns (line t) (Redrawn t)) (count : Nat) :
    Returns (iterate line count g) (Redrawn g) :=
  Returns.iterate (P := fun _ t => Redrawn g t) (Redrawn.refl h) fun _ t ht => (hline t ht).mono fun _ hu => ht.trans hu

theorem returns_scrollUp (h : g.Ready) (count : Nat) : Returns (g.scrollUp count) (Redrawn g) := by
  have htop : g.scrollTop < g.size.rows := Nat.lt_of_le_of_lt h.top_le h.bottom_lt
  refine returns_bind.mpr (returns_sub.mpr ⟨Nat.le_of_lt htop, returns_lines h (fun t ht => ?_) _⟩)
  exact returns_deleteLine ht.ready (Nat.lt_of_le_of_lt ht.ready.top_le ht.ready.bottom_lt)

theorem returns_scrollDown (h : g.Ready) (count : Nat) : Returns (g.scrollDown count) (Redrawn g) :=
  returns_lines h (fun _ ht => returns_insertLine ht.ready (Nat.lt_of_le_of_lt ht.ready.top_le ht.ready.bottom_lt)) count

theorem keeps_scrollUp (count : Nat) : Keeps (·.scrollUp count) :=
  fun _ h => (returns_scrollUp h count).mono fun _ ht => ht.keeps

theorem keeps_scrollDown (count : Nat) : Keeps (·.scrollDown count) :=
  fun _ h => (returns_scrollDown h count).mono fun _ ht => ht.keeps

theorem keeps_insertLines (count : Nat) : Keeps (·.insertLines count) :=
  fun _ h => (returns_lines h (fun _ ht => returns_insertLine ht.ready ht.ready.row_lt) count).mono fun _ ht => ht.keeps

theorem keeps_deleteLines (count : Nat) : Keeps (·.deleteLines count) := by
  intro g h
  refine returns_bind.mpr (returns_sub.mpr ⟨Nat.le_of_lt h.row_lt, ?_⟩)
  exact (returns_lines h (fun _ ht => returns_deleteLine ht.ready ht.ready.row_lt) _).mono fun _ ht => ht.keeps

/-! ### Scrolling -/

/-- The next line, with a scroll when the cursor is in the last row of the region. -/
theorem returns_rowIncScroll (h : g.Ready) :
    Returns (g.rowIncScroll 1) fun scrolled =>
      scrolled.2.Ready ∧ scrolled.2.size = g.size ∧ scrolled.2.pos.col = g.pos.col ∧
        scrolled.1 = if g.inScrollRegion ∧ g.pos.row = g.scrollBottom then 1 else 0 := by
  have hrow := h.row_lt
  have hrows := h.rows_le
  have hadd : saturatingAdd g.pos.row 1 = g.pos.row + 1 := by
    unfold saturatingAdd
    omega
  have hready : { g with pos.row := min (saturatingAdd g.pos.row 1) (g.lastRow g.inScrollRegion) }.Ready :=
    h.withPos (Nat.lt_of_le_of_lt (Nat.min_le_right _ _) (h.lastRow_lt _)) h.col_le
  refine returns_bind.mpr (returns_rowClampBottom h.rows_pos (returns_ite.mpr ⟨fun hregion => ?_, fun hregion => ?_⟩))
  · refine returns_bind.mpr ((returns_scrollUp hready _).mono fun t ht => returns_pure.mpr ?_)
    refine ⟨ht.ready, ht.size, by rw [ht.pos], ?_⟩
    have hbottom : g.pos.row ≤ g.scrollBottom := by
      simp only [inScrollRegion, decide_eq_true_eq] at hregion
      exact hregion.2
    have hlast : g.lastRow g.inScrollRegion = g.scrollBottom := if_pos hregion
    show saturatingAdd g.pos.row 1 - g.lastRow g.inScrollRegion = _
    rw [hadd, hlast]
    by_cases hscroll : g.pos.row = g.scrollBottom
    · rw [if_pos ⟨hregion, hscroll⟩]
      omega
    · rw [if_neg fun hboth => hscroll hboth.2]
      omega
  · refine returns_pure.mpr ⟨hready, rfl, rfl, ?_⟩
    rw [if_neg fun hscroll => hregion hscroll.1]

theorem keeps_lineFeed : Keeps fun g => do
    let (_, g) ← g.rowIncScroll 1
    return g := by
  intro g h
  exact returns_bind.mpr ((returns_rowIncScroll h).mono fun _ ht => returns_pure.mpr ⟨ht.1, ht.2.1⟩)

theorem keeps_rowDecScroll (count : Nat) : Keeps (·.rowDecScroll count) := by
  intro g h
  have hrow := h.row_lt
  have hready : { g with pos.row := max (g.pos.row - count) (g.firstRow g.inScrollRegion) }.Ready := by
    refine h.withPos (Nat.max_lt.mpr ⟨?_, h.firstRow_lt _⟩) h.col_le
    omega
  refine returns_bind.mpr (returns_rowClampTop ?_)
  exact (returns_scrollDown hready _).mono fun _ ht => ht.keeps

/-- A character of `width` columns starts in the next row. -/
def Wraps (g : Grid) (width : Nat) : Prop := g.size.cols < g.pos.col + width

/-- A grid of one row has no row to wrap into. -/
theorem returns_colWrap (h : g.Ready) {width : Nat} (wrap : Bool) (hwidth : width ≤ g.size.cols)
    (hwraps : g.Wraps width → 2 ≤ g.size.rows) :
    Returns (g.colWrap width wrap) fun t => t.Ready ∧ t.size = g.size ∧ t.pos.col + width ≤ g.size.cols := by
  refine returns_bind.mpr (returns_sub.mpr ⟨hwidth, returns_ite.mpr ⟨fun hcol => ?_, fun hcol => ?_⟩⟩)
  · have hready : { g with pos.col := 0 }.Ready := h.withPos h.row_lt (Nat.zero_le _)
    refine returns_bind.mpr ((returns_rowIncScroll hready).mono ?_)
    rintro ⟨scrolled, t⟩ ⟨ht, hsize, hpos, hscrolled⟩
    have htwo : 2 ≤ g.size.rows := hwraps (by unfold Wraps; omega)
    have hbottom := h.bottom_pos htwo
    have hle : scrolled ≤ g.pos.row := by
      simp only at hscrolled
      rw [hscrolled]
      split
      · rename_i hlast
        exact hlast.2 ▸ hbottom
      · exact Nat.zero_le _
    refine returns_bind.mpr (returns_sub.mpr ⟨hle, ?_⟩)
    have hrow : g.pos.row - scrolled < t.size.rows := by
      rw [hsize]
      exact Nat.lt_of_le_of_lt (Nat.sub_le _ _) h.row_lt
    refine (returns_drawingRowMut ht hrow fun row _ hsound => returns_pure.mpr (hsound.wrap _)).mono fun u hu => ?_
    refine ⟨hu.ready, hu.size.trans hsize, ?_⟩
    rw [hu.pos, hpos]
    simpa using hwidth
  · exact returns_pure.mpr ⟨h, rfl, by omega⟩

/-- A character that is wider than the grid does not fit, nor one that wraps in a grid of one row. -/
theorem not_returns_colWrap (h : g.Ready) {width : Nat} (wrap : Bool)
    (hfit : g.size.cols < width ∨ g.Wraps width ∧ g.size.rows = 1) (Q : Grid → Prop) :
    ¬Returns (g.colWrap width wrap) Q := by
  intro hreturns
  obtain ⟨hwidth, hreturns⟩ := returns_sub.mp (returns_bind.mp hreturns)
  rcases hfit with hfit | ⟨hwraps, hone⟩
  · omega
  · have hcol : g.pos.col > g.size.cols - width := by
      unfold Wraps at hwraps
      omega
    have hready : { g with pos.col := 0 }.Ready := h.withPos h.row_lt (Nat.zero_le _)
    have hreturns := (returns_ite.mp hreturns).1 hcol
    obtain ⟨⟨scrolled, t⟩, -, hspec, hsub⟩ := (returns_rowIncScroll hready).and (returns_bind.mp hreturns)
    have hscrolled : scrolled = if g.inScrollRegion ∧ g.pos.row = g.scrollBottom then 1 else 0 := hspec.2.2.2
    have hlast : g.inScrollRegion ∧ g.pos.row = g.scrollBottom := by
      have := h.row_lt
      have := h.bottom_lt
      have := h.top_le
      simp only [inScrollRegion, decide_eq_true_eq]
      omega
    rw [if_pos hlast] at hscrolled
    have hle : scrolled ≤ g.pos.row := (returns_sub.mp (returns_bind.mp hsub)).1
    have := h.row_lt
    omega

end Rows

/-! ### Sizes -/

theorem sound_new {size : Size} (hrows : 1 ≤ size.rows) (hrows' : size.rows ≤ u16Max) (hcols : 1 ≤ size.cols)
    (hcols' : size.cols ≤ u16Max) : Returns (Grid.new size) fun g => g.Sound ∧ g.size = size ∧ g.rows = [] := by
  refine returns_bind.mpr (returns_sub.mpr ⟨hrows, returns_pure.mpr ⟨?_, rfl, rfl⟩⟩)
  constructor <;> simp <;> omega

theorem Sound.allocateRows (h : g.Sound) (hrows : g.rows = [] ∨ g.rows.length = g.size.rows) : g.allocateRows.Ready := by
  unfold Grid.allocateRows
  split
  · refine { h with rows := fun row hrow => ?_, length := List.length_replicate }
    rw [List.eq_of_mem_replicate hrow]
    exact Row.sound_new _
  · exact { h with length := hrows.resolve_left ‹_› }

theorem size_allocateRows : g.allocateRows.size = g.size := by
  unfold Grid.allocateRows
  split <;> rfl

theorem Sound.returns_clear (h : g.Sound) :
    Returns g.clear fun t => t.Sound ∧ t.size = g.size ∧ t.rows.length = g.rows.length := by
  have hrows := h.rows_pos
  refine returns_bind.mpr (returns_sub.mpr ⟨hrows, returns_pure.mpr ⟨?_, rfl, List.length_map ..⟩⟩)
  refine { h with
    row_lt := hrows, col_le := Nat.zero_le _, saved_row_lt := hrows, saved_col_le := Nat.zero_le _,
    top_le := Nat.zero_le _, bottom_lt := ?_, bottom_pos := ?_, rows := ?_ }
  · simp only
    omega
  · simp only
    omega
  · intro row hrow
    obtain ⟨old, hold, rfl⟩ := List.mem_map.mp hrow
    exact (h.rows old hold).clear Attrs.sound_default

/-- No row has the first half of a wide character in its new last column. -/
def CutsNothing (g : Grid) (cols : Nat) : Prop := ∀ row ∈ g.rows, ∀ k, k + 1 = cols → wideAt row.cells k = false

/-- The rows are cut or filled up, and so is their number. -/
theorem sound_resizedRows {size : Size} {rows : List Row} (hrows : ∀ row ∈ rows, (row.resize size.cols .new).Sound size.cols) :
    ∀ row ∈ (rows.map (·.resize size.cols .new)).take size.rows ++
      List.replicate (size.rows - (rows.map (·.resize size.cols .new)).length) (.new size.cols), row.Sound size.cols := by
  intro row hrow
  rcases List.mem_append.mp hrow with hold | hnew
  · obtain ⟨old, hmem, rfl⟩ := List.mem_map.mp (List.mem_of_mem_take hold)
    exact hrows old hmem
  · rw [List.eq_of_mem_replicate hnew]
    exact Row.sound_new _

/-- The last row of the region moves with the last row of the grid, and stays within it. -/
theorem resizedBottom_spec {bottom old new : Nat} (hbottom : bottom < old) (hpos : 2 ≤ old → 1 ≤ bottom) (hnew : 1 ≤ new) :
    (if (if bottom = old - 1 then new - 1 else bottom) ≥ new then new - 1
      else if bottom = old - 1 then new - 1 else bottom) < new ∧
    (2 ≤ new → 1 ≤ if (if bottom = old - 1 then new - 1 else bottom) ≥ new then new - 1
      else if bottom = old - 1 then new - 1 else bottom) := by
  split <;> split at * <;> omega

theorem Sound.returns_setSize (h : g.Sound) {size : Size} (hrows : 1 ≤ size.rows) (hrows' : size.rows ≤ u16Max)
    (hcols : 1 ≤ size.cols) (hcols' : size.cols ≤ u16Max) (hcut : g.CutsNothing size.cols) :
    Returns (g.setSize size) fun t => t.Ready ∧ t.size = size := by
  have hresized : ∀ row ∈ g.rows, (row.resize size.cols .new).Sound size.cols :=
    fun row hrow => (h.rows row hrow).toWhole.resize (hcut row hrow)
  refine returns_bind.mpr (returns_sub.mpr ⟨h.rows_pos, returns_bind.mpr (returns_sub.mpr ⟨hrows, ?_⟩)⟩)
  refine returns_bind.mpr (returns_rowClampTop (returns_bind.mpr (returns_rowClampBottom hrows ?_)))
  refine returns_bind.mpr (returns_colClamp hcols (returns_bind.mpr (returns_sub.mpr ⟨hcols, returns_pure.mpr ⟨?_, rfl⟩⟩)))
  constructor
  case length =>
    simp only [List.length_append, List.length_take, List.length_map, List.length_replicate]
    omega
  case toSound =>
    refine ⟨hrows, hrows', hcols, hcols', ?_, ?_, ?_, ?_, ?_, ?_, fun htwo => ?_, ?_⟩
    · exact Nat.lt_of_le_of_lt (Nat.min_le_right _ _) (Nat.sub_lt hrows Nat.one_pos)
    · exact Nat.le_trans (Nat.min_le_right _ _) (Nat.sub_le _ _)
    · exact Nat.lt_of_le_of_lt (Nat.min_le_right _ _) (Nat.sub_lt hrows Nat.one_pos)
    · exact Nat.le_trans (Nat.min_le_right _ _) (Nat.sub_le _ _)
    · have hclip (top bottom : Nat) : (if bottom < top then 0 else top) ≤ bottom := by
        split <;> omega
      exact hclip _ _
    · exact (resizedBottom_spec h.bottom_lt h.bottom_pos hrows).1
    · exact (resizedBottom_spec h.bottom_lt h.bottom_pos hrows).2 htwo
    · refine sound_resizedRows fun row hrow => ?_
      split at hrow
      · obtain ⟨old, hold, rfl⟩ := List.mem_map.mp hrow
        exact hresized old hold
      · exact hresized row hrow

end Grid

end MoshClient.Vt100
