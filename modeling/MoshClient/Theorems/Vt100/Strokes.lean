import MoshClient.Theorems.Vt100.Cluster

/-! Strokes: what erasing cells and drawing a character leave in each cell of a row. A stroke changes the cells that it
    covers, and the other half of a wide character that it cuts. -/

namespace MoshClient.Vt100
open Checked

/-! ### Cells -/

namespace Cell

/-- A cell without contents. -/
def blank (attrs : Attrs) : Cell := ⟨[], false, false, attrs⟩

/-- The second half of a wide character. -/
def continuation : Cell := ⟨[], false, true, .default⟩

/-- A character on its own. -/
def glyph (c : Char) (width : Nat) (attrs : Attrs) : Cell := ⟨[c], decide (width > 1), false, attrs⟩

theorem set_eq_glyph {unicode : UnicodeWidth} {c : Char} {width : Nat} (h : unicode.terminalWidth c = some width)
    (cell : Cell) (attrs : Attrs) : cell.set unicode c attrs = .ok (glyph c width attrs) := by
  rw [set_eq, h]
  rfl

end Cell

/-! ### Erasing -/

/-- What is at `j` after the cell at `i` was erased. -/
def erasedAt (cells : List Cell) (i : Nat) (attrs : Attrs) (j : Nat) : Option Cell :=
  if j = i then some (.blank attrs)
  else if j = i + 1 ∧ wideAt cells i ∨ j + 1 = i ∧ continuationAt cells i then cells[j]?.map fun cell => .blank cell.attrs
  else cells[j]?

namespace Row

variable {row : Row} {cols i : Nat} {attrs : Attrs}

theorem returns_clearWide_cells (h : row.Whole) (hi : i < row.cells.length) :
    Returns (row.clearWide i) fun next => next.wrapped = row.wrapped ∧ next.cells.length = row.cells.length ∧
      ∀ j, next.cells[j]? =
        if j = i + 1 ∧ wideAt row.cells i ∨ j + 1 = i ∧ continuationAt row.cells i then
          row.cells[j]?.map fun cell => .blank cell.attrs
        else row.cells[j]? := by
  obtain ⟨cell, hcell⟩ := exists_cell hi
  have hwide : wideAt row.cells i = cell.isWide := flagAt_of_getElem? hcell
  have hcont : continuationAt row.cells i = cell.isWideContinuation := flagAt_of_getElem? hcell
  have honce := h.paired.once i
  have hhead := h.paired.head
  simp only [clearWide, returns_bind, returns_index, returns_ite, returns_update, returns_sub, returns_pure]
  refine ⟨cell, hcell, fun hw => ?_, fun hw => ⟨fun hc => ?_, fun hc => ?_⟩⟩
  · obtain ⟨other, hother⟩ := exists_cell (h.paired.lt_length (hwide.trans hw))
    refine ⟨other, hother, trivial, List.length_set, fun j => ?_⟩
    rw [honce (hwide.trans hw), hwide, hw, List.getElem?_set]
    by_cases hj : i + 1 = j
    · subst hj
      rw [if_pos rfl, if_pos (List.getElem?_eq_some_iff.mp hother).1, if_pos (Or.inl ⟨rfl, rfl⟩), hother]
      rfl
    · simp [hj, Ne.symm hj]
  · have hpos : 1 ≤ i := by
      refine Nat.one_le_iff_ne_zero.mpr fun hzero => ?_
      rw [hzero] at hcont
      rw [hcont, hc] at hhead
      cases hhead
    have hprev : i - 1 < row.cells.length := by omega
    obtain ⟨other, hother⟩ := exists_cell hprev
    refine ⟨hpos, other, hother, trivial, List.length_set, fun j => ?_⟩
    rw [Bool.not_eq_true] at hw
    rw [hcont, hc, hwide, hw, List.getElem?_set]
    by_cases hj : i - 1 = j
    · subst hj
      rw [if_pos rfl, if_pos hprev, if_pos (Or.inr ⟨by omega, rfl⟩), hother]
      rfl
    · rw [if_neg hj, if_neg]
      rintro (⟨-, hfalse⟩ | ⟨hj', -⟩)
      · cases hfalse
      · omega
  · rw [Bool.not_eq_true] at hw hc
    refine ⟨trivial, trivial, fun j => ?_⟩
    simp [hwide, hcont, hw, hc]

/-- One cell is erased. The row stays wrapped unless its last character was erased. -/
theorem returns_erase_cells (h : row.Sound cols) (hi : i < cols) (hcols : cols ≤ u16Max) :
    Returns (row.erase i attrs) fun next => (∀ j, next.cells[j]? = erasedAt row.cells i attrs j) ∧
      next.wrapped = (row.wrapped && decide (i + (if wideAt row.cells i then 2 else 1) ≠ cols)) := by
  have hlt : i < row.cells.length := h.length.symm ▸ hi
  obtain ⟨cell, hcell⟩ := exists_cell hlt
  have hwide : wideAt row.cells i = cell.isWide := flagAt_of_getElem? hcell
  have hroom : i + (if wideAt row.cells i then 2 else 1) ≤ cols := by
    split
    · have := h.paired.lt_length ‹_›
      rw [h.length] at this
      omega
    · omega
  unfold erase
  refine returns_bind.mpr (returns_index.mpr ⟨cell, hcell, returns_bind.mpr ?_⟩)
  refine (returns_clearWide_cells h.toWhole hlt).mono ?_
  rintro next ⟨hwrapped, hlength, hcells⟩
  have hnext : i < next.cells.length := hlength.symm ▸ hlt
  obtain ⟨x, hx⟩ := exists_cell hnext
  refine returns_bind.mpr (returns_update.mpr ⟨x, hx, returns_bind.mpr ?_⟩)
  rw [returns_cols (by rw [hlength, h.length]; exact hcols), hlength, h.length, ← hwide]
  refine returns_bind.mpr (returns_sub.mpr ⟨by split at hroom <;> simp_all <;> omega, returns_pure.mpr ⟨fun j => ?_, ?_⟩⟩)
  · rw [List.getElem?_set, hcells]
    unfold erasedAt
    by_cases hj : i = j
    · subst hj
      rw [if_pos rfl, if_pos hnext, if_pos rfl]
      rfl
    · rw [if_neg hj, if_neg (Ne.symm hj)]
  · simp only [hwrapped]
    congr 1
    simp only [decide_eq_decide]
    split at hroom <;> simp_all <;> omega

/-- What is at `j` after the cells from `start` up to `stop` were erased. -/
def erasedRangeAt (cells : List Cell) (start stop : Nat) (attrs : Attrs) (j : Nat) : Option Cell :=
  if start ≤ j ∧ j < stop then some (.blank attrs)
  else if j = stop ∧ start < stop ∧ wideAt cells (stop - 1) then cells[j]?.map fun cell => .blank cell.attrs
  else cells[j]?

theorem erasedRangeAt_succ {cells erased : List Cell} {start stop : Nat} (hle : start ≤ stop)
    (h : ∀ j, erased[j]? = erasedRangeAt cells start stop attrs j) (hpaired : Paired cells) (herased : Paired erased)
    (hstart : continuationAt cells start = false) (j : Nat) :
    erasedAt erased stop attrs j = erasedRangeAt cells start (stop + 1) attrs j := by
  -- The cell before the next one is blank, so that no second half is erased.
  have hcont : continuationAt erased stop = false := by
    rcases Nat.eq_or_lt_of_le hle with rfl | hlt
    · have hsame := h start
      simp only [erasedRangeAt, Nat.lt_irrefl, and_false, if_false, false_and] at hsame
      unfold continuationAt flagAt at hstart ⊢
      rwa [hsame]
    · have hblank := h (stop - 1)
      rw [erasedRangeAt, if_pos (by omega)] at hblank
      rw [herased.prev stop (by omega)]
      exact flagAt_of_getElem? hblank
  have hwide : wideAt erased stop = wideAt cells stop := by
    have hat := h stop
    rw [erasedRangeAt, if_neg (by omega)] at hat
    split at hat
    · rename_i hcut
      have hsecond : continuationAt cells stop = true := by
        rw [hpaired.prev stop (by omega)]
        exact hcut.2.2
      have hfirst : wideAt cells stop = false := by
        by_contra hw
        rw [hpaired.once stop (eq_true_of_ne_false hw)] at hsecond
        cases hsecond
      rw [hfirst]
      unfold wideAt flagAt
      rw [hat]
      cases cells[stop]? <;> rfl
    · unfold wideAt flagAt
      rw [hat]
  unfold erasedAt
  rw [hcont, hwide, h, erasedRangeAt, erasedRangeAt, Nat.add_sub_cancel]
  grind

/-- Cells are erased from one that is no second half. The row is not wrapped any more when its end was erased. -/
theorem returns_eraseRange_cells {start stop : Nat} (h : row.Sound cols) (hcols : cols ≤ u16Max) (ha : attrs.Sound)
    (hle : start ≤ stop) (hstop : stop ≤ cols) (hstart : continuationAt row.cells start = false) :
    Returns (forRange start stop (fun col row => row.erase col attrs) row) fun next =>
      next.Sound cols ∧ (∀ j, next.cells[j]? = erasedRangeAt row.cells start stop attrs j) ∧
        (next.wrapped = true → row.wrapped = true ∧ (start < stop → stop ≠ cols)) := by
  refine Returns.forRange (P := fun i next => start ≤ i ∧ next.Sound cols ∧
    (∀ j, next.cells[j]? = erasedRangeAt row.cells start i attrs j) ∧
      (next.wrapped = true → row.wrapped = true ∧ (start < i → i ≠ cols))) ?_ hle ?_ |>.mono fun _ hnext => hnext.2
  · refine ⟨Nat.le_refl _, h, fun j => ?_, fun hwrapped => ⟨hwrapped, fun hlt => absurd hlt (Nat.lt_irrefl _)⟩⟩
    rw [erasedRangeAt, if_neg (by omega), if_neg (by omega)]
  · rintro i next hi ⟨hfrom, hnext, hcells, hwrapped⟩
    have hlt : i < cols := Nat.lt_of_lt_of_le hi hstop
    refine ((returns_erase hnext hlt hcols ha).and (returns_erase_cells hnext hlt hcols)).mono ?_
    rintro last ⟨hlast, hat, hwrap⟩
    refine ⟨Nat.le_succ_of_le hfrom, hlast, fun j => ?_, fun htrue => ?_⟩
    · rw [hat]
      exact erasedRangeAt_succ hfrom hcells h.paired hnext.paired hstart j
    · rw [hwrap, Bool.and_eq_true, decide_eq_true_eq] at htrue
      refine ⟨(hwrapped htrue.1).1, fun _ hend => htrue.2 ?_⟩
      have hnarrow : wideAt next.cells i = false := hnext.paired.wideAt_last (Nat.le_of_eq hnext.length) i hend
      rw [hnarrow]
      exact hend

end Row

/-! ### Drawing -/

theorem Paired.wideAt_next {cells : List Cell} {i : Nat} (h : Paired cells) (hwide : wideAt cells i = true) :
    wideAt cells (i + 1) = false := by
  by_contra hw
  have := h.once _ (eq_true_of_ne_false hw)
  rw [h.next, hwide] at this
  cases this

/-- What is at `j` after a character was drawn at `col`. -/
def drawnAt (cells : List Cell) (col : Nat) (cell : Cell) (j : Nat) : Option Cell :=
  if j = col then some cell
  else if cell.isWide ∧ j = col + 1 then some .continuation
  else if j + 1 = col ∧ continuationAt cells col then some (.blank cell.attrs)
  else if j = col + 1 ∧ wideAt cells col then some (.glyph ' ' 1 cell.attrs)
  else if cell.isWide ∧ j = col + 2 ∧ wideAt cells (col + 1) then some (.blank cell.attrs)
  else cells[j]?

namespace Grid

variable {g : Grid} {row : Row} {attrs : Attrs} {unicode : UnicodeWidth}

/-- A row of which some cells were replaced. -/
structure Patched (row next : Row) (at? : Nat → Option Cell) : Prop where
  cells : ∀ j, next.cells[j]? = at? j
  length : next.cells.length = row.cells.length
  wrapped : next.wrapped = row.wrapped

theorem patched_set {col : Nat} (hcol : col < row.cells.length) (cell : Cell) :
    Patched row { row with cells := row.cells.set col cell } fun j => if j = col then some cell else row.cells[j]? := by
  refine ⟨fun j => ?_, List.length_set, rfl⟩
  simp only [List.getElem?_set, if_pos hcol, eq_comm (a := col)]

theorem returns_clearFirstHalf_cells (h : g.Ready) (hrow : row.Sound g.size.cols) (hcol : g.pos.col < g.size.cols) :
    Returns ((g.withRow row).clearFirstHalf attrs) fun t => ∃ next, t = g.withRow next ∧ Patched row next fun j =>
      if j + 1 = g.pos.col ∧ continuationAt row.cells g.pos.col then some (.blank attrs) else row.cells[j]? := by
  have hlt : g.pos.col < row.cells.length := hrow.length.symm ▸ hcol
  obtain ⟨cell, hcell⟩ := Row.exists_cell hlt
  have hcont : continuationAt row.cells g.pos.col = cell.isWideContinuation := flagAt_of_getElem? hcell
  refine returns_bind.mpr ((returns_cell h).mpr ⟨cell, hcell, returns_ite.mpr ⟨fun hc => ?_, fun hc => ?_⟩⟩)
  · have hpos : 1 ≤ g.pos.col := by
      refine Nat.one_le_iff_ne_zero.mpr fun hzero => ?_
      have hhead := hrow.paired.head
      rw [← hzero, hcont, hc] at hhead
      cases hhead
    have hprev : g.pos.col - 1 < row.cells.length := by omega
    obtain ⟨prev, hget⟩ := Row.exists_cell hprev
    refine returns_bind.mpr (returns_sub.mpr ⟨hpos, ?_⟩)
    refine (returns_cellMut h).mpr ⟨prev, hget, returns_pure.mpr ⟨_, rfl, ⟨fun j => ?_, List.length_set, rfl⟩⟩⟩
    refine ((patched_set hprev (prev.clear attrs)).cells j).trans ?_
    rw [hcont, hc]
    simp only [and_true]
    congr 1
    simp only [eq_iff_iff]
    omega
  · rw [Bool.not_eq_true] at hc
    refine returns_pure.mpr ⟨row, rfl, ⟨fun j => ?_, rfl, rfl⟩⟩
    rw [hcont, hc]
    simp

theorem returns_clearSecondHalf_cells (h : g.Ready) {paired : Row} (hrow : paired.Sound g.size.cols)
    (hcol : g.pos.col < g.size.cols) (hlength : row.cells.length = g.size.cols)
    (hwide : wideAt row.cells g.pos.col = wideAt paired.cells g.pos.col) :
    Returns ((g.withRow row).clearSecondHalf unicode attrs) fun t => ∃ next, t = g.withRow next ∧ Patched row next fun j =>
      if j = g.pos.col + 1 ∧ wideAt row.cells g.pos.col then some (.glyph ' ' 1 attrs) else row.cells[j]? := by
  have hlt : g.pos.col < row.cells.length := hlength.symm ▸ hcol
  obtain ⟨cell, hcell⟩ := Row.exists_cell hlt
  have hflag : wideAt row.cells g.pos.col = cell.isWide := flagAt_of_getElem? hcell
  refine returns_bind.mpr ((returns_cell h).mpr ⟨cell, hcell, returns_ite.mpr ⟨fun hw => ?_, fun hw => ?_⟩⟩)
  · have hnext : g.pos.col + 1 < row.cells.length := by
      have := hrow.paired.lt_length (hwide.symm.trans (hflag.trans hw))
      rw [hrow.length] at this
      rwa [hlength]
    obtain ⟨other, hother⟩ := Row.exists_cell hnext
    have hset := Cell.set_eq_glyph unicode.terminalWidth_space other attrs
    refine (returns_cellMut h).mpr ⟨other, hother, hset ▸ returns_ok.mpr ⟨_, rfl, ⟨fun j => ?_, List.length_set, rfl⟩⟩⟩
    refine ((patched_set hnext (.glyph ' ' 1 attrs)).cells j).trans ?_
    rw [hflag, hw]
    simp
  · rw [Bool.not_eq_true] at hw
    refine returns_pure.mpr ⟨row, rfl, ⟨fun j => ?_, rfl, rfl⟩⟩
    rw [hflag, hw]
    simp

theorem returns_clearNextHalf_cells (h : g.Ready) (hcol : g.pos.col < g.size.cols)
    (hlength : row.cells.length = g.size.cols) (hnext : wideAt row.cells g.pos.col = true → g.pos.col + 1 < g.size.cols) :
    Returns ((g.withRow row).clearNextHalf attrs) fun t => ∃ next, t = g.withRow next ∧
      (∀ j, next.cells[j]? =
        if j = g.pos.col + 1 ∧ wideAt row.cells g.pos.col then some (.blank attrs) else row.cells[j]?) ∧
      next.cells.length = row.cells.length ∧ next.wrapped = (row.wrapped && !(wideAt row.cells g.pos.col && decide (g.pos.col + 2 = g.size.cols))) := by
  obtain ⟨cell, hcell⟩ : ∃ cell, row.cells[g.pos.col]? = some cell := Row.exists_cell (hlength.symm ▸ hcol)
  have hflag : wideAt row.cells g.pos.col = cell.isWide := flagAt_of_getElem? hcell
  refine returns_bind.mpr ((returns_cell h).mpr ⟨cell, hcell, returns_ite.mpr ⟨fun hw => ?_, fun hw => ?_⟩⟩)
  · have hlt : g.pos.col + 1 < row.cells.length := hlength.symm ▸ hnext (hflag.trans hw)
    obtain ⟨other, hother⟩ := Row.exists_cell hlt
    have hcells (j : Nat) : (row.cells.set (g.pos.col + 1) (other.clear attrs))[j]? =
        if j = g.pos.col + 1 ∧ wideAt row.cells g.pos.col then some (.blank attrs) else row.cells[j]? := by
      refine ((patched_set hlt (other.clear attrs)).cells j).trans ?_
      rw [hflag, hw]
      simp [Cell.clear, Cell.blank]
    refine returns_bind.mpr ((returns_cellMut h).mpr ⟨other, hother, returns_pure.mpr ?_⟩)
    refine returns_bind.mpr (returns_sub.mpr ⟨h.cols_pos, returns_ite.mpr ⟨fun hlast => ?_, fun hlast => ?_⟩⟩)
    · have hlast : g.pos.col + 1 = g.size.cols - 1 := hlast
      refine (returns_rowMut h).mpr (returns_pure.mpr ⟨_, rfl, hcells, List.length_set, ?_⟩)
      rw [hflag, hw, decide_eq_true (by omega)]
      simp [Row.wrap]
    · have hlast : g.pos.col + 1 ≠ g.size.cols - 1 := hlast
      refine returns_pure.mpr ⟨_, rfl, hcells, List.length_set, ?_⟩
      rw [hflag, hw, decide_eq_false (by omega)]
      simp
  · rw [Bool.not_eq_true] at hw
    refine returns_pure.mpr ⟨row, rfl, fun j => ?_, rfl, ?_⟩ <;> rw [hflag, hw] <;> simp

/-- The grid after a character was drawn in `columns` columns at the cursor. -/
def drawn (g : Grid) (next : Row) (columns : Nat) : Grid :=
  { g with rows := g.rows.set g.pos.row next, pos.col := g.pos.col + columns }

theorem colInc_withRow (h : g.Ready) (next : Row) {n : Nat} (hn : g.pos.col + n ≤ g.size.cols) :
    (g.withRow next).colInc n = g.drawn next n := by
  have := h.cols_le
  have hsat : saturatingAdd g.pos.col n = g.pos.col + n := by
    unfold saturatingAdd
    omega
  show { g.withRow next with pos.col := saturatingAdd g.pos.col n } = _
  rw [hsat]
  rfl

/-- A character is drawn where it has room. -/
theorem returns_draw_cells (h : g.Ready) (hrow : g.rows[g.pos.row]? = some row) {c : Char} {width : Nat}
    (hwidth : unicode.terminalWidth c = some width) (hpos : 1 ≤ width) (hcol : g.pos.col + width ≤ g.size.cols) :
    Returns (g.draw unicode width attrs c) fun t => ∃ next, t = g.drawn next width ∧
      (∀ j, next.cells[j]? = drawnAt row.cells g.pos.col (.glyph c width attrs) j) ∧
      next.wrapped = (row.wrapped && !(decide (width > 1) && wideAt row.cells (g.pos.col + 1) &&
        decide (g.pos.col + 3 = g.size.cols))) := by
  have hsound := h.rows row (List.mem_of_getElem? hrow)
  have hle := unicode.terminalWidth_le c hwidth
  have hlt : g.pos.col < g.size.cols := by omega
  have hfirst : Returns ((g.withRow row).clearFirstHalf attrs) _ := returns_clearFirstHalf_cells h hsound hlt
  rw [withRow_self hrow] at hfirst
  refine returns_bind.mpr (hfirst.mono ?_)
  rintro _ ⟨first, rfl, hfirst⟩
  -- The cell that was cleared is not the one at the cursor.
  have hwide : wideAt first.cells g.pos.col = wideAt row.cells g.pos.col := by
    unfold wideAt flagAt
    rw [hfirst.cells, if_neg (by omega)]
  have hlength : first.cells.length = g.size.cols := hfirst.length.trans hsound.length
  refine returns_bind.mpr ((returns_clearSecondHalf_cells h hsound hlt hlength hwide).mono ?_)
  rintro _ ⟨second, rfl, hsecond⟩
  have hlength : second.cells.length = g.size.cols := hsecond.length.trans hlength
  have hput : g.pos.col < second.cells.length := hlength.symm ▸ hlt
  obtain ⟨cell, hcell⟩ := Row.exists_cell hput
  have hset := Cell.set_eq_glyph hwidth cell attrs
  refine returns_bind.mpr ((returns_cellMut h).mpr ⟨cell, hcell, hset ▸ returns_ok.mpr ?_⟩)
  have hglyph := patched_set hput (.glyph c width attrs)
  by_cases hone : width > 1
  · obtain rfl : width = 2 := by omega
    rw [if_pos hone, colInc_withRow h _ (by omega)]
    have hready : { g with pos.col := g.pos.col + 1 }.Ready := h.withPos h.row_lt (by simp only; omega)
    -- The second half comes over a cell that is a first half where it was one before.
    have hafter : wideAt (second.cells.set g.pos.col (.glyph c 2 attrs)) (g.pos.col + 1) = wideAt row.cells (g.pos.col + 1) := by
      have hat := hglyph.cells (g.pos.col + 1)
      rw [if_neg (by omega), hsecond.cells, hfirst.cells, hwide, if_neg (show ¬(g.pos.col + 1 + 1 = g.pos.col ∧ _) by omega)] at hat
      cases hw : wideAt row.cells g.pos.col with
      | true =>
        rw [hw, if_pos ⟨rfl, rfl⟩] at hat
        rw [hsound.paired.wideAt_next hw]
        exact flagAt_of_getElem? hat
      | false =>
        rw [hw, if_neg (by simp)] at hat
        exact congrArg (Option.any Cell.isWide) hat
    have hroom : wideAt (second.cells.set g.pos.col (.glyph c 2 attrs)) (g.pos.col + 1) = true →
        g.pos.col + 1 + 1 < g.size.cols := by
      rw [hafter]
      intro hw
      have := hsound.paired.lt_length hw
      rwa [hsound.length] at this
    refine returns_bind.mpr ((returns_clearNextHalf_cells hready (show g.pos.col + 1 < g.size.cols by omega)
      (List.length_set.trans hlength) hroom).mono ?_)
    rintro _ ⟨third, rfl, hthird, hlength', hwrapped⟩
    have hcont : g.pos.col + 1 < third.cells.length := by
      rw [hlength', List.length_set, hlength]
      omega
    obtain ⟨last, hlast⟩ := Row.exists_cell hcont
    refine returns_bind.mpr ((returns_cellMut hready).mpr ⟨last, hlast, returns_pure.mpr (returns_pure.mpr ?_)⟩)
    rw [colInc_withRow hready _ (show g.pos.col + 1 + 1 ≤ g.size.cols by omega)]
    refine ⟨_, rfl, fun j => ?_, ?_⟩
    · refine ((patched_set hcont _).cells j).trans ?_
      simp only [hthird, hafter, hglyph.cells, hsecond.cells, hfirst.cells, hwide]
      have hnext := hsound.paired.wideAt_next (i := g.pos.col)
      unfold drawnAt Cell.glyph Cell.continuation
      grind [Cell.clear, Cell.setWideContinuation]
    · simp only [hwrapped, hafter, hsecond.wrapped, hfirst.wrapped]
      rfl
  · obtain rfl : width = 1 := by omega
    rw [if_neg hone, colInc_withRow h _ hcol]
    refine returns_pure.mpr ⟨_, rfl, fun j => ?_, ?_⟩
    · rw [hglyph.cells, hsecond.cells, hfirst.cells, hwide]
      unfold drawnAt Cell.glyph
      grind
    · rw [hglyph.wrapped, hsecond.wrapped, hfirst.wrapped]
      simp

end Grid

end MoshClient.Vt100
