import MoshClient.Theorems.Vt100.RowPaint

/-! Painting a grid in full. Row by row, the display comes to show the rows of the grid, with where each of them wraps:
    a row wraps when the next one goes on behind it. -/

namespace MoshClient.Vt100
open Checked

/-! ### Drawing over the same -/

theorem Row.eq_of_cells {row other : Row} (hcells : row.cells = other.cells) (hwrapped : row.wrapped = other.wrapped) :
    row = other := by
  cases row
  cases other
  cases hcells
  cases hwrapped
  rfl

section Redrawing

variable {unicode : UnicodeWidth} {cells : List Cell} {col : Nat} {cell : Cell}

theorem drawnAt_self (hpaired : Paired cells) (hdrawn : ∀ cell ∈ cells, cell.Drawn unicode) (hcell : cells[col]? = some cell)
    (hcont : continuationAt cells col = false) (j : Nat) : drawnAt cells col cell j = cells[j]? := by
  have hwide : wideAt cells col = cell.isWide := flagAt_of_getElem? hcell
  unfold drawnAt
  rw [hcont, hwide]
  cases hw : cell.isWide with
  | true =>
    have hsecond := hpaired.continuation hdrawn (hwide.trans hw)
    rw [hpaired.wideAt_next (hwide.trans hw)]
    grind
  | false => grind

/-- A space that is drawn over an empty cell and erased again leaves the cells as they were. -/
theorem erased_space {first next : List Cell} {attrs shade : Attrs} (hblank : cells[col]? = some (.blank attrs))
    (hfirst : ∀ j, first[j]? = drawnAt cells col (.glyph ' ' 1 shade) j)
    (hnext : ∀ j, next[j]? = Row.erasedRangeAt first col (col + 1) attrs j) : next = cells := by
  have hcont : continuationAt cells col = false := flagAt_of_getElem? hblank
  have hwide : wideAt cells col = false := flagAt_of_getElem? hblank
  have hglyph : wideAt first col = false := flagAt_of_getElem? ((hfirst col).trans (if_pos rfl))
  refine List.ext_getElem? fun j => ?_
  rw [hnext, Row.erasedRangeAt, Nat.add_sub_cancel, hglyph, hfirst, drawnAt, hcont, hwide]
  by_cases hj : j = col
  · rw [if_pos (by omega), hj, hblank]
  · unfold Cell.glyph
    grind

/-- A cell that is drawn over itself leaves the rows as they were. -/
theorem Grid.Drew.eq_self {r : Nat} {g t : Grid} {row : Row} (h : Grid.Drew r g row col cell t) (hrow : g.rows[r]? = some row)
    (hpaired : Paired row.cells) (hdrawn : ∀ cell ∈ row.cells, cell.Drawn unicode) (hcell : row.cells[col]? = some cell)
    (hcont : continuationAt row.cells col = false) : t = { g with pos := t.pos } := by
  obtain ⟨next, hnext, hcells, -⟩ := h.row
  have hwrapped : next.wrapped = row.wrapped := by
    refine h.kept (fun hwide => hpaired.wideAt_next ?_) next hnext
    exact (flagAt_of_getElem? hcell).trans hwide
  have hsame : next = row :=
    Row.eq_of_cells (List.ext_getElem? fun j => (hcells j).trans (drawnAt_self hpaired hdrawn hcell hcont j)) hwrapped
  have hrows : t.rows = g.rows := by
    refine List.ext_getElem? fun i => ?_
    by_cases hi : i = r
    · rw [hi, hnext, hrow, hsame]
    · exact h.others i hi
  rw [h.eq, hrows]

end Redrawing

theorem Cell.Drawn.contents_of_wide {unicode : UnicodeWidth} {cell : Cell} (h : cell.Drawn unicode)
    (hwide : cell.isWide = true) : cell.hasContents = true := by
  rw [hasContents_iff]
  cases h with
  | blank => cases hwide
  | continuation => cases hwide
  | glyph => exact List.cons_ne_nil _ _
  | mark => exact List.append_ne_nil_of_right_ne_nil _ (List.cons_ne_nil _ _)

/-- A row that ends in text ends with a character. -/
theorem exists_end_of_joins {unicode : UnicodeWidth} {cells : List Cell} (hpaired : Paired cells)
    (hdrawn : ∀ cell ∈ cells, cell.Drawn unicode) (hjoins : flagAt Cell.joins cells (cells.length - 1) = true) :
    ∃ i cell, cells[i]? = some cell ∧ cell.hasContents = true ∧ i + cell.columns = cells.length := by
  have hlt := lt_length_of_flagAt hjoins
  obtain ⟨last, hlast⟩ : ∃ last, cells[cells.length - 1]? = some last := ⟨_, List.getElem?_eq_getElem hlt⟩
  rw [flagAt_of_getElem? hlast, Cell.joins, Bool.or_eq_true] at hjoins
  rcases hjoins with hcontents | hcont
  · have hnarrow := hpaired.wideAt_last (Nat.le_refl _) (cells.length - 1) (by omega)
    rw [wideAt, flagAt_of_getElem? hlast] at hnarrow
    refine ⟨_, last, hlast, hcontents, ?_⟩
    rw [Cell.columns, hnarrow, if_neg Bool.false_ne_true]
    omega
  · have hflag : continuationAt cells (cells.length - 1) = true := (flagAt_of_getElem? hlast).trans hcont
    have hpos : 0 < cells.length - 1 := by
      refine Nat.pos_of_ne_zero fun hzero => ?_
      rw [hzero, hpaired.head] at hflag
      cases hflag
    rw [hpaired.prev _ hpos] at hflag
    obtain ⟨first, hfirst⟩ : ∃ first, cells[cells.length - 1 - 1]? = some first :=
      ⟨_, List.getElem?_eq_getElem (lt_length_of_flagAt hflag)⟩
    have hwide := (flagAt_of_getElem? hfirst).symm.trans hflag
    refine ⟨_, first, hfirst, (hdrawn first (List.mem_of_getElem? hfirst)).contents_of_wide hwide, ?_⟩
    rw [Cell.columns, if_pos hwide]
    omega

section Painting

variable {crates : Crates} {ground : crates.vte.State → Prop} {o d e : Display} {w v : RowWriter}
  {g : Grid} {r : Nat} {wrapping : Bool} {s q : List Cell} {start : Pos} {row : Row}

/-! ### Going on with the row above -/

/-- A space is drawn behind the row above, and erased. -/
theorem paints_space_entered (hvte : crates.vte.ReadsCommands ground) (hcontrols : crates.unicode.Controls)
    (hplain : d.grid.Plain) (hnext : d.grid.pos.row + 1 = r) (hrow : d.grid.rows[r]? = some row) (hjoins : d.grid.RowJoins)
    (hend : d.grid.size.cols ≤ d.grid.pos.col) (hproper : d.attrs.Proper) (hblank : row.cells[0]? = some (.blank d.attrs)) :
    ∃ t, Paints crates ground ([0x20] ++ Term.backspace ++ Term.eraseChar 1) d { d with grid := t } ∧
      Grid.Strokes r (d.grid.entered r) t ∧ t.pos = ⟨r, 0⟩ ∧
      ∃ next, t.rows[r]? = some next ∧ next.cells = row.cells ∧ (next.wrapped = true → row.wrapped = true) := by
  have hspace : (Cell.glyph ' ' 1 d.attrs).Drawn crates.unicode :=
    .glyph crates.unicode.terminalWidth_space (Nat.le_refl 1) hproper
  have hr : r < d.grid.size.rows := hplain.length ▸ (List.getElem?_eq_some_iff.mp hrow).1
  obtain ⟨t, hpaints, hdrew, hpos⟩ := paints_contents_entered hvte hcontrols hplain hnext hrow hjoins hspace
    (List.cons_ne_nil _ _) rfl hplain.cols_pos (Nat.lt_succ_of_le hend)
  obtain ⟨first, hfirst, hcells, hwrapped⟩ := hdrew.row
  have hback := paints_backspace hvte { d with grid := t }
  have hgrid : t.colDec 1 = { t with pos := ⟨r, 0⟩ } := by
    unfold Grid.colDec
    rw [hpos]
    rfl
  rw [hgrid] at hback
  have hstrokes : Grid.Strokes r (d.grid.entered r) { t with pos := ⟨r, 0⟩ } := hdrew.toStrokes.withPos hr (Nat.zero_le _)
  have hpaired := (hstrokes.plain.rows first (List.mem_of_getElem? hfirst)).paired
  obtain ⟨u, herase, hstruck, hposition⟩ := paints_eraseCount (d := { d with grid := { t with pos := ⟨r, 0⟩ } }) (n := 1) hvte
    hstrokes.plain hfirst hproper.sound (Nat.le_refl 1) (by rw [Nat.zero_add]; exact hstrokes.plain.cols_pos) hpaired.head
  obtain ⟨next, hnext, hnextCells, hnextWrapped⟩ := hstruck.row
  refine ⟨u, (hpaints.append hvte hback).append hvte herase, hstrokes.trans hstruck.toStrokes, hposition, next, hnext, ?_,
    fun hw => hwrapped (hnextWrapped hw)⟩
  exact erased_space hblank hcells hnextCells

/-! ### Rows -/

theorem RowChange.rowState (c : RowChange crates.unicode d.grid r wrapping s q w.prevPos) (h : Writing crates ground o w d)
    (hwide : w.prevWasWide = false) (herase : w.erase = none) :
    RowState crates ground o d.grid r wrapping s q w.prevPos 0 false w d := by
  obtain ⟨old, hold, hcells⟩ := c.shown
  have hfront : w.front 0 = 0 := by
    rw [RowWriter.front, RowWriter.unerased_none herase, hwide]
    rfl
  refine ⟨⟨h, ⟨.refl c.plain, old, hold, ?_, ?_, ?_⟩, ?_, ?_, ?_, ?_⟩, ?_, ?_, ?_⟩
  · rintro hwrapped _ hother
    cases hold.symm.trans hother
    exact hwrapped
  · rw [hfront]
    exact fun i hi => absurd hi (Nat.not_lt_zero i)
  · exact fun i _ => .inl (by rw [hcells])
  · refine fun _ => ⟨rfl, rfl, fun i hi => ?_⟩
    rw [hfront] at hi
    exact absurd hi (Nat.not_lt_zero i)
  · exact fun _ habove _ _ => .inr ⟨by omega, hfront⟩
  · exact fun hjoined => absurd hjoined Bool.false_ne_true
  · intro i cell _ _ _ hend
    have := cell.columns_pos
    omega
  · rw [hwide, c.paired.head]
  · intro first attrs hsome
    cases herase.symm.trans hsome
  · intro i _ hi
    exact absurd hi (Nat.succ_ne_zero i)

theorem RowChange.returns_cells (hvte : crates.vte.ReadsCommands ground) (hcontrols : crates.unicode.Controls)
    (c : RowChange crates.unicode d.grid r wrapping s q w.prevPos) (h : Writing crates ground o w d)
    (hwide : w.prevWasWide = false) (herase : w.erase = none) :
    Returns (do
      let w ← RowWriter.diffCells d.grid.size.cols r wrapping 0 (s.zip q) w
      w.finish d.grid.size.cols r wrapping) fun v =>
      ∃ joined e, RowDone crates ground o d.grid r wrapping s q w.prevPos joined v e := by
  obtain ⟨old, hold, hcells⟩ := c.shown
  have hlength : 0 + (s.zip q).length = d.grid.size.cols := by
    rw [List.length_zip, c.length, ← hcells, (c.plain.rows old (List.mem_of_getElem? hold)).length]
    omega
  refine returns_bind.mpr ((RowState.returns_diffCells hvte hcontrols c rfl (c.rowState h hwide herase)).mono ?_)
  rintro v ⟨joined, e, hv⟩
  rw [List.drop_zero, hlength] at hv
  exact hv.returns_finish hvte hcontrols c

theorem cells_eq_diffCells (cols row : Nat) (wrapping : Bool) (cells : List Cell) (col : Nat) (w : RowWriter) :
    RowWriter.cells cols row wrapping col cells w =
      RowWriter.diffCells cols row wrapping col (cells.zip (List.replicate cells.length .new)) w := by
  induction cells generalizing col w with
  | nil => rfl
  | cons cell rest ih =>
    show (w.cell cols row wrapping col cell >>= _) = (w.cell cols row wrapping col cell >>= _)
    congr 1
    funext v
    exact ih (col + 1) v

/-- A row of the grid is painted over an empty one. Whether it wraps is left to the next row. -/
structure RowPainted (crates : Crates) (ground : crates.vte.State → Prop) (o : Display) (g : Grid) (r : Nat) (wrapping : Bool)
    (row : Row) (w : RowWriter) (d : Display) : Prop extends Writing crates ground o w d where
  strokes : Grid.Strokes r (g.begun r wrapping) d.grid
  shown : d.grid.rows[r]? = some (row.wrap false)
  behind : row.wrapped = true → w.prevPos = ⟨r, g.size.cols⟩

/-- Where a row goes on with the one above, the cursor stands behind its end. -/
structure Follows (g : Grid) (r : Nat) (pos : Pos) : Prop where
  above : pos.row + 1 = r
  behind : pos.col = g.size.cols
  joins : ∀ above, g.rows[r - 1]? = some above → flagAt Cell.joins above.cells (above.cells.length - 1) = true

theorem RowDone.painted {joined : Bool} (h : RowDone crates ground o e.grid r wrapping row.cells
      (List.replicate row.cells.length .new) start joined w d) (hsound : row.Sound g.size.cols)
    (hdrawn : row.Drawn crates.unicode) (hsize : e.grid.size = g.size) (hempty : e.grid.rows[r]? = some (.new g.size.cols))
    (hstrokes : Grid.Strokes r (g.begun r wrapping) d.grid) : RowPainted crates ground o g r wrapping row w d := by
  refine ⟨h.toWriting, hstrokes, ?_, fun hwrapped => ?_⟩
  · obtain ⟨next, hnext, hcells, hunwrapped⟩ := h.row
    have hfalse : next.wrapped = false := Bool.eq_false_iff.mpr fun htrue => by
      cases hunwrapped htrue _ hempty
    rw [hnext, Row.wrap, ← hcells, ← hfalse]
  · obtain ⟨i, cell, hcell, hcontents, hend⟩ := exists_end_of_joins hsound.paired hdrawn.cells (hdrawn.joins hwrapped)
    rw [hsound.length, ← hsize] at hend
    rw [← hsize]
    refine h.behind i cell hcell hcontents (fun hsame => ?_) hend
    rw [hcell, List.getElem?_replicate, if_pos (List.getElem?_eq_some_iff.mp hcell).1] at hsame
    cases hsame
    cases hcontents

theorem Row.returns_paints (hvte : crates.vte.ReadsCommands ground) (hcontrols : crates.unicode.Controls)
    (h : Writing crates ground o w d) (hplain : d.grid.Plain) (hsound : row.Sound d.grid.size.cols)
    (hdrawn : row.Drawn crates.unicode) (hempty : d.grid.rows[r]? = some (.new d.grid.size.cols))
    (hwrapping : wrapping = true → Follows d.grid r w.prevPos) :
    Returns (row.writeContentsFormatted d.grid.size.cols r wrapping w) fun v =>
      ∃ e, RowPainted crates ground o d.grid r wrapping row v e := by
  have hr : r < d.grid.size.rows := hplain.length ▸ (List.getElem?_eq_some_iff.mp hempty).1
  have hcols := hplain.cols_pos
  obtain ⟨first, hfirst⟩ : ∃ first, row.cells[0]? = some first :=
    ⟨_, List.getElem?_eq_getElem (show 0 < row.cells.length by rw [hsound.length]; omega)⟩
  have hall : row.cells.take d.grid.size.cols = row.cells := List.take_of_length_le (Nat.le_of_eq hsound.length)
  have hblank : List.replicate row.cells.length Cell.new = (Row.new d.grid.size.cols).cells := by
    rw [hsound.length]
    rfl
  unfold writeContentsFormatted
  rw [returns_bind, returns_cols (by rw [hsound.length]; exact hplain.cols_le), hsound.length, hall]
  refine returns_bind.mpr (returns_index.mpr ⟨first, hfirst, returns_bind.mpr ?_⟩)
  simp only [cells_eq_diffCells]
  unfold RowWriter.startRow
  dsimp only
  refine returns_ite.mpr ⟨fun hstart => returns_bind.mpr ?_, fun hstart => returns_pure.mpr ?_⟩
  · -- The first cell is empty: a space is drawn there and erased, so that the row above wraps.
    obtain ⟨hwraps, rfl⟩ := hstart
    have hfollows := hwrapping hwraps
    have hjoins : d.grid.RowJoins := fun above habove => hfollows.joins above (by rw [← habove, h.pos, ← hfollows.above]; rfl)
    refine (returns_setAttrs (w := { w with prevWasWide := false, erase := none }) hvte h.paints h.attrs h.proper
      Attrs.proper_default).mono ?_
    rintro v ⟨hv, hwriter⟩
    obtain ⟨t, hpaints, hstrokes, hpos, next, hnext, hcells, hunwrapped⟩ := paints_space_entered
      (d := { d with attrs := .default }) hvte hcontrols hplain (by rw [h.pos]; exact hfollows.above) hempty hjoins
      (by rw [h.pos, hfollows.behind]) Attrs.proper_default (List.getElem?_replicate.trans (if_pos hcols))
    have hsize : t.size = d.grid.size := hstrokes.size
    have hempty' : t.rows[r]? = some (.new d.grid.size.cols) := by
      have hfalse : next.wrapped = false := Bool.eq_false_iff.mpr fun htrue => by cases hunwrapped htrue
      rw [hnext, Row.new, ← hfalse]
      exact congrArg (fun cells => some (Row.mk cells next.wrapped)) hcells
    have hwriting : Writing crates ground o { v.write ([0x20] ++ Term.backspace ++ Term.eraseChar 1) with prevPos := ⟨r, 0⟩ }
        { d with attrs := .default, grid := t } := by
      have hshade : v.prevAttrs = .default := by rw [hwriter]
      exact ⟨hv.append hvte hpaints, hpos, hshade.symm, hshade ▸ Attrs.proper_default⟩
    have hchange : RowChange crates.unicode t r wrapping row.cells (List.replicate row.cells.length .new) ⟨r, 0⟩ := by
      refine ⟨hstrokes.plain, ⟨_, hempty', hblank.symm⟩, hsize ▸ hsound.length, hsound.paired, hdrawn.cells, ?_, ?_, ?_⟩
      · exact fun cell hcell => List.eq_of_mem_replicate hcell ▸ .new
      · have habove := hfollows.above
        intro _ above hrow
        rw [hstrokes.others _ (by omega), Grid.getElem?_entered (by omega), if_pos (by omega)] at hrow
        obtain ⟨old, hold, rfl⟩ := Option.map_eq_some_iff.mp hrow
        exact hfollows.joins old hold
      · exact fun _ habove => absurd habove (Nat.succ_ne_self r)
    have hdone := hchange.returns_cells (d := { d with attrs := .default, grid := t }) hvte hcontrols hwriting
      (by show v.prevWasWide = false; rw [hwriter]) (by show v.erase = none; rw [hwriter])
    rw [show ({ d with attrs := .default, grid := t } : Display).grid.size = d.grid.size from hsize] at hdone
    refine returns_pure.mpr (hdone.mono ?_)
    rintro u ⟨joined, e, hu⟩
    have hjoined : joined = false := Bool.eq_false_iff.mpr fun htrue => absurd (hu.came htrue).2 (Nat.succ_ne_self r)
    subst hjoined
    refine ⟨e, hu.painted hsound hdrawn hsize hempty' ?_⟩
    rw [hwraps]
    exact hstrokes.trans hu.strokes
  · have hchange : RowChange crates.unicode d.grid r wrapping row.cells (List.replicate row.cells.length .new) w.prevPos := by
      refine ⟨hplain, ⟨_, hempty, hblank.symm⟩, hsound.length, hsound.paired, hdrawn.cells, ?_, ?_, ?_⟩
      · exact fun cell hcell => List.eq_of_mem_replicate hcell ▸ .new
      · exact fun hwraps => (hwrapping hwraps).joins
      · -- The first cell has changed.
        intro hwraps _ _ c hc hsame
        refine absurd ⟨hwraps, ?_⟩ hstart
        have hzero := hsame 0 hc
        rw [hfirst, List.getElem?_replicate, if_pos (List.getElem?_eq_some_iff.mp hfirst).1] at hzero
        exact Option.some.inj hzero
    refine (hchange.returns_cells (w := { w with prevWasWide := false, erase := none }) hvte hcontrols
      ⟨h.paints, h.pos, h.attrs, h.proper⟩ rfl rfl).mono ?_
    rintro u ⟨joined, e, hu⟩
    refine ⟨e, hu.painted hsound hdrawn rfl hempty ?_⟩
    have hjoined : joined = wrapping := by
      cases hwraps : wrapping with
      | false => exact Bool.eq_false_iff.mpr fun htrue => Bool.false_ne_true (hwraps.symm.trans (hu.came htrue).1)
      | true =>
        have hfollows := hwrapping hwraps
        refine hu.joins hwraps hfollows.above (Nat.le_of_eq hfollows.behind.symm) fun hsame => ?_
        rw [hfirst, List.getElem?_replicate, if_pos (List.getElem?_eq_some_iff.mp hfirst).1] at hsame
        exact hstart ⟨hwraps, Option.some.inj hsame⟩
    exact hjoined ▸ hu.strokes

/-! ### Grids -/

/-- The rows above row `i` are painted. Whether the last of them wraps is left to the next row. -/
structure RowsPainted (crates : Crates) (ground : crates.vte.State → Prop) (o : Display) (target : Grid) (i : Nat)
    (w : RowWriter) (d : Display) : Prop extends Writing crates ground o w d where
  plain : d.grid.Plain
  size : d.grid.size = target.size
  above : ∀ k, k + 1 < i → d.grid.rows[k]? = target.rows[k]?
  last : ∀ k, k + 1 = i → d.grid.rows[k]? = target.rows[k]?.map (·.wrap false)
  below : ∀ k, i ≤ k → k < target.size.rows → d.grid.rows[k]? = some (.new target.size.cols)
  behind : ∀ k row, k + 1 = i → target.rows[k]? = some row → row.wrapped = true → w.prevPos = ⟨k, target.size.cols⟩

variable {target : Grid} {i : Nat}

theorem Row.wrap_eq (row : Row) : row.wrap row.wrapped = row := rfl

theorem RowsPainted.follows (h : RowsPainted crates ground o target i w d) (hdrawn : target.Drawn crates.unicode) {k : Nat}
    (hk : k + 1 = i) {prev : Row} (hprev : target.rows[k]? = some prev) (hwrapped : prev.wrapped = true) :
    Follows d.grid i w.prevPos := by
  rw [h.behind k prev hk hprev hwrapped]
  refine ⟨hk, congrArg Size.cols h.size.symm, fun above habove => ?_⟩
  rw [show i - 1 = k by omega, h.last k hk, hprev] at habove
  cases habove
  exact (hdrawn.getElem? hprev).joins hwrapped

/-- One row more. -/
theorem RowPainted.rowsPainted (h : RowsPainted crates ground o target i w d)
    (hv : RowPainted crates ground o d.grid i wrapping row v e) (hrow : target.rows[i]? = some row)
    (hzero : i = 0 → wrapping = false)
    (hwrapping : ∀ k prev, k + 1 = i → target.rows[k]? = some prev → wrapping = prev.wrapped) :
    RowsPainted crates ground o target (i + 1) v e := by
  have hsize : e.grid.size = target.size := hv.strokes.size.trans ((Grid.size_begun wrapping).trans h.size)
  have hother {k : Nat} (hk : k ≠ i) (hk' : k + 1 ≠ i) : e.grid.rows[k]? = d.grid.rows[k]? := by
    rw [hv.strokes.others k hk]
    unfold Grid.begun
    split
    · have : i ≠ 0 := fun hi => absurd (hzero hi) (by simp_all)
      rw [Grid.getElem?_entered (by omega), if_neg hk']
    · rfl
  refine ⟨hv.toWriting, hv.strokes.plain, hsize, fun k hk => ?_, fun k hk => ?_, fun k hk hlt => ?_,
    fun k other hk hother hwrapped => ?_⟩
  · rcases Nat.lt_or_ge (k + 1) i with hlt | hge
    · rw [hother (by omega) (by omega), h.above k hlt]
    · -- The row above wraps, now that this one goes on with it.
      have hlast : k + 1 = i := by omega
      have hlt := (List.getElem?_eq_some_iff.mp hrow).1
      obtain ⟨prev, hprev⟩ : ∃ prev, target.rows[k]? = some prev := ⟨_, List.getElem?_eq_getElem (by omega)⟩
      have hsame := hwrapping k prev hlast hprev
      rw [hv.strokes.others k (by omega), hprev, ← Row.wrap_eq prev, ← hsame]
      unfold Grid.begun
      split
      · rename_i hwraps
        rw [Grid.getElem?_entered (by omega), if_pos hlast, h.last k hlast, hprev, hwraps]
        rfl
      · rename_i hwraps
        rw [h.last k hlast, hprev, Bool.eq_false_iff.mpr hwraps]
        rfl
  · cases Nat.succ.inj hk
    rw [hv.shown, hrow]
    rfl
  · rw [hother (by omega) (by omega), h.below k (by omega) hlt]
  · cases Nat.succ.inj hk
    cases hrow.symm.trans hother
    rw [hv.behind hwrapped, h.size]

theorem RowsPainted.returns_writeRows (hvte : crates.vte.ReadsCommands ground) (hcontrols : crates.unicode.Controls)
    (hready : target.Ready) (hdrawn : target.Drawn crates.unicode) {rows : List Row} :
    ∀ {i : Nat} {wrapping : Bool} {w : RowWriter} {d : Display}, rows = target.rows.drop i → (i = 0 → wrapping = false) →
      (∀ k prev, k + 1 = i → target.rows[k]? = some prev → wrapping = prev.wrapped) →
      RowsPainted crates ground o target i w d →
      Returns (Grid.writeRows target.size.cols i wrapping rows w) fun v =>
        ∃ e, RowsPainted crates ground o target (i + rows.length) v e := by
  induction rows with
  | nil => exact fun _ _ _ h => returns_pure.mpr ⟨_, h⟩
  | cons row rest ih =>
    intro i wrapping w d hrows hzero hwrapping h
    have hrow : target.rows[i]? = some row := by
      rw [← Nat.add_zero i, ← List.getElem?_drop, ← hrows]
      rfl
    have hlt : i < target.size.rows := hready.length ▸ (List.getElem?_eq_some_iff.mp hrow).1
    have hcols : d.grid.size.cols = target.size.cols := congrArg Size.cols h.size
    have hpaints : Returns (row.writeContentsFormatted d.grid.size.cols i wrapping w) fun v =>
        ∃ e, RowPainted crates ground o d.grid i wrapping row v e := by
      refine Row.returns_paints hvte hcontrols h.toWriting h.plain (hcols ▸ hready.rows row (List.mem_of_getElem? hrow))
        (hdrawn.getElem? hrow) (hcols ▸ h.below i (Nat.le_refl i) hlt) fun hwraps => ?_
      obtain ⟨k, rfl⟩ : ∃ k, i = k + 1 :=
        Nat.exists_eq_succ_of_ne_zero fun hi => Bool.false_ne_true ((hzero hi).symm.trans hwraps)
      obtain ⟨prev, hprev, -⟩ := hready.exists_row (show k < target.size.rows by omega)
      exact h.follows hdrawn rfl hprev ((hwrapping k prev rfl hprev).symm.trans hwraps)
    rw [hcols] at hpaints
    refine returns_bind.mpr (hpaints.mono ?_)
    rintro v ⟨e, hv⟩
    have hrest : rest = target.rows.drop (i + 1) := by
      rw [← List.drop_drop, ← hrows]
      rfl
    rw [List.length_cons, Nat.add_comm rest.length, ← Nat.add_assoc]
    refine ih hrest (fun hi => absurd hi (Nat.succ_ne_zero i)) (fun k prev hk hprev => ?_)
      (hv.rowsPainted h hrow hzero hwrapping)
    cases Nat.succ.inj hk
    cases hrow.symm.trans hprev
    rfl

theorem RowsPainted.rows_eq (h : RowsPainted crates ground o target target.size.rows w d) (hready : target.Ready)
    (hdrawn : target.Drawn crates.unicode) : d.grid.rows = target.rows := by
  refine List.ext_getElem? fun k => ?_
  rcases Nat.lt_trichotomy (k + 1) target.size.rows with hlt | heq | hgt
  · exact h.above k hlt
  · obtain ⟨row, hrow, -⟩ := hready.exists_row (show k < target.size.rows by omega)
    have hunwrapped : row.wrapped = false := hdrawn.last row (by rw [← heq]; exact hrow)
    rw [h.last k heq, hrow, ← Row.wrap_eq row, hunwrapped]
    rfl
  · rw [List.getElem?_eq_none (by rw [h.plain.length, h.size]; omega), List.getElem?_eq_none (by rw [hready.length]; omega)]

/-! ### The cursor -/

/-- The last character of a row, or an empty cell. -/
structure EndsWith (row : Row) (cols col : Nat) (cell : Cell) : Prop where
  holds : row.cells[col]? = some cell
  first : continuationAt row.cells col = false
  last : col + cell.columns = cols

theorem Row.Sound.endsWith_wide {cols : Nat} (h : row.Sound cols) {last : Cell} (hlast : row.cells[cols - 1]? = some last)
    (hcont : last.isWideContinuation = true) : 2 ≤ cols ∧ ∃ first, EndsWith row cols (cols - 2) first := by
  have hflag : continuationAt row.cells (cols - 1) = true := (flagAt_of_getElem? hlast).trans hcont
  have hpos : 0 < cols - 1 := by
    refine Nat.pos_of_ne_zero fun hzero => ?_
    rw [hzero, h.paired.head] at hflag
    cases hflag
  rw [h.paired.prev _ hpos, show cols - 1 - 1 = cols - 2 by omega] at hflag
  obtain ⟨first, hfirst⟩ := Row.exists_cell (lt_length_of_flagAt hflag)
  refine ⟨by omega, first, hfirst, h.paired.once _ hflag, ?_⟩
  rw [Cell.columns, if_pos ((flagAt_of_getElem? hfirst).symm.trans hflag)]
  exact Nat.sub_add_cancel (by omega)

theorem Row.Sound.endsWith_last {cols : Nat} (h : row.Sound cols) (hcols : 1 ≤ cols) {last : Cell}
    (hlast : row.cells[cols - 1]? = some last) (hcont : ¬last.isWideContinuation = true) :
    EndsWith row cols (cols - 1) last := by
  have hnarrow := h.paired.wideAt_last (Nat.le_of_eq h.length) (cols - 1) (by omega)
  rw [wideAt, flagAt_of_getElem? hlast] at hnarrow
  refine ⟨hlast, (flagAt_of_getElem? hlast).trans (Bool.eq_false_iff.mpr hcont), ?_⟩
  rw [Cell.columns, hnarrow, if_neg Bool.false_ne_true]
  exact Nat.sub_add_cancel hcols

theorem Grid.Ready.returns_end (h : g.Ready) (hr : r < g.size.rows) :
    Returns (g.endCell r) fun found => found.1.row = r ∧
      ∃ row, g.rows[r]? = some row ∧ EndsWith row g.size.cols found.1.col found.2 := by
  obtain ⟨row, hrow, hsound⟩ := h.exists_row hr
  have hcols := h.cols_pos
  obtain ⟨last, hlast⟩ := Row.exists_cell (show g.size.cols - 1 < row.cells.length by rw [hsound.length]; omega)
  refine returns_bind.mpr (returns_sub.mpr ⟨hcols, returns_bind.mpr ((returns_drawingCell hrow).mpr ⟨last, hlast, ?_⟩)⟩)
  refine returns_ite.mpr ⟨fun hcont => returns_bind.mpr (returns_sub.mpr ?_),
    fun hcont => returns_bind.mpr (returns_pure.mpr ?_)⟩
  · obtain ⟨htwo, first, hend⟩ := hsound.endsWith_wide hlast hcont
    exact ⟨htwo, returns_bind.mpr ((returns_drawingCell hrow).mpr ⟨first, hend.holds, returns_pure.mpr ⟨rfl, row, hrow, hend⟩⟩)⟩
  · refine returns_bind.mpr ((returns_drawingCell hrow).mpr ⟨last, hlast, returns_pure.mpr ⟨rfl, row, hrow, ?_⟩⟩)
    exact hsound.endsWith_last hcols hlast hcont

/-- The cells of the rows. -/
def Grid.cells (g : Grid) : List (List Cell) := g.rows.map Row.cells

/-- The rows that wrap end in text. -/
def Grid.Joined (g : Grid) : Prop :=
  ∀ row ∈ g.rows, row.wrapped = true → flagAt Cell.joins row.cells (row.cells.length - 1) = true

theorem Grid.exists_row_of_cells {g t : Grid} (h : t.cells = g.cells) {k : Nat} {row : Row} (hrow : g.rows[k]? = some row) :
    ∃ next, t.rows[k]? = some next ∧ next.cells = row.cells := by
  have hk := congrArg (fun cells : List (List Cell) => cells[k]?) h
  simp only [Grid.cells, List.getElem?_map, hrow, Option.map_some] at hk
  exact Option.map_eq_some_iff.mp hk

/-- The display shows the cells of a grid. -/
structure Display.Looks (d : Display) (target : Grid) : Prop where
  plain : d.grid.Plain
  size : d.grid.size = target.size
  cells : d.grid.cells = target.cells

/-- The cursor has moved. Where only rows that end in text wrap, nothing else has changed. -/
structure Display.Moved (d e : Display) : Prop where
  plain : e.grid.Plain
  size : e.grid.size = d.grid.size
  cells : e.grid.cells = d.grid.cells
  rows : d.grid.Joined → e.grid.rows = d.grid.rows
  attrs : e.attrs = d.attrs

theorem Display.Looks.withPos (h : d.Looks target) {pos : Pos} (hrow : pos.row < target.size.rows)
    (hcol : pos.col ≤ target.size.cols) : d.Moved { d with grid := { d.grid with pos } } :=
  ⟨h.plain.withPos (h.size ▸ hrow) (h.size ▸ hcol), rfl, rfl, fun _ => rfl, rfl⟩

/-- The last character of a row is drawn again: the cursor comes behind it. -/
theorem returns_paints_redraw (hvte : crates.vte.ReadsCommands ground) (hcontrols : crates.unicode.Controls)
    (h : d.Looks target) (hdrawn : target.Drawn crates.unicode) (hattrs : d.attrs.Proper) (pos : Pos) {cell : Cell}
    (hrow : target.rows[pos.row]? = some row) (hend : EndsWith row target.size.cols pos.col cell)
    (hcontents : cell.hasContents = true) :
    Returns (Grid.redraw d.grid.pos pos d.attrs cell) fun bytes =>
      Paints crates ground bytes d { d with grid := { d.grid with pos := ⟨pos.row, target.size.cols⟩ } } := by
  have hcell := (hdrawn.getElem? hrow).getElem? hend.holds
  obtain ⟨shown, hshown, hcells⟩ := Grid.exists_row_of_cells h.cells hrow
  have hr : pos.row < d.grid.size.rows := h.plain.length ▸ (List.getElem?_eq_some_iff.mp hshown).1
  have hcol : pos.col + cell.columns ≤ d.grid.size.cols := by rw [h.size, hend.last]
  have hpos := cell.columns_pos
  refine returns_bind.mpr ((returns_paints_attrs hvte { d with grid := { d.grid with pos } } hattrs hcell.attrs).mono ?_)
  intro before hbefore
  have hmove : Paints crates ground (Term.moveFromTo d.grid.pos pos) d { d with grid := { d.grid with pos } } :=
    paints_moveFromTo hvte h.plain hr (by omega)
  have hplain : { d.grid with pos }.Plain := h.plain.withPos hr (by omega)
  obtain ⟨t, hpaints, hdrew, hposition⟩ := paints_contents (d := { d with grid := { d.grid with pos }, attrs := cell.attrs })
    hvte hcontrols hplain hshown hcell (Cell.hasContents_iff.mp hcontents) rfl hcol
  have hsame : t = { d.grid with pos := ⟨pos.row, target.size.cols⟩ } := by
    have hsound := hplain.rows shown (List.mem_of_getElem? hshown)
    have hchars := (hdrawn.getElem? hrow).cells
    rw [← hcells] at hchars
    rw [hdrew.eq_self hshown hsound.paired hchars (hcells ▸ hend.holds) (hcells ▸ hend.first), hposition, hend.last]
  rw [hsame] at hpaints
  refine returns_bind.mpr ((returns_paints_attrs hvte
    { d with grid := { d.grid with pos := ⟨pos.row, target.size.cols⟩ }, attrs := cell.attrs } hcell.attrs hattrs).mono ?_)
  exact fun after hafter => returns_pure.mpr (((hmove.append hvte hbefore).append hvte hpaints).append hvte hafter)

theorem paints_lineFeeds (hvte : crates.vte.ReadsCommands ground) (hplain : d.grid.Plain) {n : Nat}
    (hrow : d.grid.pos.row + n < d.grid.size.rows) :
    Paints crates ground (List.replicate n 0x0a) d { d with grid := { d.grid with pos.row := d.grid.pos.row + n } } := by
  induction n with
  | zero => exact .nil hvte d
  | succ n ih =>
    have hlast := paints_lineFeed hvte (d := { d with grid := { d.grid with pos.row := d.grid.pos.row + n } })
      (hplain.withPos (Nat.lt_of_succ_lt hrow) hplain.col_le) hrow
    rw [List.replicate_succ']
    exact (ih (Nat.lt_of_succ_lt hrow)).append hvte hlast

/-- The cursor comes down behind a row above that ends in text. -/
theorem returns_paints_fromAbove (hvte : crates.vte.ReadsCommands ground) (hcontrols : crates.unicode.Controls)
    (h : d.Looks target) (hready : target.Ready) (hdrawn : target.Drawn crates.unicode) (hattrs : d.attrs.Proper)
    (hi : i ≤ target.pos.row) :
    Returns (target.writeFromAbove d.grid.pos d.attrs i) fun found => ∀ bytes, found = some bytes →
      Paints crates ground bytes d { d with grid := { d.grid with pos := ⟨target.pos.row, target.size.cols⟩ } } := by
  induction i with
  | zero =>
    refine returns_pure.mpr fun bytes hnone => ?_
    cases hnone
  | succ i ih =>
    have hlt := hready.row_lt
    refine returns_bind.mpr ((hready.returns_end (show i < target.size.rows by omega)).mono ?_)
    rintro ⟨⟨r, col⟩, cell⟩ ⟨hr, row, hrow, hend⟩
    have hr : r = i := hr
    subst hr
    refine returns_ite.mpr ⟨fun hcontents => ?_, fun _ => ih (by omega)⟩
    have hdown (drawn : Bytes)
        (hdrawn : Paints crates ground drawn d { d with grid := { d.grid with pos := ⟨r, target.size.cols⟩ } }) :
        Returns (do
          let lines ← Checked.sub target.pos.row r
          return some (drawn ++ List.replicate lines 0x0a)) fun found => ∀ bytes, found = some bytes →
          Paints crates ground bytes d { d with grid := { d.grid with pos := ⟨target.pos.row, target.size.cols⟩ } } := by
      refine returns_bind.mpr (returns_sub.mpr ⟨by omega, returns_pure.mpr ?_⟩)
      rintro _ ⟨⟩
      have hlines := paints_lineFeeds hvte (d := { d with grid := { d.grid with pos := ⟨r, target.size.cols⟩ } })
        (n := target.pos.row - r) (h.withPos (by exact (by omega : r < target.size.rows)) (Nat.le_refl _)).plain
        (show r + (target.pos.row - r) < d.grid.size.rows by rw [h.size]; omega)
      rw [show r + (target.pos.row - r) = target.pos.row by omega] at hlines
      exact hdrawn.append hvte hlines
    refine returns_ite.mpr ⟨fun _ => returns_bind.mpr ?_, fun hthere => returns_bind.mpr (returns_pure.mpr (hdown [] ?_))⟩
    · exact (returns_paints_redraw hvte hcontrols h hdrawn hattrs ⟨r, col⟩ hrow hend hcontents).mono hdown
    · -- The cursor is there already.
      have hcol := h.plain.col_le
      rw [h.size] at hcol
      have hpos : (⟨r, target.size.cols⟩ : Pos) = d.grid.pos := by
        rw [show target.size.cols = d.grid.pos.col by omega, show r = d.grid.pos.row by omega]
      rw [hpos]
      exact .nil hvte d

/-- Behind an empty cell the cursor is brought by drawing a space there, which is then erased. -/
theorem returns_paints_overEmpty (hvte : crates.vte.ReadsCommands ground) (hcontrols : crates.unicode.Controls)
    (h : d.Looks target) (hdrawn : target.Drawn crates.unicode) (hattrs : d.attrs.Proper) {cell : Cell}
    (hrow : target.rows[r]? = some row) (hend : EndsWith row target.size.cols (target.size.cols - 1) cell)
    (hempty : cell.hasContents = false) :
    Returns (do
      let before ← cell.attrs.writeEscapeCodeDiff d.attrs
      let after ← d.attrs.writeEscapeCodeDiff cell.attrs
      return Term.moveFromTo d.grid.pos ⟨r, target.size.cols - 1⟩ ++ [0x20] ++ before ++ Term.saveCursor ++ Term.backspace ++
        Term.eraseChar 1 ++ Term.restoreCursor ++ after) fun bytes => ∃ e, Paints crates ground bytes d e ∧ d.Moved e ∧
      e.grid.pos = ⟨r, target.size.cols⟩ := by
  obtain ⟨shown, hrow', hshown⟩ := Grid.exists_row_of_cells h.cells hrow
  have hsound := h.plain.rows shown (List.mem_of_getElem? hrow')
  have hr : r < d.grid.size.rows := h.plain.length ▸ (List.getElem?_eq_some_iff.mp hrow').1
  have hcols := h.plain.cols_pos
  have hsize : d.grid.size.cols = target.size.cols := congrArg Size.cols h.size
  have hcell := (hdrawn.getElem? hrow).getElem? hend.holds
  have hblank : cell = .blank cell.attrs := by
    refine hcell.eq_blank ?_ ((flagAt_of_getElem? hend.holds).symm.trans hend.first)
    exact not_not.mp fun hne => Bool.false_ne_true (hempty.symm.trans (Cell.hasContents_iff.mpr hne))
  -- The space.
  have hmove : Paints crates ground (Term.moveFromTo d.grid.pos ⟨r, target.size.cols - 1⟩) d
      { d with grid := { d.grid with pos := ⟨r, target.size.cols - 1⟩ } } :=
    paints_moveFromTo hvte h.plain hr (show target.size.cols - 1 < d.grid.size.cols by omega)
  have hspace : (Cell.glyph ' ' 1 d.attrs).Drawn crates.unicode :=
    .glyph crates.unicode.terminalWidth_space (Nat.le_refl 1) hattrs
  have hplain : { d.grid with pos := ⟨r, target.size.cols - 1⟩ }.Plain := h.plain.withPos hr (by simp only; omega)
  obtain ⟨t, hpaints, hdrew, hpos⟩ := paints_contents (d := { d with grid := { d.grid with pos := ⟨r, target.size.cols - 1⟩ } })
    hvte hcontrols hplain hrow' hspace (List.cons_ne_nil _ _) rfl
    (show target.size.cols - 1 + 1 ≤ d.grid.size.cols by omega)
  obtain ⟨first, hfirst, hcells, hwrapped⟩ := hdrew.row
  have hpos : t.pos = ⟨r, target.size.cols⟩ := hpos.trans (congrArg (Pos.mk r) (show target.size.cols - 1 + 1 = _ by omega))
  have hlast : first.cells[target.size.cols - 1]? = some (.glyph ' ' 1 d.attrs) := by rw [hcells, drawnAt, if_pos rfl]
  -- The cursor is saved behind the space, and goes back to erase it.
  have hsave := paints_saveCursor hvte { d with grid := t, attrs := cell.attrs }
  have hback := paints_backspace hvte { d with grid := t.saveCursor, attrs := cell.attrs, savedAttrs := cell.attrs }
  have hgrid : t.saveCursor.colDec 1 = { t.saveCursor with pos := ⟨r, target.size.cols - 1⟩ } := by
    unfold Grid.colDec
    rw [show t.saveCursor.pos = ⟨r, target.size.cols⟩ from hpos]
  rw [hgrid] at hback
  have hsaved : { t.saveCursor with pos := ⟨r, target.size.cols - 1⟩ }.Plain := by
    have hready := (returns_pure.mp (Grid.keeps_saveCursor t hdrew.plain.toReady)).1
    have hplain : t.saveCursor.Plain := ⟨hready, hdrew.plain.origin, hdrew.plain.top, hdrew.plain.bottom⟩
    have hsize' : t.saveCursor.size = d.grid.size := hdrew.size
    exact hplain.withPos (hsize' ▸ hr) (show target.size.cols - 1 ≤ t.saveCursor.size.cols by rw [hsize']; omega)
  have hsize' : t.size.cols = target.size.cols := (congrArg Size.cols hdrew.size).trans hsize
  obtain ⟨u, herase, hstruck, -⟩ := paints_eraseCount
    (d := { grid := { t.saveCursor with pos := ⟨r, target.size.cols - 1⟩ }, attrs := cell.attrs, savedAttrs := cell.attrs })
    (n := 1) hvte hsaved hfirst hcell.attrs.sound (Nat.le_refl 1)
    (show target.size.cols - 1 + 1 ≤ t.size.cols by omega) (flagAt_of_getElem? hlast)
  have hrestore := paints_restoreCursor hvte { grid := u, attrs := cell.attrs, savedAttrs := cell.attrs }
  obtain ⟨next, hnext, hnextCells, hnextWrapped⟩ := hstruck.row
  have hempty : shown.cells[target.size.cols - 1]? = some (.blank cell.attrs) := by rw [hshown, hend.holds, ← hblank]
  have hsame : next.cells = shown.cells := erased_space hempty hcells hnextCells
  have hothers {k : Nat} (hk : k ≠ r) : u.rows[k]? = d.grid.rows[k]? := (hstruck.others k hk).trans (hdrew.others k hk)
  have hmoved : d.Moved { grid := u.restoreCursor, attrs := d.attrs, savedAttrs := cell.attrs } := by
    have heq := hstruck.eq
    have hready := (returns_pure.mp (Grid.keeps_restoreCursor u hstruck.plain.toReady)).1
    refine ⟨⟨hready, ?_, hstruck.plain.top, hstruck.plain.bottom⟩, ?_, ?_, fun hjoined => ?_, rfl⟩
    · show u.savedOriginMode = false
      rw [heq]
      exact hdrew.plain.origin
    · show u.size = _
      rw [heq]
      exact hdrew.size
    · refine List.ext_getElem? fun k => ?_
      show (u.rows.map Row.cells)[k]? = (d.grid.rows.map Row.cells)[k]?
      rw [List.getElem?_map, List.getElem?_map]
      by_cases hk : k = r
      · rw [hk, hnext, hrow', Option.map_some, Option.map_some, hsame]
      · rw [hothers hk]
    · -- The row does not end in text, and so it does not wrap.
      have hunwrapped : shown.wrapped = false := Bool.eq_false_iff.mpr fun htrue => by
        have hjoins := hjoined shown (List.mem_of_getElem? hrow') htrue
        rw [hsound.length, hsize, flagAt_of_getElem? hempty] at hjoins
        cases hjoins
      have hfalse : next.wrapped = false := Bool.eq_false_iff.mpr fun htrue => by
        cases hunwrapped.symm.trans (hwrapped (hnextWrapped htrue))
      refine List.ext_getElem? fun k => ?_
      show u.rows[k]? = _
      by_cases hk : k = r
      · rw [hk, hnext, hrow', Row.eq_of_cells hsame (hfalse.trans hunwrapped.symm)]
      · exact hothers hk
  have hposition : u.restoreCursor.pos = ⟨r, target.size.cols⟩ := by
    show u.savedPos = _
    rw [hstruck.eq]
    exact hpos
  refine returns_bind.mpr ((returns_paints_attrs hvte { d with grid := t } hattrs hcell.attrs).mono fun before hbefore => ?_)
  refine returns_bind.mpr ((returns_paints_attrs hvte { grid := u.restoreCursor, attrs := cell.attrs, savedAttrs := cell.attrs }
    hcell.attrs hattrs).mono fun after hafter => returns_pure.mpr ?_)
  exact ⟨_, (((((((hmove.append hvte hpaints).append hvte hbefore).append hvte hsave).append hvte hback).append hvte
    herase).append hvte hrestore).append hvte hafter), hmoved, hposition⟩

/-- The cursor comes to where it is in the grid. -/
theorem returns_paints_cursor (hvte : crates.vte.ReadsCommands ground) (hcontrols : crates.unicode.Controls)
    (h : d.Looks target) (hready : target.Ready) (hdrawn : target.Drawn crates.unicode) (hattrs : d.attrs.Proper) :
    Returns (target.writeCursorPositionFormatted d.grid.pos d.attrs) fun bytes => ∃ e, Paints crates ground bytes d e ∧
      d.Moved e ∧ e.grid.pos = target.pos := by
  refine returns_ite.mpr ⟨fun hbehind => returns_bind.mpr ?_, fun hplace => returns_pure.mpr ?_⟩
  · have hpos : target.pos = ⟨target.pos.row, target.size.cols⟩ :=
      congrArg (Pos.mk target.pos.row) (Nat.le_antisymm hready.col_le hbehind.2)
    have hmoved : d.Moved { d with grid := { d.grid with pos := ⟨target.pos.row, target.size.cols⟩ } } :=
      h.withPos hready.row_lt (Nat.le_refl _)
    refine (hready.returns_end hready.row_lt).mono ?_
    rintro ⟨⟨r, col⟩, cell⟩ ⟨hr, row, hrow, hend⟩
    dsimp only at hr hend
    subst hr
    refine returns_ite.mpr ⟨fun hcontents => ?_, fun hempty => returns_bind.mpr ?_⟩
    · refine (returns_paints_redraw hvte hcontrols h hdrawn hattrs ⟨_, col⟩ hrow hend hcontents).mono fun bytes hbytes => ?_
      exact ⟨_, hbytes, hmoved, hpos.symm⟩
    · refine (returns_paints_fromAbove hvte hcontrols h hready hdrawn hattrs (Nat.le_refl _)).mono ?_
      rintro (_ | bytes) hfound
      · -- No row above ends in text either. The empty cell is the last one.
        have hcell := (hdrawn.getElem? hrow).getElem? hend.holds
        have hcol : col = target.size.cols - 1 := by
          have hlast := hend.last
          have hnarrow : cell.columns = 1 := if_neg fun hwide => hempty (hcell.contents_of_wide hwide)
          rw [hnarrow] at hlast
          omega
        subst hcol
        refine returns_bind.mpr (returns_sub.mpr ⟨hready.cols_pos, returns_bind.mpr ?_⟩)
        refine (Grid.returns_drawingCell hrow).mpr ⟨cell, hend.holds, ?_⟩
        refine (returns_paints_overEmpty hvte hcontrols h hdrawn hattrs hrow hend (Bool.eq_false_iff.mpr hempty)).mono ?_
        rintro bytes ⟨e, hbytes, he, hepos⟩
        exact ⟨e, hbytes, he, hepos.trans hpos.symm⟩
      · exact returns_pure.mpr ⟨_, hfound bytes rfl, hmoved, hpos.symm⟩
  · refine ⟨{ d with grid := { d.grid with pos := target.pos } }, ?_, h.withPos hready.row_lt hready.col_le, rfl⟩
    by_cases hsame : d.grid.pos = target.pos
    · rw [← hsame, show Term.moveFromTo d.grid.pos d.grid.pos = [] by simp [Term.moveFromTo]]
      exact .nil hvte d
    · have hcol := Nat.lt_of_not_le fun hle => hplace ⟨hsame, hle⟩
      exact paints_moveFromTo hvte h.plain (h.size ▸ hready.row_lt) (h.size ▸ hcol)

/-! ### Contents -/

theorem paints_clearAttrs (hvte : crates.vte.ReadsCommands ground) (d : Display) :
    Paints crates ground Term.clearAttrs d { d with attrs := .default } :=
  paints_sgr hvte (.csi [] [[]] 0x6d) (valid_csi (by decide)) rfl (List.cons_ne_nil _ _) rfl

/-- From the first cell on, everything is erased. -/
theorem Grid.Plain.eraseAllForward_eq (h : g.Plain) (hpos : g.pos = ⟨0, 0⟩) :
    g.eraseAllForward .default = .ok { g with rows := List.replicate g.size.rows g.newRow } := by
  obtain ⟨first, rest, hrows⟩ : ∃ first rest, g.rows = first :: rest :=
    List.exists_cons_of_length_pos (by rw [h.length]; exact h.rows_pos)
  have hsound := h.rows first (hrows ▸ List.mem_cons_self)
  have hcleared : rest.map (·.clear .default) = List.replicate rest.length g.newRow := by
    refine List.eq_replicate_iff.mpr ⟨List.length_map _, fun row hrow => ?_⟩
    obtain ⟨old, hold, rfl⟩ := List.mem_map.mp hrow
    have hlength := (h.rows old (hrows ▸ List.mem_cons_of_mem _ hold)).length
    refine Row.eq_of_cells (List.eq_replicate_iff.mpr ⟨by rw [Row.clear, List.length_map, hlength], ?_⟩) rfl
    intro cell hcell
    obtain ⟨_, -, rfl⟩ := List.mem_map.mp hcell
    rfl
  have hlength : g.size.rows = rest.length + 1 := by rw [← h.length, hrows, List.length_cons]
  rw [← returns_eq_iff]
  unfold eraseAllForward eraseRowForward currentRowMut
  dsimp only
  rw [hpos, hrows, hlength]
  refine returns_bind.mpr (returns_unwrap.mpr ⟨first, rfl, returns_bind.mpr ?_⟩)
  refine (Row.returns_eraseRange_cells hsound h.cols_le Attrs.sound_default (Nat.zero_le _) (Nat.le_refl _)
    hsound.paired.head).mono ?_
  rintro next ⟨hnext, hcells, hwrapped⟩
  have hnew : next = g.newRow := by
    refine Row.eq_of_cells (List.eq_replicate_iff.mpr ⟨hnext.length, fun cell hcell => ?_⟩) ?_
    · obtain ⟨j, hj⟩ := List.mem_iff_getElem?.mp hcell
      have hlt := hnext.length ▸ (List.getElem?_eq_some_iff.mp hj).1
      rw [hcells, Row.erasedRangeAt, if_pos ⟨Nat.zero_le j, hlt⟩] at hj
      exact (Option.some.inj hj).symm
    · exact Bool.eq_false_iff.mpr fun htrue => (hwrapped htrue).2 h.cols_pos rfl
  refine returns_pure.mpr ?_
  rw [hnew, List.replicate_succ, ← hcleared]
  rfl

theorem paints_clearScreen (hvte : crates.vte.ReadsCommands ground) (hplain : d.grid.Plain) (hattrs : d.attrs = .default) :
    Paints crates ground Term.clearScreen d
      { d with grid := { d.grid with rows := List.replicate d.grid.size.rows d.grid.newRow, pos := ⟨0, 0⟩ } } := by
  have hhome := paints_moveTo (d := d) hvte hplain ⟨0, 0⟩ hplain.rows_pos hplain.cols_pos
  have hplain' : { d.grid with pos := ⟨0, 0⟩ }.Plain := hplain.withPos hplain.rows_pos (Nat.zero_le _)
  have hclear := paints_clearForward (d := { d with grid := { d.grid with pos := ⟨0, 0⟩ } }) hvte
    (hattrs ▸ hplain'.eraseAllForward_eq rfl)
  exact hhome.append hvte hclear

/-- The display shows the rows of a grid. -/
structure Display.Matches (d : Display) (target : Grid) : Prop where
  plain : d.grid.Plain
  size : d.grid.size = target.size
  rows : d.grid.rows = target.rows

theorem Display.Matches.looks (h : d.Matches target) : d.Looks target := ⟨h.plain, h.size, congrArg (List.map Row.cells) h.rows⟩

theorem Display.Moved.matches (h : d.Moved e) (hd : d.Matches target) (hdrawn : target.Drawn crates.unicode) :
    e.Matches target := by
  refine ⟨h.plain, h.size.trans hd.size, (h.rows fun row hrow => ?_).trans hd.rows⟩
  exact (hdrawn.rows row (hd.rows ▸ hrow)).joins

/-- The contents of a grid, on any display of its size without margins. -/
theorem Grid.returns_paints_contents (hvte : crates.vte.ReadsCommands ground) (hcontrols : crates.unicode.Controls)
    (hplain : d.grid.Plain) (hsize : d.grid.size = target.size) (hready : target.Ready) (hdrawn : target.Drawn crates.unicode) :
    Returns target.writeContentsFormatted fun written => ∃ e, Paints crates ground written.1 d e ∧ e.Matches target ∧
      e.grid.pos = target.pos ∧ e.attrs = written.2 ∧ written.2.Proper := by
  have hempty := (paints_clearAttrs hvte d).append hvte (paints_clearScreen (d := { d with attrs := .default }) hvte hplain rfl)
  have hstart : RowsPainted crates ground d target 0 ⟨Term.clearAttrs ++ Term.clearScreen, false, ⟨0, 0⟩, .default, none⟩
      ⟨{ d.grid with rows := List.replicate d.grid.size.rows d.grid.newRow, pos := ⟨0, 0⟩ }, .default, d.savedAttrs⟩ := by
    refine ⟨⟨hempty, rfl, rfl, Attrs.proper_default⟩, ?_, hsize, ?_, ?_, ?_, ?_⟩
    · have hrows : ∀ row ∈ List.replicate d.grid.size.rows d.grid.newRow, row.Sound d.grid.size.cols := fun row hrow => by
        rw [List.eq_of_mem_replicate hrow]
        exact Row.sound_new _
      have hredrawn := hplain.toReady.redrawn hrows List.length_replicate
      exact Grid.Plain.withPos ⟨hredrawn.ready, hplain.origin, hplain.top, hplain.bottom⟩ hplain.rows_pos (Nat.zero_le _)
    · exact fun k hk => absurd hk (Nat.not_lt_zero _)
    · exact fun k hk => absurd hk (Nat.succ_ne_zero k)
    · intro k _ hk
      rw [← hsize]
      exact List.getElem?_replicate.trans (if_pos (hsize ▸ hk))
    · exact fun k _ hk => absurd hk (Nat.succ_ne_zero k)
  refine returns_bind.mpr ((hstart.returns_writeRows hvte hcontrols hready hdrawn rfl (fun _ => rfl)
    fun k _ hk => absurd hk (Nat.succ_ne_zero k)).mono ?_)
  rintro w ⟨e, hw⟩
  rw [Nat.zero_add, List.drop_zero, hready.length] at hw
  have hmatches : e.Matches target := ⟨hw.plain, hw.size, hw.rows_eq hready hdrawn⟩
  rw [← hw.pos, ← hw.attrs]
  refine returns_bind.mpr ((returns_paints_cursor hvte hcontrols hmatches.looks hready hdrawn (hw.attrs ▸ hw.proper)).mono ?_)
  rintro bytes ⟨f, hbytes, hmoved, hpos⟩
  exact returns_pure.mpr ⟨f, hw.paints.append hvte hbytes, hmoved.matches hmatches hdrawn, hpos, hmoved.attrs,
    hw.attrs ▸ hw.proper⟩

end Painting

end MoshClient.Vt100
