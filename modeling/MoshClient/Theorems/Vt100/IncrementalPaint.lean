import MoshClient.Theorems.Vt100.ScreenPaint

/-! Painting what has changed. On a display that shows the cells of an earlier grid, the bytes draw those of the current
    one, row by row. Which rows wrap is not always brought over, so that only the cells are followed here. -/

namespace MoshClient.Vt100
open Checked

/-! ### Cells -/

section Cells

variable {unicode : UnicodeWidth} {cells erased : List Cell} {col : Nat} {cell : Cell} {attrs : Attrs}

/-- A character that was erased and is drawn again. -/
theorem drawnAt_erased (hpaired : Paired cells) (hdrawn : ∀ cell ∈ cells, cell.Drawn unicode) (hcell : cells[col]? = some cell)
    (herased : ∀ j, erased[j]? = Row.erasedRangeAt cells col (col + 1) attrs j) (j : Nat) :
    drawnAt erased col cell j = cells[j]? := by
  have hwide : wideAt cells col = cell.isWide := flagAt_of_getElem? hcell
  have hblank : erased[col]? = some (.blank attrs) := by
    rw [herased, Row.erasedRangeAt, if_pos ⟨Nat.le_refl _, Nat.lt_succ_self _⟩]
  have hcont : continuationAt erased col = false := flagAt_of_getElem? hblank
  have hnarrow : wideAt erased col = false := flagAt_of_getElem? hblank
  have hnext : wideAt erased (col + 1) = false ∨ cell.isWide = false := by
    cases hw : cell.isWide with
    | false => exact .inr rfl
    | true =>
      refine .inl ?_
      have hsecond := hpaired.continuation hdrawn (hwide.trans hw)
      rw [wideAt, flagAt, herased, Row.erasedRangeAt, if_neg (by omega), Nat.add_sub_cancel, hwide, hw,
        if_pos ⟨rfl, Nat.lt_succ_self _, rfl⟩, hsecond]
      rfl
  unfold drawnAt
  rw [hcont, hnarrow]
  cases hw : cell.isWide with
  | true =>
    have hsecond := hpaired.continuation hdrawn (hwide.trans hw)
    have hnext := hnext.resolve_right (by simp [hw])
    have hat := herased j
    unfold Row.erasedRangeAt at hat
    grind
  | false =>
    have hat := herased j
    unfold Row.erasedRangeAt at hat
    rw [Nat.add_sub_cancel, hwide, hw] at hat
    grind

/-- An empty cell that is erased with its own attributes. -/
theorem erased_blank (hcell : cells[col]? = some (.blank attrs))
    (herased : ∀ j, erased[j]? = Row.erasedRangeAt cells col (col + 1) attrs j) : erased = cells := by
  have hwide : wideAt cells col = false := flagAt_of_getElem? hcell
  refine List.ext_getElem? fun j => ?_
  rw [herased, Row.erasedRangeAt, Nat.add_sub_cancel, hwide]
  grind

end Cells

section Grids

variable {g t : Grid} {r : Nat} {next : Row}

theorem Grid.cells_entered : (g.entered r).cells = g.cells := by
  refine List.ext_getElem? fun k => ?_
  have hat : (g.entered r).rows[k]? = g.rows[k]?.map fun row => if r - 1 = k then row.wrap true else row :=
    List.getElem?_modify ..
  unfold Grid.cells
  rw [List.getElem?_map, List.getElem?_map, hat, Option.map_map]
  congr 1
  funext row
  dsimp only [Function.comp]
  split <;> rfl

theorem Grid.cells_begun (joined : Bool) : (g.begun r joined).cells = g.cells := by
  unfold Grid.begun
  split
  · exact Grid.cells_entered
  · rfl

/-- The cells of the grids are the same, but for row `r`. -/
def Grid.Reshown (g : Grid) (r : Nat) (cells : List Cell) (t : Grid) : Prop :=
  ∀ k, t.cells[k]? = if k = r then some cells else g.cells[k]?

theorem Grid.Strokes.reshown (h : Grid.Strokes r g t) (hrow : t.rows[r]? = some next) : g.Reshown r next.cells t := by
  intro k
  unfold Grid.cells
  rw [List.getElem?_map, List.getElem?_map]
  split
  · rename_i hk
    rw [hk, hrow]
    rfl
  · rw [h.others k ‹_›]

theorem Grid.Reshown.cells_eq {cells : List Cell} {old : Row} (h : g.Reshown r cells t) (hrow : g.rows[r]? = some old)
    (hsame : cells = old.cells) : t.cells = g.cells := by
  refine List.ext_getElem? fun k => ?_
  rw [h k]
  split
  · rename_i hk
    rw [Grid.cells, List.getElem?_map, hk, hrow, hsame]
    rfl
  · rfl

theorem Grid.Reshown.trans {u : Grid} {cells more : List Cell} (h : g.Reshown r cells t) (hu : t.Reshown r more u) :
    g.Reshown r more u := by
  intro k
  rw [hu k]
  split
  · rfl
  · rw [h k, if_neg ‹_›]

end Grids

section Painting

variable {crates : Crates} {ground : crates.vte.State → Prop} {o d e : Display} {w v : RowWriter}
  {g : Grid} {r : Nat} {wrapping prevWrapping : Bool} {row prev old : Row}

/-! ### The start of a row -/

theorem paints_back (hvte : crates.vte.ReadsCommands ground) {cell : Cell} (hpos : d.grid.pos = ⟨r, cell.columns⟩) :
    Paints crates ground (Term.backspace ++ if cell.isWide then Term.backspace else []) d
      { d with grid := { d.grid with pos := ⟨r, 0⟩ } } := by
  have hone := paints_backspace hvte d
  have hdec : d.grid.colDec 1 = { d.grid with pos := ⟨r, cell.columns - 1⟩ } := by
    unfold Grid.colDec
    rw [hpos]
  rw [hdec] at hone
  unfold Cell.columns at hone
  split
  · rename_i hwide
    rw [if_pos hwide] at hone
    have htwo := paints_backspace hvte { d with grid := { d.grid with pos := ⟨r, 1⟩ } }
    exact hone.append hvte htwo
  · rename_i hwide
    rw [if_neg hwide] at hone
    rw [List.append_nil]
    exact hone

/-- The first cell of a row is drawn over itself, behind the end of the row above. -/
theorem paints_first_again (hvte : crates.vte.ReadsCommands ground) (hcontrols : crates.unicode.Controls)
    (hplain : d.grid.Plain) (hnext : d.grid.pos.row + 1 = r) (hrow : d.grid.rows[r]? = some old) (hjoins : d.grid.RowJoins)
    (hdrawn : ∀ cell ∈ old.cells, cell.Drawn crates.unicode) {cell : Cell} (hfirst : old.cells[0]? = some cell)
    (hattrs : d.attrs = cell.attrs) (hend : d.grid.size.cols - (if cell.isWide then 1 else 0) ≤ d.grid.pos.col) :
    ∃ t : Grid, Paints crates ground ((if cell.contents.isEmpty then [0x20] else cell.contents.flatMap String.utf8EncodeChar) ++
        Term.backspace ++ (if cell.isWide then Term.backspace else []) ++
        (if cell.contents.isEmpty then Term.eraseChar 1 else [])) d { d with grid := t } ∧
      t.Plain ∧ t.size = d.grid.size ∧ t.cells = d.grid.cells ∧ t.pos = ⟨r, 0⟩ := by
  have hsound := hplain.rows old (List.mem_of_getElem? hrow)
  have hr : r < d.grid.size.rows := hplain.length ▸ (List.getElem?_eq_some_iff.mp hrow).1
  have hcell := hdrawn cell (List.mem_of_getElem? hfirst)
  have hcols := hplain.cols_pos
  have hentered : (d.grid.entered r).rows[r]? = some old := by
    rw [Grid.getElem?_entered (by omega), if_neg (by omega), hrow]
  by_cases hempty : cell.contents = []
  · -- A space stands for an empty cell, and is erased.
    have hblank : cell = .blank cell.attrs :=
      hcell.eq_blank hempty ((flagAt_of_getElem? hfirst).symm.trans hsound.paired.head)
    have hnarrow : cell.isWide = false := by rw [hblank]; rfl
    rw [hnarrow] at hend
    obtain ⟨t, hpaints, hstrokes, hpos, next, hnextRow, hcells, -⟩ := paints_space_entered hvte hcontrols hplain hnext hrow
      hjoins hend (hattrs ▸ hcell.attrs) (by rw [hfirst, hattrs, ← hblank])
    refine ⟨t, ?_, hstrokes.plain, hstrokes.size, ?_, hpos⟩
    · rw [hempty, hnarrow]
      exact hpaints
    · exact ((hstrokes.reshown hnextRow).cells_eq hentered hcells).trans Grid.cells_entered
  · have hwraps : d.grid.Wraps cell.columns := by
      unfold Grid.Wraps Cell.columns
      split <;> rename_i hwide <;> simp only [hwide, if_true, Bool.false_eq_true, if_false] at hend <;> omega
    have hle : cell.columns ≤ d.grid.size.cols := by
      unfold Cell.columns
      split
      · rename_i hwide
        exact hsound.length ▸ hsound.paired.lt_length ((flagAt_of_getElem? hfirst).trans hwide)
      · exact hcols
    obtain ⟨t, hpaints, hdrew, hpos⟩ := paints_contents_entered hvte hcontrols hplain hnext hrow hjoins hcell hempty hattrs hle
      hwraps
    have hsame := hdrew.eq_self hentered hsound.paired hdrawn hfirst hsound.paired.head
    have hback := paints_back (d := { d with grid := t }) hvte hpos
    have hgrid : { t with pos := ⟨r, 0⟩ } = d.grid.entered r := by
      rw [hsame]
      rfl
    rw [show ({ d with grid := t } : Display).grid = t from rfl, hgrid] at hback
    refine ⟨d.grid.entered r, ?_, hplain.entered hr, rfl, Grid.cells_entered, rfl⟩
    have hfull : cell.contents.isEmpty = false := List.isEmpty_eq_false_iff.mpr hempty
    rw [hfull, if_neg Bool.false_ne_true, if_neg Bool.false_ne_true, List.append_nil, List.append_assoc]
    exact hpaints.append hvte hback

/-- A row is begun. Where the row above has begun to wrap, and the cursor hangs behind it, the first cell is drawn again
    if it is the same. -/
structure DiffStarted (crates : Crates) (ground : crates.vte.State → Prop) (o d : Display) (r : Nat)
    (wrapping prevWrapping : Bool) (first prevFirst : Cell) (v : RowWriter) (e : Display) : Prop
    extends Writing crates ground o v e where
  plain : e.grid.Plain
  size : e.grid.size = d.grid.size
  cells : e.grid.cells = d.grid.cells
  wide : v.prevWasWide = false
  erase : v.erase = none
  hangs : wrapping = true → v.prevPos.row + 1 = r → d.grid.size.cols ≤ v.prevPos.col →
    prevWrapping = true ∨ first ≠ prevFirst

theorem Writing.returns_startDiff (hvte : crates.vte.ReadsCommands ground) (hcontrols : crates.unicode.Controls)
    (h : Writing crates ground o w d) (hplain : d.grid.Plain) (hrow : d.grid.rows[r]? = some old)
    (hdrawn : ∀ cell ∈ old.cells, cell.Drawn crates.unicode) {prevFirst : Cell} (hfirst : old.cells[0]? = some prevFirst)
    (hjoins : wrapping = true → ∀ above, d.grid.rows[r - 1]? = some above →
      flagAt Cell.joins above.cells (above.cells.length - 1) = true) (first : Cell) :
    Returns (w.startDiff d.grid.size.cols r wrapping prevWrapping first prevFirst) fun v =>
      ∃ e, DiffStarted crates ground o d r wrapping prevWrapping first prevFirst v e := by
  have hsound := hplain.rows old (List.mem_of_getElem? hrow)
  have hcont : continuationAt old.cells 0 = false := hsound.paired.head
  have hcell := hdrawn prevFirst (List.mem_of_getElem? hfirst)
  have hcols := hplain.cols_pos
  have hstay (hhangs : wrapping = true → w.prevPos.row + 1 = r → d.grid.size.cols ≤ w.prevPos.col →
      prevWrapping = true ∨ first ≠ prevFirst) :
      DiffStarted crates ground o d r wrapping prevWrapping first prevFirst { w with prevWasWide := false, erase := none } d :=
    ⟨⟨h.paints, h.pos, h.attrs, h.proper⟩, hplain, rfl, rfl, rfl, rfl, hhangs⟩
  unfold RowWriter.startDiff
  dsimp only
  refine returns_ite.mpr ⟨fun hbegins => returns_bind.mpr ?_, fun hbegins => returns_pure.mpr ⟨d, hstay ?_⟩⟩
  · obtain ⟨hwrapping, -, rfl, habove⟩ := hbegins
    refine returns_sub.mpr ⟨?_, returns_ite.mpr ⟨fun hend => returns_bind.mpr ?_, fun hend => returns_pure.mpr ⟨d, hstay ?_⟩⟩⟩
    · split
      · exact hcols
      · exact Nat.zero_le _
    · -- The first cell goes on behind the row above.
      refine (returns_setAttrs (w := { w with prevWasWide := false, erase := none }) hvte h.paints h.attrs h.proper
        hcell.attrs).mono ?_
      rintro v ⟨hv, hwriter⟩
      have hrowJoins : d.grid.RowJoins := by
        intro above hat
        refine hjoins hwrapping above ?_
        rw [← hat, h.pos, ← habove]
        rfl
      obtain ⟨t, hpaints, hplain', hsize, hcells, hpos⟩ := paints_first_again (d := { d with attrs := first.attrs }) hvte
        hcontrols hplain (by rw [h.pos]; exact habove) hrow hrowJoins hdrawn hfirst rfl (by rw [h.pos]; exact hend)
      have hshade : v.prevAttrs = first.attrs := by rw [hwriter]
      refine returns_pure.mpr ⟨{ d with attrs := first.attrs, grid := t }, ⟨hv.append hvte hpaints, hpos, hshade.symm,
        hshade ▸ hcell.attrs⟩, hplain', hsize, hcells, ?_, ?_, ?_⟩
      · show v.prevWasWide = false
        rw [hwriter]
      · show v.erase = none
        rw [hwriter]
      · exact fun _ hrow => absurd hrow (Nat.succ_ne_self r)
    · intro _ _ hbehind
      refine absurd (Nat.le_trans (Nat.sub_le _ _) hbehind) hend
  · intro hwrapping habove _
    by_contra hno
    rw [not_or, not_not] at hno
    exact hbegins ⟨hwrapping, hno.1, hno.2, habove⟩

/-! ### The end of a row -/

/-- Row `r` shows the cells. The other rows are as they were, but for where they wrap. -/
structure RowRepainted (crates : Crates) (ground : crates.vte.State → Prop) (o : Display) (g : Grid) (r : Nat)
    (cells : List Cell) (w : RowWriter) (d : Display) : Prop extends Writing crates ground o w d where
  plain : d.grid.Plain
  size : d.grid.size = g.size
  reshown : g.Reshown r cells d.grid

/-- The end of a row, once its last character is found. -/
def RowWriter.finishAt (self : RowWriter) (row : Nat) (line : Row) (endCol : Nat) : Except Fault RowWriter := do
  let self := { self.write (Term.moveFromTo self.prevPos ⟨row, endCol⟩) with prevPos := ⟨row, endCol⟩ }
  let self := if line.wrapped then self else self.write (Term.eraseChar 1)
  let endCell ← index line.cells endCol
  if endCell.hasContents then
    let self ← self.setAttrs endCell.attrs
    return { self.write (endCell.contents.flatMap String.utf8EncodeChar) with
      prevPos.col := self.prevPos.col + if endCell.isWide then 2 else 1 }
  else return self

theorem Writing.returns_drawEnd (hvte : crates.vte.ReadsCommands ground) (hcontrols : crates.unicode.Controls)
    (h : Writing crates ground o w d) (hplain : d.grid.Plain) (hsize : d.grid.size = g.size) {col : Nat} {cell : Cell}
    {cells : List Cell} {shown : Row} (hpos : w.prevPos = ⟨r, col⟩) (hrow : d.grid.rows[r]? = some shown)
    (hreshown : g.Reshown r shown.cells d.grid) (hdraws : ∀ j, drawnAt shown.cells col cell j = cells[j]?)
    (hcell : cell.Drawn crates.unicode) (hcontents : cell.hasContents = true) (hfits : col + cell.columns ≤ g.size.cols) :
    Returns (do
      let w ← w.setAttrs cell.attrs
      return { w.write (cell.contents.flatMap String.utf8EncodeChar) with
        prevPos.col := w.prevPos.col + if cell.isWide then 2 else 1 }) fun v =>
      ∃ e, RowRepainted crates ground o g r cells v e := by
  refine returns_bind.mpr ((returns_setAttrs hvte h.paints h.attrs h.proper hcell.attrs).mono ?_)
  rintro v ⟨hv, hwriter⟩
  have hat : d.grid.pos = ⟨r, col⟩ := h.pos.trans hpos
  have hprev : v.prevPos = ⟨r, col⟩ := by rw [hwriter, hpos]
  have hshade : v.prevAttrs = cell.attrs := by rw [hwriter]
  obtain ⟨t, hpaints, hdrew, hposition⟩ := paints_contents (d := { d with attrs := cell.attrs }) hvte hcontrols hplain
    (by rw [hat]; exact hrow) hcell (Cell.hasContents_iff.mp hcontents) rfl (by rw [hat, hsize]; exact hfits)
  rw [hat] at hdrew hposition
  obtain ⟨next, hnext, hcells, -⟩ := hdrew.row
  have hsame : next.cells = cells := List.ext_getElem? fun j => (hcells j).trans (hdraws j)
  refine returns_pure.mpr ⟨{ d with attrs := cell.attrs, grid := t }, ⟨hv.append hvte hpaints, ?_, hshade.symm, ?_⟩, hdrew.plain,
    hdrew.size.trans hsize, hsame ▸ hreshown.trans (hdrew.toStrokes.reshown hnext)⟩
  · show t.pos = ⟨v.prevPos.row, v.prevPos.col + if cell.isWide then 2 else 1⟩
    rw [hprev]
    exact hposition
  · exact hshade ▸ hcell.attrs

/-- A row that ends in text ends in a character. -/
theorem EndsWith.hasContents {col : Nat} {cell : Cell} (h : EndsWith row g.size.cols col cell) (hsound : row.Sound g.size.cols)
    (hdrawn : row.Drawn crates.unicode) (hwrapped : row.wrapped = true) : cell.hasContents = true := by
  obtain ⟨i, other, hother, hcontents, hend⟩ := exists_end_of_joins hsound.paired hdrawn.cells (hdrawn.joins hwrapped)
  have hcont : continuationAt row.cells i = false :=
    (flagAt_of_getElem? hother).trans ((hdrawn.getElem? hother).not_continuation (Cell.hasContents_iff.mp hcontents))
  obtain rfl := hsound.paired.end_unique hother h.holds hcont h.first (hend.trans (hsound.length.trans h.last.symm))
  cases hother.symm.trans h.holds
  exact hcontents

theorem RowRepainted.returns_finishAt (hvte : crates.vte.ReadsCommands ground) (hcontrols : crates.unicode.Controls)
    (h : RowRepainted crates ground o g r row.cells w d) (hr : r < g.size.rows) (hsound : row.Sound g.size.cols)
    (hdrawn : row.Drawn crates.unicode) {col : Nat} {cell : Cell} (hend : EndsWith row g.size.cols col cell)
    (hshade : row.wrapped = false → ∀ attrs, cell = .blank attrs → w.prevAttrs = attrs) :
    Returns (w.finishAt r row col) fun v => ∃ e, RowRepainted crates ground o g r row.cells v e := by
  have hcell := hdrawn.getElem? hend.holds
  have hpos := cell.columns_pos
  have hlast := hend.last
  obtain ⟨shown, hrow, hcells⟩ : ∃ shown, d.grid.rows[r]? = some shown ∧ shown.cells = row.cells := by
    have hat := h.reshown r
    rw [if_pos rfl, Grid.cells, List.getElem?_map] at hat
    exact Option.map_eq_some_iff.mp hat
  have hmove : Paints crates ground (Term.moveFromTo w.prevPos ⟨r, col⟩) d
      { d with grid := { d.grid with pos := ⟨r, col⟩ } } := by
    rw [← h.pos]
    exact paints_moveFromTo hvte h.plain (h.size ▸ hr) (show col < d.grid.size.cols by rw [h.size]; omega)
  have hplain : { d.grid with pos := ⟨r, col⟩ }.Plain :=
    h.plain.withPos (h.size ▸ hr) (show col ≤ d.grid.size.cols by rw [h.size]; omega)
  have hmoved : Writing crates ground o { w.write (Term.moveFromTo w.prevPos ⟨r, col⟩) with prevPos := ⟨r, col⟩ }
      { d with grid := { d.grid with pos := ⟨r, col⟩ } } :=
    ⟨h.paints.append hvte hmove, rfl, h.attrs, h.proper⟩
  unfold RowWriter.finishAt
  dsimp only
  refine returns_bind.mpr (returns_index.mpr ⟨cell, hend.holds, ?_⟩)
  cases hwrapped : row.wrapped with
  | true =>
    have hcontents := hend.hasContents hsound hdrawn hwrapped
    rw [if_pos rfl, if_pos hcontents]
    refine hmoved.returns_drawEnd hvte hcontrols hplain h.size rfl hrow (hcells ▸ h.reshown) (fun j => ?_) hcell hcontents
      (Nat.le_of_eq hlast)
    rw [hcells]
    exact drawnAt_self hsound.paired hdrawn.cells hend.holds hend.first j
  | false =>
    rw [if_neg Bool.false_ne_true]
    -- The last character is erased, and drawn again.
    obtain ⟨u, herase, hstruck, hat⟩ := paints_eraseCount (d := { d with grid := { d.grid with pos := ⟨r, col⟩ } }) (n := 1) hvte
      hplain hrow (h.attrs ▸ h.proper.sound) (Nat.le_refl 1)
      (show col + 1 ≤ d.grid.size.cols by rw [h.size]; omega) (hcells ▸ hend.first)
    obtain ⟨next, hnext, herased, -⟩ := hstruck.row
    rw [hcells] at herased
    have herasing : Writing crates ground o
        ({ w.write (Term.moveFromTo w.prevPos ⟨r, col⟩) with prevPos := ⟨r, col⟩ }.write (Term.eraseChar 1))
        { d with grid := u } :=
      ⟨hmoved.paints.append hvte herase, hat, h.attrs, h.proper⟩
    have hsize : u.size = g.size := hstruck.size.trans h.size
    have hreshown : g.Reshown r next.cells u := h.reshown.trans (hstruck.toStrokes.reshown hnext)
    refine returns_ite.mpr ⟨fun hcontents => ?_, fun hempty => returns_pure.mpr ⟨_, herasing, hstruck.plain, hsize, ?_⟩⟩
    · exact herasing.returns_drawEnd hvte hcontrols hstruck.plain hsize rfl hnext hreshown
        (drawnAt_erased hsound.paired hdrawn.cells hend.holds herased) hcell hcontents (Nat.le_of_eq hlast)
    · have hblank : cell = .blank cell.attrs := by
        refine hcell.eq_blank ?_ ((flagAt_of_getElem? hend.holds).symm.trans hend.first)
        exact not_not.mp fun hne => hempty (Cell.hasContents_iff.mpr hne)
      have hattrs : d.attrs = cell.attrs := h.attrs.trans (hshade hwrapped _ hblank)
      have hholds : row.cells[col]? = some (.blank d.attrs) := by rw [hend.holds, hattrs, ← hblank]
      exact erased_blank hholds herased ▸ hreshown

theorem RowRepainted.returns_finishDiff (hvte : crates.vte.ReadsCommands ground) (hcontrols : crates.unicode.Controls)
    (h : RowRepainted crates ground o g r row.cells w d) (hr : r < g.size.rows) (hcols : 1 ≤ g.size.cols)
    (hsound : row.Sound g.size.cols) (hdrawn : row.Drawn crates.unicode)
    (hshade : row.wrapped = false → ∀ i attrs, i + 1 = g.size.cols → row.cells[i]? = some (.blank attrs) → w.prevAttrs = attrs) :
    Returns (w.finishDiff g.size.cols r row) fun v => ∃ e, RowRepainted crates ground o g r row.cells v e := by
  obtain ⟨last, hlast⟩ := Row.exists_cell (show g.size.cols - 1 < row.cells.length by rw [hsound.length]; omega)
  have hat {col : Nat} {cell : Cell} (hend : EndsWith row g.size.cols col cell) :
      Returns (w.finishAt r row col) fun v => ∃ e, RowRepainted crates ground o g r row.cells v e := by
    refine h.returns_finishAt hvte hcontrols hr hsound hdrawn hend fun hwrapped attrs hblank => ?_
    rw [hblank] at hend
    exact hshade hwrapped col attrs hend.last hend.holds
  refine returns_bind.mpr (returns_sub.mpr ⟨hcols, returns_bind.mpr (returns_index.mpr ⟨last, hlast, ?_⟩)⟩)
  refine returns_ite.mpr ⟨fun hcont => returns_bind.mpr (returns_sub.mpr ?_),
    fun hcont => returns_bind.mpr (returns_pure.mpr ?_)⟩
  · obtain ⟨htwo, first, hend⟩ := hsound.endsWith_wide hlast hcont
    exact ⟨htwo, hat hend⟩
  · exact hat (hsound.endsWith_last hcols hlast hcont)

/-! ### Rows -/

/-- Where the row above wraps, before and after, the first cell that changes is the first one or has contents: the writer
    draws spaces over the cells before an empty one. -/
def Row.Continues (wrapping prevWrapping : Bool) (s q : List Cell) : Prop :=
  wrapping = true → prevWrapping = true → ∀ c, 0 < c → (∀ i, i < c → s[i]? = q[i]?) → s[c]? ≠ q[c]? →
    flagAt Cell.hasContents s c = true

theorem Row.returns_repaints (hvte : crates.vte.ReadsCommands ground) (hcontrols : crates.unicode.Controls)
    (h : Writing crates ground o w d) (hplain : d.grid.Plain) (hsound : row.Sound d.grid.size.cols)
    (hdrawn : row.Drawn crates.unicode) (hprev : prev.Drawn crates.unicode) (hrow : d.grid.rows[r]? = some old)
    (hshown : old.cells = prev.cells)
    (hjoins : wrapping = true → ∀ above, d.grid.rows[r - 1]? = some above →
      flagAt Cell.joins above.cells (above.cells.length - 1) = true)
    (hcontinues : Row.Continues wrapping prevWrapping row.cells prev.cells) :
    Returns (row.writeContentsDiff prev d.grid.size.cols r wrapping prevWrapping w) fun v =>
      ∃ e, RowRepainted crates ground o d.grid r row.cells v e := by
  have hr : r < d.grid.size.rows := hplain.length ▸ (List.getElem?_eq_some_iff.mp hrow).1
  have hcols := hplain.cols_pos
  have hlength : prev.cells.length = d.grid.size.cols := by
    rw [← hshown, (hplain.rows old (List.mem_of_getElem? hrow)).length]
  obtain ⟨first, hfirst⟩ := Row.exists_cell (show 0 < row.cells.length by rw [hsound.length]; omega)
  obtain ⟨prevFirst, hprevFirst⟩ := Row.exists_cell (show 0 < prev.cells.length by rw [hlength]; omega)
  have hall : (row.cells.zip prev.cells).take d.grid.size.cols = row.cells.zip prev.cells := by
    refine List.take_of_length_le ?_
    rw [List.length_zip, hsound.length, hlength]
    omega
  unfold writeContentsDiff
  rw [returns_bind, returns_cols (by rw [hsound.length]; exact hplain.cols_le), hsound.length, hall]
  refine returns_bind.mpr (returns_index.mpr ⟨first, hfirst, returns_bind.mpr (returns_index.mpr ⟨prevFirst, hprevFirst, ?_⟩)⟩)
  refine returns_bind.mpr ((h.returns_startDiff hvte hcontrols hplain hrow (hshown ▸ hprev.cells) (hshown ▸ hprevFirst) hjoins
    first).mono ?_)
  rintro v ⟨e, hv⟩
  obtain ⟨shown, hshownRow, hshownCells⟩ := Grid.exists_row_of_cells hv.cells hrow
  have hchange : RowChange crates.unicode e.grid r wrapping row.cells prev.cells v.prevPos := by
    refine ⟨hv.plain, ⟨shown, hshownRow, hshownCells.trans hshown⟩, hv.size ▸ hsound.length, hsound.paired, hdrawn.cells,
      hprev.cells, ?_, ?_⟩
    · intro hwrapping above habove
      obtain ⟨other, hother, hcells⟩ := Grid.exists_row_of_cells hv.cells.symm habove
      rw [← hcells]
      exact hjoins hwrapping other hother
    · intro hwrapping habove hend c hc hsame hchanged
      rcases hv.hangs hwrapping habove (hv.size ▸ hend) with hprevWrapping | hother
      · exact hcontinues hwrapping hprevWrapping c hc hsame hchanged
      · have hzero := hsame 0 hc
        rw [hfirst, hprevFirst] at hzero
        exact absurd (Option.some.inj hzero) hother
  have hcells := hchange.returns_cells hvte hcontrols hv.toWriting hv.wide hv.erase
  rw [hv.size] at hcells
  refine returns_bind.mpr ((returns_bind.mp hcells).mono fun u hu => returns_bind.mpr (hu.mono ?_))
  rintro u ⟨joined, f, hdone⟩
  have hpainted : RowRepainted crates ground o d.grid r row.cells u f := by
    obtain ⟨next, hnext, hsame, -⟩ := hdone.row
    refine ⟨hdone.toWriting, hdone.strokes.plain, hdone.strokes.size.trans ((Grid.size_begun joined).trans hv.size), fun k => ?_⟩
    rw [hdone.strokes.reshown hnext k, hsame, Grid.cells_begun, hv.cells]
  refine returns_ite.mpr ⟨fun hturned => ?_, fun _ => returns_pure.mpr ⟨f, hpainted⟩⟩
  refine hpainted.returns_finishDiff hvte hcontrols hr hcols hsound hdrawn fun hwrapped i attrs hi hblank => ?_
  -- The row wrapped before: it ended in text.
  refine hdone.shade i attrs (hv.size.symm ▸ hi) hblank fun hsame => ?_
  have hprevWrapped : prev.wrapped = true := by
    rw [hwrapped] at hturned
    exact eq_true_of_ne_false (Ne.symm hturned)
  have hends := hprev.joins hprevWrapped
  rw [hlength, ← hi, Nat.add_sub_cancel, flagAt, ← hsame, hblank] at hends
  cases hends

/-! ### Grids -/

/-- Below the rows that wrap in both grids, no row begins to change at an empty cell behind its first one. -/
def Grid.Continues (target prev : Grid) : Prop :=
  ∀ k above prevAbove row prevRow, target.rows[k]? = some above → prev.rows[k]? = some prevAbove →
    target.rows[k + 1]? = some row → prev.rows[k + 1]? = some prevRow →
    Row.Continues above.wrapped prevAbove.wrapped row.cells prevRow.cells

variable {target before : Grid} {i : Nat}

theorem Grid.continues_of_unwrapped (h : ∀ row ∈ target.rows, row.wrapped = false) : target.Continues before := by
  intro k above _ _ _ habove _ _ _ hwrapping
  rw [h above (List.mem_of_getElem? habove)] at hwrapping
  cases hwrapping

/-- The rows above row `i` are repainted, and the others are as they were. -/
structure RowsRepainted (crates : Crates) (ground : crates.vte.State → Prop) (o : Display) (target before : Grid) (i : Nat)
    (w : RowWriter) (d : Display) : Prop extends Writing crates ground o w d where
  plain : d.grid.Plain
  size : d.grid.size = target.size
  above : ∀ k, k < i → d.grid.cells[k]? = target.cells[k]?
  below : ∀ k, i ≤ k → d.grid.cells[k]? = before.cells[k]?

/-- One row more. -/
theorem RowRepainted.rowsRepainted (h : RowsRepainted crates ground o target before i w d)
    (hv : RowRepainted crates ground o d.grid i row.cells v e) (hrow : target.rows[i]? = some row) :
    RowsRepainted crates ground o target before (i + 1) v e := by
  refine ⟨hv.toWriting, hv.plain, hv.size.trans h.size, fun k hk => ?_, fun k hk => ?_⟩
  · rw [hv.reshown k]
    split
    · rename_i hki
      rw [Grid.cells, List.getElem?_map, hki, hrow]
      rfl
    · exact h.above k (by omega)
  · rw [hv.reshown k, if_neg (by omega)]
    exact h.below k (by omega)

theorem RowsRepainted.returns_writeRowsDiff (hvte : crates.vte.ReadsCommands ground) (hcontrols : crates.unicode.Controls)
    (hready : target.Ready) (hdrawn : target.Drawn crates.unicode) (hbefore : before.Drawn crates.unicode)
    (hcontinues : target.Continues before) {pairs : List (Row × Row)} :
    ∀ {i : Nat} {wrapping prevWrapping : Bool} {w : RowWriter} {d : Display}, pairs = (target.rows.zip before.rows).drop i →
      (i = 0 → wrapping = false) →
      (∀ k above prevAbove, k + 1 = i → target.rows[k]? = some above → before.rows[k]? = some prevAbove →
        wrapping = above.wrapped ∧ prevWrapping = prevAbove.wrapped) →
      RowsRepainted crates ground o target before i w d →
      Returns (Grid.writeRowsDiff target.size.cols i wrapping prevWrapping pairs w) fun v =>
        ∃ e, RowsRepainted crates ground o target before (i + pairs.length) v e := by
  induction pairs with
  | nil => exact fun _ _ _ h => returns_pure.mpr ⟨_, h⟩
  | cons pair rest ih =>
    intro i wrapping prevWrapping w d hpairs hzero hwrapping h
    obtain ⟨row, prevRow⟩ := pair
    have hat : (target.rows.zip before.rows)[i]? = some (row, prevRow) := by
      rw [← Nat.add_zero i, ← List.getElem?_drop, ← hpairs]
      rfl
    obtain ⟨hrow, hprevRow⟩ := List.getElem?_zip_eq_some.mp hat
    have hcols : d.grid.size.cols = target.size.cols := congrArg Size.cols h.size
    obtain ⟨shown, hshown, hcells⟩ : ∃ shown, d.grid.rows[i]? = some shown ∧ shown.cells = prevRow.cells := by
      have hbelow := h.below i (Nat.le_refl i)
      simp only [Grid.cells, List.getElem?_map, hprevRow, Option.map_some] at hbelow
      exact Option.map_eq_some_iff.mp hbelow
    have hpaints : Returns (row.writeContentsDiff prevRow d.grid.size.cols i wrapping prevWrapping w) fun v =>
        ∃ e, RowRepainted crates ground o d.grid i row.cells v e := by
      refine Row.returns_repaints hvte hcontrols h.toWriting h.plain (hcols ▸ hready.rows row (List.mem_of_getElem? hrow))
        (hdrawn.getElem? hrow) (hbefore.getElem? hprevRow) hshown hcells ?_ ?_
      · -- The row above is painted.
        intro hwraps above habove
        obtain ⟨k, rfl⟩ : ∃ k, i = k + 1 :=
          Nat.exists_eq_succ_of_ne_zero fun hi => Bool.false_ne_true ((hzero hi).symm.trans hwraps)
        rw [Nat.add_sub_cancel] at habove
        have hpainted := h.above k (Nat.lt_succ_self k)
        simp only [Grid.cells, List.getElem?_map, habove, Option.map_some] at hpainted
        obtain ⟨line, hline, hsame⟩ := Option.map_eq_some_iff.mp hpainted.symm
        obtain ⟨prevLine, hprevLine⟩ : ∃ prevLine, before.rows[k]? = some prevLine :=
          ⟨_, List.getElem?_eq_getElem (Nat.lt_of_succ_lt (List.getElem?_eq_some_iff.mp hprevRow).1)⟩
        rw [← hsame]
        exact (hdrawn.getElem? hline).joins ((hwrapping k line prevLine rfl hline hprevLine).1.symm.trans hwraps)
      · intro hwraps hprevWraps
        obtain ⟨k, rfl⟩ : ∃ k, i = k + 1 :=
          Nat.exists_eq_succ_of_ne_zero fun hi => Bool.false_ne_true ((hzero hi).symm.trans hwraps)
        obtain ⟨line, hline⟩ : ∃ line, target.rows[k]? = some line :=
          ⟨_, List.getElem?_eq_getElem (Nat.lt_of_succ_lt (List.getElem?_eq_some_iff.mp hrow).1)⟩
        obtain ⟨prevLine, hprevLine⟩ : ∃ prevLine, before.rows[k]? = some prevLine :=
          ⟨_, List.getElem?_eq_getElem (Nat.lt_of_succ_lt (List.getElem?_eq_some_iff.mp hprevRow).1)⟩
        obtain ⟨hline', hprevLine'⟩ := hwrapping k line prevLine rfl hline hprevLine
        exact hcontinues k line prevLine row prevRow hline hprevLine hrow hprevRow (hline' ▸ hwraps) (hprevLine' ▸ hprevWraps)
    rw [hcols] at hpaints
    refine returns_bind.mpr (hpaints.mono ?_)
    rintro v ⟨e, hv⟩
    have hrest : rest = (target.rows.zip before.rows).drop (i + 1) := by
      rw [← List.drop_drop, ← hpairs]
      rfl
    rw [List.length_cons, Nat.add_comm rest.length, ← Nat.add_assoc]
    refine ih hrest (fun hi => absurd hi (Nat.succ_ne_zero i)) (fun k above prevAbove hk habove hprevAbove => ?_)
      (hv.rowsRepainted h hrow)
    cases Nat.succ.inj hk
    cases hrow.symm.trans habove
    cases hprevRow.symm.trans hprevAbove
    exact ⟨rfl, rfl⟩

/-- What has changed between two grids, on a display that shows the first. -/
theorem Grid.returns_paints_diff (hvte : crates.vte.ReadsCommands ground) (hcontrols : crates.unicode.Controls)
    (h : d.Looks before) (hready : target.Ready) (hbeforeReady : before.Ready) (hsize : before.size = target.size)
    (hdrawn : target.Drawn crates.unicode) (hbefore : before.Drawn crates.unicode) (hcontinues : target.Continues before)
    (hpos : d.grid.pos = before.pos) (hproper : d.attrs.Proper) :
    Returns (target.writeContentsDiff before d.attrs) fun written => ∃ e, Paints crates ground written.1 d e ∧
      e.Looks target ∧ e.grid.pos = target.pos ∧ e.attrs = written.2 ∧ written.2.Proper := by
  have hstart : RowsRepainted crates ground d target before 0 ⟨[], false, before.pos, d.attrs, none⟩ d :=
    ⟨⟨.nil hvte d, hpos, rfl, hproper⟩, h.plain, h.size.trans hsize, fun k hk => absurd hk (Nat.not_lt_zero k), fun k _ => by
      rw [h.cells]⟩
  refine returns_bind.mpr ((hstart.returns_writeRowsDiff hvte hcontrols hready hdrawn hbefore hcontinues rfl (fun _ => rfl)
    fun k _ _ hk => absurd hk (Nat.succ_ne_zero k)).mono ?_)
  rintro w ⟨e, hw⟩
  have hlength : (target.rows.zip before.rows).length = target.size.rows := by
    rw [List.length_zip, hready.length, hbeforeReady.length, hsize, Nat.min_self]
  rw [Nat.zero_add, List.drop_zero, hlength] at hw
  have hlooks : e.Looks target := by
    refine ⟨hw.plain, hw.size, List.ext_getElem? fun k => ?_⟩
    rcases Nat.lt_or_ge k target.size.rows with hlt | hge
    · exact hw.above k hlt
    · rw [hw.below k hge, Grid.cells, Grid.cells, List.getElem?_map, List.getElem?_map,
        List.getElem?_eq_none (by rw [hbeforeReady.length, hsize]; exact hge),
        List.getElem?_eq_none (by rw [hready.length]; exact hge)]
  rw [← hw.pos, ← hw.attrs]
  refine returns_bind.mpr ((returns_paints_cursor hvte hcontrols hlooks hready hdrawn (hw.attrs ▸ hw.proper)).mono ?_)
  rintro bytes ⟨f, hbytes, hmoved, hposition⟩
  exact returns_pure.mpr ⟨f, hw.paints.append hvte hbytes, ⟨hmoved.plain, hmoved.size.trans hlooks.size,
    hmoved.cells.trans hlooks.cells⟩, hposition, hmoved.attrs, hw.attrs ▸ hw.proper⟩

/-! ### Screens -/

theorem renders_change (hvte : crates.vte.ReadsCommands ground) {write : Bool → Bytes} {flag : ModeFlag}
    (hwrite : ∀ state, Renders crates ground (write state) d d (Shown.set flag state)) (state prev : Bool) :
    Renders crates ground (if state ≠ prev then write state else []) d d
      (if state ≠ prev then Shown.set flag state else id) := by
  split
  · exact hwrite state
  · exact renders_nil hvte d

variable {s p : Screen}

/-- What has changed between two screens, on a display that shows the first. -/
theorem Screen.returns_renders_diff (hvte : crates.vte.ReadsCommands ground) (hcontrols : crates.unicode.Controls)
    (hs : s.Shown crates.unicode) (hp : p.Shown crates.unicode) (hsize : p.size = s.size)
    (hcontinues : s.activeGrid.Continues p.activeGrid) (h : d.Looks p.activeGrid) (hpos : d.grid.pos = p.activeGrid.pos)
    (hattrs : d.attrs = p.attrs) :
    Returns (s.stateDiff p) fun bytes => ∃ e effect, Renders crates ground bytes d e effect ∧
      effect p.modes.shown = s.modes.shown ∧ e.Looks s.activeGrid ∧ e.grid.pos = s.activeGrid.pos ∧ e.attrs = s.attrs := by
  refine returns_bind.mpr (returns_bind.mpr ?_)
  rw [← hattrs]
  refine (Grid.returns_paints_diff hvte hcontrols h hs.sound.active hp.sound.active hsize hs.drawn.active hp.drawn.active
    hcontinues hpos (hattrs ▸ hp.drawn.attrs)).mono ?_
  rintro ⟨contents, attrs⟩ ⟨e, hcontents, hlooks, hposition, hshown, hproper⟩
  dsimp only at hcontents hshown hproper
  subst hshown
  refine returns_bind.mpr ((returns_paints_attrs hvte e hproper hs.drawn.attrs).mono fun shade hshade => ?_)
  refine returns_pure.mpr (returns_pure.mpr ⟨{ e with attrs := s.attrs }, ?_⟩)
  have hdrawn := (((renders_change hvte (renders_reverseVideo hvte d) (s.modes.mode .reverseVideo)
      (p.modes.mode .reverseVideo)).append hvte
    (renders_change hvte (renders_hideCursor hvte d) (s.modes.mode .hideCursor) (p.modes.mode .hideCursor))).append hvte
    hcontents.renders).append hvte hshade.renders
  have hmodes := ((((renders_change hvte (renders_applicationKeypad hvte { e with attrs := s.attrs })
      (s.modes.mode .applicationKeypad) (p.modes.mode .applicationKeypad)).append hvte
    (renders_change hvte (renders_applicationCursor hvte _) (s.modes.mode .applicationCursor)
      (p.modes.mode .applicationCursor))).append hvte
    (renders_change hvte (renders_bracketedPaste hvte _) (s.modes.mode .bracketedPaste)
      (p.modes.mode .bracketedPaste))).append hvte
    (renders_mouseProtocolMode hvte _ s.modes.mouseProtocolMode p.modes.mouseProtocolMode)).append hvte
    (renders_mouseProtocolEncoding hvte _ s.modes.mouseProtocolEncoding p.modes.mouseProtocolEncoding)
  refine ⟨_, hdrawn.append hvte hmodes, ?_, ⟨hlooks.plain, hlooks.size, hlooks.cells⟩, hposition, rfl⟩
  -- From flag to flag, what is shown is still the earlier screen's in those that come later.
  simp only [Function.comp_apply]
  rw [Shown.set_of_ne .reverseVideo rfl, Shown.set_of_ne .hideCursor rfl, id_eq, id_eq, Shown.set_of_ne .applicationKeypad rfl,
    Shown.set_of_ne .applicationCursor rfl, Shown.set_of_ne .bracketedPaste rfl]
  simp only [Shown.changeMouseMode, Shown.changeMouseEncoding, Shown.set, ScreenModes.shown, rewritten_self]

/-- What can be seen of a screen, but for where its rows wrap. -/
structure Picture where
  cells : List (List Cell)
  pos : Pos
  attrs : Attrs
  modes : Shown
  deriving DecidableEq, Repr

def View.picture (v : View) : Picture := ⟨v.rows.map Row.cells, v.pos, v.attrs, v.modes⟩

def Screen.picture (s : Screen) : Picture := s.view.picture

theorem picture_showing (w : WrappedScreen) (d : Display) :
    (w.showing d).screen.picture = ⟨d.grid.cells, d.grid.pos, d.attrs, w.screen.modes.shown⟩ := by
  unfold Screen.picture Screen.view View.picture
  rw [WrappedScreen.activeGrid_showing, WrappedScreen.attrs_showing, WrappedScreen.modes_showing]
  rfl

variable {wrapped : WrappedScreen}

/-- What has changed between two screens brings a consumer that shows the first to the second. -/
theorem Screen.Shown.returns_follows (hvte : crates.vte.ReadsCommands ground) (hcontrols : crates.unicode.Controls)
    (hs : s.Shown crates.unicode) (hp : p.Shown crates.unicode) (hsize : p.size = s.size)
    (hcontinues : s.activeGrid.Continues p.activeGrid) (hfits : wrapped.Fits s.activeGrid)
    (hpicture : wrapped.screen.picture = p.picture) :
    Returns (s.stateDiff p) fun bytes => ground (crates.vte.advance crates.vte.new bytes).2 ∧
      ∃ t, wrapped.process crates.unicode (crates.vte.events bytes) = .ok t ∧ t.Fits s.activeGrid ∧
        t.screen.picture = s.picture := by
  injection hpicture with hcells hpos hattrs hmodes
  refine (Screen.returns_renders_diff (d := ⟨wrapped.screen.activeGrid, wrapped.screen.attrs, wrapped.screen.savedAttrs⟩) hvte
    hcontrols hs hp hsize hcontinues ⟨hfits.plain, hfits.size.trans hsize.symm, hcells⟩ hpos hattrs).mono ?_
  rintro bytes ⟨e, effect, hrenders, heffect, hlooks, hposition, hshade⟩
  refine ⟨hrenders.grounded, ?_⟩
  obtain ⟨modes, hshown, -, hprocessed⟩ := hrenders.processed wrapped
  rw [wrapped.showing_self] at hprocessed
  refine ⟨_, hprocessed, ⟨by rw [WrappedScreen.activeGrid_showing]; exact hlooks.plain,
    by rw [WrappedScreen.activeGrid_showing]; exact hlooks.size⟩, ?_⟩
  have hmodes : wrapped.screen.modes.shown = p.modes.shown := hmodes
  rw [hmodes, heffect] at hshown
  rw [picture_showing, hlooks.cells, hposition, hshade]
  exact congrArg (Picture.mk _ _ _) hshown

end Painting

end MoshClient.Vt100
