import MoshClient.Theorems.Vt100.Commands
import MoshClient.Theorems.Vt100.Drawn

/-! Painting cells. The contents of a cell, written where the cursor is, draw the cell there; behind the end of a row
    that ends in text they go on in the next one, and the row wraps. Erasing leaves blank cells. -/

namespace MoshClient.Vt100
open Checked

/-- The columns that a cell with contents covers. -/
def Cell.columns (cell : Cell) : Nat := if cell.isWide then 2 else 1

theorem Cell.columns_pos (cell : Cell) : 1 ≤ cell.columns := by
  unfold columns
  split <;> decide

theorem Cell.columns_glyph {unicode : UnicodeWidth} {c : Char} {width : Nat} {attrs : Attrs}
    (hwidth : unicode.terminalWidth c = some width) (hpos : 1 ≤ width) : (Cell.glyph c width attrs).columns = width := by
  have hle := unicode.terminalWidth_le c hwidth
  unfold columns glyph
  simp only [decide_eq_true_eq]
  split <;> omega

namespace Grid

variable {g t u : Grid} {row : Row} {unicode : UnicodeWidth} {attrs : Attrs} {r : Nat}

/-! ### Where only one row is written -/

/-- Only row `r` was written, and the cursor has moved. -/
structure Strokes (r : Nat) (g t : Grid) : Prop where
  plain : t.Plain
  eq : t = { g with rows := t.rows, pos := t.pos }
  others : ∀ i, i ≠ r → t.rows[i]? = g.rows[i]?

theorem Strokes.refl (h : g.Plain) : Strokes r g g := ⟨h, rfl, fun _ _ => rfl⟩

theorem Strokes.size (h : Strokes r g t) : t.size = g.size := by rw [h.eq]

theorem Strokes.trans (h : Strokes r g t) (hu : Strokes r t u) : Strokes r g u where
  plain := hu.plain
  eq := by
    rw [hu.eq, h.eq]
  others i hi := (hu.others i hi).trans (h.others i hi)

theorem Strokes.withPos (h : Strokes r g t) {pos : Pos} (hrow : pos.row < g.size.rows) (hcol : pos.col ≤ g.size.cols) :
    Strokes r g { t with pos } where
  plain := h.plain.withPos (h.size ▸ hrow) (h.size ▸ hcol)
  eq := by
    rw [h.eq]
  others := h.others

/-- Row `r` has other cells, and wraps only where the old one did. -/
structure Struck (r : Nat) (g : Grid) (old : Row) (cells : Nat → Option Cell) (t : Grid) : Prop extends Strokes r g t where
  row : ∃ next, t.rows[r]? = some next ∧ (∀ j, next.cells[j]? = cells j) ∧ (next.wrapped = true → old.wrapped = true)

/-- A cell was drawn at `col`. The row wraps as it did, unless a wide character at its end was cut. -/
structure Drew (r : Nat) (g : Grid) (old : Row) (col : Nat) (cell : Cell) (t : Grid) : Prop
    extends Struck r g old (drawnAt old.cells col cell) t where
  kept : (cell.isWide = true → wideAt old.cells (col + 1) = false) →
    ∀ next, t.rows[r]? = some next → next.wrapped = old.wrapped

theorem Plain.strokes_set (h : g.Plain) {next : Row} {pos : Pos} (ht : { g with rows := g.rows.set r next, pos }.Ready) :
    Strokes r g { g with rows := g.rows.set r next, pos } where
  plain := ⟨ht, h.origin, h.top, h.bottom⟩
  eq := rfl
  others _ hi := List.getElem?_set_ne (Ne.symm hi)

/-! ### Drawing a cell -/

theorem endsInText_of_room {width : Nat} (hcol : g.pos.col + width ≤ g.size.cols) : g.endsInText width = .ok false := by
  unfold endsInText Checked.sub
  rw [if_pos (by omega)]
  exact if_neg (show ¬g.pos.col > g.size.cols - width by omega)

theorem colWrap_of_room {width : Nat} (hcol : g.pos.col + width ≤ g.size.cols) (wrap : Bool) : g.colWrap width wrap = .ok g := by
  unfold colWrap Checked.sub
  rw [if_pos (by omega)]
  exact if_neg (show ¬g.pos.col > g.size.cols - width by omega)

theorem text_of_room {c : Char} {width : Nat} (hwidth : unicode.terminalWidth c = some width) (hpos : 1 ≤ width)
    (hcol : g.pos.col + width ≤ g.size.cols) : g.text unicode attrs c = g.draw unicode width attrs c := by
  rw [text_of_width hwidth, endsInText_of_room hcol]
  show (g.colWrap width false >>= _) = _
  rw [colWrap_of_room hcol]
  exact if_neg (by omega)

/-- A character is drawn where it has room. -/
theorem Plain.returns_text (h : g.Plain) (hrow : g.rows[g.pos.row]? = some row) (ha : attrs.Sound) {c : Char} {width : Nat}
    (hwidth : unicode.terminalWidth c = some width) (hpos : 1 ≤ width) (hcol : g.pos.col + width ≤ g.size.cols) :
    Returns (g.text unicode attrs c) fun t =>
      Drew g.pos.row g row g.pos.col (.glyph c width attrs) t ∧ t.pos = ⟨g.pos.row, g.pos.col + width⟩ := by
  have hcolumns := UnicodeWidth.columns_eq hwidth
  rw [text_of_room hwidth hpos hcol]
  have hready : Returns (g.draw unicode width attrs c) fun t => t.Ready ∧ t.size = g.size :=
    hcolumns ▸ returns_draw h.toReady ha (hcolumns.symm ▸ hpos) (hcolumns.symm ▸ hcol)
  refine (hready.and (returns_draw_cells h.toReady hrow hwidth hpos hcol)).mono ?_
  rintro _ ⟨⟨ht, -⟩, next, rfl, hcells, hwrapped⟩
  have hself : (g.drawn next width).rows[g.pos.row]? = some next := List.getElem?_set_self (h.length.symm ▸ h.row_lt)
  refine ⟨⟨⟨h.strokes_set ht, next, hself, hcells, fun hnext => ?_⟩, fun huncut other hother => ?_⟩, rfl⟩
  · rw [hwrapped, Bool.and_eq_true] at hnext
    exact hnext.1
  · cases hself.symm.trans hother
    rw [hwrapped]
    by_cases hwide : width > 1
    · rw [huncut (decide_eq_true hwide)]
      simp
    · simp [hwide]

/-- A cell whose contents were drawn is the character before the cursor. -/
theorem Drew.cluster {cell : Cell} {col : Nat} (h : Drew r g row col cell t)
    (hpos : t.pos = ⟨r, col + cell.columns⟩) (hcontents : cell.contents ≠ []) (hcont : cell.isWideContinuation = false) :
    t.Cluster ⟨r, col⟩ cell := by
  obtain ⟨next, hrow, hcells, -⟩ := h.row
  have hat (j : Nat) : t.cellAt ⟨r, j⟩ = drawnAt row.cells col cell j := by
    unfold cellAt
    rw [hrow]
    exact hcells j
  refine ⟨by rw [hpos], ?_, hcontents, h.plain.col_le, ?_⟩
  · rw [hat, drawnAt, if_pos rfl]
  · rw [hpos]
    unfold Cell.columns
    split
    · rename_i hwide
      refine .inr ⟨rfl, .continuation, (hat (col + 1)).trans ?_, rfl⟩
      rw [drawnAt, if_neg (by omega), if_pos ⟨hwide, rfl⟩]
    · exact .inl ⟨rfl, hcont⟩

/-- A scalar joins the cell that was drawn. -/
theorem Drew.returns_mark {cell : Cell} {col : Nat} (h : Drew r g row col cell t)
    (hpos : t.pos = ⟨r, col + cell.columns⟩) (hcell : cell.Drawn unicode) (hcontents : cell.contents ≠ []) (ha : attrs.Sound)
    {m : Char} (hmark : unicode.terminalWidth m = some 0) (hroom : cell.len < maxBytesBeforeCombiningAppend) :
    Returns (t.text unicode attrs m) fun u =>
      Drew r g row col { cell with contents := cell.contents ++ [m] } u ∧ u.pos = t.pos := by
  have hcluster := h.cluster hpos hcontents (hcell.not_continuation hcontents)
  have htext : t.text unicode attrs m = .ok (t.withCell ⟨r, col⟩ { cell with contents := cell.contents ++ [m] }) :=
    hcluster.text_eq hmark (Cell.append_eq hcontents hroom)
  have hready : Returns (t.text unicode attrs m) fun u => u.Ready ∧ u.size = t.size := by
    refine Grid.returns_text h.plain.toReady ha fun _ => ?_
    rw [UnicodeWidth.columns_eq hmark]
    have := h.plain.col_le
    exact ⟨Nat.zero_le _, fun hwraps => absurd hwraps (Nat.not_lt.mpr this)⟩
  rw [htext, returns_ok] at hready ⊢
  obtain ⟨next, hrow, hcells, hwrapped⟩ := h.row
  rw [withCell_eq hrow] at hready ⊢
  have hself := List.getElem?_set_self (List.getElem?_eq_some_iff.mp hrow).1
    (a := { next with cells := next.cells.set col { cell with contents := cell.contents ++ [m] } })
  refine ⟨⟨⟨h.toStrokes.trans (h.plain.strokes_set hready.1), _, hself, fun j => ?_, hwrapped⟩,
    fun huncut other hother => ?_⟩, rfl⟩
  · rw [List.getElem?_set, hcells]
    by_cases hj : col = j
    · subst hj
      have hlt : col < next.cells.length := by
        have hself := hcells col
        rw [drawnAt, if_pos rfl] at hself
        exact (List.getElem?_eq_some_iff.mp hself).1
      rw [if_pos rfl, if_pos hlt, drawnAt, if_pos rfl]
    · rw [if_neg hj]
      simp only [drawnAt, if_neg (Ne.symm hj)]
  · cases hself.symm.trans hother
    exact h.kept huncut next hrow

/-! ### Wrapping -/

/-- The grid where row `r` goes on with the text of the row above. -/
def entered (g : Grid) (r : Nat) : Grid := { g with rows := g.rows.modify (r - 1) (·.wrap true), pos := ⟨r, 0⟩ }

theorem getElem?_entered (hr : 1 ≤ r) (i : Nat) :
    (g.entered r).rows[i]? = if i + 1 = r then g.rows[i]?.map (·.wrap true) else g.rows[i]? := by
  have hat : (g.entered r).rows[i]? = g.rows[i]?.map fun row => if r - 1 = i then row.wrap true else row :=
    List.getElem?_modify ..
  rw [hat]
  split
  · rw [if_pos (by omega)]
  · rw [if_neg (by omega)]
    exact Option.map_id'

theorem Plain.entered (h : g.Plain) (hr : r < g.size.rows) : (g.entered r).Plain := by
  have hrows : ∀ row ∈ (g.entered r).rows, row.Sound g.size.cols := by
    intro row hrow
    obtain ⟨i, hi⟩ := List.mem_iff_getElem?.mp hrow
    obtain ⟨old, hold, rfl⟩ := Option.map_eq_some_iff.mp ((List.getElem?_modify ..).symm.trans hi)
    have hsound := h.rows old (List.mem_of_getElem? hold)
    split
    · exact ⟨⟨hsound.paired, hsound.cells⟩, hsound.length⟩
    · exact hsound
  have hredrawn := h.toReady.redrawn hrows ((List.length_modify ..).trans h.length)
  exact ⟨hredrawn.ready.withPos hr (Nat.zero_le _), h.origin, h.top, h.bottom⟩

/-- Text behind the end of a row that ends in text goes on in the next row. -/
theorem Plain.text_entered (h : g.Plain) (hnext : g.pos.row + 1 = r) (hr : r < g.size.rows) (hjoins : g.RowJoins)
    {c : Char} {width : Nat} (hwidth : unicode.terminalWidth c = some width) (hpos : 1 ≤ width) (hle : width ≤ g.size.cols)
    (hwraps : g.Wraps width) : g.text unicode attrs c = (g.entered r).text unicode attrs c := by
  subst hnext
  obtain ⟨row, hrow, hsound⟩ := h.exists_row h.row_lt
  have hlt := (List.getElem?_eq_some_iff.mp hrow).1
  have hwraps : g.size.cols < g.pos.col + width := hwraps
  have hlimit : g.pos.col > g.size.cols - width := by omega
  have hlt : g.size.cols - 1 < row.cells.length := by
    have := h.cols_pos
    rw [hsound.length]
    omega
  obtain ⟨last, hlast⟩ := Row.exists_cell hlt
  have hends : g.endsInText width = .ok true := by
    have htext := hjoins row hrow
    rw [hsound.length, flagAt_of_getElem? hlast] at htext
    rw [← returns_eq_iff]
    refine returns_bind.mpr (returns_sub.mpr ⟨hle, returns_ite.mpr ⟨fun _ => ?_, fun hroom => absurd hlimit hroom⟩⟩)
    refine returns_bind.mpr (returns_sub.mpr ⟨h.cols_pos, returns_bind.mpr ?_⟩)
    exact (returns_drawingCell hrow).mpr ⟨last, hlast, returns_pure.mpr htext⟩
  have hwrap : g.colWrap width true = .ok (g.entered (g.pos.row + 1)) := by
    have hstart : { g with pos.col := 0 }.Plain := h.withPos h.row_lt (Nat.zero_le _)
    rw [← returns_eq_iff]
    refine returns_bind.mpr (returns_sub.mpr ⟨hle, returns_ite.mpr ⟨fun _ => ?_, fun hroom => absurd hlimit hroom⟩⟩)
    rw [hstart.rowIncScroll_eq hr]
    refine returns_bind.mpr (returns_ok.mpr (returns_bind.mpr (returns_sub.mpr ⟨Nat.zero_le _, ?_⟩)))
    refine returns_bind.mpr (returns_unwrap.mpr ⟨row, hrow, returns_bind.mpr (returns_pure.mpr (returns_pure.mpr ?_))⟩)
    simp only [Nat.sub_zero, decide_true, Bool.and_true, Grid.entered, Nat.add_sub_cancel]
    obtain ⟨-, rfl⟩ := List.getElem?_eq_some_iff.mp hrow
    rw [List.modify_eq_set_get _ hlt]
    rfl
  have hroom : (g.entered (g.pos.row + 1)).pos.col + width ≤ (g.entered (g.pos.row + 1)).size.cols := by
    show 0 + width ≤ g.size.cols
    omega
  rw [text_of_room hwidth hpos hroom, text_of_width hwidth, hends]
  show (g.colWrap width true >>= _) = _
  rw [hwrap]
  exact if_neg (by omega)

end Grid

/-- A cell with contents begins with a character of its columns. -/
theorem Cell.Drawn.exists_cons {unicode : UnicodeWidth} {cell : Cell} (h : cell.Drawn unicode) (hcontents : cell.contents ≠ []) :
    ∃ c marks, cell.contents = c :: marks ∧ unicode.terminalWidth c = some cell.columns := by
  induction h with
  | blank => exact absurd rfl hcontents
  | continuation => exact absurd rfl hcontents
  | @glyph c width attrs hwidth hpos _ => exact ⟨c, [], rfl, hwidth.trans (congrArg some (columns_glyph hwidth hpos).symm)⟩
  | mark _ hbase _ _ ih =>
    obtain ⟨c, marks, hcons, hwidth⟩ := ih hbase
    exact ⟨c, marks ++ [_], congrArg (· ++ [_]) hcons, hwidth⟩

section Painting

variable {crates : Crates} {ground : crates.vte.State → Prop} {d e : Display} {row : Row} {cell : Cell}

/-- The contents of a cell draw it where it has room. -/
theorem paints_contents (hvte : crates.vte.ReadsCommands ground) (hcontrols : crates.unicode.Controls)
    (hplain : d.grid.Plain) (hrow : d.grid.rows[d.grid.pos.row]? = some row) (hcell : cell.Drawn crates.unicode)
    (hcontents : cell.contents ≠ []) (hattrs : d.attrs = cell.attrs)
    (hroom : d.grid.pos.col + cell.columns ≤ d.grid.size.cols) :
    ∃ t, Paints crates ground (cell.contents.flatMap String.utf8EncodeChar) d { d with grid := t } ∧
      Grid.Drew d.grid.pos.row d.grid row d.grid.pos.col cell t ∧ t.pos = ⟨d.grid.pos.row, d.grid.pos.col + cell.columns⟩ := by
  have hsound : d.attrs.Sound := hattrs ▸ hcell.attrs.sound
  induction hcell with
  | blank => exact absurd rfl hcontents
  | continuation => exact absurd rfl hcontents
  | @glyph c width attrs hwidth hpos _ =>
    have hcolumns : (Cell.glyph c width attrs).columns = width := Cell.columns_glyph hwidth hpos
    rw [hcolumns] at hroom ⊢
    obtain ⟨t, htext, hstruck, hposition⟩ := hplain.returns_text hrow hsound hwidth hpos hroom
    have hbytes : (Cell.glyph c width attrs).contents.flatMap String.utf8EncodeChar = String.utf8EncodeChar c :=
      List.append_nil _
    have hcellAttrs : d.attrs = attrs := hattrs
    rw [hcellAttrs] at hstruck
    exact ⟨t, hbytes ▸ paints_text hvte hcontrols hwidth htext, hstruck, hposition⟩
  | @mark cell m hcell hbase hmark hlen ih =>
    obtain ⟨t, hpaints, hstruck, hposition⟩ := ih hbase hattrs hroom
    obtain ⟨u, htext, hmarked, hsame⟩ := hstruck.returns_mark hposition hcell hbase hsound hmark hlen
    refine ⟨u, ?_, hmarked, hsame.trans hposition⟩
    rw [List.flatMap_append, List.flatMap_singleton]
    exact hpaints.append hvte (paints_text (d := { d with grid := t }) hvte hcontrols hmark htext)

/-- What is painted depends on what the first character leaves. -/
theorem Paints.of_text_eq (hvte : crates.vte.ReadsCommands ground) (hcontrols : crates.unicode.Controls) {c : Char}
    {width : Nat} (hwidth : crates.unicode.terminalWidth c = some width) {more : Bytes} {g t : Grid}
    (htext : d.grid.text crates.unicode d.attrs c = .ok t) (hother : g.text crates.unicode d.attrs c = .ok t)
    (h : Paints crates ground (String.utf8EncodeChar c ++ more) { d with grid := g } e) :
    Paints crates ground (String.utf8EncodeChar c ++ more) d e where
  grounded := h.grounded
  processed := by
    intro w
    have hfirst := paints_text hvte hcontrols hwidth htext
    have hafter := h.processed w
    rw [hvte.toAutomaton.events_append hfirst.grounded, WrappedScreen.process_append] at hafter ⊢
    rw [(paints_text (d := { d with grid := g }) hvte hcontrols hwidth hother).processed w] at hafter
    rw [hfirst.processed w]
    exact hafter

/-- Behind the end of a row that ends in text, the contents of a cell are drawn at the start of the next row. -/
theorem paints_contents_entered (hvte : crates.vte.ReadsCommands ground) (hcontrols : crates.unicode.Controls)
    (hplain : d.grid.Plain) {r : Nat} (hnext : d.grid.pos.row + 1 = r) (hrow : d.grid.rows[r]? = some row)
    (hjoins : d.grid.RowJoins) (hcell : cell.Drawn crates.unicode) (hcontents : cell.contents ≠ [])
    (hattrs : d.attrs = cell.attrs) (hle : cell.columns ≤ d.grid.size.cols) (hwraps : d.grid.Wraps cell.columns) :
    ∃ t, Paints crates ground (cell.contents.flatMap String.utf8EncodeChar) d { d with grid := t } ∧
      Grid.Drew r (d.grid.entered r) row 0 cell t ∧ t.pos = ⟨r, cell.columns⟩ := by
  have hr : r < d.grid.size.rows := hplain.length ▸ (List.getElem?_eq_some_iff.mp hrow).1
  have hentered := hplain.entered hr
  have hrow' : (d.grid.entered r).rows[r]? = some row := by
    rw [Grid.getElem?_entered (by omega), if_neg (by omega), hrow]
  obtain ⟨t, hpaints, hstruck, hposition⟩ := paints_contents (d := { d with grid := d.grid.entered r }) hvte hcontrols
    hentered hrow' hcell hcontents hattrs (by simpa [Grid.entered] using hle)
  refine ⟨t, ?_, hstruck, hposition.trans (congrArg (Pos.mk r) (Nat.zero_add _))⟩
  obtain ⟨c, marks, hcons, hwidth⟩ := hcell.exists_cons hcontents
  have hsound : d.attrs.Sound := hattrs ▸ hcell.attrs.sound
  obtain ⟨first, htext, -⟩ := hentered.returns_text hrow' hsound hwidth cell.columns_pos (by simpa [Grid.entered] using hle)
  rw [hcons] at hpaints ⊢
  refine hpaints.of_text_eq hvte hcontrols hwidth (Eq.trans ?_ htext) htext
  exact hplain.text_entered hnext hr hjoins hwidth cell.columns_pos hle hwraps

/-! ### Erasing -/

theorem Grid.Plain.returns_eraseRange {g : Grid} {attrs : Attrs} {stop : Nat} (h : g.Plain)
    (hrow : g.rows[g.pos.row]? = some row) (ha : attrs.Sound) (hle : g.pos.col ≤ stop) (hstop : stop ≤ g.size.cols)
    (hstart : continuationAt row.cells g.pos.col = false) :
    Returns (g.currentRowMut (forRange g.pos.col stop fun col row => row.erase col attrs)) fun t =>
      Struck g.pos.row g row (Row.erasedRangeAt row.cells g.pos.col stop attrs) t ∧ t.pos = g.pos := by
  have hsound := h.rows row (List.mem_of_getElem? hrow)
  refine returns_bind.mpr (returns_unwrap.mpr ⟨row, hrow, returns_bind.mpr ?_⟩)
  refine (Row.returns_eraseRange_cells hsound h.cols_le ha hle hstop hstart).mono ?_
  rintro next ⟨hnext, hcells, hwrapped⟩
  have hredrawn : Redrawn g { g with rows := g.rows.set g.pos.row next } :=
    h.toReady.redrawn (forall_mem_set h.rows hnext) (List.length_set.trans h.length)
  refine returns_pure.mpr ⟨⟨h.strokes_set hredrawn.ready, next, ?_, hcells, fun hw => (hwrapped hw).1⟩, rfl⟩
  exact List.getElem?_set_self (h.length.symm ▸ h.row_lt)

theorem paints_eraseCount (hvte : crates.vte.ReadsCommands ground) (hplain : d.grid.Plain)
    (hrow : d.grid.rows[d.grid.pos.row]? = some row) (ha : d.attrs.Sound) {n : Nat} (hpos : 1 ≤ n)
    (hroom : d.grid.pos.col + n ≤ d.grid.size.cols) (hstart : continuationAt row.cells d.grid.pos.col = false) :
    ∃ t, Paints crates ground (Term.eraseChar n) d { d with grid := t } ∧
      Grid.Struck d.grid.pos.row d.grid row
        (Row.erasedRangeAt row.cells d.grid.pos.col (d.grid.pos.col + n) d.attrs) t ∧ t.pos = d.grid.pos := by
  have hcols := hplain.cols_le
  have hstop : min (saturatingAdd d.grid.pos.col n) d.grid.size.cols = d.grid.pos.col + n := by
    unfold saturatingAdd
    omega
  unfold u16Max at hcols
  obtain ⟨t, herase, hstruck⟩ := hplain.returns_eraseRange hrow ha (Nat.le_add_right _ n) hroom hstart
  refine ⟨t, paints_eraseChar hvte hpos (by omega) ?_, hstruck⟩
  rw [← herase, Grid.eraseCells, hstop]

theorem paints_eraseRest (hvte : crates.vte.ReadsCommands ground) (hplain : d.grid.Plain)
    (hrow : d.grid.rows[d.grid.pos.row]? = some row) (ha : d.attrs.Sound)
    (hstart : continuationAt row.cells d.grid.pos.col = false) :
    ∃ t, Paints crates ground Term.clearRowForward d { d with grid := t } ∧
      Grid.Struck d.grid.pos.row d.grid row
        (Row.erasedRangeAt row.cells d.grid.pos.col d.grid.size.cols d.attrs) t ∧ t.pos = d.grid.pos := by
  obtain ⟨t, herase, hstruck⟩ := hplain.returns_eraseRange hrow ha hplain.col_le (Nat.le_refl _) hstart
  exact ⟨t, paints_clearRowForward hvte herase, hstruck⟩

end Painting

end MoshClient.Vt100
