import MoshClient.Theorems.Vt100.CellPaint
import MoshClient.Vt100.Diff

/-! Painting a row. The cells before some column are painted, and those from there on are as they were, but for what a
    stroke has cut off a wide character. Each cell moves that column on or joins the cells that are still to be erased. -/

namespace MoshClient.Vt100
open Checked

/-! ### Cells -/

section Cells

variable {s q cells next : List Cell} {i col start stop : Nat} {cell : Cell} {attrs : Attrs}

theorem flagAt_congr (flag : Cell → Bool) (h : next[i]? = cells[i]?) : flagAt flag next i = flagAt flag cells i :=
  congrArg (Option.any flag) h

/-- A cell that is not painted yet is as it was, or what is left of a wide character that is to go. -/
def Ahead (s q cells : List Cell) (i : Nat) : Prop :=
  cells[i]? = q[i]? ∨ continuationAt q i = true ∧ continuationAt s i = false ∧ wideAt cells i = false

theorem Ahead.of_eq (h : Ahead s q cells i) (heq : next[i]? = cells[i]?) : Ahead s q next i := by
  rcases h with hsame | ⟨hq, hs, hwide⟩
  · exact .inl (heq.trans hsame)
  · exact .inr ⟨hq, hs, (flagAt_congr _ heq).trans hwide⟩

/-- The second half of a wide character that was cut. -/
theorem Ahead.cut (h : Ahead s q cells i) (hcont : continuationAt cells i = true) (hs : continuationAt s i = false)
    (hnext : wideAt next i = false) : Ahead s q next i := by
  rcases h with hsame | ⟨hq, -, -⟩
  · exact .inr ⟨(flagAt_congr _ hsame).symm.trans hcont, hs, hnext⟩
  · exact .inr ⟨hq, hs, hnext⟩

theorem ahead_of_drawn (hpaired : Paired cells) (hnext : ∀ j, next[j]? = drawnAt cells col cell j)
    (hcut : continuationAt s (col + cell.columns) = false) (h : ∀ j, col + cell.columns ≤ j → Ahead s q cells j) :
    ∀ j, col + cell.columns ≤ j → Ahead s q next j := by
  intro j hj
  have hone := hpaired.next col
  have htwo := hpaired.next (col + 1)
  have hat := hnext j
  unfold drawnAt at hat
  unfold Cell.columns at hcut hj h
  by_cases hwide : cell.isWide = true
  · simp only [hwide, if_true, true_and] at hcut hj h hat
    rw [if_neg (by omega), if_neg (by omega), if_neg (by omega), if_neg (by omega)] at hat
    split at hat
    · rename_i hw
      rw [hw.1] at hat ⊢
      exact (h _ (Nat.le_refl _)).cut (htwo.trans hw.2) hcut (flagAt_of_getElem? hat)
    · exact (h j hj).of_eq hat
  · simp only [hwide, if_false, false_and, Bool.false_eq_true] at hcut hj h hat
    rw [if_neg (by omega), if_neg (by omega)] at hat
    split at hat
    · rename_i hw
      rw [hw.1] at hat ⊢
      exact (h _ (Nat.le_refl _)).cut (hone.trans hw.2) hcut (flagAt_of_getElem? hat)
    · exact (h j hj).of_eq hat

theorem ahead_of_erased (hpaired : Paired cells) (hlt : start < stop)
    (hnext : ∀ j, next[j]? = Row.erasedRangeAt cells start stop attrs j) (hcut : continuationAt s stop = false)
    (h : ∀ j, stop ≤ j → Ahead s q cells j) : ∀ j, stop ≤ j → Ahead s q next j := by
  intro j hj
  have hat := hnext j
  rw [Row.erasedRangeAt, if_neg (by omega)] at hat
  split at hat
  · rename_i hw
    obtain ⟨rfl, -, hwide⟩ := hw
    have hcont : continuationAt cells j = true := by
      rw [hpaired.prev j (by omega)]
      exact hwide
    refine (h j hj).cut hcont hcut ?_
    unfold wideAt flagAt
    rw [hat]
    cases cells[j]? <;> rfl
  · exact (h j hj).of_eq hat

theorem drawnAt_of_lt (hcont : continuationAt cells col = false) (hi : i < col) : drawnAt cells col cell i = cells[i]? := by
  unfold drawnAt
  rw [hcont, if_neg (by omega), if_neg (by omega), if_neg (by simp), if_neg (by omega), if_neg (by omega)]

theorem Paired.continuation {unicode : UnicodeWidth} (h : Paired cells) (hdrawn : ∀ cell ∈ cells, cell.Drawn unicode)
    (hwide : wideAt cells i = true) : cells[i + 1]? = some .continuation := by
  have hflag : continuationAt cells (i + 1) = true := (h.next i).trans hwide
  obtain ⟨half, hhalf⟩ : ∃ half, cells[i + 1]? = some half := ⟨_, List.getElem?_eq_getElem (lt_length_of_flagAt hflag)⟩
  rw [hhalf, (hdrawn half (List.mem_of_getElem? hhalf)).eq_continuation ((flagAt_of_getElem? hhalf).symm.trans hflag)]

theorem Cell.columns_eq_two (cell : Cell) (h : cell.columns ≠ 1) : cell.isWide = true ∧ cell.columns = 2 := by
  unfold columns at h ⊢
  split at h
  · exact ⟨‹_›, if_pos ‹_›⟩
  · exact absurd rfl h

/-- Two characters do not end at one column. -/
theorem Paired.end_unique {a b : Cell} {j : Nat} (h : Paired s) (ha : s[i]? = some a) (hb : s[j]? = some b)
    (hi : continuationAt s i = false) (hj : continuationAt s j = false) (hend : i + a.columns = j + b.columns) : i = j := by
  have hpos := a.columns_pos
  have hpos' := b.columns_pos
  rcases Nat.lt_trichotomy i j with hlt | heq | hgt
  · obtain ⟨hwide, htwo⟩ := a.columns_eq_two (by omega)
    rw [show j = i + 1 by omega, h.next, wideAt, flagAt_of_getElem? ha, hwide] at hj
    cases hj
  · exact heq
  · obtain ⟨hwide, htwo⟩ := b.columns_eq_two (by omega)
    rw [show i = j + 1 by omega, h.next, wideAt, flagAt_of_getElem? hb, hwide] at hi
    cases hi

end Cells

/-! ### Rows -/

namespace Grid

variable {g t u : Grid} {r : Nat}

/-- The grid once row `r` goes on with the row above, or before that. -/
def begun (g : Grid) (r : Nat) (joined : Bool) : Grid := if joined then g.entered r else g

theorem size_begun (joined : Bool) : (g.begun r joined).size = g.size := by
  unfold begun
  split <;> rfl

theorem Strokes.enter (h : Strokes r g t) (hpos : 1 ≤ r) (hr : r < g.size.rows) : Strokes r (g.entered r) (t.entered r) where
  plain := h.plain.entered (h.size ▸ hr)
  eq := by
    unfold Grid.entered
    rw [h.eq]
  others i hi := by
    rw [getElem?_entered hpos, getElem?_entered hpos, h.others i hi]

end Grid

/-- Row `r` is to show other cells, after a writer has come to `start`. Behind a row that wraps, the first cell that
    changes has to be the first of the row or has to have contents. -/
structure RowChange (unicode : UnicodeWidth) (g : Grid) (r : Nat) (wrapping : Bool) (s q : List Cell) (start : Pos) : Prop where
  plain : g.Plain
  shown : ∃ old, g.rows[r]? = some old ∧ old.cells = q
  length : s.length = g.size.cols
  paired : Paired s
  drawn : ∀ cell ∈ s, cell.Drawn unicode
  drawnBefore : ∀ cell ∈ q, cell.Drawn unicode
  joins : wrapping = true → ∀ above, g.rows[r - 1]? = some above →
    flagAt Cell.joins above.cells (above.cells.length - 1) = true
  safe : wrapping = true → start.row + 1 = r → g.size.cols ≤ start.col → ∀ c, 0 < c → (∀ i, i < c → s[i]? = q[i]?) →
    s[c]? ≠ q[c]? → flagAt Cell.hasContents s c = true

theorem RowChange.row_lt {unicode : UnicodeWidth} {g : Grid} {r : Nat} {wrapping : Bool} {s q : List Cell} {start : Pos}
    (h : RowChange unicode g r wrapping s q start) : r < g.size.rows := by
  obtain ⟨old, hold, -⟩ := h.shown
  exact h.plain.length ▸ (List.getElem?_eq_some_iff.mp hold).1

theorem RowChange.pairedBefore {unicode : UnicodeWidth} {g : Grid} {r : Nat} {wrapping : Bool} {s q : List Cell} {start : Pos}
    (h : RowChange unicode g r wrapping s q start) : Paired q := by
  obtain ⟨old, hold, rfl⟩ := h.shown
  exact (h.plain.rows old (List.mem_of_getElem? hold)).paired

/-- The grid while row `r` is painted: the cells before `front` are done. -/
structure RowShown (g : Grid) (r : Nat) (s q : List Cell) (front : Nat) (joined : Bool) (t : Grid) : Prop where
  strokes : Grid.Strokes r (g.begun r joined) t
  row : ∃ next, t.rows[r]? = some next ∧ (next.wrapped = true → ∀ old, g.rows[r]? = some old → old.wrapped = true) ∧
    (∀ i, i < front → next.cells[i]? = s[i]?) ∧ ∀ i, front ≤ i → Ahead s q next.cells i

section RowShown

variable {unicode : UnicodeWidth} {g t u : Grid} {r : Nat} {wrapping joined : Bool} {s q : List Cell} {start : Pos} {front : Nat}

theorem RowShown.size (h : RowShown g r s q front joined t) : t.size = g.size :=
  h.strokes.size.trans (Grid.size_begun joined)

/-- No cell that is painted reaches over the front. -/
theorem continuationAt_front {cells : List Cell} (hpaired : Paired cells) (hs : Paired s)
    (hdone : ∀ i, i < front → cells[i]? = s[i]?) (hfront : continuationAt s front = false) :
    continuationAt cells front = false := by
  rcases Nat.eq_zero_or_pos front with rfl | hpos
  · exact hpaired.head
  · rw [hpaired.prev front hpos]
    rw [hs.prev front hpos] at hfront
    exact (flagAt_congr _ (hdone _ (by omega))).trans hfront

/-- The cells from the front on were erased, up to `stop`. -/
theorem RowShown.erased {row : Row} {stop : Nat} {attrs : Attrs} (hstrokes : Grid.Strokes r (g.begun r joined) t)
    (hrow : t.rows[r]? = some row) (hwrapped : row.wrapped = true → ∀ old, g.rows[r]? = some old → old.wrapped = true)
    (hdone : ∀ i, i < front → row.cells[i]? = s[i]?) (hahead : ∀ i, front < i → Ahead s q row.cells i)
    (hs : Paired s) (hlt : front < stop) (hblank : ∀ i, front ≤ i → i < stop → s[i]? = some (.blank attrs))
    (hstruck : Grid.Struck r t row (Row.erasedRangeAt row.cells front stop attrs) u) : RowShown g r s q stop joined u := by
  obtain ⟨next, hnext, hcells, hnextWrapped⟩ := hstruck.row
  have hpaired := (hstrokes.plain.rows row (List.mem_of_getElem? hrow)).paired
  have hcut : continuationAt s stop = false := by
    rw [hs.prev stop (by omega)]
    exact flagAt_of_getElem? (hblank (stop - 1) (by omega) (by omega))
  refine ⟨hstrokes.trans hstruck.toStrokes, next, hnext, fun hw => hwrapped (hnextWrapped hw), fun i hi => ?_, ?_⟩
  · rw [hcells, Row.erasedRangeAt]
    by_cases hfront : i < front
    · rw [if_neg (by omega), if_neg (by omega), hdone i hfront]
    · rw [if_pos (by omega), hblank i (by omega) hi]
  · exact ahead_of_erased hpaired hlt hcells hcut fun j hj => hahead j (by omega)

/-- A cell with contents was drawn at the front. -/
theorem RowShown.drawn {row : Row} {cell : Cell} (hstrokes : Grid.Strokes r (g.begun r joined) t)
    (hrow : t.rows[r]? = some row) (hwrapped : row.wrapped = true → ∀ old, g.rows[r]? = some old → old.wrapped = true)
    (hdone : ∀ i, i < front → row.cells[i]? = s[i]?) (hahead : ∀ i, front ≤ i → Ahead s q row.cells i)
    (hs : Paired s) (hdrawn : ∀ cell ∈ s, cell.Drawn unicode) (hfront : continuationAt s front = false)
    (hcell : s[front]? = some cell)
    (hstruck : Grid.Struck r t row (drawnAt row.cells front cell) u) : RowShown g r s q (front + cell.columns) joined u := by
  obtain ⟨next, hnext, hcells, hnextWrapped⟩ := hstruck.row
  have hpaired := (hstrokes.plain.rows row (List.mem_of_getElem? hrow)).paired
  have hwide : wideAt s front = cell.isWide := flagAt_of_getElem? hcell
  have hsecond : continuationAt s (front + 1) = cell.isWide := (hs.next front).trans hwide
  have hcut : continuationAt s (front + cell.columns) = false := by
    unfold Cell.columns
    split
    · rename_i hw
      rw [hs.next (front + 1), hs.wideAt_next (hwide.trans hw)]
    · rename_i hw
      rw [hsecond]
      exact Bool.eq_false_iff.mpr hw
  have hkept := continuationAt_front hpaired hs hdone hfront
  refine ⟨hstrokes.trans hstruck.toStrokes, next, hnext, fun hw => hwrapped (hnextWrapped hw), fun i hi => ?_, ?_⟩
  · rw [hcells]
    rcases Nat.lt_trichotomy i front with hlt | rfl | hgt
    · rw [drawnAt_of_lt hkept hlt, hdone i hlt]
    · rw [drawnAt, if_pos rfl, hcell]
    · -- The second half of a wide character.
      unfold Cell.columns at hi
      split at hi
      · rename_i hw
        obtain rfl : i = front + 1 := by omega
        rw [drawnAt, if_neg (by omega), if_pos ⟨hw, rfl⟩, hs.continuation hdrawn (hwide.trans hw)]
      · omega
  · exact ahead_of_drawn hpaired hcells hcut fun j hj => hahead j (by omega)

end RowShown

/-! ### The writer -/

/-- The first column that is still to be erased, or else `col`. -/
def RowWriter.unerased (w : RowWriter) (col : Nat) : Nat :=
  match w.erase with
  | none => col
  | some (first, _) => first

/-- The first column that is not painted, after the cells before `col`. -/
def RowWriter.front (w : RowWriter) (col : Nat) : Nat := w.unerased (if w.prevWasWide then col + 1 else col)

theorem RowWriter.unerased_none {w : RowWriter} (h : w.erase = none) (col : Nat) : w.unerased col = col := by
  unfold unerased
  rw [h]

theorem RowWriter.unerased_some {w : RowWriter} {first : Nat} {attrs : Attrs} (h : w.erase = some (first, attrs)) (col : Nat) :
    w.unerased col = first := by
  unfold unerased
  rw [h]

section Writer

variable {crates : Crates} {ground : crates.vte.State → Prop} {o d e : Display} {w v : RowWriter} {bytes : Bytes}
  {g : Grid} {r col front : Nat} {wrapping joined : Bool} {s q : List Cell} {start : Pos}

/-- The writer knows where its output has brought the display. -/
structure Writing (crates : Crates) (ground : crates.vte.State → Prop) (o : Display) (w : RowWriter) (d : Display) : Prop where
  paints : Paints crates ground w.contents o d
  pos : d.grid.pos = w.prevPos
  attrs : d.attrs = w.prevAttrs
  proper : w.prevAttrs.Proper

theorem returns_setAttrs (hvte : crates.vte.ReadsCommands ground) (hpaints : Paints crates ground w.contents o d)
    (hattrs : d.attrs = w.prevAttrs) (hproper : w.prevAttrs.Proper) {attrs : Attrs} (ha : attrs.Proper) :
    Returns (w.setAttrs attrs) fun v => Paints crates ground v.contents o { d with attrs } ∧
      v = { w with contents := v.contents, prevAttrs := attrs } := by
  refine returns_ite.mpr ⟨fun _ => returns_bind.mpr ?_, fun hsame => returns_pure.mpr ?_⟩
  · rw [← hattrs] at hproper ⊢
    refine (returns_paints_attrs hvte d hproper ha).mono fun bytes hbytes => returns_pure.mpr ⟨?_, rfl⟩
    exact hpaints.append hvte hbytes
  · obtain rfl : w.prevAttrs = attrs := not_not.mp hsame
    rw [← hattrs]
    exact ⟨hpaints, by rw [hattrs]⟩

/-- What holds while a row is painted, whatever is still to be erased. Nothing was written for the row while the cursor
    is not in it. Behind a character that has changed, the cursor stands after it. -/
structure RowCore (crates : Crates) (ground : crates.vte.State → Prop) (o : Display) (g : Grid) (r : Nat) (wrapping : Bool)
    (s q : List Cell) (start : Pos) (front : Nat) (joined : Bool) (w : RowWriter) (d : Display) : Prop
    extends Writing crates ground o w d where
  shown : RowShown g r s q front joined d.grid
  fresh : w.prevPos.row ≠ r → w.prevPos = start ∧ joined = false ∧ ∀ i, i < front → s[i]? = q[i]?
  joins : wrapping = true → start.row + 1 = r → g.size.cols ≤ start.col → s[0]? ≠ q[0]? →
    joined = true ∨ w.prevPos.row ≠ r ∧ front = 0
  came : joined = true → wrapping = true ∧ start.row + 1 = r
  behind : ∀ i cell, s[i]? = some cell → cell.hasContents = true → s[i]? ≠ q[i]? → i + cell.columns = front →
    w.prevPos = ⟨r, front⟩

theorem RowCore.of_eq (h : RowCore crates ground o g r wrapping s q start front joined w d)
    (hcontents : v.contents = w.contents) (hpos : v.prevPos = w.prevPos) (hattrs : v.prevAttrs = w.prevAttrs) :
    RowCore crates ground o g r wrapping s q start front joined v d where
  paints := hcontents ▸ h.paints
  pos := h.pos.trans hpos.symm
  attrs := h.attrs.trans hattrs.symm
  proper := hattrs ▸ h.proper
  shown := h.shown
  fresh := hpos ▸ h.fresh
  joins := hpos ▸ h.joins
  came := h.came
  behind := hpos ▸ h.behind

/-- The row above the one that is painted ends in text, where it wraps. -/
theorem RowCore.rowJoins (h : RowCore crates ground o g r wrapping s q start front joined w d)
    (c : RowChange crates.unicode g r wrapping s q start) (hwrapping : wrapping = true) (habove : w.prevPos.row + 1 = r) :
    joined = false ∧ d.grid.RowJoins := by
  obtain ⟨-, rfl, -⟩ := h.fresh (by omega)
  refine ⟨rfl, fun above hrow => c.joins hwrapping above ?_⟩
  rw [h.pos, h.shown.strokes.others _ (by omega)] at hrow
  rw [← hrow, ← habove]
  rfl

/-! Erasing -/

/-- The writer has gone to the cells that are to be erased. Behind a row that wraps, it has drawn a space there. -/
structure EraseStarted (crates : Crates) (ground : crates.vte.State → Prop) (o : Display) (g : Grid) (r : Nat)
    (wrapping : Bool) (s q : List Cell) (start : Pos) (front : Nat) (attrs : Attrs) (w v : RowWriter) (joined : Bool)
    (e : Display) : Prop where
  paints : Paints crates ground v.contents o e
  pos : e.grid.pos = ⟨r, front⟩
  shade : e.attrs = attrs
  writer : v = { w with contents := v.contents, prevPos := ⟨r, front⟩, prevAttrs := attrs }
  strokes : Grid.Strokes r (g.begun r joined) e.grid
  joins : wrapping = true → start.row + 1 = r → g.size.cols ≤ start.col → s[0]? ≠ q[0]? → joined = true
  came : joined = true → wrapping = true ∧ start.row + 1 = r
  row : ∃ next, e.grid.rows[r]? = some next ∧
    (next.wrapped = true → ∀ old, g.rows[r]? = some old → old.wrapped = true) ∧
    (∀ i, i < front → next.cells[i]? = s[i]?) ∧ ∀ i, front < i → Ahead s q next.cells i

theorem RowCore.returns_startErase (hvte : crates.vte.ReadsCommands ground) (hcontrols : crates.unicode.Controls)
    (h : RowCore crates ground o g r wrapping s q start front joined w d)
    (c : RowChange crates.unicode g r wrapping s q start) {attrs : Attrs} (ha : attrs.Proper)
    (hlt : front < g.size.cols) (hblank : s[front]? = some (.blank attrs)) (hchanged : s[front]? ≠ q[front]?) :
    Returns (w.startErase g.size.cols r wrapping front attrs) fun v => ∃ joined e,
      EraseStarted crates ground o g r wrapping s q start front attrs w v joined e := by
  obtain ⟨row, hrow, hwrapped, hdone, hahead⟩ := h.shown.row
  have hplain := h.shown.strokes.plain
  have hsize := h.shown.size
  have hr := c.row_lt
  unfold RowWriter.startErase
  dsimp only
  split
  · -- The cursor hangs behind the row above: nothing before the first cell has changed.
    rename_i hhangs
    obtain ⟨hwrapping, habove, hend⟩ := hhangs
    obtain ⟨hstart, rfl, hsame⟩ := h.fresh (by omega)
    have hzero : front = 0 := by
      by_contra hne
      have htext := c.safe hwrapping (hstart ▸ habove) (hstart ▸ hend) front (Nat.pos_of_ne_zero hne) hsame hchanged
      rw [flagAt_of_getElem? hblank] at htext
      cases htext
    subst hzero
    rw [if_neg (Nat.lt_irrefl 0)]
    have hspace : (Cell.glyph ' ' 1 d.attrs).Drawn crates.unicode :=
      .glyph crates.unicode.terminalWidth_space (Nat.le_refl 1) (h.attrs ▸ h.proper)
    obtain ⟨t, hpaints, hstruck, hpos⟩ := paints_contents_entered hvte hcontrols hplain
      (by rw [h.pos]; exact habove) hrow (h.rowJoins c hwrapping habove).2 hspace (List.cons_ne_nil _ _) rfl
      (by rw [hsize]; exact c.plain.cols_pos) (by rw [Grid.Wraps, hsize, h.pos]; exact Nat.lt_succ_of_le hend)
    have hback := paints_backspace hvte { d with grid := t }
    have hgrid : t.colDec 1 = { t with pos := ⟨r, 0⟩ } := by
      unfold Grid.colDec
      rw [hpos]
      rfl
    rw [hgrid] at hback
    have hbytes : Paints crates ground (w.contents ++ ([0x20] ++ Term.backspace)) o
        { d with grid := { t with pos := ⟨r, 0⟩ } } :=
      h.paints.append hvte (hpaints.append hvte hback)
    refine (returns_setAttrs (w := { w.write ([0x20] ++ Term.backspace) with prevPos := ⟨r, 0⟩ })
      (d := { d with grid := { t with pos := ⟨r, 0⟩ } }) hvte hbytes h.attrs h.proper ha).mono ?_
    rintro v ⟨hv, hwriter⟩
    have hstrokes : Grid.Strokes r (g.entered r) t :=
      (h.shown.strokes.enter (by omega) hr).trans hstruck.toStrokes
    obtain ⟨next, hnext, hcells, hnextWrapped⟩ := hstruck.row
    refine ⟨true, _, ⟨hv, rfl, rfl, hwriter, hstrokes.withPos hr (Nat.zero_le _), fun _ _ _ _ => rfl,
      fun _ => ⟨hwrapping, hstart ▸ habove⟩, next, hnext, fun hw => hwrapped (hnextWrapped hw),
      fun i hi => absurd hi (Nat.not_lt_zero i), fun i hi => ?_⟩⟩
    have hpaired := (hplain.rows row (List.mem_of_getElem? hrow)).paired
    refine ahead_of_drawn hpaired hcells ?_ (fun j _ => hahead j (Nat.zero_le j)) i (Nat.succ_le_of_lt hi)
    exact (c.paired.next 0).trans (flagAt_of_getElem? hblank)
  · rename_i hhangs
    have hmove : Paints crates ground (Term.moveFromTo d.grid.pos ⟨r, front⟩) d
        { d with grid := { d.grid with pos := ⟨r, front⟩ } } :=
      paints_moveFromTo hvte hplain (hsize ▸ hr) (hsize ▸ hlt)
    rw [h.pos] at hmove
    refine (returns_setAttrs (w := { w.write (Term.moveFromTo w.prevPos ⟨r, front⟩) with prevPos := ⟨r, front⟩ })
      (d := { d with grid := { d.grid with pos := ⟨r, front⟩ } }) hvte (h.paints.append hvte hmove) h.attrs h.proper ha).mono ?_
    rintro v ⟨hv, hwriter⟩
    refine ⟨joined, _, ⟨hv, rfl, rfl, hwriter, ?_, fun hwrapping habove hend hfirst => ?_, h.came, row, hrow, hwrapped, hdone,
      fun i hi => hahead i (Nat.le_of_lt hi)⟩⟩
    · exact h.shown.strokes.withPos (by rw [← h.shown.strokes.size, hsize]; exact hr)
        (by rw [← h.shown.strokes.size, hsize]; exact Nat.le_of_lt hlt)
    · rcases h.joins hwrapping habove hend hfirst with hjoined | ⟨hrow, -⟩
      · exact hjoined
      · rw [(h.fresh hrow).1] at hhangs
        exact absurd ⟨hwrapping, habove, hend⟩ hhangs

theorem EraseStarted.size {attrs : Attrs}
    (h : EraseStarted crates ground o g r wrapping s q start front attrs w v joined e) : e.grid.size = g.size :=
  h.strokes.size.trans (Grid.size_begun joined)

theorem EraseStarted.exists_row {attrs : Attrs}
    (h : EraseStarted crates ground o g r wrapping s q start front attrs w v joined e) (hs : Paired s)
    (hblank : s[front]? = some (.blank attrs)) :
    ∃ row, e.grid.rows[e.grid.pos.row]? = some row ∧ continuationAt row.cells e.grid.pos.col = false := by
  obtain ⟨row, hrow, -, hdone, -⟩ := h.row
  rw [h.pos]
  refine ⟨row, hrow, continuationAt_front ?_ hs hdone (flagAt_of_getElem? hblank)⟩
  exact (h.strokes.plain.rows row (List.mem_of_getElem? hrow)).paired

/-- The cells from the front up to `stop` were erased. -/
theorem EraseStarted.rowCore (hvte : crates.vte.ReadsCommands ground) {attrs : Attrs} {stop : Nat} {row : Row} {u : Grid}
    (h : EraseStarted crates ground o g r wrapping s q start front attrs w v joined e) (hs : Paired s) (ha : attrs.Proper)
    (hlt : front < stop) (hblank : ∀ i, front ≤ i → i < stop → s[i]? = some (.blank attrs))
    (hpaints : Paints crates ground bytes e { e with grid := u }) (hrow : e.grid.rows[e.grid.pos.row]? = some row)
    (hstruck : Grid.Struck e.grid.pos.row e.grid row
      (Row.erasedRangeAt row.cells e.grid.pos.col stop e.attrs) u) (hpos : u.pos = e.grid.pos) :
    RowCore crates ground o g r wrapping s q start stop joined (v.write bytes) { e with grid := u } := by
  have hprev : v.prevPos = ⟨r, front⟩ := by rw [h.writer]
  have hshade : v.prevAttrs = attrs := by rw [h.writer]
  obtain ⟨next, hnext, hwrapped, hdone, hahead⟩ := h.row
  rw [h.pos] at hrow hstruck
  cases hrow.symm.trans hnext
  rw [h.shade] at hstruck
  refine ⟨⟨h.paints.append hvte hpaints, ?_, ?_, ?_⟩, ?_, ?_, ?_, h.came, ?_⟩
  · exact hpos.trans (h.pos.trans hprev.symm)
  · exact h.shade.trans hshade.symm
  · exact hshade ▸ ha
  · exact RowShown.erased h.strokes hnext hwrapped hdone hahead hs hlt hblank hstruck
  · exact fun hrow => absurd (congrArg Pos.row hprev) hrow
  · exact fun hwrapping habove hend hfirst => .inl (h.joins hwrapping habove hend hfirst)
  · -- The last cell that was erased is no end of a character.
    intro i cell hcell hcontents _ hend
    have hlast := hblank (stop - 1) (by omega) (by omega)
    unfold Cell.columns at hend
    split at hend
    · rename_i hwide
      have hcont : continuationAt s (i + 1) = true := (hs.next i).trans ((flagAt_of_getElem? hcell).trans hwide)
      rw [show i + 1 = stop - 1 by omega, continuationAt, flagAt_of_getElem? hlast] at hcont
      cases hcont
    · rw [show stop - 1 = i by omega] at hlast
      cases hcell.symm.trans hlast
      cases hcontents

/-- The cells that are still to be erased. -/
structure Pending (s q : List Cell) (first : Nat) (attrs : Attrs) (col : Nat) : Prop where
  lt : first < col
  proper : attrs.Proper
  changed : s[first]? ≠ q[first]?
  blank : ∀ i, first ≤ i → i < col → s[i]? = some (.blank attrs)

theorem Pending.continuationAt {first : Nat} {attrs : Attrs} (h : Pending s q first attrs col) (hs : Paired s) :
    continuationAt s col = false := by
  rw [hs.prev col (Nat.lt_of_le_of_lt (Nat.zero_le _) h.lt)]
  have := h.lt
  exact flagAt_of_getElem? (h.blank (col - 1) (by omega) (by omega))

/-- A row that is painted up to `col`. -/
structure RowState (crates : Crates) (ground : crates.vte.State → Prop) (o : Display) (g : Grid) (r : Nat) (wrapping : Bool)
    (s q : List Cell) (start : Pos) (col : Nat) (joined : Bool) (w : RowWriter) (d : Display) : Prop
    extends RowCore crates ground o g r wrapping s q start (w.front col) joined w d where
  wide : w.prevWasWide = continuationAt s col
  pending : ∀ first attrs, w.erase = some (first, attrs) → Pending s q first attrs col
  erasing : ∀ i attrs, i + 1 = col → s[i]? = some (.blank attrs) → s[i]? ≠ q[i]? → w.erase.isSome = true

/-- What the cells before `col` leave to a cell that is no second half. -/
structure Flushed (crates : Crates) (ground : crates.vte.State → Prop) (o : Display) (g : Grid) (r : Nat) (wrapping : Bool)
    (s q : List Cell) (start : Pos) (col : Nat) (cell : Cell) (v : RowWriter) : Prop where
  core : ∃ joined d, RowCore crates ground o g r wrapping s q start (v.unerased col) joined v d
  pending : ∀ first attrs, v.erase = some (first, attrs) →
    Pending s q first attrs col ∧ cell.hasContents = false ∧ cell.attrs = attrs

theorem RowState.returns_flushErase (hvte : crates.vte.ReadsCommands ground) (hcontrols : crates.unicode.Controls)
    (h : RowState crates ground o g r wrapping s q start col joined w d)
    (c : RowChange crates.unicode g r wrapping s q start) (hcol : col < g.size.cols) (cell : Cell)
    (hcont : continuationAt s col = false) (wide : Bool) :
    Returns ({ w with prevWasWide := wide }.flushErase g.size.cols r wrapping col cell) fun v =>
      v.prevWasWide = wide ∧ Flushed crates ground o g r wrapping s q start col cell v := by
  have hcore := h.toRowCore
  have hwide : w.prevWasWide = false := h.wide.trans hcont
  unfold RowWriter.flushErase
  rw [RowWriter.front, hwide, if_neg Bool.false_ne_true] at hcore
  split
  · rename_i herase
    have herase : w.erase = none := herase
    refine returns_pure.mpr ⟨rfl, ⟨joined, d, hcore.of_eq rfl rfl rfl⟩, ?_⟩
    · intro _ _ hsome
      cases herase.symm.trans hsome
  · rename_i first attrs herase
    have herase : w.erase = some (first, attrs) := herase
    have hpending := h.pending first attrs herase
    have hlt := hpending.lt
    rw [RowWriter.unerased_some herase] at hcore
    have hcore : RowCore crates ground o g r wrapping s q start first joined { w with prevWasWide := wide } d :=
      hcore.of_eq rfl rfl rfl
    refine returns_ite.mpr ⟨fun _ => returns_bind.mpr ?_, fun hkept => returns_pure.mpr ⟨rfl, ⟨joined, d, ?_⟩, ?_⟩⟩
    · have hfirst := hpending.blank first (Nat.le_refl _) hlt
      refine (hcore.returns_startErase hvte hcontrols c hpending.proper (Nat.lt_trans hlt hcol) hfirst hpending.changed).mono ?_
      rintro v ⟨joined', e, hstarted⟩
      obtain ⟨row, hrow, hstart⟩ := hstarted.exists_row c.paired hfirst
      have hat : e.grid.pos.col = first := by rw [hstarted.pos]
      have hsize := hstarted.size
      obtain ⟨u, hpaints, hstruck, hpos⟩ := paints_eraseCount (n := col - first) hvte hstarted.strokes.plain hrow
        (hstarted.shade ▸ hpending.proper.sound) (by omega) (by rw [hat, hsize]; omega) hstart
      rw [hat, Nat.add_sub_cancel' (Nat.le_of_lt hlt)] at hstruck
      refine returns_bind.mpr (returns_sub.mpr ⟨Nat.le_of_lt hlt, returns_pure.mpr
        ⟨?_, ⟨joined', { e with grid := u }, ?_⟩, ?_⟩⟩)
      · show v.prevWasWide = wide
        rw [hstarted.writer]
      · have hdone := hstarted.rowCore hvte c.paired hpending.proper hlt hpending.blank hpaints hrow
          (by rw [hat]; exact hstruck) hpos
        exact hdone.of_eq rfl rfl rfl
      · intro first attrs hsome
        cases hsome
    · exact (RowWriter.unerased_some herase col).symm ▸ hcore
    · intro first' attrs' hsome
      cases herase.symm.trans hsome
      rw [not_or, not_not] at hkept
      exact ⟨hpending, Bool.eq_false_iff.mpr hkept.1, hkept.2⟩

/-! Contents -/

theorem RowChange.cell_fits (c : RowChange crates.unicode g r wrapping s q start) {cell : Cell} (hcell : s[col]? = some cell) :
    col + cell.columns ≤ g.size.cols := by
  have hlt := (List.getElem?_eq_some_iff.mp hcell).1
  have hlength := c.length
  unfold Cell.columns
  split
  · rename_i hwide
    have := c.paired.lt_length ((flagAt_of_getElem? hcell).trans hwide)
    omega
  · omega

/-- The writer has drawn the cell at `col`. -/
structure Wrote (crates : Crates) (ground : crates.vte.State → Prop) (o : Display) (g : Grid) (r : Nat) (wrapping : Bool)
    (s q : List Cell) (start : Pos) (col : Nat) (cell : Cell) (w v : RowWriter) : Prop where
  core : ∃ joined d, RowCore crates ground o g r wrapping s q start (col + cell.columns) joined v d
  wide : v.prevWasWide = w.prevWasWide
  erase : v.erase = w.erase

theorem wrote_of_paints (hvte : crates.vte.ReadsCommands ground) {cell : Cell} (hproper : cell.attrs.Proper)
    (hwriter : v = { w with contents := v.contents, prevPos := ⟨r, col⟩, prevAttrs := cell.attrs })
    (hv : Paints crates ground v.contents o { d with attrs := cell.attrs }) {t : Grid}
    (hpaints : Paints crates ground (cell.contents.flatMap String.utf8EncodeChar) { d with attrs := cell.attrs }
      { d with attrs := cell.attrs, grid := t }) (hpos : t.pos = ⟨r, col + cell.columns⟩)
    (hshown : RowShown g r s q (col + cell.columns) joined t)
    (hcame : joined = true → wrapping = true ∧ start.row + 1 = r)
    (hjoins : wrapping = true → start.row + 1 = r → g.size.cols ≤ start.col → s[0]? ≠ q[0]? → joined = true) :
    Wrote crates ground o g r wrapping s q start col cell w
      { v.write (cell.contents.flatMap String.utf8EncodeChar) with
        prevPos.col := v.prevPos.col + if cell.isWide then 2 else 1 } := by
  have hprev : v.prevPos = ⟨r, col⟩ := by rw [hwriter]
  have hshade : v.prevAttrs = cell.attrs := by rw [hwriter]
  have hafter : (⟨v.prevPos.row, v.prevPos.col + if cell.isWide then 2 else 1⟩ : Pos) = ⟨r, col + cell.columns⟩ := by
    rw [hprev]
    rfl
  refine ⟨⟨joined, _, ⟨⟨hv.append hvte hpaints, hpos.trans hafter.symm, hshade.symm, hshade ▸ hproper⟩, hshown, ?_, ?_,
    hcame, fun _ _ _ _ _ _ => hafter⟩⟩, ?_, ?_⟩
  · exact fun hrow => absurd (congrArg Pos.row hprev) hrow
  · exact fun hwrapping habove hend hfirst => .inl (hjoins hwrapping habove hend hfirst)
  · show v.prevWasWide = _
    rw [hwriter]
  · show v.erase = _
    rw [hwriter]

theorem RowCore.returns_writeContents (hvte : crates.vte.ReadsCommands ground) (hcontrols : crates.unicode.Controls)
    (h : RowCore crates ground o g r wrapping s q start col joined w d)
    (c : RowChange crates.unicode g r wrapping s q start) {cell : Cell} (hcell : s[col]? = some cell)
    (hcontents : cell.hasContents = true) (hcont : continuationAt s col = false) :
    Returns (w.writeContents g.size.cols r wrapping col cell)
      (Wrote crates ground o g r wrapping s q start col cell w) := by
  obtain ⟨row, hrow, hwrapped, hdone, hahead⟩ := h.shown.row
  have hplain := h.shown.strokes.plain
  have hsize := h.shown.size
  have hr := c.row_lt
  have hfits := c.cell_fits hcell
  have hpos := cell.columns_pos
  have hdrawn := c.drawn cell (List.mem_of_getElem? hcell)
  have hne := Cell.hasContents_iff.mp hcontents
  refine returns_bind.mpr (returns_sub.mpr ⟨?_, returns_bind.mpr ?_⟩)
  · split
    · exact c.plain.cols_pos
    · exact Nat.zero_le _
  by_cases henter : wrapping = true ∧ w.prevPos.row + 1 = r ∧
      g.size.cols - (if cell.isWide then 1 else 0) ≤ w.prevPos.col ∧ col = 0
  · -- The contents go on behind the row above.
    obtain ⟨hwrapping, habove, hend, rfl⟩ := henter
    obtain ⟨rfl, hjoins⟩ := h.rowJoins c hwrapping habove
    have hstart : w.startContents (g.size.cols - (if cell.isWide then 1 else 0)) r wrapping 0 =
        { w with prevPos := ⟨r, 0⟩ } := by
      have hother : (⟨r, 0⟩ : Pos) ≠ w.prevPos := fun hsame => by
        rw [← hsame] at habove
        exact absurd habove (Nat.succ_ne_self r)
      unfold RowWriter.startContents
      rw [if_pos hother]
      dsimp only
      rw [if_pos ⟨hwrapping, habove, hend, rfl⟩, RowWriter.write, List.append_nil]
    rw [hstart]
    refine (returns_setAttrs (w := { w with prevPos := ⟨r, 0⟩ }) hvte h.paints h.attrs h.proper hdrawn.attrs).mono ?_
    rintro v ⟨hv, hwriter⟩
    have hwraps : d.grid.Wraps cell.columns := by
      have := c.plain.cols_pos
      unfold Grid.Wraps Cell.columns
      rw [hsize, h.pos]
      split <;> rename_i hwide <;> simp only [hwide, if_true, Bool.false_eq_true, if_false] at hend <;> omega
    obtain ⟨t, hpaints, hstruck, hposition⟩ := paints_contents_entered (d := { d with attrs := cell.attrs }) hvte hcontrols
      hplain (by rw [h.pos]; exact habove) hrow hjoins hdrawn hne rfl (by rw [hsize]; omega) hwraps
    have hstrokes : Grid.Strokes r (g.begun r true) (d.grid.entered r) := h.shown.strokes.enter (by omega) hr
    have hrow' : (d.grid.entered r).rows[r]? = some row := by
      rw [Grid.getElem?_entered (by omega), if_neg (by omega), hrow]
    have hshown : RowShown g r s q (0 + cell.columns) true t :=
      RowShown.drawn hstrokes hrow' hwrapped hdone hahead c.paired c.drawn hcont hcell hstruck.toStruck
    refine returns_pure.mpr (wrote_of_paints hvte hdrawn.attrs hwriter hv hpaints ?_ hshown ?_ ?_)
    · rw [hposition, Nat.zero_add]
    · exact fun _ => ⟨hwrapping, (h.fresh (by omega)).1 ▸ habove⟩
    · exact fun _ _ _ _ => rfl
  · have hstart : w.startContents (g.size.cols - (if cell.isWide then 1 else 0)) r wrapping col =
        { w.write (Term.moveFromTo w.prevPos ⟨r, col⟩) with prevPos := ⟨r, col⟩ } := by
      unfold RowWriter.startContents
      dsimp only
      rw [if_neg henter]
      split
      · rfl
      · rename_i hsame
        have hstill : Term.moveFromTo w.prevPos ⟨r, col⟩ = [] := by
          rw [not_not.mp hsame]
          simp [Term.moveFromTo]
        rw [RowWriter.write, hstill, List.append_nil, not_not.mp hsame]
    rw [hstart]
    have hmove : Paints crates ground (Term.moveFromTo d.grid.pos ⟨r, col⟩) d
        { d with grid := { d.grid with pos := ⟨r, col⟩ } } :=
      paints_moveFromTo hvte hplain (hsize ▸ hr) (show col < d.grid.size.cols by rw [hsize]; omega)
    rw [h.pos] at hmove
    refine (returns_setAttrs (w := { w.write (Term.moveFromTo w.prevPos ⟨r, col⟩) with prevPos := ⟨r, col⟩ })
      (d := { d with grid := { d.grid with pos := ⟨r, col⟩ } }) hvte (h.paints.append hvte hmove) h.attrs h.proper
      hdrawn.attrs).mono ?_
    rintro v ⟨hv, hwriter⟩
    have hstrokes : Grid.Strokes r (g.begun r joined) { d.grid with pos := ⟨r, col⟩ } :=
      h.shown.strokes.withPos (by rw [← h.shown.strokes.size, hsize]; exact hr)
        (by rw [← h.shown.strokes.size, hsize]; exact (by omega : col ≤ g.size.cols))
    obtain ⟨t, hpaints, hstruck, hposition⟩ := paints_contents
      (d := { d with grid := { d.grid with pos := ⟨r, col⟩ }, attrs := cell.attrs }) hvte hcontrols
      hstrokes.plain hrow hdrawn hne rfl (by rw [show d.grid.size = g.size from hsize]; exact hfits)
    refine returns_pure.mpr (wrote_of_paints (d := { d with grid := { d.grid with pos := ⟨r, col⟩ } }) hvte hdrawn.attrs
      hwriter hv hpaints hposition ?_ h.came ?_)
    · exact RowShown.drawn hstrokes hrow hwrapped hdone hahead c.paired c.drawn hcont hcell hstruck.toStruck
    · intro hwrapping habove hend hfirst
      rcases h.joins hwrapping habove hend hfirst with hjoined | ⟨hrow, hzero⟩
      · exact hjoined
      · rw [(h.fresh hrow).1] at henter
        exact absurd ⟨hwrapping, habove, Nat.le_trans (Nat.sub_le _ _) hend, hzero⟩ henter

/-! Cells -/

/-- A cell that has not changed is left as it is. -/
theorem RowCore.skip (h : RowCore crates ground o g r wrapping s q start col joined w d)
    (c : RowChange crates.unicode g r wrapping s q start) {cell : Cell} (hcell : s[col]? = some cell)
    (hsame : s[col]? = q[col]?) (hcont : continuationAt s col = false) :
    RowCore crates ground o g r wrapping s q start (col + cell.columns) joined w d := by
  obtain ⟨row, hrow, hwrapped, hdone, hahead⟩ := h.shown.row
  have hpaired := (h.shown.strokes.plain.rows row (List.mem_of_getElem? hrow)).paired
  have hwide : wideAt s col = cell.isWide := flagAt_of_getElem? hcell
  have hkept : row.cells[col]? = s[col]? := by
    rcases hahead col (Nat.le_refl _) with heq | ⟨hq, hs, -⟩
    · exact heq.trans hsame.symm
    · rw [continuationAt, ← flagAt_congr _ hsame, ← continuationAt, hs] at hq
      cases hq
  -- The second half of a wide character has not changed either.
  have hsecond : cell.isWide = true → row.cells[col + 1]? = s[col + 1]? ∧ s[col + 1]? = q[col + 1]? := by
    intro hw
    have hwide := hwide.trans hw
    have hs := c.paired.continuation c.drawn hwide
    have hq := c.pairedBefore.continuation c.drawnBefore ((flagAt_congr _ hsame).symm.trans hwide)
    refine ⟨?_, hs.trans hq.symm⟩
    rcases hahead (col + 1) (Nat.le_succ _) with heq | ⟨-, hcont, -⟩
    · rw [heq, hs, hq]
    · rw [c.paired.next, hwide] at hcont
      cases hcont
  have hupto {i : Nat} (hi : i < col + cell.columns) : i < col ∨ i = col ∨ i = col + 1 ∧ cell.isWide = true := by
    unfold Cell.columns at hi
    split at hi
    · rename_i hw
      rcases Nat.lt_trichotomy i col with hlt | heq | hgt
      · exact .inl hlt
      · exact .inr (.inl heq)
      · exact .inr (.inr ⟨by omega, hw⟩)
    · omega
  refine ⟨h.toWriting, ⟨h.shown.strokes, row, hrow, hwrapped, fun i hi => ?_, fun i hi => hahead i (by omega)⟩, ?_, ?_,
    h.came, ?_⟩
  · rcases hupto hi with hlt | rfl | ⟨rfl, hw⟩
    · exact hdone i hlt
    · exact hkept
    · exact (hsecond hw).1
  · intro hother
    obtain ⟨hstart, hjoined, hbefore⟩ := h.fresh hother
    refine ⟨hstart, hjoined, fun i hi => ?_⟩
    rcases hupto hi with hlt | rfl | ⟨rfl, hw⟩
    · exact hbefore i hlt
    · exact hsame
    · exact (hsecond hw).2
  · intro hwrapping habove hend hfirst
    refine (h.joins hwrapping habove hend hfirst).imp_right fun hzero => ?_
    rw [hzero.2] at hsame
    exact absurd hsame hfirst
  · -- A character that ends here is the one that has not changed.
    intro i other hother hcontents hchanged hend
    have hdrawn := c.drawn other (List.mem_of_getElem? hother)
    have hfirst : continuationAt s i = false :=
      (flagAt_of_getElem? hother).trans (hdrawn.not_continuation (Cell.hasContents_iff.mp hcontents))
    cases c.paired.end_unique hother hcell hfirst hcont hend
    exact absurd hsame hchanged

/-- One cell of the row. -/
theorem RowState.returns_diffCell (hvte : crates.vte.ReadsCommands ground) (hcontrols : crates.unicode.Controls)
    (h : RowState crates ground o g r wrapping s q start col joined w d)
    (c : RowChange crates.unicode g r wrapping s q start) {cell prevCell : Cell} (hcell : s[col]? = some cell)
    (hprev : q[col]? = some prevCell) :
    Returns (w.diffCell g.size.cols r wrapping col cell prevCell) fun v =>
      ∃ joined d, RowState crates ground o g r wrapping s q start (col + 1) joined v d := by
  have hcol : col < g.size.cols := c.length ▸ (List.getElem?_eq_some_iff.mp hcell).1
  have hdrawn := c.drawn cell (List.mem_of_getElem? hcell)
  have hnextWide : continuationAt s (col + 1) = cell.isWide := (c.paired.next col).trans (flagAt_of_getElem? hcell)
  refine returns_ite.mpr ⟨fun hwide => returns_pure.mpr ⟨joined, d, ?_⟩, fun hwide => returns_bind.mpr ?_⟩
  · -- The second half of a wide character is painted with the first.
    have hcont : continuationAt s col = true := h.wide.symm.trans hwide
    have herase : w.erase = none := by
      refine Option.eq_none_iff_forall_ne_some.mpr fun ⟨first, attrs⟩ hsome => ?_
      rw [(h.pending first attrs hsome).continuationAt c.paired] at hcont
      cases hcont
    have hfront : RowWriter.front { w with prevWasWide := false } (col + 1) = w.front col := by
      show w.unerased (col + 1) = w.unerased (if w.prevWasWide then col + 1 else col)
      rw [if_pos hwide]
    refine ⟨?_, ?_, ?_, ?_⟩
    · rw [hfront]
      exact h.toRowCore.of_eq rfl rfl rfl
    · rw [c.paired.next]
      by_contra hw
      rw [c.paired.once col (eq_true_of_ne_false (Ne.symm hw))] at hcont
      cases hcont
    · intro first attrs hsome
      cases herase.symm.trans hsome
    · intro i attrs hi hblank
      cases Nat.succ.inj hi
      rw [continuationAt, flagAt_of_getElem? hblank] at hcont
      cases hcont
  · have hcont : continuationAt s col = false := h.wide.symm.trans (Bool.eq_false_iff.mpr hwide)
    refine (h.returns_flushErase hvte hcontrols c hcol cell hcont cell.isWide).mono ?_
    rintro v ⟨hvWide, ⟨joined', d', hcore⟩, hpending⟩
    -- A cell without contents that is no second half.
    have hblank (hempty : cell.hasContents = false) : s[col]? = some (.blank cell.attrs) := by
      rw [hcell]
      refine congrArg some (hdrawn.eq_blank ?_ ((flagAt_of_getElem? hcell).symm.trans hcont))
      exact not_not.mp fun hne => Bool.false_ne_true (hempty.symm.trans (Cell.hasContents_iff.mpr hne))
    cases herase : v.erase with
    | some pending =>
      obtain ⟨first, attrs⟩ := pending
      obtain ⟨hfirst, hempty, rfl⟩ := hpending first attrs herase
      rw [RowWriter.unerased_some herase] at hcore
      have hstate : RowState crates ground o g r wrapping s q start (col + 1) joined' v d' := by
        refine ⟨?_, hvWide.trans hnextWide.symm, ?_, fun _ _ _ _ _ => by rw [herase]; rfl⟩
        · rw [RowWriter.front, RowWriter.unerased_some herase]
          exact hcore
        · intro first' attrs' hsome
          cases herase.symm.trans hsome
          refine ⟨Nat.lt_succ_of_lt hfirst.lt, hfirst.proper, hfirst.changed, fun i hi hlt => ?_⟩
          rcases Nat.lt_succ_iff_lt_or_eq.mp hlt with hlt | rfl
          · exact hfirst.blank i hi hlt
          · exact hblank hempty
      refine returns_ite.mpr ⟨fun _ => returns_pure.mpr ⟨_, _, hstate⟩, fun _ => ?_⟩
      refine returns_ite.mpr ⟨fun hcontents => ?_, fun _ => ?_⟩
      · rw [hempty] at hcontents
        cases hcontents
      · exact returns_pure.mpr ⟨_, _, hstate⟩
    | none =>
      rw [RowWriter.unerased_none herase] at hcore
      have hfront {u : RowWriter} (hu : u.erase = none) (huWide : u.prevWasWide = cell.isWide) :
          u.front (col + 1) = col + cell.columns := by
        rw [RowWriter.front, RowWriter.unerased_none hu, huWide]
        unfold Cell.columns
        split <;> rfl
      have hstate {u : RowWriter} {joined'' : Bool} {e : Display}
          (hu : RowCore crates ground o g r wrapping s q start (col + cell.columns) joined'' u e) (huErase : u.erase = none)
          (huWide : u.prevWasWide = cell.isWide)
          (hkept : ∀ attrs, s[col]? = some (.blank attrs) → s[col]? = q[col]?) :
          RowState crates ground o g r wrapping s q start (col + 1) joined'' u e := by
        refine ⟨?_, huWide.trans hnextWide.symm, ?_, ?_⟩
        · rw [hfront huErase huWide]
          exact hu
        · intro first attrs hsome
          cases huErase.symm.trans hsome
        · intro i attrs hi hempty hchanged
          cases Nat.succ.inj hi
          exact absurd (hkept attrs hempty) hchanged
      refine returns_ite.mpr ⟨fun hsame => returns_pure.mpr ⟨joined', d', ?_⟩, fun hchanged => ?_⟩
      · have hsame : s[col]? = q[col]? := by rw [hcell, hprev, hsame]
        exact hstate (hcore.skip c hcell hsame hcont) herase hvWide fun _ _ => hsame
      · refine returns_ite.mpr ⟨fun hcontents => ?_, fun hempty => returns_pure.mpr ⟨joined', d', ?_⟩⟩
        · refine (hcore.returns_writeContents hvte hcontrols c hcell hcontents hcont).mono ?_
          rintro u ⟨⟨joined'', e, hu⟩, huWide, huErase⟩
          refine ⟨joined'', e, hstate hu (huErase.trans herase) (huWide.trans hvWide) fun attrs hblank => ?_⟩
          cases hcell.symm.trans hblank
          cases hcontents
        · refine ⟨?_, hvWide.trans hnextWide.symm, ?_, fun _ _ _ _ _ => rfl⟩
          · exact hcore.of_eq rfl rfl rfl
          · intro first attrs hsome
            cases hsome
            refine ⟨Nat.lt_succ_self col, hdrawn.attrs, ?_, fun i hi hlt => ?_⟩
            · rw [hcell, hprev]
              exact fun hsame => hchanged (Option.some.inj hsame)
            · rw [show i = col by omega]
              exact hblank (Bool.eq_false_iff.mpr hempty)

theorem RowState.returns_diffCells (hvte : crates.vte.ReadsCommands ground) (hcontrols : crates.unicode.Controls)
    (c : RowChange crates.unicode g r wrapping s q start) {pairs : List (Cell × Cell)} :
    ∀ {col : Nat} {joined : Bool} {w : RowWriter} {d : Display}, pairs = (s.zip q).drop col →
      RowState crates ground o g r wrapping s q start col joined w d →
      Returns (RowWriter.diffCells g.size.cols r wrapping col pairs w) fun v =>
        ∃ joined d, RowState crates ground o g r wrapping s q start (col + pairs.length) joined v d := by
  induction pairs with
  | nil => exact fun _ h => returns_pure.mpr ⟨_, _, h⟩
  | cons pair rest ih =>
    intro col joined w d hpairs h
    obtain ⟨cell, prevCell⟩ := pair
    have hat : (s.zip q)[col]? = some (cell, prevCell) := by
      rw [← Nat.add_zero col, ← List.getElem?_drop, ← hpairs]
      rfl
    obtain ⟨hcell, hprev⟩ := List.getElem?_zip_eq_some.mp hat
    refine returns_bind.mpr ((h.returns_diffCell hvte hcontrols c hcell hprev).mono ?_)
    rintro v ⟨joined', e, hv⟩
    have hrest : rest = (s.zip q).drop (col + 1) := by
      rw [← List.drop_drop, ← hpairs]
      rfl
    rw [List.length_cons, Nat.add_comm rest.length, ← Nat.add_assoc]
    exact ih hrest hv

/-! ### Whole rows -/

/-- Row `r` is painted. -/
structure RowDone (crates : Crates) (ground : crates.vte.State → Prop) (o : Display) (g : Grid) (r : Nat) (wrapping : Bool)
    (s q : List Cell) (start : Pos) (joined : Bool) (w : RowWriter) (d : Display) : Prop
    extends Writing crates ground o w d where
  strokes : Grid.Strokes r (g.begun r joined) d.grid
  row : ∃ next, d.grid.rows[r]? = some next ∧ next.cells = s ∧
    (next.wrapped = true → ∀ old, g.rows[r]? = some old → old.wrapped = true)
  joins : wrapping = true → start.row + 1 = r → g.size.cols ≤ start.col → s[0]? ≠ q[0]? → joined = true
  came : joined = true → wrapping = true ∧ start.row + 1 = r
  behind : ∀ i cell, s[i]? = some cell → cell.hasContents = true → s[i]? ≠ q[i]? → i + cell.columns = g.size.cols →
    w.prevPos = ⟨r, g.size.cols⟩
  shade : ∀ i attrs, i + 1 = g.size.cols → s[i]? = some (.blank attrs) → s[i]? ≠ q[i]? → w.prevAttrs = attrs

theorem RowCore.done (h : RowCore crates ground o g r wrapping s q start g.size.cols joined w d)
    (c : RowChange crates.unicode g r wrapping s q start)
    (hshade : ∀ i attrs, i + 1 = g.size.cols → s[i]? = some (.blank attrs) → s[i]? ≠ q[i]? → w.prevAttrs = attrs) :
    RowDone crates ground o g r wrapping s q start joined w d := by
  obtain ⟨next, hrow, hwrapped, hdone, -⟩ := h.shown.row
  have hlength : next.cells.length = g.size.cols := by
    rw [(h.shown.strokes.plain.rows next (List.mem_of_getElem? hrow)).length, h.shown.size]
  refine ⟨h.toWriting, h.shown.strokes, ⟨next, hrow, ?_, hwrapped⟩, ?_, h.came, h.behind, hshade⟩
  · refine List.ext_getElem? fun i => ?_
    rcases Nat.lt_or_ge i g.size.cols with hlt | hge
    · exact hdone i hlt
    · rw [List.getElem?_eq_none (hlength ▸ hge), List.getElem?_eq_none (c.length ▸ hge)]
  · intro hwrapping habove hend hfirst
    refine (h.joins hwrapping habove hend hfirst).resolve_right fun hzero => ?_
    exact absurd hzero.2 (Nat.ne_of_gt c.plain.cols_pos)

theorem RowState.returns_finish (hvte : crates.vte.ReadsCommands ground) (hcontrols : crates.unicode.Controls)
    (h : RowState crates ground o g r wrapping s q start g.size.cols joined w d)
    (c : RowChange crates.unicode g r wrapping s q start) :
    Returns (w.finish g.size.cols r wrapping) fun v =>
      ∃ joined d, RowDone crates ground o g r wrapping s q start joined v d := by
  have hcore := h.toRowCore
  unfold RowWriter.finish
  split
  · rename_i herase
    have hend : continuationAt s g.size.cols = false := by
      rw [continuationAt, flagAt, List.getElem?_eq_none (Nat.le_of_eq c.length)]
      rfl
    have hfront : w.front g.size.cols = g.size.cols := by
      rw [RowWriter.front, RowWriter.unerased_none herase, h.wide, hend]
      rfl
    rw [hfront] at hcore
    refine returns_pure.mpr ⟨joined, d, hcore.done c fun i attrs hi hblank hchanged => ?_⟩
    have hsome := h.erasing i attrs hi hblank hchanged
    rw [herase] at hsome
    cases hsome
  · rename_i first attrs herase
    have hpending := h.pending first attrs herase
    have hfirst := hpending.blank first (Nat.le_refl _) hpending.lt
    rw [RowWriter.front, RowWriter.unerased_some herase] at hcore
    refine returns_bind.mpr ?_
    refine (hcore.returns_startErase hvte hcontrols c hpending.proper hpending.lt hfirst hpending.changed).mono ?_
    rintro v ⟨joined', e, hstarted⟩
    obtain ⟨row, hrow, hstart⟩ := hstarted.exists_row c.paired hfirst
    obtain ⟨u, hpaints, hstruck, hpos⟩ := paints_eraseRest hvte hstarted.strokes.plain hrow
      (hstarted.shade ▸ hpending.proper.sound) hstart
    rw [hstarted.size] at hstruck
    have hdone := hstarted.rowCore hvte c.paired hpending.proper hpending.lt hpending.blank hpaints hrow hstruck hpos
    refine returns_pure.mpr ⟨joined', _, hdone.done c fun i other hi hblank _ => ?_⟩
    have hlt := hpending.lt
    cases hblank.symm.trans (hpending.blank i (by omega) (by omega))
    show v.prevAttrs = _
    rw [hstarted.writer]

end Writer

end MoshClient.Vt100
