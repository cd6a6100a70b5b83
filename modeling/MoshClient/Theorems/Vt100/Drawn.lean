import MoshClient.Theorems.Vt100.Boundaries
import MoshClient.Theorems.Vt100.Sgr
import MoshClient.Theorems.Vt100.Strokes

/-! What a terminal has drawn. A cell is blank, the second half of a wide character, or a character with the scalars
    that joined it; a row that wraps ends in text, and the last row wraps into nothing. No operation of a terminal leaves
    this, but for a resize that leaves a scroll region of a single row. -/

namespace MoshClient.Vt100
open Checked

/-! ### Cells -/

/-- The cells that drawing makes. -/
inductive Cell.Drawn (unicode : UnicodeWidth) : Cell → Prop
  | blank {attrs : Attrs} (ha : attrs.Proper) : Drawn unicode (.blank attrs)
  | continuation : Drawn unicode .continuation
  | glyph {c : Char} {width : Nat} {attrs : Attrs} (hwidth : unicode.terminalWidth c = some width) (hpos : 1 ≤ width)
      (ha : attrs.Proper) : Drawn unicode (.glyph c width attrs)
  | mark {cell : Cell} {m : Char} (h : Drawn unicode cell) (hcontents : cell.contents ≠ [])
      (hmark : unicode.terminalWidth m = some 0) (hroom : cell.len < maxBytesBeforeCombiningAppend) :
      Drawn unicode { cell with contents := cell.contents ++ [m] }

/-- Whether the next row can go on from this cell. -/
def Cell.joins (cell : Cell) : Bool := cell.hasContents || cell.isWideContinuation

namespace Cell

variable {unicode : UnicodeWidth} {cell : Cell}

theorem hasContents_iff : cell.hasContents = true ↔ cell.contents ≠ [] := by
  cases hcontents : cell.contents with
  | nil => simp [hasContents, len, hcontents]
  | cons c rest =>
    have := c.utf8Size_pos
    simp only [hasContents, len, hcontents, List.map_cons, List.sum_cons, decide_eq_true_eq]
    exact ⟨fun _ => List.cons_ne_nil _ _, fun _ => by omega⟩

theorem Drawn.new : Cell.new.Drawn unicode := .blank Attrs.proper_default

theorem Drawn.attrs (h : cell.Drawn unicode) : cell.attrs.Proper := by
  induction h with
  | blank ha => exact ha
  | continuation => exact Attrs.proper_default
  | glyph _ _ ha => exact ha
  | mark _ _ _ _ ih => exact ih

theorem Drawn.not_continuation (h : cell.Drawn unicode) (hcontents : cell.contents ≠ []) :
    cell.isWideContinuation = false := by
  induction h with
  | blank => exact absurd rfl hcontents
  | continuation => exact absurd rfl hcontents
  | glyph => rfl
  | mark _ hbefore _ _ ih => exact ih hbefore

theorem Drawn.eq_continuation (h : cell.Drawn unicode) (hcont : cell.isWideContinuation = true) : cell = .continuation := by
  cases h with
  | blank => cases hcont
  | continuation => rfl
  | glyph => cases hcont
  | mark h hbefore => cases (h.not_continuation hbefore).symm.trans hcont

theorem Drawn.eq_blank (h : cell.Drawn unicode) (hcontents : cell.contents = []) (hcont : cell.isWideContinuation = false) :
    cell = .blank cell.attrs := by
  cases h with
  | blank => rfl
  | continuation => cases hcont
  | glyph => cases hcontents
  | mark => exact absurd hcontents (List.append_ne_nil_of_right_ne_nil _ (List.cons_ne_nil _ _))

/-- A scalar joins a cell, or a space where there is none, or is left out. -/
theorem Drawn.allows_append (h : cell.Drawn unicode) (hcont : cell.isWideContinuation = false) {m : Char}
    (hmark : unicode.terminalWidth m = some 0) :
    Allows (cell.append m) fun next => next.Drawn unicode ∧ (cell.joins = true → next.joins = true) := by
  unfold append
  refine allows_ite.mpr ⟨fun _ => allows_pure.mpr ⟨h, id⟩, fun hroom => ?_⟩
  have happend {first : Cell} (hfirst : first.Drawn unicode) (hcontents : first.contents ≠ [])
      (hroom : first.len < maxBytesBeforeCombiningAppend) : Allows (first.appendChar m) fun next =>
        next.Drawn unicode ∧ (cell.joins = true → next.joins = true) := by
    refine allows_ite.mpr ⟨fun _ => allows_ok.mpr ⟨.mark hfirst hcontents hmark hroom, fun _ => ?_⟩, fun _ => allows_error⟩
    have : hasContents { first with contents := first.contents ++ [m] } = true := by
      rw [hasContents_iff]
      simp
    rw [joins, this, Bool.true_or]
  by_cases hcontents : cell.contents = []
  · have hlen : cell.len = 0 := by rw [len, hcontents]; rfl
    rw [if_pos hlen]
    have hspace : { cell with contents := [' '] } = Cell.glyph ' ' 1 cell.attrs := by
      rw [h.eq_blank hcontents hcont]
      rfl
    rw [hspace]
    exact happend (.glyph unicode.terminalWidth_space (Nat.le_refl 1) h.attrs) (List.cons_ne_nil _ _) (show 1 < 18 by decide)
  · have hlen : cell.len ≠ 0 := by
      have := hasContents_iff.mpr hcontents
      simp only [hasContents, decide_eq_true_eq] at this
      omega
    rw [if_neg hlen]
    exact happend h hcontents (Nat.lt_of_not_le hroom)

end Cell

/-! ### Rows -/

/-- A row whose cells are drawn, and which ends in text when it wraps. -/
structure Row.Drawn (unicode : UnicodeWidth) (row : Row) : Prop where
  cells : ∀ cell ∈ row.cells, cell.Drawn unicode
  joins : row.wrapped = true → flagAt Cell.joins row.cells (row.cells.length - 1) = true

namespace Row

variable {unicode : UnicodeWidth} {row next : Row} {cols i : Nat} {attrs : Attrs}

theorem Drawn.getElem? (h : row.Drawn unicode) {cell : Cell} (hcell : row.cells[i]? = some cell) : cell.Drawn unicode :=
  h.cells cell (List.mem_of_getElem? hcell)

theorem drawn_of_unwrapped (hcells : ∀ cell ∈ row.cells, cell.Drawn unicode) (hwrapped : row.wrapped = false) :
    row.Drawn unicode := by
  refine ⟨hcells, fun hwrap => ?_⟩
  rw [hwrapped] at hwrap
  cases hwrap

theorem drawn_new (cols : Nat) : (Row.new cols).Drawn unicode :=
  drawn_of_unwrapped (fun _ hcell => List.eq_of_mem_replicate hcell ▸ .new) rfl

theorem drawn_clear (ha : attrs.Proper) (row : Row) : (row.clear attrs).Drawn unicode := by
  refine drawn_of_unwrapped (fun cell hcell => ?_) rfl
  obtain ⟨old, -, rfl⟩ := List.mem_map.mp hcell
  exact .blank ha

theorem Drawn.wrap (h : row.Drawn unicode) {wrap : Bool}
    (hwrap : wrap = true → flagAt Cell.joins row.cells (row.cells.length - 1) = true) : (row.wrap wrap).Drawn unicode :=
  ⟨h.cells, hwrap⟩

theorem Drawn.resize (h : row.Drawn unicode) (cols : Nat) : (row.resize cols .new).Drawn unicode := by
  refine drawn_of_unwrapped (fun cell hcell => ?_) rfl
  rcases List.mem_append.mp hcell with hold | hnew
  · exact h.cells cell (List.mem_of_mem_take hold)
  · exact List.eq_of_mem_replicate hnew ▸ .new

/-- What a change of a row leaves: drawn cells, and no wrapping that was not there. -/
structure Redrawn (unicode : UnicodeWidth) (row next : Row) : Prop where
  drawn : next.Drawn unicode
  wrapped : next.wrapped = true → row.wrapped = true

theorem redrawn_of_unwrapped (hcells : ∀ cell ∈ next.cells, cell.Drawn unicode) (hwrapped : next.wrapped = false) :
    Redrawn unicode row next := by
  refine ⟨drawn_of_unwrapped hcells hwrapped, fun hwrap => ?_⟩
  rw [hwrapped] at hwrap
  cases hwrap

theorem returns_clearWide_drawn (h : row.Whole) (hdrawn : ∀ cell ∈ row.cells, cell.Drawn unicode)
    (hi : i < row.cells.length) : Returns (row.clearWide i) fun next => ∀ cell ∈ next.cells, cell.Drawn unicode := by
  refine (returns_clearWide_cells h hi).mono ?_
  rintro next ⟨-, -, hcells⟩ cell hcell
  obtain ⟨j, hj⟩ := List.mem_iff_getElem?.mp hcell
  rw [hcells] at hj
  split at hj
  · obtain ⟨old, hold, rfl⟩ := Option.map_eq_some_iff.mp hj
    exact .blank (hdrawn old (List.mem_of_getElem? hold)).attrs
  · exact hdrawn cell (List.mem_of_getElem? hj)

theorem Drawn.returns_erase (h : row.Drawn unicode) (hsound : row.Sound cols) (hi : i < cols) (hcols : cols ≤ u16Max)
    (ha : attrs.Proper) : Returns (row.erase i attrs) (Redrawn unicode row) := by
  refine ((returns_erase_cells hsound hi hcols).and (Row.returns_erase hsound hi hcols ha.sound)).mono ?_
  rintro next ⟨⟨hcells, hwrapped⟩, hnext⟩
  refine ⟨⟨fun cell hcell => ?_, fun hwrap => ?_⟩, fun hwrap => ?_⟩
  · obtain ⟨j, hj⟩ := List.mem_iff_getElem?.mp hcell
    rw [hcells, erasedAt] at hj
    split at hj
    · cases hj
      exact .blank ha
    · split at hj
      · obtain ⟨old, hold, rfl⟩ := Option.map_eq_some_iff.mp hj
        exact .blank (h.getElem? hold).attrs
      · exact h.getElem? hj
  · rw [hwrapped, Bool.and_eq_true, decide_eq_true_eq] at hwrap
    have hjoins := h.joins hwrap.1
    -- The last cell is neither erased nor the other half of an erased one.
    have hlast : next.cells[cols - 1]? = row.cells[cols - 1]? := by
      rw [hcells, erasedAt]
      have hend := hwrap.2
      have hwide := hsound.paired.lt_length (i := i)
      rw [hsound.length] at hwide
      cases hw : wideAt row.cells i with
      | true =>
        have := hwide hw
        rw [hw, if_pos rfl] at hend
        rw [if_neg (by omega), if_neg (by omega)]
      | false =>
        rw [hw] at hend
        simp only [Bool.false_eq_true, if_false] at hend
        rw [if_neg (by omega), if_neg (by simp; omega)]
    rw [hsound.length] at hjoins
    rw [hnext.length]
    exact (congrArg (Option.any Cell.joins) hlast).trans hjoins
  · rw [hwrapped, Bool.and_eq_true] at hwrap
    exact hwrap.1

theorem Drawn.returns_eraseRange (h : row.Drawn unicode) (hsound : row.Sound cols) (hcols : cols ≤ u16Max)
    (ha : attrs.Proper) {start stop : Nat} (hle : start ≤ stop) (hstop : stop ≤ cols) :
    Returns (forRange start stop (fun col row => row.erase col attrs) row) (Redrawn unicode row) := by
  refine (Returns.forRange (P := fun _ next => next.Sound cols ∧ Redrawn unicode row next) ⟨hsound, h, id⟩ hle ?_).mono
    fun _ hnext => hnext.2
  rintro i next hi ⟨hnext, hdrawn⟩
  have hlt := Nat.lt_of_lt_of_le hi hstop
  refine ((Row.returns_erase hnext hlt hcols ha.sound).and (hdrawn.drawn.returns_erase hnext hlt hcols ha)).mono ?_
  rintro last ⟨hlast, hredrawn⟩
  exact ⟨hlast, hredrawn.drawn, fun hwrap => hdrawn.wrapped (hredrawn.wrapped hwrap)⟩

theorem returns_insertCell_drawn {col : Nat} {wide : Bool} (hdrawn : ∀ cell ∈ row.cells, cell.Drawn unicode)
    (hcol : col ≤ row.cells.length) (hwide : continuationAt row.cells col = wide) :
    Returns (Grid.insertCell col wide row) fun next => ∀ cell ∈ next.cells, cell.Drawn unicode := by
  unfold Grid.insertCell Row.insert
  cases wide with
  | false =>
    simp only [Bool.false_eq_true, if_false, pure_bind, bind_assoc, returns_bind, returns_insert, returns_pure]
    exact ⟨hcol, forall_mem_insertIdx hdrawn .new hcol⟩
  | true =>
    obtain ⟨cell, hcell⟩ := exists_cell (lt_length_of_flagAt hwide)
    have hcont : cell = .continuation :=
      (hdrawn cell (List.mem_of_getElem? hcell)).eq_continuation ((flagAt_of_getElem? hcell).symm.trans hwide)
    have hle : col ≤ (row.cells.set col (cell.setWideContinuation false)).length := by
      rw [List.length_set]
      exact hcol
    have hget : ((row.cells.set col (cell.setWideContinuation false)).insertIdx col .new)[col]? = some .new := by
      rw [List.getElem?_insertIdx_self, if_pos hle]
    simp only [if_true, bind_assoc, pure_bind, returns_bind, returns_update, returns_insert, returns_pure]
    refine ⟨cell, hcell, hle, .new, hget, forall_mem_set (forall_mem_insertIdx (forall_mem_set hdrawn ?_) .new hle) ?_⟩
    · rw [hcont]
      exact Cell.Drawn.new
    · exact Cell.Drawn.continuation

theorem returns_truncate_drawn (hdrawn : ∀ cell ∈ row.cells, cell.Drawn unicode) (hcols : 1 ≤ cols)
    (hle : cols ≤ row.cells.length) :
    Returns (row.truncate cols) fun next => (∀ cell ∈ next.cells, cell.Drawn unicode) ∧ next.wrapped = false := by
  have htake : ∀ cell ∈ row.cells.take cols, cell.Drawn unicode := fun cell hcell => hdrawn cell (List.mem_of_mem_take hcell)
  obtain ⟨last, hlast⟩ : ∃ last, (row.cells.take cols)[cols - 1]? = some last :=
    ⟨_, List.getElem?_eq_getElem (by rw [List.length_take]; omega)⟩
  unfold truncate
  simp only [returns_bind, returns_sub, returns_update, returns_pure]
  refine ⟨hcols, last, hlast, forall_mem_set htake ?_, trivial⟩
  have := htake last (List.mem_of_getElem? hlast)
  split
  · exact .blank this.attrs
  · exact this

theorem returns_remove_drawn (h : row.Whole) (hdrawn : ∀ cell ∈ row.cells, cell.Drawn unicode) (hi : i < row.cells.length) :
    Returns (row.remove i) fun next => ∀ cell ∈ next.cells, cell.Drawn unicode := by
  unfold remove
  refine returns_bind.mpr (((returns_clearWide_drawn h hdrawn hi).and (returns_clearWide_cells h hi)).mono ?_)
  rintro next ⟨hnext, -, hlength, -⟩
  rw [returns_bind, Checked.returns_remove, returns_pure]
  exact ⟨hlength.symm ▸ hi, forall_mem_eraseIdx hnext⟩

/-- A character is drawn at `i`, where it has room. -/
theorem Drawn.draw (h : row.Drawn unicode) (hsound : row.Sound cols) (hnext : next.cells.length = cols) {c : Char}
    {width : Nat} (hwidth : unicode.terminalWidth c = some width) (hpos : 1 ≤ width) (hroom : i + width ≤ cols)
    (ha : attrs.Proper) (hcells : ∀ j, next.cells[j]? = drawnAt row.cells i (.glyph c width attrs) j)
    (hwrapped : next.wrapped = (row.wrapped && !(decide (width > 1) && wideAt row.cells (i + 1) && decide (i + 3 = cols)))) :
    Redrawn unicode row next := by
  have hwrap : next.wrapped = true → row.wrapped = true := fun hwrap => (Bool.and_eq_true _ _ ▸ hwrapped ▸ hwrap).1
  have hwide : (Cell.glyph c width attrs).isWide = decide (width > 1) := rfl
  refine ⟨⟨fun cell hcell => ?_, fun htrue => ?_⟩, hwrap⟩
  · obtain ⟨j, hj⟩ := List.mem_iff_getElem?.mp hcell
    rw [hcells, drawnAt] at hj
    split_ifs at hj
    · cases hj
      exact .glyph hwidth hpos ha
    · cases hj
      exact .continuation
    · cases hj
      exact .blank ha
    · cases hj
      exact .glyph unicode.terminalWidth_space (Nat.le_refl 1) ha
    · cases hj
      exact .blank ha
    · exact h.getElem? hj
  · have hjoins := h.joins (hwrap htrue)
    have hlast := hcells (cols - 1)
    rw [hsound.length] at hjoins
    rw [hnext]
    have hflag {cell : Cell} (hcell : next.cells[cols - 1]? = some cell) (hjoins : cell.joins = true) :
        flagAt Cell.joins next.cells (cols - 1) = true := (flagAt_of_getElem? hcell).trans hjoins
    rw [drawnAt] at hlast
    split_ifs at hlast with hat hcont hfirst hsecond hthird
    · exact hflag hlast (by rw [Cell.joins, Cell.hasContents_iff.mpr (List.cons_ne_nil _ _), Bool.true_or])
    · exact hflag hlast rfl
    · omega
    · exact hflag hlast (by rw [Cell.joins, Cell.hasContents_iff.mpr (List.cons_ne_nil _ _), Bool.true_or])
    · -- The second half that would be cleared ends the row, which does not wrap then.
      rw [hwrapped, Bool.and_eq_true, hthird.2.2, ← hwide, hthird.1, decide_eq_true (by omega)] at htrue
      simp at htrue
    · exact (congrArg (Option.any Cell.joins) hlast).trans hjoins

/-- A scalar joins a cell. -/
theorem Drawn.allows_append (h : row.Drawn unicode) {cell : Cell} (hcell : row.cells[i]? = some cell)
    (hcont : cell.isWideContinuation = false) {m : Char} (hmark : unicode.terminalWidth m = some 0) :
    Allows (cell.append m) fun next => Redrawn unicode row { row with cells := row.cells.set i next } := by
  refine ((h.getElem? hcell).allows_append hcont hmark).mono ?_
  rintro next ⟨hnext, hjoins⟩
  refine ⟨⟨forall_mem_set h.cells hnext, fun hwrap => ?_⟩, id⟩
  have hold := h.joins hwrap
  have hi := (List.getElem?_eq_some_iff.mp hcell).1
  simp only [List.length_set]
  rw [flagAt_set hi]
  split
  · rename_i heq
    exact hjoins ((flagAt_of_getElem? hcell).symm.trans (heq ▸ hold))
  · exact hold

end Row

/-! ### Grids -/

/-- The scroll region has two rows, where the grid has them. -/
def Grid.Scrolls (g : Grid) : Prop := 2 ≤ g.size.rows → g.scrollTop < g.scrollBottom

/-- A grid whose rows are drawn. Its last row does not wrap. -/
structure Grid.Drawn (unicode : UnicodeWidth) (g : Grid) : Prop where
  rows : ∀ row ∈ g.rows, row.Drawn unicode
  last : ∀ row, g.rows[g.size.rows - 1]? = some row → row.wrapped = false
  region : g.Scrolls

namespace Grid

variable {unicode : UnicodeWidth} {g t : Grid} {attrs : Attrs}

/-- When an operation returns, it has left a drawn grid drawn. -/
def Draws (unicode : UnicodeWidth) (op : Grid → Except Fault Grid) : Prop :=
  ∀ g, g.Ready → g.Drawn unicode → Allows (op g) (Drawn unicode)

theorem Drawn.getElem? (h : g.Drawn unicode) {r : Nat} {row : Row} (hrow : g.rows[r]? = some row) : row.Drawn unicode :=
  h.rows row (List.mem_of_getElem? hrow)

/-! The cursor -/

/-- Only the cursor has moved. -/
def Placed (g t : Grid) : Prop :=
  t = { g with pos := t.pos, savedPos := t.savedPos, originMode := t.originMode, savedOriginMode := t.savedOriginMode }

theorem RowSet.placed (h : RowSet g t) : Placed g t := by
  obtain ⟨row, rfl⟩ := h
  rfl

theorem Placed.trans {u : Grid} (h : Placed g t) (hu : Placed t u) : Placed g u := by
  unfold Placed at h hu ⊢
  rw [hu, h]

theorem Drawn.placed (h : g.Drawn unicode) (ht : Placed g t) : t.Drawn unicode := by
  rw [ht]
  exact ⟨h.rows, h.last, h.region⟩

theorem draws_of_placed {op : Grid → Except Fault Grid} (hop : ∀ g, Allows (op g) (Placed g)) : Draws unicode op :=
  fun g _ h => (hop g).mono fun _ ht => h.placed ht

theorem allows_placed_rowClamp (g : Grid) : Allows g.rowClamp (Placed g) :=
  allows_bind.mpr (.of_forall fun _ => allows_pure.mpr rfl)

theorem allows_placed_colClamp (g : Grid) : Allows g.colClamp (Placed g) :=
  allows_bind.mpr (.of_forall fun _ => allows_pure.mpr rfl)

theorem allows_placed_setPos (pos : Pos) (g : Grid) : Allows (g.setPos pos) (Placed g) := by
  refine allows_bind.mpr ((allows_rowClampTop _ _).mono fun top htop => ?_)
  refine allows_bind.mpr ((allows_rowClampBottom _ _).mono fun bottom hbottom => ?_)
  refine (allows_placed_colClamp _).mono fun t ht => ?_
  have hstart : Placed g { g with pos := ⟨if g.originMode then saturatingAdd pos.row g.scrollTop else pos.row, pos.col⟩ } := rfl
  exact ((hstart.trans htop.placed).trans hbottom.placed).trans ht

theorem draws_setOriginMode (mode : Bool) : Draws unicode (·.setOriginMode mode) := by
  refine draws_of_placed fun g => (allows_placed_setPos _ _).mono fun t ht => ?_
  exact Placed.trans (t := { g with originMode := mode }) rfl ht

theorem draws_setScrollRegion (top bottom : Nat) : Draws unicode (·.setScrollRegion top bottom) := by
  intro g _ h
  refine allows_bind.mpr (allows_sub.mpr fun hrows => allows_pure.mpr ?_)
  split
  · exact ⟨h.rows, h.last, fun _ => ‹_›⟩
  · refine ⟨h.rows, h.last, fun htwo => ?_⟩
    show 0 < g.size.rows - 1
    have : 2 ≤ g.size.rows := htwo
    omega

theorem draws_colSet (i : Nat) : Draws unicode (·.colSet i) :=
  draws_of_placed fun g => (allows_placed_colClamp _).mono fun _ ht => Placed.trans (t := { g with pos.col := i }) rfl ht

theorem draws_rowSet (i : Nat) : Draws unicode (·.rowSet i) :=
  draws_of_placed fun g => (allows_placed_rowClamp _).mono fun _ ht => Placed.trans (t := { g with pos.row := i }) rfl ht

theorem draws_colTab : Draws unicode colTab := by
  refine draws_of_placed fun g => allows_bind.mpr (.of_forall fun col => ?_)
  exact (allows_placed_colClamp _).mono fun _ ht => Placed.trans (t := { g with pos.col := col + 8 }) rfl ht

theorem draws_colIncClamp (count : Nat) : Draws unicode (·.colIncClamp count) :=
  draws_of_placed fun g => (allows_placed_colClamp _).mono fun _ ht => Placed.trans (t := g.colInc count) rfl ht

theorem draws_rowIncClamp (count : Nat) : Draws unicode (·.rowIncClamp count) := by
  refine draws_of_placed fun g => allows_bind.mpr ((allows_rowClampBottom _ _).mono fun clamped hclamped => ?_)
  exact allows_pure.mpr (Placed.trans (t := { g with pos.row := saturatingAdd g.pos.row count }) rfl hclamped.placed)

theorem draws_rowDecClamp (count : Nat) : Draws unicode (·.rowDecClamp count) := by
  refine draws_of_placed fun g => allows_bind.mpr ((allows_rowClampTop _ _).mono fun clamped hclamped => ?_)
  exact allows_pure.mpr (Placed.trans (t := { g with pos.row := g.pos.row - count }) rfl hclamped.placed)

/-! Rows -/

/-- A row is changed, and does not wrap where it is the last. -/
theorem Drawn.set (h : g.Drawn unicode) {r : Nat} {next : Row} (hnext : next.Drawn unicode)
    (hwrapped : r = g.size.rows - 1 → next.wrapped = false) : { g with rows := g.rows.set r next }.Drawn unicode := by
  refine ⟨forall_mem_set h.rows hnext, fun row hrow => ?_, h.region⟩
  simp only [List.getElem?_set] at hrow
  split at hrow
  · split at hrow
    · cases hrow
      exact hwrapped ‹_›
    · cases hrow
  · exact h.last row hrow

theorem Drawn.allows_drawingRowMut (h : g.Drawn unicode) {r : Nat} {change : Row → Except Fault Row}
    (hchange : ∀ row, g.rows[r]? = some row → Allows (change row) (row.Redrawn unicode)) :
    Allows (g.drawingRowMut r change) (Drawn unicode) := by
  refine allows_bind.mpr (allows_unwrap.mpr fun row hrow => allows_bind.mpr ?_)
  refine (hchange row hrow).mono fun next hnext => allows_pure.mpr (h.set hnext.drawn fun hr => ?_)
  by_contra hwrap
  have hlast := h.last row (hr ▸ hrow)
  rw [hnext.wrapped (eq_true_of_ne_false hwrap)] at hlast
  cases hlast

theorem draws_currentRowMut {change : Grid → Row → Except Fault Row}
    (hchange : ∀ g row, g.Ready → row.Sound g.size.cols → row.Drawn unicode → g.rows[g.pos.row]? = some row →
      Allows (change g row) (row.Redrawn unicode)) : Draws unicode fun g => g.currentRowMut (change g) :=
  fun g hready h => h.allows_drawingRowMut fun row hrow =>
    hchange g row hready (hready.rows row (List.mem_of_getElem? hrow)) (h.getElem? hrow) hrow

theorem draws_eraseRow (ha : attrs.Proper) : Draws unicode (·.eraseRow attrs) :=
  draws_currentRowMut fun _ row _ _ _ _ => allows_pure.mpr ⟨row.drawn_clear ha, fun hwrap => by cases hwrap⟩

theorem draws_eraseRowForward (ha : attrs.Proper) : Draws unicode (·.eraseRowForward attrs) :=
  draws_currentRowMut fun _ _ hready hsound hrow _ =>
    (hrow.returns_eraseRange hsound hready.cols_le ha hready.col_le (Nat.le_refl _)).allows

theorem draws_eraseRowBackward (ha : attrs.Proper) : Draws unicode (·.eraseRowBackward attrs) := by
  intro g hready h
  refine allows_bind.mpr (allows_sub.mpr fun _ => h.allows_drawingRowMut fun row hrow => ?_)
  have hsound := hready.rows row (List.mem_of_getElem? hrow)
  exact ((h.getElem? hrow).returns_eraseRange hsound hready.cols_le ha (Nat.zero_le _) (by omega)).allows

theorem draws_eraseCells (ha : attrs.Proper) (count : Nat) : Draws unicode (·.eraseCells count attrs) := by
  refine draws_currentRowMut fun g row hready hsound hrow _ => ?_
  have hcol := hready.col_le
  have hcols := hready.cols_le
  refine (hrow.returns_eraseRange hsound hcols ha ?_ (Nat.min_le_right _ _)).allows
  unfold saturatingAdd
  omega

/-- Some of the rows are cleared, and the others stay where they are. -/
theorem Drawn.clearRows (h : g.Drawn unicode) (ha : attrs.Proper) {rows : List Row}
    (hrows : ∀ (r : Nat) (row : Row), rows[r]? = some row → g.rows[r]? = some row ∨ ∃ old : Row, row = old.clear attrs) :
    { g with rows }.Drawn unicode := by
  refine ⟨fun row hrow => ?_, fun row hrow => ?_, h.region⟩
  · obtain ⟨r, hr⟩ := List.mem_iff_getElem?.mp hrow
    rcases hrows r row hr with hold | ⟨old, rfl⟩
    · exact h.getElem? hold
    · exact old.drawn_clear ha
  · rcases hrows _ row hrow with hold | ⟨old, rfl⟩
    · exact h.last row hold
    · rfl

theorem draws_eraseAll (ha : attrs.Proper) : Draws unicode fun g => pure (g.eraseAll attrs) := by
  intro g _ h
  refine allows_pure.mpr (h.clearRows ha fun r row hrow => ?_)
  rw [List.getElem?_map] at hrow
  obtain ⟨old, -, rfl⟩ := Option.map_eq_some_iff.mp hrow
  exact .inr ⟨old, rfl⟩

theorem draws_eraseAllForward (ha : attrs.Proper) : Draws unicode (·.eraseAllForward attrs) := by
  intro g hready h
  have hlength := hready.length
  have hpos := hready.row_lt
  refine draws_eraseRowForward ha _ ?_ (h.clearRows ha fun r row hrow => ?_)
  · refine (hready.clearRows ha.sound ?_ fun row hrow => ?_).ready
    · simp only [List.length_append, List.length_take, List.length_map, List.length_drop]
      omega
    · rcases List.mem_append.mp hrow with hkept | hcleared
      · exact .inl (List.mem_of_mem_take hkept)
      · obtain ⟨old, hold, rfl⟩ := List.mem_map.mp hcleared
        exact .inr ⟨old, List.mem_of_mem_drop hold, rfl⟩
  · rw [List.getElem?_append] at hrow
    split at hrow
    · rename_i hlt
      simp only [List.length_take] at hlt
      exact .inl (by rwa [List.getElem?_take, if_pos (by omega)] at hrow)
    · rw [List.getElem?_map] at hrow
      obtain ⟨old, -, rfl⟩ := Option.map_eq_some_iff.mp hrow
      exact .inr ⟨old, rfl⟩

theorem draws_eraseAllBackward (ha : attrs.Proper) : Draws unicode (·.eraseAllBackward attrs) := by
  intro g hready h
  have hlength := hready.length
  have hpos := hready.row_lt
  refine draws_eraseRowBackward ha _ ?_ (h.clearRows ha fun r row hrow => ?_)
  · refine (hready.clearRows ha.sound ?_ fun row hrow => ?_).ready
    · simp only [List.length_append, List.length_take, List.length_map, List.length_drop]
      omega
    · rcases List.mem_append.mp hrow with hcleared | hkept
      · obtain ⟨old, hold, rfl⟩ := List.mem_map.mp hcleared
        exact .inr ⟨old, List.mem_of_mem_take hold, rfl⟩
      · exact .inl (List.mem_of_mem_drop hkept)
  · rw [List.getElem?_append] at hrow
    split at hrow
    · rw [List.getElem?_map] at hrow
      obtain ⟨old, -, rfl⟩ := Option.map_eq_some_iff.mp hrow
      exact .inr ⟨old, rfl⟩
    · rename_i hle
      simp only [List.length_map, List.length_take, Nat.not_lt] at hle
      rw [List.getElem?_drop, List.length_map, List.length_take, Nat.min_eq_left (by omega)] at hrow
      exact .inl (by rwa [Nat.add_sub_cancel' (by omega)] at hrow)

/-! Inserting and deleting -/

theorem draws_insertCells (count : Nat) : Draws unicode (·.insertCells count) := by
  intro g hready h
  have hinsert {wide : Bool} (hwide : ∀ row, g.rows[g.pos.row]? = some row → continuationAt row.cells g.pos.col = wide) :
      Allows (g.currentRowMut fun row => do
        let row ← iterate (insertCell g.pos.col wide) count row
        row.truncate g.size.cols) (Drawn unicode) := by
    refine h.allows_drawingRowMut fun row hrow => (returns_bind.mpr ?_).allows
    have hsound := hready.rows row (List.mem_of_getElem? hrow)
    refine (Returns.iterate (P := fun _ next => next.Whole ∧ g.size.cols ≤ next.cells.length ∧
      continuationAt next.cells g.pos.col = wide ∧ ∀ cell ∈ next.cells, cell.Drawn unicode)
      ⟨hsound.toWhole, Nat.le_of_eq hsound.length.symm, hwide row hrow, (h.getElem? hrow).cells⟩ ?_).mono ?_
    · rintro k next ⟨hwhole, hle, hcont, hdrawn⟩
      have hcol := Nat.le_trans hready.col_le hle
      refine ((Row.returns_insertCell hwhole hcol hcont).and (Row.returns_insertCell_drawn hdrawn hcol hcont)).mono ?_
      rintro last ⟨⟨hlast, hlength, hcont⟩, hdrawn⟩
      exact ⟨hlast, by omega, hcont, hdrawn⟩
    · rintro next ⟨-, hle, -, hdrawn⟩
      exact (Row.returns_truncate_drawn hdrawn hready.cols_pos hle).mono fun _ hlast =>
        Row.redrawn_of_unwrapped hlast.1 hlast.2
  obtain ⟨row, hrow, hsound⟩ := hready.exists_row hready.row_lt
  refine allows_ite.mpr ⟨fun hcol => ?_, fun hcol => hinsert fun other hother => ?_⟩
  · refine allows_bind.mpr (allows_bind.mpr (allows_unwrap.mpr fun found hfound => allows_unwrap.mpr fun cell hcell => ?_))
    refine allows_bind.mpr (allows_pure.mpr (hinsert fun other hother => ?_))
    cases hfound.symm.trans hother
    exact flagAt_of_getElem? hcell
  · cases hrow.symm.trans hother
    refine Bool.eq_false_iff.mpr fun hcont => ?_
    have := lt_length_of_flagAt hcont
    rw [hsound.length] at this
    omega

theorem draws_deleteCells (count : Nat) : Draws unicode (·.deleteCells count) := by
  intro g hready h
  refine allows_bind.mpr (allows_sub.mpr fun hcol => h.allows_drawingRowMut fun row hrow => (returns_bind.mpr ?_).allows)
  have hsound := hready.rows row (List.mem_of_getElem? hrow)
  have hlength := hsound.length
  refine (Returns.iterate (P := fun k next => next.Whole ∧ g.pos.col + k ≤ next.cells.length ∧
    ∀ cell ∈ next.cells, cell.Drawn unicode) ⟨hsound.toWhole, by omega, (h.getElem? hrow).cells⟩ ?_).mono ?_
  · rintro k next ⟨hwhole, hle, hdrawn⟩
    have hlt : g.pos.col < next.cells.length := by omega
    refine ((Row.returns_remove hwhole hlt).and (Row.returns_remove_drawn hwhole hdrawn hlt)).mono ?_
    rintro last ⟨⟨hlast, hlength⟩, hdrawn⟩
    exact ⟨hlast, by omega, hdrawn⟩
  · rintro next ⟨-, -, hdrawn⟩
    have hunwrapped : (next.wrap false).Drawn unicode := Row.drawn_of_unwrapped hdrawn rfl
    exact returns_pure.mpr ⟨hunwrapped.resize _, fun hwrap => by cases hwrap⟩

/-- The last row after a line was inserted above it. -/
theorem getElem?_insertedLine {rows : List Row} {r : Nat} (row : Row) (bottom : Nat) (hbottom : bottom < rows.length - 1)
    (hr : r ≤ rows.length - 1) : ((rows.eraseIdx bottom).insertIdx r row)[rows.length - 1]? = some row ∨
      ((rows.eraseIdx bottom).insertIdx r row)[rows.length - 1]? = rows[rows.length - 1]? := by
  have hlength := List.length_eraseIdx_of_lt (show bottom < rows.length by omega)
  rw [List.getElem?_insertIdx, if_neg (by omega)]
  split
  · exact .inl (if_pos (by omega))
  · refine .inr ?_
    rw [List.getElem?_eraseIdx, if_neg (by omega), Nat.sub_add_cancel (by omega)]

/-- The last row after a line was deleted. -/
theorem getElem?_deletedLine {rows : List Row} {r : Nat} (row : Row) (bottom : Nat) (hbottom : bottom < rows.length)
    (hr : r < rows.length) : ((rows.insertIdx (bottom + 1) row).eraseIdx r)[rows.length - 1]? = some row ∨
      ((rows.insertIdx (bottom + 1) row).eraseIdx r)[rows.length - 1]? = rows[rows.length - 1]? := by
  rw [List.getElem?_eraseIdx, if_neg (by omega), List.getElem?_insertIdx, if_neg (by omega)]
  split
  · exact .inl (if_pos (by omega))
  · exact .inr (by rw [Nat.sub_add_cancel (by omega)])

theorem draws_insertLine (row : Grid → Nat) : Draws unicode fun g => g.insertLine (row g) := by
  intro g hready h
  have hlength := hready.length
  have hbottom := hready.bottom_lt
  refine allows_bind.mpr (allows_ite.mpr ⟨fun hremove => allows_ok.mpr ?_, fun _ => allows_error⟩)
  refine allows_bind.mpr (allows_ite.mpr ⟨fun hinsert => allows_ok.mpr ?_, fun _ => allows_error⟩)
  have hrows := forall_mem_insertIdx (forall_mem_eraseIdx h.rows) (Row.drawn_new g.size.cols) hinsert
  rw [List.length_eraseIdx_of_lt hremove] at hinsert
  refine allows_bind.mpr (fun rows hupdate => allows_pure.mpr ?_)
  unfold update at hupdate
  split at hupdate
  · rename_i old hold
    cases hupdate
    have hwrap : (old.wrap false).Drawn unicode := (hrows old (List.mem_of_getElem? hold)).wrap fun hfalse => by cases hfalse
    refine ⟨forall_mem_set hrows hwrap, fun last hlast => ?_, h.region⟩
    simp only [List.getElem?_set] at hlast
    split at hlast
    · split at hlast
      · cases hlast
        rfl
      · cases hlast
    · rw [← hlength] at hlast
      rcases getElem?_insertedLine g.newRow g.scrollBottom (by omega) hinsert with hnew | hsame
      · cases hnew.symm.trans hlast
        rfl
      · exact h.last last (hlength ▸ hsame.symm.trans hlast)
  · cases hupdate

theorem draws_deleteLine {row : Grid → Nat} (hrow : ∀ g, g.Ready → row g < g.size.rows) :
    Draws unicode fun g => g.deleteLine (row g) := by
  intro g hready h
  have hlength := hready.length
  have hbottom := hready.bottom_lt
  have hlt := hrow g hready
  refine allows_bind.mpr (allows_ite.mpr ⟨fun hinsert => allows_ok.mpr ?_, fun _ => allows_error⟩)
  refine allows_bind.mpr (allows_ite.mpr ⟨fun hremove => allows_ok.mpr (allows_pure.mpr ?_), fun _ => allows_error⟩)
  refine ⟨forall_mem_eraseIdx (forall_mem_insertIdx h.rows (Row.drawn_new g.size.cols) hinsert), fun last hlast => ?_, h.region⟩
  simp only at hlast
  rw [← hlength] at hlast
  rcases getElem?_deletedLine g.newRow g.scrollBottom (by omega) (hlength.symm ▸ hlt) with hnew | hsame
  · cases hnew.symm.trans hlast
    rfl
  · exact h.last last (hlength ▸ hsame.symm.trans hlast)

/-- Lines that are inserted or deleted one after another. -/
theorem draws_lines {line : Grid → Except Fault Grid} (hkeeps : Keeps line) (hline : Draws unicode line) (count : Nat) :
    Draws unicode (iterate line count) := by
  intro g hready h
  refine (Allows.iterate (P := fun t => t.Ready ∧ t.Drawn unicode) ⟨hready, h⟩ (fun t ht => ?_) count).mono fun _ ht => ht.2
  exact ((hkeeps t ht.1).allows.mono fun _ hu => hu.1).and (hline t ht.1 ht.2)

theorem Ready.top_lt (h : g.Ready) : g.scrollTop < g.size.rows := Nat.lt_of_le_of_lt h.top_le h.bottom_lt

theorem keeps_insertLine {row : Grid → Nat} (hrow : ∀ g, g.Ready → row g < g.size.rows) :
    Keeps fun g => g.insertLine (row g) :=
  fun g h => (returns_insertLine h (hrow g h)).mono fun _ ht => ht.keeps

theorem keeps_deleteLine {row : Grid → Nat} (hrow : ∀ g, g.Ready → row g < g.size.rows) :
    Keeps fun g => g.deleteLine (row g) :=
  fun g h => (returns_deleteLine h (hrow g h)).mono fun _ ht => ht.keeps

theorem draws_insertLines (count : Nat) : Draws unicode (·.insertLines count) :=
  draws_lines (keeps_insertLine fun _ h => h.row_lt) (draws_insertLine _) count

theorem draws_deleteLines (count : Nat) : Draws unicode (·.deleteLines count) := by
  intro g hready h
  refine allows_bind.mpr (.of_forall fun _ => ?_)
  exact draws_lines (keeps_deleteLine fun _ h => h.row_lt) (draws_deleteLine fun _ h => h.row_lt) _ g hready h

theorem draws_scrollUp (count : Nat) : Draws unicode (·.scrollUp count) := by
  intro g hready h
  refine allows_bind.mpr (.of_forall fun _ => ?_)
  exact draws_lines (keeps_deleteLine fun _ h => h.top_lt) (draws_deleteLine fun _ h => h.top_lt) _ g hready h

theorem draws_scrollDown (count : Nat) : Draws unicode (·.scrollDown count) :=
  draws_lines (keeps_insertLine fun _ h => h.top_lt) (draws_insertLine _) count

theorem draws_rowDecScroll (count : Nat) : Draws unicode (·.rowDecScroll count) := by
  intro g hready h
  have hrow := hready.row_lt
  refine allows_bind.mpr ((returns_rowClampTop ?_).allows)
  refine draws_scrollDown _ _ (hready.withPos (Nat.max_lt.mpr ⟨?_, hready.firstRow_lt _⟩) hready.col_le) (h.placed rfl)
  show g.pos.row - count < g.size.rows
  omega

/-- The last row of the region goes up by one. -/
theorem allows_scrollUp_one (hready : g.Ready) (htop : g.scrollTop < g.scrollBottom) :
    Allows (g.scrollUp 1) fun t => t.rows[g.scrollBottom - 1]? = g.rows[g.scrollBottom]? := by
  have hlt := hready.top_lt
  have hone : min 1 (g.size.rows - g.scrollTop) = 1 := by omega
  refine allows_bind.mpr (allows_sub.mpr fun _ => ?_)
  rw [hone]
  refine allows_bind.mpr (allows_bind.mpr (allows_ite.mpr ⟨fun _ => allows_ok.mpr ?_, fun _ => allows_error⟩))
  refine allows_bind.mpr (allows_ite.mpr ⟨fun _ => allows_ok.mpr (allows_pure.mpr (allows_ok.mpr ?_)), fun _ => allows_error⟩)
  show ((g.rows.insertIdx (g.scrollBottom + 1) g.newRow).eraseIdx g.scrollTop)[g.scrollBottom - 1]? = _
  rw [List.getElem?_eraseIdx, if_neg (by omega), List.getElem?_insertIdx, if_pos (by omega), Nat.sub_add_cancel (by omega)]

/-- The row of the cursor stays, or goes up by the line that was scrolled. -/
theorem Drawn.allows_rowIncScroll (hready : g.Ready) (h : g.Drawn unicode) :
    Allows (g.rowIncScroll 1) fun scrolled => scrolled.2.Drawn unicode ∧
      (2 ≤ g.size.rows → scrolled.2.rows[g.pos.row - scrolled.1]? = g.rows[g.pos.row]?) := by
  have hrow := hready.row_lt
  have hrows := hready.rows_le
  have hadd : saturatingAdd g.pos.row 1 = g.pos.row + 1 := by
    unfold saturatingAdd
    omega
  refine allows_bind.mpr (Returns.allows (returns_rowClampBottom (by exact hready.rows_pos) ?_))
  have hclamped : { g with pos.row := min (saturatingAdd g.pos.row 1) (g.lastRow g.inScrollRegion) }.Ready :=
    hready.withPos (Nat.lt_of_le_of_lt (Nat.min_le_right _ _) (hready.lastRow_lt _)) hready.col_le
  refine allows_ite.mpr ⟨fun hregion => ?_, fun _ => allows_pure.mpr ⟨h.placed rfl, fun _ => rfl⟩⟩
  refine allows_bind.mpr (((draws_scrollUp _ _ hclamped (h.placed rfl)).and ?_).mono fun t ht => allows_pure.mpr ht)
  have hlines : saturatingAdd g.pos.row 1 - g.lastRow g.inScrollRegion = if g.pos.row = g.scrollBottom then 1 else 0 := by
    have hlast : g.lastRow g.inScrollRegion = g.scrollBottom := if_pos hregion
    simp only [inScrollRegion, decide_eq_true_eq] at hregion
    rw [hadd, hlast]
    split <;> omega
  show Allows (scrollUp _ (saturatingAdd g.pos.row 1 - g.lastRow g.inScrollRegion)) fun t => 2 ≤ g.size.rows →
    t.rows[g.pos.row - (saturatingAdd g.pos.row 1 - g.lastRow g.inScrollRegion)]? = g.rows[g.pos.row]?
  rw [hlines]
  split
  · rename_i hscroll
    intro t ht htwo
    rw [hscroll]
    exact allows_scrollUp_one hclamped (h.region htwo) t ht
  · refine allows_bind.mpr (.of_forall fun rest => ?_)
    rw [Nat.zero_min]
    exact allows_ok.mpr fun _ => rfl

theorem draws_lineFeed : Draws unicode fun g => do
    let (_, g) ← g.rowIncScroll 1
    return g :=
  fun _ hready h => allows_bind.mpr ((h.allows_rowIncScroll hready).mono fun _ ht => allows_pure.mpr ht.1)

/-! Text -/

/-- Whether the row of the cursor ends in text. -/
def RowJoins (g : Grid) : Prop :=
  ∀ row, g.rows[g.pos.row]? = some row → flagAt Cell.joins row.cells (row.cells.length - 1) = true

theorem allows_endsInText (hready : g.Ready) (width : Nat) :
    Allows (g.endsInText width) fun wrap => wrap = true → g.RowJoins := by
  refine allows_bind.mpr (.of_forall fun limit => allows_ite.mpr ⟨fun _ => ?_, fun _ => allows_pure.mpr fun h => by cases h⟩)
  refine allows_bind.mpr (allows_sub.mpr fun _ => allows_bind.mpr (allows_bind.mpr (allows_unwrap.mpr fun row hrow => ?_)))
  refine allows_unwrap.mpr fun cell hcell => allows_pure.mpr fun hjoins other hother => ?_
  cases hrow.symm.trans hother
  rw [(hready.rows row (List.mem_of_getElem? hrow)).length]
  exact (flagAt_of_getElem? hcell).trans hjoins

theorem Drawn.allows_colWrap (hready : g.Ready) (h : g.Drawn unicode) {width : Nat} {wrap : Bool}
    (hwrap : wrap = true → g.RowJoins) : Allows (g.colWrap width wrap) (Drawn unicode) := by
  refine allows_bind.mpr (.of_forall fun limit => allows_ite.mpr ⟨fun _ => ?_, fun _ => allows_pure.mpr h⟩)
  have hstart : { g with pos.col := 0 }.Ready := hready.withPos hready.row_lt (Nat.zero_le _)
  have hplaced : { g with pos.col := 0 }.Drawn unicode := h.placed rfl
  refine allows_bind.mpr (((hplaced.allows_rowIncScroll hstart).and (returns_rowIncScroll hstart).allows).mono ?_)
  rintro ⟨scrolled, t⟩ ⟨⟨ht, hrows⟩, htready, hsize, -, -⟩
  have hpos := htready.row_lt
  refine allows_bind.mpr (allows_sub.mpr fun _ => ?_)
  refine allows_bind.mpr (allows_unwrap.mpr fun row hrow => allows_pure.mpr ?_)
  refine ht.set ((ht.getElem? hrow).wrap fun hjoins => ?_) fun hlast => ?_
  · rw [Bool.and_eq_true, decide_eq_true_eq] at hjoins
    simp only at hpos hsize hrows
    have htwo : 2 ≤ g.size.rows := by
      have : t.size.rows = g.size.rows := congrArg Size.rows hsize
      omega
    exact hwrap hjoins.1 row ((hrows htwo).symm.trans hrow)
  · show (wrap && decide _) = false
    rw [decide_eq_false (by simp only at hpos hlast; omega), Bool.and_false]

theorem allows_colWrap_ready (h : g.Ready) (width : Nat) (wrap : Bool) :
    Allows (g.colWrap width wrap) fun t => t.Ready ∧ t.size = g.size ∧ t.pos.col + width ≤ g.size.cols := by
  by_cases hfits : g.Fits width
  · exact (returns_colWrap h wrap hfits.width hfits.wraps).allows
  · intro t ht
    refine absurd ⟨t, ht, trivial⟩ (not_returns_colWrap h wrap ?_ fun _ => True)
    by_cases hwidth : width ≤ g.size.cols
    · refine .inr (by_contra fun hrows => hfits ⟨hwidth, fun hwraps => ?_⟩)
      have := h.rows_pos
      by_contra htwo
      exact hrows ⟨hwraps, by omega⟩
    · exact .inl (Nat.lt_of_not_le hwidth)

theorem Drawn.allows_draw (hready : g.Ready) (h : g.Drawn unicode) (ha : attrs.Proper) {c : Char} {width : Nat}
    (hwidth : unicode.terminalWidth c = some width) (hpos : 1 ≤ width) (hcol : g.pos.col + width ≤ g.size.cols) :
    Allows (g.draw unicode width attrs c) (Drawn unicode) := by
  obtain ⟨row, hrow, hsound⟩ := hready.exists_row hready.row_lt
  have hkeeps := returns_draw hready ha.sound (hpos.trans_eq (UnicodeWidth.columns_eq hwidth).symm)
    (by rwa [UnicodeWidth.columns_eq hwidth])
  rw [UnicodeWidth.columns_eq hwidth] at hkeeps
  refine ((returns_draw_cells hready hrow hwidth hpos hcol).and hkeeps).allows.mono ?_
  rintro _ ⟨⟨next, rfl, hcells, hwrapped⟩, ht, -⟩
  have hget : (g.rows.set g.pos.row next)[g.pos.row]? = some next :=
    List.getElem?_set_self (hready.length.symm ▸ hready.row_lt)
  have hnext := (ht.rows next (List.mem_of_getElem? hget)).length
  have hredrawn := (h.getElem? hrow).draw hsound hnext hwidth hpos hcol ha hcells hwrapped
  refine (h.set hredrawn.drawn fun hlast => ?_).placed (g := { g with rows := g.rows.set g.pos.row next }) rfl
  by_contra hwrap
  have hold := h.last row (hlast ▸ hrow)
  rw [hredrawn.wrapped (eq_true_of_ne_false hwrap)] at hold
  cases hold

/-- A scalar joins the cell before `col`, or the first half of the character that ends there. -/
theorem Drawn.allows_joinBefore (hready : g.Ready) (h : g.Drawn unicode) {c : Char}
    (hmark : unicode.terminalWidth c = some 0) {r col : Nat} :
    Allows (do
      let prev ← Checked.sub col 1
      let prevCell ← g.drawingCell ⟨r, prev⟩
      let prev ← if prevCell.isWideContinuation then Checked.sub col 2 else pure prev
      g.drawingCellMut ⟨r, prev⟩ (·.append c)) (Drawn unicode) := by
  have hjoin {col : Nat} (hcont : ∀ row cell, g.rows[r]? = some row → row.cells[col]? = some cell →
      cell.isWideContinuation = false) : Allows (g.drawingCellMut ⟨r, col⟩ (·.append c)) (Drawn unicode) := by
    refine h.allows_drawingRowMut fun row hrow => allows_bind.mpr (allows_unwrap.mpr fun cell hcell => allows_bind.mpr ?_)
    exact ((h.getElem? hrow).allows_append hcell (hcont row cell hrow hcell) hmark).mono fun _ => allows_pure.mpr
  refine allows_bind.mpr (allows_sub.mpr fun hone => ?_)
  refine allows_bind.mpr (allows_bind.mpr (allows_unwrap.mpr fun row hrow => allows_unwrap.mpr fun prevCell hprev => ?_))
  have hpaired := (hready.rows row (List.mem_of_getElem? hrow)).paired
  refine allows_ite.mpr ⟨fun hcont => ?_,
    fun hcont => allows_bind.mpr (allows_pure.mpr (hjoin fun other cell hother hcell => ?_))⟩
  · refine allows_bind.mpr (allows_sub.mpr fun htwo => hjoin fun other cell hother hcell => ?_)
    cases hrow.symm.trans hother
    have hwide : wideAt row.cells (col - 2) = true := by
      have hnext := hpaired.next (col - 2)
      rw [show col - 2 + 1 = col - 1 by omega] at hnext
      exact hnext.symm.trans ((flagAt_of_getElem? hprev).trans hcont)
    exact (flagAt_of_getElem? hcell).symm.trans (hpaired.once _ hwide)
  · cases hrow.symm.trans hother
    cases hprev.symm.trans hcell
    exact Bool.eq_false_iff.mpr hcont

theorem draws_combine {c : Char} (hmark : unicode.terminalWidth c = some 0) : Draws unicode (·.combine c) := by
  intro g hready h
  refine allows_ite.mpr ⟨fun _ => h.allows_joinBefore hready hmark, fun _ => ?_⟩
  refine allows_ite.mpr ⟨fun _ => ?_, fun _ => allows_pure.mpr h⟩
  refine allows_bind.mpr (.of_forall fun row => allows_bind.mpr (.of_forall fun prevRow => ?_))
  exact allows_ite.mpr ⟨fun _ => h.allows_joinBefore hready hmark, fun _ => allows_pure.mpr h⟩

theorem draws_text (ha : attrs.Proper) {c : Char} {width : Nat} (hwidth : unicode.terminalWidth c = some width) :
    Draws unicode (·.text unicode attrs c) := by
  intro g hready h
  show Allows (g.text unicode attrs c) _
  rw [text_of_width hwidth]
  refine allows_bind.mpr ((allows_endsInText hready width).mono fun wrap hwrap => allows_bind.mpr ?_)
  refine ((h.allows_colWrap hready hwrap).and (allows_colWrap_ready hready width wrap)).mono ?_
  rintro t ⟨ht, htready, hsize, hroom⟩
  refine allows_ite.mpr ⟨fun hzero => draws_combine (hzero ▸ hwidth) t htready ht, fun hzero => ?_⟩
  exact ht.allows_draw htready ha hwidth (Nat.one_le_iff_ne_zero.mpr hzero) (hsize ▸ hroom)

/-! Sizes -/

theorem drawn_new (size : Size) : Allows (Grid.new size) (Drawn unicode) := by
  refine allows_bind.mpr (allows_sub.mpr fun hrows => allows_pure.mpr ⟨fun row hrow => ?_, fun row hrow => ?_, fun htwo => ?_⟩)
  · exact absurd hrow List.not_mem_nil
  · cases hrow
  · show 0 < size.rows - 1
    have : 2 ≤ size.rows := htwo
    omega

theorem Drawn.allocateRows (h : g.Drawn unicode) : g.allocateRows.Drawn unicode := by
  unfold Grid.allocateRows
  split
  · refine ⟨fun row hrow => ?_, fun row hrow => ?_, h.region⟩
    · rw [List.eq_of_mem_replicate hrow]
      exact Row.drawn_new _
    · rw [List.eq_of_mem_replicate (List.mem_of_getElem? hrow)]
      rfl
  · exact h

theorem Drawn.allows_clear (h : g.Drawn unicode) : Allows g.clear (Drawn unicode) := by
  refine allows_bind.mpr (allows_sub.mpr fun hrows => allows_pure.mpr ?_)
  have hcleared : { g with rows := g.rows.map fun row : Row => row.clear .default }.Drawn unicode := by
    refine h.clearRows Attrs.proper_default fun r row hrow => ?_
    rw [List.getElem?_map] at hrow
    obtain ⟨old, -, rfl⟩ := Option.map_eq_some_iff.mp hrow
    exact .inr ⟨old, rfl⟩
  refine ⟨hcleared.rows, hcleared.last, fun htwo => ?_⟩
  show 0 < g.size.rows - 1
  have : 2 ≤ g.size.rows := htwo
  omega

/-- The rows of another size, of which none wraps. -/
theorem Drawn.allows_setSize (h : g.Drawn unicode) (size : Size) :
    Allows (g.setSize size) fun t => t.Scrolls → t.Drawn unicode := by
  refine allows_bind.mpr (.of_forall fun oldLast => allows_bind.mpr (.of_forall fun last => allows_bind.mpr ?_))
  refine (allows_rowClampTop _ _).mono fun top htop => ?_
  refine allows_bind.mpr ((allows_rowClampBottom _ _).mono fun bottom hbottom => ?_)
  refine allows_bind.mpr ((allows_placed_colClamp _).mono fun clamped hclamped => ?_)
  refine allows_bind.mpr (.of_forall fun lastCol => allows_pure.mpr fun hregion => ?_)
  have hplaced := (htop.placed.trans hbottom.placed).trans hclamped
  have hrows : ∀ row ∈ clamped.rows, row.Drawn unicode ∧ row.wrapped = false := by
    rw [hplaced]
    intro row hrow
    rcases List.mem_append.mp hrow with hold | hnew
    · obtain ⟨old, hmem, rfl⟩ := List.mem_map.mp (List.mem_of_mem_take hold)
      refine ⟨Row.Drawn.resize ?_ _, rfl⟩
      split at hmem
      · obtain ⟨unwrapped, hunwrapped, rfl⟩ := List.mem_map.mp hmem
        exact (h.rows unwrapped hunwrapped).wrap fun hfalse => by cases hfalse
      · exact h.rows old hmem
    · rw [List.eq_of_mem_replicate hnew]
      exact ⟨Row.drawn_new _, rfl⟩
  exact ⟨fun row hrow => (hrows row hrow).1, fun row hrow => (hrows row (List.mem_of_getElem? hrow)).2, hregion⟩

end Grid

/-! ### Screens -/

structure Screen.Drawn (unicode : UnicodeWidth) (s : Screen) : Prop where
  grid : s.grid.Drawn unicode
  alternate : s.alternateGrid.Drawn unicode
  attrs : s.attrs.Proper
  savedAttrs : s.savedAttrs.Proper

namespace Screen

variable {unicode : UnicodeWidth} {s t : Screen}

/-- A sound screen that is drawn. -/
structure Shown (unicode : UnicodeWidth) (s : Screen) : Prop where
  sound : s.Sound
  drawn : s.Drawn unicode

/-- When a control function returns, the screen is sound and drawn as before. -/
def Draws (unicode : UnicodeWidth) (op : Screen → Except Fault Screen) : Prop :=
  ∀ s, s.Shown unicode → Allows (op s) (Shown unicode)

/-- The same, for one that may call `unhandled`. -/
def DrawsFlagged (unicode : UnicodeWidth) (op : Screen → Except Fault (Screen × Bool)) : Prop :=
  ∀ s, s.Shown unicode → Allows (op s) fun handled => handled.1.Shown unicode

theorem Draws.bind {op next : Screen → Except Fault Screen} (hop : Draws unicode op) (hnext : Draws unicode next) :
    Draws unicode fun s => op s >>= next :=
  fun s h => allows_bind.mpr ((hop s h).mono hnext)

theorem Draws.flagged {op : Screen → Except Fault Screen} (hop : Draws unicode op) :
    DrawsFlagged unicode fun s => do return (← op s, false) :=
  fun s h => allows_bind.mpr ((hop s h).mono fun _ ht => allows_pure.mpr ht)

theorem Drawn.active (h : s.Drawn unicode) : s.activeGrid.Drawn unicode := by
  unfold activeGrid
  split
  · exact h.alternate
  · exact h.grid

theorem Drawn.allows_gridMut (h : s.Drawn unicode) {change : Grid → Except Fault Grid}
    (hchange : Allows (change s.activeGrid) (Grid.Drawn unicode)) : Allows (s.gridMut change) (Drawn unicode) := by
  refine allows_bind.mpr (hchange.mono fun g hg => allows_pure.mpr ?_)
  split
  · exact { h with alternate := hg }
  · exact { h with grid := hg }

theorem draws_of_keeps {op : Screen → Except Fault Screen} (hkeeps : Keeps op)
    (hop : ∀ s, s.Shown unicode → Allows (op s) (Drawn unicode)) : Draws unicode op :=
  fun s h => (((hkeeps s h.sound).allows.mono fun _ ht => ht.1).and (hop s h)).mono fun _ ht => ⟨ht.1, ht.2⟩

theorem drawsFlagged_of_keeps {op : Screen → Except Fault (Screen × Bool)} (hkeeps : KeepsFlagged op)
    (hop : ∀ s, s.Shown unicode → Allows (op s) fun handled => handled.1.Drawn unicode) : DrawsFlagged unicode op :=
  fun s h => (((hkeeps s h.sound).allows.mono fun _ ht => ht.1).and (hop s h)).mono fun _ ht => ⟨ht.1, ht.2⟩

theorem draws_gridMut {change : Grid → Except Fault Grid} (hkeeps : Grid.Keeps change)
    (hchange : Grid.Draws unicode change) : Draws unicode (·.gridMut change) :=
  draws_of_keeps (keeps_gridMut hkeeps) fun _ h => h.drawn.allows_gridMut (hchange _ h.sound.active h.drawn.active)

theorem draws_gridMut_attrs {change : Attrs → Grid → Except Fault Grid}
    (hkeeps : ∀ attrs : Attrs, attrs.Sound → Grid.Keeps (change attrs))
    (hchange : ∀ attrs : Attrs, attrs.Proper → Grid.Draws unicode (change attrs)) :
    Draws unicode fun s => s.gridMut (change s.attrs) :=
  draws_of_keeps (keeps_gridMut_attrs hkeeps) fun _ h =>
    h.drawn.allows_gridMut (hchange _ h.drawn.attrs _ h.sound.active h.drawn.active)

theorem draws_saveCursor : Draws unicode saveCursor := by
  refine draws_of_keeps keeps_saveCursor fun s h => ?_
  have hsaved : Allows (s.gridMut fun grid => pure grid.saveCursor) (Drawn unicode) :=
    h.drawn.allows_gridMut (allows_pure.mpr (h.drawn.active.placed rfl))
  exact allows_bind.mpr (hsaved.mono fun t ht => allows_pure.mpr { ht with savedAttrs := ht.attrs })

theorem draws_restoreCursor : Draws unicode restoreCursor := by
  refine draws_of_keeps keeps_restoreCursor fun s h => ?_
  have hrestored : Allows (s.gridMut fun grid => pure grid.restoreCursor) (Drawn unicode) :=
    h.drawn.allows_gridMut (allows_pure.mpr (h.drawn.active.placed rfl))
  exact allows_bind.mpr (hrestored.mono fun t ht => allows_pure.mpr { ht with attrs := ht.savedAttrs })

theorem drawn_new (size : Size) : Allows (Screen.new size) (Drawn unicode) := by
  have hnew : Allows (Grid.new size) (Grid.Drawn unicode) := Grid.drawn_new size
  refine allows_bind.mpr (hnew.mono fun grid hgrid => allows_bind.mpr ?_)
  refine hnew.mono fun alternate halternate => allows_pure.mpr ?_
  exact ⟨hgrid.allocateRows, halternate, Attrs.proper_default, Attrs.proper_default⟩

theorem Drawn.allows_setSize (h : s.Drawn unicode) (rows cols : Nat) :
    Allows (s.setSize rows cols) fun t => t.grid.Scrolls → t.alternateGrid.Scrolls → t.Drawn unicode := by
  refine allows_bind.mpr ((h.grid.allows_setSize ⟨rows, cols⟩).mono fun grid hgrid => allows_bind.mpr ?_)
  refine (h.alternate.allows_setSize ⟨rows, cols⟩).mono fun alternate halternate => allows_pure.mpr ?_
  exact fun hscrolls hscrolls' => { h with grid := hgrid hscrolls, alternate := halternate hscrolls' }

theorem draws_ris : Draws unicode ris := draws_of_keeps keeps_ris fun s _ => drawn_new s.grid.size

theorem Drawn.withModes (h : s.Drawn unicode) (modes : ScreenModes) : { s with modes }.Drawn unicode := { h with }

theorem Drawn.enterAlternateGrid (h : s.Drawn unicode) : s.enterAlternateGrid.Drawn unicode :=
  { h with alternate := h.alternate.allocateRows }

theorem draws_decsetParam (param : List Nat) : DrawsFlagged unicode (·.decsetParam param) := by
  refine drawsFlagged_of_keeps (keeps_decsetParam param) fun s h => ?_
  unfold decsetParam
  split
  · refine ((draws_gridMut (Grid.keeps_setOriginMode _) (Grid.draws_setOriginMode _)).flagged s h).mono ?_
    exact fun _ ht => ht.drawn
  · exact allows_pure.mpr h.drawn.enterAlternateGrid
  · refine allows_bind.mpr ((draws_saveCursor s h).mono fun t ht => allows_bind.mpr ?_)
    refine ht.drawn.alternate.allows_clear.mono fun alternate halternate => allows_pure.mpr ?_
    exact Drawn.enterAlternateGrid { ht.drawn with alternate := halternate }
  · exact allows_ite.mpr ⟨fun _ => allows_pure.mpr (h.drawn.withModes _), fun _ => allows_pure.mpr h.drawn⟩
  · exact allows_pure.mpr h.drawn

theorem draws_decrstParam (param : List Nat) : DrawsFlagged unicode (·.decrstParam param) := by
  refine drawsFlagged_of_keeps (keeps_decrstParam param) fun s h => ?_
  unfold decrstParam
  split
  · refine ((draws_gridMut (Grid.keeps_setOriginMode _) (Grid.draws_setOriginMode _)).flagged s h).mono ?_
    exact fun _ ht => ht.drawn
  · exact allows_pure.mpr (h.drawn.withModes _)
  · refine (draws_restoreCursor.flagged s.exitAlternateGrid ⟨h.sound.clearMode _, h.drawn.withModes _⟩).mono ?_
    exact fun _ ht => ht.drawn
  · exact allows_ite.mpr ⟨fun _ => allows_pure.mpr (h.drawn.withModes _), fun _ => allows_pure.mpr h.drawn⟩
  · exact allows_pure.mpr h.drawn

theorem draws_forParams {handle : Screen → List Nat → Except Fault (Screen × Bool)}
    (hhandle : ∀ param, DrawsFlagged unicode (handle · param)) (params : List (List Nat)) :
    DrawsFlagged unicode (·.forParams handle params) := by
  intro s h
  refine Allows.foldlM (P := fun handled : Screen × Bool => handled.1.Shown unicode) h (fun handled param hhandled => ?_) params
  exact allows_bind.mpr ((hhandle param handled.1 hhandled).mono fun _ ht => allows_pure.mpr ht)

theorem draws_ed (mode : Nat) : DrawsFlagged unicode (·.ed mode) := by
  intro s h
  show Allows (s.ed mode) _
  unfold ed
  split
  · exact (draws_gridMut_attrs (fun _ => Grid.keeps_eraseAllForward) fun _ => Grid.draws_eraseAllForward).flagged s h
  · exact (draws_gridMut_attrs (fun _ => Grid.keeps_eraseAllBackward) fun _ => Grid.draws_eraseAllBackward).flagged s h
  · exact (draws_gridMut_attrs (fun _ => Grid.keeps_eraseAll) fun _ => Grid.draws_eraseAll).flagged s h
  · exact allows_pure.mpr h

theorem draws_el (mode : Nat) : DrawsFlagged unicode (·.el mode) := by
  intro s h
  show Allows (s.el mode) _
  unfold el
  split
  · exact (draws_gridMut_attrs (fun _ => Grid.keeps_eraseRowForward) fun _ => Grid.draws_eraseRowForward).flagged s h
  · exact (draws_gridMut_attrs (fun _ => Grid.keeps_eraseRowBackward) fun _ => Grid.draws_eraseRowBackward).flagged s h
  · exact (draws_gridMut_attrs (fun _ => Grid.keeps_eraseRow) fun _ => Grid.draws_eraseRow).flagged s h
  · exact allows_pure.mpr h

theorem draws_sgr (params : List (List Nat)) : DrawsFlagged unicode fun s => pure (s.sgr params) := by
  refine drawsFlagged_of_keeps (keeps_sgr params) fun s h => allows_pure.mpr ?_
  unfold sgr
  split
  · exact { h.drawn with attrs := Attrs.proper_default }
  · exact { h.drawn with attrs := Attrs.rendition_proper.sgrLoop h.drawn.attrs params 0 false }

theorem Shown.allows_text (h : s.Shown unicode) {c : Char} {width : Nat} (hwidth : unicode.terminalWidth c = some width) :
    Allows (s.text unicode c) (Shown unicode) := by
  have hdrawn : Allows (s.text unicode c) (Drawn unicode) :=
    h.drawn.allows_gridMut (Grid.draws_text h.drawn.attrs hwidth _ h.sound.active h.drawn.active)
  have hc : ¬Grid.Invisible unicode c := by
    rintro ⟨hnone, -⟩
    cases hwidth.symm.trans hnone
  by_cases hfits : s.activeGrid.Fits (unicode.columns c)
  · exact (((returns_text h.sound fun _ => hfits).allows.mono fun _ ht => ht.1).and hdrawn).mono fun _ ht => ⟨ht.1, ht.2⟩
  · exact fun t ht => absurd ⟨t, ht, trivial⟩ (not_returns_text h.sound hc hfits fun _ => True)

end Screen

/-! ### Events -/

namespace WrappedScreen

variable {unicode : UnicodeWidth} {w : WrappedScreen}

theorem shown_onScreen (h : w.screen.Shown unicode) {change : Screen → Except Fault Screen}
    (hchange : Screen.Draws unicode change) : Allows (w.onScreen change) (·.screen.Shown unicode) :=
  allows_bind.mpr ((hchange w.screen h).mono fun _ ht => allows_pure.mpr ht)

theorem shown_orUnhandled (h : w.screen.Shown unicode) {change : Screen → Except Fault (Screen × Bool)}
    (hchange : Screen.DrawsFlagged unicode change) (params : List (List Nat)) (intermediate : Option UInt8) (c : Char) :
    Allows (w.orUnhandled params intermediate c change) (·.screen.Shown unicode) :=
  allows_bind.mpr ((hchange w.screen h).mono fun _ ht => allows_pure.mpr ht)

theorem shown_execute (h : w.screen.Shown unicode) (b : UInt8) : Allows (w.execute b) (·.screen.Shown unicode) := by
  have hlf : Screen.Draws unicode Screen.lf := Screen.draws_gridMut Grid.keeps_lineFeed Grid.draws_lineFeed
  unfold execute
  split
  · exact allows_pure.mpr h
  · exact shown_onScreen h (Screen.draws_gridMut (Grid.keeps_colDec 1) (Grid.draws_of_placed fun _ => allows_pure.mpr rfl))
  · exact shown_onScreen h (Screen.draws_gridMut Grid.keeps_colTab Grid.draws_colTab)
  · exact shown_onScreen h hlf
  · exact shown_onScreen h hlf
  · exact shown_onScreen h hlf
  · exact shown_onScreen h (Screen.draws_gridMut (Grid.keeps_colSet 0) (Grid.draws_colSet 0))
  · exact allows_pure.mpr h
  · exact allows_pure.mpr h
  · exact allows_pure.mpr h

theorem shown_escDispatch (h : w.screen.Shown unicode) (intermediates : Bytes) (b : UInt8) :
    Allows (w.escDispatch intermediates b) (·.screen.Shown unicode) := by
  unfold escDispatch
  split
  · exact allows_pure.mpr h
  · split
    · exact shown_onScreen h Screen.draws_saveCursor
    · exact shown_onScreen h Screen.draws_restoreCursor
    · exact shown_onScreen h fun s hs => allows_pure.mpr ⟨hs.sound.setMode (by decide), hs.drawn.withModes _⟩
    · exact shown_onScreen h fun s hs => allows_pure.mpr ⟨hs.sound.clearMode _, hs.drawn.withModes _⟩
    · exact shown_onScreen h (Screen.draws_gridMut (Grid.keeps_rowDecScroll 1) (Grid.draws_rowDecScroll 1))
    · exact shown_onScreen h Screen.draws_ris
    · exact allows_pure.mpr h
    · exact allows_pure.mpr h

theorem shown_csiDispatch (h : w.screen.Shown unicode) (params : List (List Nat)) (intermediates : Bytes) (c : Char) :
    Allows (w.csiDispatch params intermediates c) (·.screen.Shown unicode) := by
  have hon {change : Grid → Except Fault Grid} (hkeeps : Grid.Keeps change) (hchange : Grid.Draws unicode change) :=
    shown_onScreen h (Screen.draws_gridMut hkeeps hchange)
  have hcr : Screen.Draws unicode (·.gridMut (·.colSet 0)) := Screen.draws_gridMut (Grid.keeps_colSet 0) (Grid.draws_colSet 0)
  -- A parameter is brought down to an index first.
  have hless {a : Nat} {op : Nat → Screen → Except Fault Screen} (hop : ∀ n, Screen.Draws unicode (op n)) :
      Screen.Draws unicode fun s => (Checked.sub a 1 >>= fun n => op n s) :=
    fun s hs => allows_bind.mpr (.of_forall fun n => hop n s hs)
  unfold csiDispatch
  split
  · split
    · exact hon (Grid.keeps_insertCells _) (Grid.draws_insertCells _)
    · exact hon (Grid.keeps_rowDecClamp _) (Grid.draws_rowDecClamp _)
    · exact hon (Grid.keeps_rowIncClamp _) (Grid.draws_rowIncClamp _)
    · exact hon (Grid.keeps_colIncClamp _) (Grid.draws_colIncClamp _)
    · exact hon (Grid.keeps_colDec _) (Grid.draws_of_placed fun _ => allows_pure.mpr rfl)
    · exact shown_onScreen h (hcr.bind (Screen.draws_gridMut (Grid.keeps_rowIncClamp _) (Grid.draws_rowIncClamp _)))
    · exact shown_onScreen h (hcr.bind (Screen.draws_gridMut (Grid.keeps_rowDecClamp _) (Grid.draws_rowDecClamp _)))
    · exact shown_onScreen h (hless fun _ => Screen.draws_gridMut (Grid.keeps_colSet _) (Grid.draws_colSet _))
    · exact shown_onScreen h (hless fun _ => hless fun _ =>
        Screen.draws_gridMut (Grid.keeps_setPos _) (Grid.draws_of_placed (Grid.allows_placed_setPos _)))
    · exact shown_orUnhandled h (Screen.draws_ed _) _ _ _
    · exact shown_orUnhandled h (Screen.draws_el _) _ _ _
    · exact hon (Grid.keeps_insertLines _) (Grid.draws_insertLines _)
    · exact hon (Grid.keeps_deleteLines _) (Grid.draws_deleteLines _)
    · exact hon (Grid.keeps_deleteCells _) (Grid.draws_deleteCells _)
    · exact hon (Grid.keeps_scrollUp _) (Grid.draws_scrollUp _)
    · exact hon (Grid.keeps_scrollDown _) (Grid.draws_scrollDown _)
    · exact shown_onScreen h
        (Screen.draws_gridMut_attrs (fun _ => Grid.keeps_eraseCells _) fun _ ha => Grid.draws_eraseCells ha _)
    · exact shown_onScreen h (hless fun _ => Screen.draws_gridMut (Grid.keeps_rowSet _) (Grid.draws_rowSet _))
    · exact shown_orUnhandled h (Screen.draws_sgr params) _ _ _
    · exact shown_onScreen h (hless fun _ => hless fun _ =>
        Screen.draws_gridMut (Grid.keeps_setScrollRegion _ _) (Grid.draws_setScrollRegion _ _))
    · exact allows_ite.mpr ⟨fun _ => allows_pure.mpr h, fun _ => allows_pure.mpr h⟩
    · exact allows_pure.mpr h
  · split
    · exact shown_orUnhandled h (Screen.draws_ed _) _ _ _
    · exact shown_orUnhandled h (Screen.draws_el _) _ _ _
    · exact shown_orUnhandled h (Screen.draws_forParams Screen.draws_decsetParam params) _ _ _
    · exact shown_orUnhandled h (Screen.draws_forParams Screen.draws_decrstParam params) _ _ _
    · exact allows_pure.mpr h
  · exact allows_pure.mpr h

/-- Every event leaves the screen drawn, where a printed character has a width. -/
theorem shown_perform (h : w.screen.Shown unicode) {event : Event}
    (hprint : ∀ c, event = .print c → unicode.terminalWidth c ≠ none) :
    Allows (w.perform unicode event) (·.screen.Shown unicode) := by
  cases event with
  | print c =>
    obtain ⟨width, hwidth⟩ := Option.ne_none_iff_exists'.mp (hprint c rfl)
    refine allows_ite.mpr ⟨fun _ => allows_pure.mpr h, fun _ => allows_bind.mpr ?_⟩
    exact (h.allows_text hwidth).mono fun _ ht => allows_pure.mpr ht
  | execute b => exact shown_execute h b
  | hook => exact allows_pure.mpr h
  | oscDispatch params =>
    refine allows_pure.mpr ?_
    unfold oscDispatch
    split <;> exact h
  | csiDispatch params intermediates c => exact shown_csiDispatch h params intermediates c
  | escDispatch intermediates b => exact shown_escDispatch h intermediates b

theorem shown_process (h : w.screen.Shown unicode) {events : List Event}
    (hprint : ∀ c, Event.print c ∈ events → unicode.terminalWidth c ≠ none) :
    Allows (w.process unicode events) (·.screen.Shown unicode) := by
  induction events generalizing w with
  | nil => exact allows_pure.mpr h
  | cons event events ih =>
    rw [process_cons]
    refine allows_bind.mpr ((shown_perform h fun c hc => hprint c (hc ▸ List.mem_cons_self)).mono fun t ht => ?_)
    exact ih ht fun c hc => hprint c (List.mem_cons_of_mem _ hc)

end WrappedScreen

/-- What the budget accepts prints characters that have a width. -/
theorem ScalarBudget.width_of_after {unicode : UnicodeWidth} {b : ScalarBudget} {events : List Event}
    (h : (b.after unicode events).error = none) {c : Char} (hc : Event.print c ∈ events) :
    unicode.terminalWidth c ≠ none := by
  intro hnone
  obtain ⟨before, rest, rfl⟩ := List.append_of_mem hc
  rw [List.append_cons] at h
  have hprint := error_of_append h
  rw [after_append] at hprint
  change (ScalarBudget.print unicode _ c).error = none at hprint
  simp only [ScalarBudget.print, hnone] at hprint
  cases hprint

/-! ### Terminal states -/

namespace TerminalState

variable {crates : Crates} {s t : TerminalState}

/-- A resize cuts no wide character, and leaves no scroll region of one row among others. -/
def Tidy (s : TerminalState) : TerminalOperation → Prop
  | .resize columns rows =>
    s.CutsNothing (.resize columns rows) ∧ ∀ screen, s.screen.setSize rows columns = .ok screen →
      screen.grid.Scrolls ∧ screen.alternateGrid.Scrolls
  | _ => True

theorem Tidy.cutsNothing {operation : TerminalOperation} (h : s.Tidy operation) : s.CutsNothing operation := by
  cases operation with
  | hostBytes bytes => trivial
  | resize columns rows => exact h.1
  | echoAcknowledgement number => trivial

/-- The states of the runs whose resizes are tidy. -/
inductive Tended (crates : Crates) : TerminalState → Prop
  | new {columns rows : Nat} {s : TerminalState} (h : TerminalState.new columns rows = .ok (.ok s)) : Tended crates s
  | call {s t : TerminalState} (call : TerminalCall) (hs : Tended crates s)
      (htidy : Throughout crates Tidy call.operations s) (h : call.perform crates s = .ok (.ok t)) : Tended crates t

theorem Throughout.mono {P Q : TerminalState → TerminalOperation → Prop} (hPQ : ∀ s operation, P s operation → Q s operation)
    {operations : List TerminalOperation} (h : Throughout crates P operations s) : Throughout crates Q operations s := by
  induction operations generalizing s with
  | nil => trivial
  | cons operation operations ih => exact ⟨hPQ _ _ h.1, fun t ht => ih (h.2 t ht)⟩

theorem Tended.reached (h : Tended crates s) : Reached crates s := by
  induction h with
  | new h => exact .new h
  | call call _ htidy h ih => exact .call call ih (htidy.mono fun _ _ => Tidy.cutsNothing) h

/-- A state with all that the operations of a tended run keep. -/
structure Kept (crates : Crates) (s : TerminalState) : Prop where
  sound : s.Sound
  drawn : s.screen.Drawn crates.unicode

theorem Hosts.drawn {bytes : Bytes} {w : WrappedScreen} (h : Hosts crates s bytes w) (hs : s.Kept crates) :
    w.screen.Drawn crates.unicode := by
  have haccepts := (validateHostBytes_ok_iff.mp h.valid).counted
  refine (WrappedScreen.shown_process (w := ⟨s.screen, ⟨none⟩⟩) ⟨hs.sound.screen, hs.drawn⟩ (fun c hc => ?_) w h.processed).drawn
  exact ScalarBudget.width_of_after (ScalarBudget.error_of_append haccepts) hc

theorem Kept.drawn_applyOperation (hs : s.Kept crates) {operation : TerminalOperation} (htidy : s.Tidy operation) :
    Allows (s.applyOperation crates operation) (Shows (Screen.Drawn crates.unicode)) := by
  cases operation with
  | hostBytes bytes =>
    rintro result hresult t rfl
    obtain ⟨w, hw, rfl⟩ := applyHostBytes_ok_iff.mp hresult
    exact hw.drawn hs
  | resize columns rows =>
    unfold applyOperation checkedSize
    by_cases hvalid : isValidSize columns rows = true
    · simp only [if_pos hvalid]
      refine allows_bind.mpr fun screen hset => allows_pure.mpr (shows_ok ?_)
      obtain ⟨hgrid, halternate⟩ := htidy.2 screen hset
      exact hs.drawn.allows_setSize rows columns screen hset hgrid halternate
    · simp only [if_neg hvalid]
      exact allows_pure.mpr (shows_error _)
  | echoAcknowledgement number =>
    exact allows_ite.mpr ⟨fun _ => allows_pure.mpr (shows_error _), fun _ => allows_pure.mpr (shows_ok hs.drawn)⟩

theorem Kept.applyOperation (hs : s.Kept crates) {operation : TerminalOperation} (htidy : s.Tidy operation)
    (h : s.applyOperation crates operation = .ok (.ok t)) : t.Kept crates := by
  have hfits := printsFit_of_returns_applyOperation (Q := fun _ => True) hs.sound ⟨_, h, trivial⟩
  exact ⟨(returns_applyOperation hs.sound htidy.cutsNothing hfits).allows _ h t rfl, hs.drawn_applyOperation htidy _ h t rfl⟩

theorem Kept.applyOperations (hs : s.Kept crates) {operations : List TerminalOperation}
    (htidy : Throughout crates Tidy operations s) (h : s.applyOperations crates operations = .ok (.ok t)) :
    t.Kept crates := by
  induction operations generalizing s with
  | nil =>
    cases h
    exact hs
  | cons operation operations ih =>
    obtain ⟨next, hnext, hrest⟩ := applyOperations_cons_ok_iff.mp h
    exact ih (hs.applyOperation htidy.1 hnext) (htidy.2 next hnext) hrest

/-- Every state of a tended run is sound and drawn. -/
theorem Tended.kept (h : Tended crates s) : s.Kept crates := by
  induction h with
  | @new columns rows s h =>
    refine ⟨(returns_new columns rows).allows _ h s rfl, ?_⟩
    have hdrawn : Allows (TerminalState.new columns rows) (Shows (Screen.Drawn crates.unicode)) := by
      unfold TerminalState.new checkedSize
      by_cases hvalid : isValidSize columns rows = true
      · rw [if_pos hvalid]
        exact allows_bind.mpr ((Screen.drawn_new _).mono fun screen hscreen => allows_pure.mpr (shows_ok hscreen))
      · rw [if_neg hvalid]
        exact allows_pure.mpr (shows_error _)
    exact hdrawn _ h s rfl
  | @call s t call _ htidy h ih =>
    obtain ⟨result, hresult, rfl⟩ := TerminalCall.returns_perform_iff.mp ⟨Except.ok t, h, rfl⟩
    exact ih.applyOperations htidy hresult

end TerminalState

end MoshClient.Vt100
