import Mathlib.Data.List.Induction
import MoshClient.Theorems.Vt100.Cells

/-! Clusters: a spacing character with the scalars that join it. What `ScalarBudget` counts is what the cell before
    the cursor holds, so that a scalar it admits is appended to the cell of the last spacing character. -/

namespace MoshClient.Vt100
open Checked

/-! ### Cells -/

/-- The bounds of a cell: 8 scalars in 22 bytes. -/
def Cell.Bounded (cell : Cell) : Prop := cell.contents.length ≤ maxUnicodeScalarsPerCell ∧ cell.len ≤ contentBytes

namespace Cell

theorem set_eq (unicode : UnicodeWidth) (cell : Cell) (c : Char) (attrs : Attrs) :
    cell.set unicode c attrs = .ok ⟨[c], decide ((unicode.terminalWidth c).getD 1 > 1), false, attrs⟩ := by
  have hc := c.utf8Size_le_four
  have hroom : (Cell.mk [] false false cell.attrs).len + c.utf8Size ≤ contentBytes := by
    show 0 + c.utf8Size ≤ 22
    omega
  unfold set appendChar
  rw [if_pos hroom]
  rfl

theorem len_append (cell : Cell) (c : Char) : { cell with contents := cell.contents ++ [c] }.len = cell.len + c.utf8Size := by
  simp [len]

/-- A scalar is appended to contents that leave room for it. -/
theorem append_eq {cell : Cell} {c : Char} (hcontents : cell.contents ≠ [])
    (hroom : cell.len < maxBytesBeforeCombiningAppend) : cell.append c = .ok { cell with contents := cell.contents ++ [c] } := by
  have hc := c.utf8Size_le_four
  have hlen : cell.len < 18 := hroom
  have hpos : cell.len ≠ 0 := by
    obtain ⟨first, rest, hcons⟩ := List.exists_cons_of_ne_nil hcontents
    have := first.utf8Size_pos
    simp only [len, hcons, List.map_cons, List.sum_cons]
    omega
  unfold append appendChar
  rw [if_neg (show ¬cell.len ≥ contentBytes - 4 from Nat.not_le.mpr hlen), if_neg hpos, if_pos]
  show cell.len + c.utf8Size ≤ 22
  omega

theorem bounded_of_nil {cell : Cell} (h : cell.contents = []) : cell.Bounded := by
  unfold Bounded len
  rw [h]
  decide

theorem kind_bounded : Kind Bounded fun _ => True where
  new := bounded_of_nil rfl
  clear := fun _ _ _ => bounded_of_nil rfl
  clearOwn := fun _ _ => bounded_of_nil rfl
  continuation := fun _ _ h => h
  set := by
    intro unicode cell c attrs _
    have hc := c.utf8Size_le_four
    rw [set_eq]
    refine allows_ok.mpr ⟨show 1 ≤ 8 by decide, ?_⟩
    show c.utf8Size + 0 ≤ 22
    omega
  rendition := ⟨trivial, fun _ _ => trivial, fun _ _ => ⟨trivial, trivial, trivial⟩, fun _ _ _ _ _ => trivial⟩

end Cell

/-! ### One cell of a grid -/

theorem Pos.ne_of_col {pos other : Pos} (h : pos.col ≠ other.col) : pos ≠ other := fun hsame => h (congrArg Pos.col hsame)

namespace Grid

variable {g t : Grid} {home pos : Pos} {cell next : Cell}

def cellAt (g : Grid) (pos : Pos) : Option Cell := g.rows[pos.row]?.bind (·.cells[pos.col]?)

def withCell (g : Grid) (pos : Pos) (cell : Cell) : Grid :=
  { g with rows := g.rows.modify pos.row fun row => { row with cells := row.cells.set pos.col cell } }

theorem drawingCell_eq (h : g.cellAt pos = some cell) : g.drawingCell pos = .ok cell := by
  obtain ⟨row, hrow, hcell⟩ := Option.bind_eq_some_iff.mp h
  unfold drawingCell drawingRow
  rw [hrow]
  show unwrap row.cells[pos.col]? = _
  rw [hcell]
  rfl

theorem withCell_eq {row : Row} (hrow : g.rows[pos.row]? = some row) (cell : Cell) :
    g.withCell pos cell = { g with rows := g.rows.set pos.row { row with cells := row.cells.set pos.col cell } } := by
  unfold withCell
  rw [List.modify_eq_set_getElem?, hrow]
  rfl

theorem drawingCellMut_eq {change : Cell → Except Fault Cell} (h : g.cellAt pos = some cell)
    (hchange : change cell = .ok next) : g.drawingCellMut pos change = .ok (g.withCell pos next) := by
  obtain ⟨row, hrow, hcell⟩ := Option.bind_eq_some_iff.mp h
  rw [withCell_eq hrow]
  simp [drawingCellMut, drawingRowMut, drawingRow, hrow, hcell, hchange, unwrap, bind, Except.bind, pure, Except.pure]

/-- A change of one cell is a change of nothing else. -/
theorem allows_drawingCellMut {change : Cell → Except Fault Cell} {Q : Grid → Prop}
    (h : ∀ cell next, g.cellAt pos = some cell → change cell = .ok next → Q (g.withCell pos next)) :
    Allows (g.drawingCellMut pos change) Q := by
  refine allows_bind.mpr (allows_unwrap.mpr fun row hrow => ?_)
  refine allows_bind.mpr (allows_bind.mpr (allows_unwrap.mpr fun cell hcell => allows_bind.mpr fun next hnext => ?_))
  refine allows_pure.mpr (allows_pure.mpr ?_)
  have := h cell next (Option.bind_eq_some_iff.mpr ⟨row, hrow, hcell⟩) hnext
  rwa [withCell_eq hrow] at this

theorem getElem?_withCell (g : Grid) (pos : Pos) (cell : Cell) (r : Nat) :
    (g.withCell pos cell).rows[r]? =
      g.rows[r]?.map fun row => if pos.row = r then { row with cells := row.cells.set pos.col cell } else row := by
  unfold withCell
  rw [List.getElem?_modify]
  split <;> simp_all

theorem cellAt_withCell (h : g.cellAt pos = some cell) (next : Cell) : (g.withCell pos next).cellAt pos = some next := by
  obtain ⟨row, hrow, hcell⟩ := Option.bind_eq_some_iff.mp h
  have hlt := (List.getElem?_eq_some_iff.mp hcell).1
  simp [cellAt, getElem?_withCell, hrow, hlt]

theorem cellAt_withCell_of_ne {other : Pos} (hne : other ≠ pos) : (g.withCell pos next).cellAt other = g.cellAt other := by
  unfold cellAt
  rw [getElem?_withCell]
  cases g.rows[other.row]? with
  | none => rfl
  | some row =>
    by_cases hrow : pos.row = other.row
    · have hcol : pos.col ≠ other.col := fun hcol => hne (by cases pos; cases other; simp_all)
      simp [hrow, List.getElem?_set_ne hcol]
    · simp [hrow]

theorem withCell_withCell (g : Grid) (pos : Pos) (cell next : Cell) :
    (g.withCell pos cell).withCell pos next = g.withCell pos next := by
  have hrows : ((g.withCell pos cell).withCell pos next).rows = (g.withCell pos next).rows := by
    refine List.ext_getElem? fun r => ?_
    simp only [getElem?_withCell, Option.map_map]
    congr 1
    funext row
    simp only [Function.comp_apply]
    split <;> simp_all
  unfold withCell at hrows ⊢
  exact congrArg (fun rows => { g with rows }) hrows

theorem withCell_self (h : g.cellAt pos = some cell) : g.withCell pos cell = g := by
  obtain ⟨row, hrow, hcell⟩ := Option.bind_eq_some_iff.mp h
  rw [withCell_eq hrow]
  obtain ⟨hlt, rfl⟩ := List.getElem?_eq_some_iff.mp hcell
  obtain ⟨hlt', rfl⟩ := List.getElem?_eq_some_iff.mp hrow
  rw [List.set_getElem_self hlt, List.set_getElem_self hlt']

theorem MadeOf.withCell {S : Size → Prop} {P : Cell → Prop} (h : g.MadeOf S P) (hcell : P cell) :
    (g.withCell pos cell).MadeOf S P := by
  refine h.redrawn fun row hrow => ?_
  obtain ⟨r, hr⟩ := List.mem_iff_getElem?.mp hrow
  rw [List.getElem?_modify] at hr
  obtain ⟨old, hold, rfl⟩ := Option.map_eq_some_iff.mp hr
  have hmade := h.rows old (List.mem_of_getElem? hold)
  split
  · exact forall_mem_set hmade hcell
  · exact hmade

theorem MadeOf.cellAt {S : Size → Prop} {P : Cell → Prop} (h : g.MadeOf S P) (hcell : g.cellAt pos = some cell) : P cell := by
  obtain ⟨row, hrow, hcell⟩ := Option.bind_eq_some_iff.mp hcell
  exact h.rows row (List.mem_of_getElem? hrow) cell (List.mem_of_getElem? hcell)

/-! ### The cell before the cursor -/

/-- The cell at `home` holds the character before the cursor: it is the last cell before it, or the last but one when
    the last is its second half. -/
structure Cluster (g : Grid) (home : Pos) (cell : Cell) : Prop where
  row : home.row = g.pos.row
  holds : g.cellAt home = some cell
  contents : cell.contents ≠ []
  col_le : g.pos.col ≤ g.size.cols
  cursor : g.pos.col = home.col + 1 ∧ cell.isWideContinuation = false ∨
    g.pos.col = home.col + 2 ∧ ∃ half, g.cellAt ⟨home.row, home.col + 1⟩ = some half ∧ half.isWideContinuation = true

theorem Cluster.withCell (h : g.Cluster home cell) (hcontents : next.contents ≠ [])
    (hhalf : next.isWideContinuation = cell.isWideContinuation) : (g.withCell home next).Cluster home next where
  row := h.row
  holds := cellAt_withCell h.holds next
  contents := hcontents
  col_le := h.col_le
  cursor := by
    refine h.cursor.imp (fun hone => ⟨hone.1, hhalf.trans hone.2⟩) ?_
    rintro ⟨hcol, half, hcell, hwide⟩
    refine ⟨hcol, half, ?_, hwide⟩
    rw [cellAt_withCell_of_ne]
    · exact hcell
    · exact Pos.ne_of_col (Nat.succ_ne_self _)

/-- A scalar joins the character before the cursor. -/
theorem Cluster.combine_eq (h : g.Cluster home cell) {c : Char} (happend : cell.append c = .ok next) :
    g.combine c = .ok (g.withCell home next) := by
  obtain ⟨r, col⟩ := home
  have hrow : r = g.pos.row := h.row
  subst hrow
  have hjoin : g.drawingCellMut ⟨g.pos.row, col⟩ (·.append c) = .ok (g.withCell ⟨g.pos.row, col⟩ next) :=
    drawingCellMut_eq h.holds happend
  unfold combine
  rcases h.cursor with ⟨hcol, hwide⟩ | ⟨hcol, half, hhalf, hwide⟩
  · have hsub : Checked.sub g.pos.col 1 = .ok col := by simp [Checked.sub, hcol]
    have hpos : g.pos.col > 0 := by omega
    simp only [hpos, if_true, hsub, drawingCell_eq h.holds, hwide, hjoin, bind, Except.bind, pure, Except.pure,
      Bool.false_eq_true, if_false]
  · have hsub : Checked.sub g.pos.col 1 = .ok (col + 1) := by simp [Checked.sub, hcol]
    have hsub' : Checked.sub g.pos.col 2 = .ok col := by simp [Checked.sub, hcol]
    have hpos : g.pos.col > 0 := by omega
    have hcell : g.drawingCell ⟨g.pos.row, col + 1⟩ = .ok half := drawingCell_eq hhalf
    simp only [hpos, if_true, hsub, hsub', hcell, hwide, hjoin, bind, Except.bind, pure, Except.pure]

theorem Cluster.text_eq (h : g.Cluster home cell) {unicode : UnicodeWidth} {c : Char} {attrs : Attrs}
    (hwidth : unicode.terminalWidth c = some 0) (happend : cell.append c = .ok next) :
    g.text unicode attrs c = .ok (g.withCell home next) := by
  have hroom : ¬g.size.cols < g.pos.col := Nat.not_lt.mpr h.col_le
  have hends : g.endsInText 0 = .ok false := by
    simp [endsInText, Checked.sub, hroom, bind, Except.bind, pure, Except.pure]
  have hwrap : g.colWrap 0 false = .ok g := by
    simp [colWrap, Checked.sub, hroom, bind, Except.bind, pure, Except.pure]
  rw [text_of_width hwidth, hends]
  show (g.colWrap 0 false >>= fun t => if 0 = 0 then t.combine c else _) = _
  rw [hwrap]
  exact h.combine_eq happend

/-! ### Drawing a character -/

/-- The rows may have changed. The cursor has not moved. -/
structure Steady (g t : Grid) : Prop where
  size : t.size = g.size
  pos : t.pos = g.pos

theorem Steady.refl (g : Grid) : Steady g g := ⟨rfl, rfl⟩

theorem Steady.trans {u : Grid} (h : Steady g t) (hu : Steady t u) : Steady g u := ⟨hu.size.trans h.size, hu.pos.trans h.pos⟩

theorem allows_wrapRow (g : Grid) (r : Nat) (wrap : Bool) :
    Allows (g.drawingRowMut r fun row => pure (row.wrap wrap)) fun t =>
      Steady g t ∧ ∀ pos, t.cellAt pos = g.cellAt pos := by
  refine allows_bind.mpr (allows_unwrap.mpr fun row hrow => allows_bind.mpr (allows_pure.mpr (allows_pure.mpr ?_)))
  refine ⟨⟨rfl, rfl⟩, fun pos => ?_⟩
  unfold cellAt
  rw [List.getElem?_set]
  split
  · rename_i hr
    subst hr
    split
    · rw [hrow]
      rfl
    · rename_i hlt
      rw [List.getElem?_eq_none (Nat.le_of_not_lt hlt)]
  · rfl

theorem allows_clearFirstHalf (g : Grid) (attrs : Attrs) : Allows (g.clearFirstHalf attrs) (Steady g) := by
  refine allows_bind.mpr (.of_forall fun cell => allows_ite.mpr ⟨fun _ => ?_, fun _ => allows_pure.mpr (.refl g)⟩)
  exact allows_bind.mpr (.of_forall fun col => allows_drawingCellMut fun _ _ _ _ => ⟨rfl, rfl⟩)

theorem allows_clearSecondHalf (unicode : UnicodeWidth) (g : Grid) (attrs : Attrs) :
    Allows (g.clearSecondHalf unicode attrs) (Steady g) := by
  refine allows_bind.mpr (.of_forall fun cell => allows_ite.mpr ⟨fun _ => ?_, fun _ => allows_pure.mpr (.refl g)⟩)
  exact allows_drawingCellMut fun _ _ _ _ => ⟨rfl, rfl⟩

/-- Behind the cursor, at most the next cell is cleared. -/
theorem allows_clearNextHalf (g : Grid) (attrs : Attrs) :
    Allows (g.clearNextHalf attrs) fun t =>
      Steady g t ∧ ∀ pos, pos ≠ ⟨g.pos.row, g.pos.col + 1⟩ → t.cellAt pos = g.cellAt pos := by
  refine allows_bind.mpr (.of_forall fun cell => allows_ite.mpr ⟨fun _ => ?_, fun _ => ?_⟩)
  · refine allows_bind.mpr (allows_drawingCellMut fun _ next _ _ => allows_bind.mpr (.of_forall fun last => ?_))
    have hcells (pos : Pos) (hne : pos ≠ ⟨g.pos.row, g.pos.col + 1⟩) :
        (g.withCell ⟨g.pos.row, g.pos.col + 1⟩ next).cellAt pos = g.cellAt pos := cellAt_withCell_of_ne hne
    refine allows_ite.mpr ⟨fun _ => ?_, fun _ => allows_pure.mpr ⟨⟨rfl, rfl⟩, hcells⟩⟩
    refine (allows_wrapRow _ _ _).mono fun t ht => ⟨⟨ht.1.size, ht.1.pos⟩, fun pos hne => ?_⟩
    exact (ht.2 pos).trans (hcells pos hne)
  · exact allows_pure.mpr ⟨.refl g, fun _ _ => rfl⟩

theorem pos_colInc {n : Nat} (h : g.pos.col + n ≤ u16Max) : (g.colInc n).pos = ⟨g.pos.row, g.pos.col + n⟩ := by
  show Pos.mk g.pos.row (saturatingAdd g.pos.col n) = _
  unfold saturatingAdd
  rw [Nat.min_eq_left h]

/-- The second half is drawn at the cursor, and what is before it stays. -/
theorem allows_continueWide {attrs : Attrs} (hcol : g.pos.col + 1 ≤ u16Max) :
    Allows (g.continueWide attrs) fun t =>
      t.size = g.size ∧ t.pos = ⟨g.pos.row, g.pos.col + 1⟩ ∧
        (∃ half, t.cellAt g.pos = some half ∧ half.isWideContinuation = true) ∧
        ∀ col < g.pos.col, t.cellAt ⟨g.pos.row, col⟩ = g.cellAt ⟨g.pos.row, col⟩ := by
  refine allows_bind.mpr ((allows_clearNextHalf g attrs).mono ?_)
  rintro t ⟨⟨hsize, hpos⟩, hcells⟩
  refine allows_bind.mpr (allows_drawingCellMut fun cell next hcell hnext => allows_pure.mpr ?_)
  cases hnext
  rw [hpos] at hcell
  refine ⟨hsize, ?_, ⟨(cell.clear .default).setWideContinuation true, ?_, rfl⟩, fun col hlt => ?_⟩
  · rw [pos_colInc (by rw [show (t.withCell t.pos _).pos = t.pos from rfl, hpos]; exact hcol)]
    rw [show (t.withCell t.pos _).pos = t.pos from rfl, hpos]
  · show (t.withCell t.pos _).cellAt g.pos = _
    rw [hpos]
    exact cellAt_withCell hcell _
  · show (t.withCell t.pos _).cellAt _ = _
    rw [hpos, cellAt_withCell_of_ne, hcells]
    · exact Pos.ne_of_col (Nat.ne_of_lt (Nat.lt_succ_of_lt hlt))
    · exact Pos.ne_of_col (Nat.ne_of_lt hlt)

/-- The character stands before the cursor, alone in its cell. -/
theorem allows_draw {unicode : UnicodeWidth} {width : Nat} {attrs : Attrs} {c : Char} (hpos : 1 ≤ width) (htwo : width ≤ 2)
    (hcol : g.pos.col + width ≤ g.size.cols) (hcols : g.size.cols ≤ u16Max) :
    Allows (g.draw unicode width attrs c) fun t => t.size = g.size ∧ t.pos = ⟨g.pos.row, g.pos.col + width⟩ ∧
      t.Cluster g.pos ⟨[c], decide ((unicode.terminalWidth c).getD 1 > 1), false, attrs⟩ := by
  refine allows_bind.mpr ((allows_clearFirstHalf g attrs).mono fun first hfirst => allows_bind.mpr ?_)
  refine (allows_clearSecondHalf unicode first attrs).mono fun second hsecond => allows_bind.mpr ?_
  have hsteady : Steady g second := hfirst.trans hsecond
  refine allows_drawingCellMut fun old next hold hnext => ?_
  rw [Cell.set_eq] at hnext
  cases hnext
  generalize hcell : Cell.mk [c] (decide ((unicode.terminalWidth c).getD 1 > 1)) false attrs = cell
  have hcontents : cell.contents ≠ [] := by
    rw [← hcell]
    exact List.cons_ne_nil _ _
  have hplaced : (second.withCell second.pos cell).cellAt g.pos = some cell := by
    rw [hsteady.pos] at hold ⊢
    exact cellAt_withCell hold cell
  have hinc : ((second.withCell second.pos cell).colInc 1).pos = ⟨g.pos.row, g.pos.col + 1⟩ := by
    have hsame : (second.withCell second.pos cell).pos = g.pos := hsteady.pos
    rw [pos_colInc (by rw [hsame]; omega), hsame]
  refine allows_ite.mpr ⟨fun hwide => ?_, fun hnarrow => allows_pure.mpr ?_⟩
  · refine (allows_continueWide (by rw [hinc]; show g.pos.col + 1 + 1 ≤ u16Max; omega)).mono ?_
    rw [hinc]
    rintro t ⟨hsize, hpos, ⟨half, hhalf, hcont⟩, hcells⟩
    have hhome : t.cellAt g.pos = some cell := (hcells g.pos.col (Nat.lt_succ_self _)).trans hplaced
    have htwo : width = 2 := by omega
    refine ⟨hsize.trans hsteady.size, by rw [hpos, htwo], ?_⟩
    refine ⟨by rw [hpos], hhome, hcontents, ?_, Or.inr ⟨by rw [hpos], half, hhalf, hcont⟩⟩
    rw [hpos, hsize, show ((second.withCell second.pos cell).colInc 1).size = g.size from hsteady.size]
    show g.pos.col + 1 + 1 ≤ g.size.cols
    omega
  · have hone : width = 1 := by omega
    refine ⟨hsteady.size, by rw [hinc, hone], ?_⟩
    refine ⟨by rw [hinc], hplaced, hcontents, ?_, Or.inl ⟨by rw [hinc], ?_⟩⟩
    · rw [hinc, show ((second.withCell second.pos cell).colInc 1).size = g.size from hsteady.size]
      show g.pos.col + 1 ≤ g.size.cols
      omega
    · rw [← hcell]

/-- A scroll leaves the cursor where it is. -/
theorem allows_scrollUp (g : Grid) (count : Nat) : Allows (g.scrollUp count) (Steady g) := by
  refine allows_bind.mpr (.of_forall fun rest => Allows.iterate (.refl g) (fun t ht => ?_) _)
  exact allows_bind.mpr (.of_forall fun _ => allows_bind.mpr (.of_forall fun _ => allows_pure.mpr ⟨ht.size, ht.pos⟩))

theorem allows_rowIncScroll (g : Grid) (count : Nat) :
    Allows (g.rowIncScroll count) fun scrolled => scrolled.2.size = g.size ∧ scrolled.2.pos.col = g.pos.col := by
  refine allows_bind.mpr ((allows_rowClampBottom _ _).mono ?_)
  rintro ⟨lines, t⟩ ⟨row, rfl⟩
  refine allows_ite.mpr ⟨fun _ => ?_, fun _ => allows_pure.mpr ⟨rfl, rfl⟩⟩
  refine allows_bind.mpr ((allows_scrollUp _ lines).mono fun u hu => allows_pure.mpr ⟨hu.size, ?_⟩)
  show u.pos.col = _
  rw [hu.pos]

theorem allows_colWrap (g : Grid) (width : Nat) (wrap : Bool) :
    Allows (g.colWrap width wrap) fun t => t.size = g.size ∧ t.pos.col + width ≤ g.size.cols := by
  refine allows_bind.mpr (allows_sub.mpr fun hwidth => allows_ite.mpr ⟨fun _ => ?_, fun hcol => allows_pure.mpr ?_⟩)
  · refine allows_bind.mpr ((allows_rowIncScroll { g with pos.col := 0 } 1).mono ?_)
    rintro ⟨scrolled, t⟩ ⟨hsize, hcol⟩
    refine allows_bind.mpr (.of_forall fun prevRow => (allows_wrapRow _ _ _).mono ?_)
    rintro u ⟨⟨husize, hupos⟩, -⟩
    refine ⟨husize.trans hsize, ?_⟩
    rw [hupos, hcol]
    show 0 + width ≤ _
    omega
  · exact ⟨rfl, by omega⟩

/-- A spacing character is drawn in the cell before the cursor, in this row or in the next one. -/
theorem allows_text {unicode : UnicodeWidth} {attrs : Attrs} {c : Char} {width : Nat}
    (hwidth : unicode.terminalWidth c = some width) (hpos : 1 ≤ width) (hcols : g.size.cols ≤ u16Max) :
    Allows (g.text unicode attrs c) fun t => t.size = g.size ∧
      ∃ home, t.pos = ⟨home.row, home.col + width⟩ ∧ t.Cluster home ⟨[c], decide (width > 1), false, attrs⟩ := by
  have htwo := unicode.terminalWidth_le c hwidth
  rw [text_of_width hwidth]
  refine allows_bind.mpr (.of_forall fun wrap => allows_bind.mpr ((allows_colWrap g width wrap).mono ?_))
  rintro t ⟨hsize, hcol⟩
  rw [if_neg (Nat.one_le_iff_ne_zero.mp hpos)]
  rw [← hsize] at hcol hcols
  refine (allows_draw hpos htwo hcol hcols).mono ?_
  rintro u ⟨husize, hupos, hcluster⟩
  rw [hwidth] at hcluster
  exact ⟨husize.trans hsize, t.pos, hupos, hcluster⟩

end Grid

/-! ### Screens -/

namespace Screen

variable {s : Screen} {home : Pos} {cell next : Cell}

/-- The screen with another grid shown. -/
def withActive (s : Screen) (g : Grid) : Screen :=
  if s.modes.mode .alternateScreen then { s with alternateGrid := g } else { s with grid := g }

def withCell (s : Screen) (pos : Pos) (cell : Cell) : Screen := s.withActive (s.activeGrid.withCell pos cell)

theorem gridMut_eq {change : Grid → Except Fault Grid} {g : Grid} (h : change s.activeGrid = .ok g) :
    s.gridMut change = .ok (s.withActive g) := by
  unfold gridMut
  rw [h]
  rfl

theorem allows_gridMut {change : Grid → Except Fault Grid} {Q : Screen → Prop}
    (h : Allows (change s.activeGrid) fun g => Q (s.withActive g)) : Allows (s.gridMut change) Q :=
  allows_bind.mpr (h.mono fun _ hg => allows_pure.mpr hg)

@[simp] theorem activeGrid_withActive (s : Screen) (g : Grid) : (s.withActive g).activeGrid = g := by
  unfold withActive activeGrid
  split <;> simp_all

@[simp] theorem activeGrid_attrs (s : Screen) (attrs : Attrs) : { s with attrs }.activeGrid = s.activeGrid := rfl

theorem withActive_withActive (s : Screen) (g t : Grid) : (s.withActive g).withActive t = s.withActive t := by
  unfold withActive
  split <;> simp_all

theorem withActive_attrs (s : Screen) (attrs : Attrs) (g : Grid) :
    { s with attrs }.withActive g = { s.withActive g with attrs } := by
  unfold withActive
  split <;> rfl

theorem withCell_attrs (s : Screen) (attrs : Attrs) (pos : Pos) (cell : Cell) :
    { s with attrs }.withCell pos cell = { s.withCell pos cell with attrs } := by
  unfold withCell
  rw [activeGrid_attrs, withActive_attrs]

theorem withCell_withCell (s : Screen) (pos : Pos) (cell next : Cell) :
    (s.withCell pos cell).withCell pos next = s.withCell pos next := by
  unfold withCell
  rw [activeGrid_withActive, Grid.withCell_withCell, withActive_withActive]

theorem withCell_self (h : s.activeGrid.cellAt home = some cell) : s.withCell home cell = s := by
  unfold withCell withActive
  rw [Grid.withCell_self h]
  unfold activeGrid
  split <;> rfl

end Screen

theorem Screen.MadeOf.withCell {S : Size → Prop} {P : Cell → Prop} {Q : Attrs → Prop} {s : Screen} (h : s.MadeOf S P Q)
    {cell : Cell} (hcell : P cell) (home : Pos) : (s.withCell home cell).MadeOf S P Q := by
  unfold Screen.withCell Screen.withActive
  split
  · exact { h with alternate := h.active.withCell hcell }
  · exact { h with grid := h.active.withCell hcell }

/-- The cells of the screen are within their bounds. -/
def Screen.Bounded (s : Screen) : Prop := s.MadeOf (fun size => size.cols ≤ u16Max) Cell.Bounded fun _ => True

/-! ### What the budget counts -/

/-- What `unicode-width` says of Latin text: a column for a printable character, and none for a `C1` control. -/
structure UnicodeWidth.Latin (unicode : UnicodeWidth) : Prop where
  printable : ∀ c : Char, 0x20 ≤ c.toNat → c.toNat < 0x7f → unicode.width c = some 1
  controls : ∀ c : Char, 0x80 ≤ c.toNat → c.toNat < 0xa0 → unicode.width c = none

variable {unicode : UnicodeWidth}

/-- The overrides begin behind Latin text. -/
theorem UnicodeWidth.terminalWidth_latin (unicode : UnicodeWidth) {c : Char} (hc : c.toNat < 0xa0) :
    unicode.terminalWidth c = unicode.width c := by
  have hout {ranges : List (Nat × Nat)} (h : ∀ range ∈ ranges, 0xa0 ≤ range.1) : inRanges c.toNat ranges = false := by
    refine List.any_eq_false.mpr fun range hrange => ?_
    have := h range hrange
    simp
    omega
  unfold terminalWidth
  rw [if_neg (by omega), hout (by decide), hout (by decide)]
  rfl

/-- A character with a width is no control. -/
theorem UnicodeWidth.Latin.not_control (h : unicode.Latin) {c : Char} {width : Nat}
    (hwidth : unicode.terminalWidth c = some width) : ¬(0x80 ≤ c.toNat ∧ c.toNat < 0xa0) := by
  intro hc
  rw [unicode.terminalWidth_latin hc.2, h.controls c hc.1 hc.2] at hwidth
  cases hwidth

/-- The character takes columns of its own. -/
def UnicodeWidth.Spacing (unicode : UnicodeWidth) (c : Char) : Prop :=
  ∃ width, unicode.terminalWidth c = some width ∧ 1 ≤ width

/-- The events that leave a cluster open: scalars that join it, and changes of the attributes. -/
def Event.Joins (unicode : UnicodeWidth) : Event → Prop
  | .print c => unicode.terminalWidth c = some 0
  | .csiDispatch _ _ c => c = 'm'
  | _ => False

def Event.printed : Event → Option Char
  | .print c => some c
  | _ => none

namespace ScalarBudget

variable {b : ScalarBudget} {event : Event} {events : List Event} {cell : Cell}

/-- The budget after some events. -/
def after (unicode : UnicodeWidth) (b : ScalarBudget) (events : List Event) : ScalarBudget :=
  events.foldl (perform unicode) b

/-- The budget counts the contents of a cell. -/
structure Counts (b : ScalarBudget) (cell : Cell) : Prop where
  scalars : b.scalars = cell.contents.length
  utf8Bytes : b.utf8Bytes = cell.len

theorem error_of_perform (h : (b.perform unicode event).error = none) : b.error = none := by
  cases event with
  | print c =>
    simp only [perform, print] at h
    split at h
    · cases h
    · split_ifs at h
      exact h
    · exact h
  | csiDispatch params intermediates c =>
    simp only [perform] at h
    split_ifs at h <;> exact h
  | _ => exact h

theorem error_of_after (h : (b.after unicode events).error = none) : b.error = none := by
  induction events generalizing b with
  | nil => exact h
  | cons event events ih => exact error_of_perform (ih h)

theorem after_append (b : ScalarBudget) (events more : List Event) :
    b.after unicode (events ++ more) = (b.after unicode events).after unicode more := List.foldl_append

/-- What a budget accepts, it accepts from the start. -/
theorem error_of_append {more : List Event} (h : (b.after unicode (events ++ more)).error = none) :
    (b.after unicode events).error = none := by
  rw [after_append] at h
  exact error_of_after h

/-- What a scalar finds that the budget admits. -/
structure Admits (b t : ScalarBudget) (c : Char) : Prop where
  opened : 0 < b.scalars
  scalars_ne : b.scalars ≠ maxUnicodeScalarsPerCell
  utf8Bytes_lt : b.utf8Bytes < maxBytesBeforeCombiningAppend
  scalars : t.scalars = b.scalars + 1
  utf8Bytes : t.utf8Bytes = b.utf8Bytes + c.utf8Size

theorem admits_print {c : Char} (hwidth : unicode.terminalWidth c = some 0) (h : (b.print unicode c).error = none) :
    Admits b (b.print unicode c) c := by
  simp only [print, hwidth] at h ⊢
  split_ifs at h ⊢
  exact ⟨by omega, ‹_›, by omega, rfl, rfl⟩

theorem print_spacing {c : Char} {width : Nat} (hwidth : unicode.terminalWidth c = some width) (hpos : 1 ≤ width) :
    b.print unicode c =
      { b with prints := b.prints + 1, lastPrinted := some c, scalars := 1, utf8Bytes := c.utf8Size } := by
  simp only [print, hwidth]
  split
  · cases ‹some width = none›
  · cases ‹some width = some 0›
    omega
  · rfl

theorem print_joins {c : Char} (hwidth : unicode.terminalWidth c = some 0) (hopen : 0 < b.scalars)
    (hscalars : b.scalars ≠ maxUnicodeScalarsPerCell) (hbytes : b.utf8Bytes < maxBytesBeforeCombiningAppend) :
    b.print unicode c = { b with
      prints := b.prints + 1, lastPrinted := some c, scalars := b.scalars + 1, utf8Bytes := b.utf8Bytes + c.utf8Size } := by
  simp only [print, hwidth]
  rw [if_neg (Nat.pos_iff_ne_zero.mp hopen), if_neg hscalars, if_neg (Nat.not_le.mpr hbytes)]

/-- A cluster is open when a spacing character was printed, and all that followed left it open. -/
theorem exists_spacing (h : (after unicode .default events).error = none)
    (hopen : 0 < (after unicode .default events).scalars) :
    ∃ first c marks, events = first ++ .print c :: marks ∧ unicode.Spacing c ∧ ∀ event ∈ marks, event.Joins unicode := by
  induction events using List.reverseRecOn with
  | nil => exact absurd hopen (Nat.lt_irrefl 0)
  | append_singleton events event ih =>
    rw [after_append] at h hopen
    change (perform unicode (after unicode .default events) event).error = none at h
    change 0 < (perform unicode (after unicode .default events) event).scalars at hopen
    -- The event joins the cluster that the events before it have left open.
    have hjoin (hevent : event.Joins unicode) (hopen : 0 < (after unicode .default events).scalars) :
        ∃ first c marks, events ++ [event] = first ++ .print c :: marks ∧ unicode.Spacing c ∧
          ∀ event ∈ marks, event.Joins unicode := by
      obtain ⟨first, c, marks, rfl, hc, hmarks⟩ := ih (error_of_perform h) hopen
      refine ⟨first, c, marks ++ [event], by simp, hc, fun other hother => ?_⟩
      rcases List.mem_append.mp hother with hother | hother
      · exact hmarks other hother
      · rw [List.mem_singleton.mp hother]
        exact hevent
    cases event with
    | print c =>
      cases hwidth : unicode.terminalWidth c with
      | none => simp [perform, print, hwidth] at h
      | some width =>
        by_cases hzero : width = 0
        · subst hzero
          exact hjoin hwidth (admits_print hwidth h).opened
        · have hpos := Nat.one_le_iff_ne_zero.mpr hzero
          exact ⟨events, c, [], rfl, ⟨width, hwidth, hpos⟩, fun _ hmem => absurd hmem List.not_mem_nil⟩
    | csiDispatch params intermediates c =>
      by_cases hm : c = 'm'
      · refine hjoin hm ?_
        simpa [perform, hm] using hopen
      · simp [perform, hm, resetCluster] at hopen
    | _ => simp [perform, resetCluster] at hopen

end ScalarBudget

/-! ### Budget and screen in step -/

namespace WrappedScreen

variable {w : WrappedScreen} {b : ScalarBudget} {home : Pos} {cell : Cell}

/-- A change of the attributes, handled or not. -/
theorem csiDispatch_m (w : WrappedScreen) (params : List (List Nat)) (intermediates : Bytes) :
    ∃ attrs callbacks, w.csiDispatch params intermediates 'm' = .ok ⟨{ w.screen with attrs }, callbacks⟩ := by
  have hsame (callbacks : TerminalCallbacks) : ∃ attrs callbacks',
      (Except.ok { w with callbacks } : Except Fault WrappedScreen) = .ok ⟨{ w.screen with attrs }, callbacks'⟩ :=
    ⟨w.screen.attrs, callbacks, rfl⟩
  unfold csiDispatch
  split
  · have hsgr : (w.screen.sgr params).1 = { w.screen with attrs := (w.screen.sgr params).1.attrs } := by
      unfold Screen.sgr
      split <;> rfl
    refine ⟨(w.screen.sgr params).1.attrs, ?_, ?_⟩
    · exact if (w.screen.sgr params).2 then w.callbacks.unhandledCsi none params 'm' else w.callbacks
    · rw [← hsgr]
      rfl
  · exact hsame _
  · exact hsame _

theorem process_cons (w : WrappedScreen) (event : Event) (events : List Event) :
    w.process unicode (event :: events) = w.perform unicode event >>= fun t => t.process unicode events := List.foldlM_cons

theorem process_append (w : WrappedScreen) (events more : List Event) :
    w.process unicode (events ++ more) = w.process unicode events >>= fun t => t.process unicode more := List.foldlM_append

/-- The cell of a cluster after a mark. -/
def joined (cell : Cell) (event : Event) : Cell := { cell with contents := cell.contents ++ event.printed.toList }

/-- A mark that the budget admits is stored in the cell of the cluster. -/
theorem perform_joins (hlatin : unicode.Latin) (hcluster : w.screen.activeGrid.Cluster home cell) (hcounts : b.Counts cell)
    {event : Event} (hevent : event.Joins unicode) (herror : (b.perform unicode event).error = none) :
    ∃ attrs callbacks, w.perform unicode event = .ok ⟨{ w.screen.withCell home (joined cell event) with attrs }, callbacks⟩ ∧
      (w.screen.withCell home (joined cell event)).activeGrid.Cluster home (joined cell event) ∧
      (b.perform unicode event).Counts (joined cell event) := by
  cases event with
  | print c =>
    have hwidth : unicode.terminalWidth c = some 0 := hevent
    have hadmits := ScalarBudget.admits_print hwidth herror
    have happend : cell.append c = .ok (joined cell (.print c)) :=
      Cell.append_eq hcluster.contents (hcounts.utf8Bytes ▸ hadmits.utf8Bytes_lt)
    have htext : w.screen.text unicode c = .ok (w.screen.withCell home (joined cell (.print c))) :=
      Screen.gridMut_eq (hcluster.text_eq hwidth happend)
    refine ⟨(w.screen.withCell home (joined cell (.print c))).attrs, w.callbacks, ?_, ?_, ⟨?_, ?_⟩⟩
    · show (if _ then _ else w.onScreen (·.text unicode c)) = _
      rw [if_neg (hlatin.not_control hwidth)]
      simp only [onScreen, htext]
      rfl
    · unfold Screen.withCell
      rw [Screen.activeGrid_withActive]
      exact hcluster.withCell (by simp [joined, Event.printed]) rfl
    · show (b.print unicode c).scalars = (cell.contents ++ [c]).length
      rw [hadmits.scalars, hcounts.scalars, List.length_append]
      rfl
    · show (b.print unicode c).utf8Bytes = _
      rw [hadmits.utf8Bytes, hcounts.utf8Bytes]
      exact (Cell.len_append cell c).symm
  | csiDispatch params intermediates c =>
    have hm : c = 'm' := hevent
    subst hm
    have hjoined : joined cell (.csiDispatch params intermediates 'm') = cell := by simp [joined, Event.printed]
    obtain ⟨attrs, callbacks, hperform⟩ := csiDispatch_m w params intermediates
    rw [hjoined, Screen.withCell_self hcluster.holds]
    exact ⟨attrs, callbacks, hperform, hcluster, hcounts⟩
  | _ => exact hevent.elim

theorem bounded_joined (hcell : cell.Bounded) (hcounts : b.Counts cell) {event : Event} (hevent : event.Joins unicode)
    (herror : (b.perform unicode event).error = none) : (joined cell event).Bounded := by
  cases event with
  | print c =>
    have hadmits := ScalarBudget.admits_print hevent herror
    have hscalars := hadmits.scalars_ne
    have hbytes := hadmits.utf8Bytes_lt
    have hc := c.utf8Size_le_four
    rw [hcounts.scalars] at hscalars
    rw [hcounts.utf8Bytes] at hbytes
    refine ⟨?_, ?_⟩
    · show (cell.contents ++ [c]).length ≤ _
      rw [List.length_append]
      exact Nat.lt_of_le_of_ne hcell.1 hscalars
    · show { cell with contents := cell.contents ++ [c] }.len ≤ 22
      rw [Cell.len_append]
      have : cell.len < 18 := hbytes
      omega
  | csiDispatch params intermediates c =>
    show Cell.Bounded { cell with contents := cell.contents ++ [] }
    rw [List.append_nil]
    exact hcell
  | _ => exact hevent.elim

/-- The marks of a cluster are all stored in its cell, in order, and nowhere else. -/
theorem process_joins (hlatin : unicode.Latin) (hcluster : w.screen.activeGrid.Cluster home cell) (hcounts : b.Counts cell)
    {marks : List Event} (hmarks : ∀ event ∈ marks, event.Joins unicode) (herror : (b.after unicode marks).error = none) :
    ∃ attrs callbacks, w.process unicode marks =
      .ok ⟨{ w.screen.withCell home { cell with contents := cell.contents ++ marks.filterMap Event.printed } with attrs },
        callbacks⟩ := by
  induction marks generalizing w b cell with
  | nil =>
    refine ⟨w.screen.attrs, w.callbacks, ?_⟩
    simp only [List.filterMap_nil, List.append_nil]
    rw [Screen.withCell_self hcluster.holds]
    rfl
  | cons event marks ih =>
    obtain ⟨attrs, callbacks, hperform, hnext, hcounts'⟩ :=
      perform_joins hlatin hcluster hcounts (hmarks event List.mem_cons_self) (ScalarBudget.error_of_after herror)
    obtain ⟨attrs', callbacks', hprocess⟩ := ih (w := ⟨{ w.screen.withCell home (joined cell event) with attrs }, callbacks⟩)
      hnext hcounts' (fun other hother => hmarks other (List.mem_cons_of_mem _ hother)) herror
    refine ⟨attrs', callbacks', ?_⟩
    have hcontents : (joined cell event).contents ++ marks.filterMap Event.printed =
        cell.contents ++ (event :: marks).filterMap Event.printed := by
      cases hprinted : event.printed <;> simp [joined, hprinted]
    rw [process_cons, hperform]
    show process _ _ _ = _
    rw [hprocess, hcontents, Screen.withCell_attrs, Screen.withCell_withCell]
    rfl

/-- The cells are within their bounds, and what the budget has counted is in the cell before the cursor. -/
structure Agrees (b : ScalarBudget) (w : WrappedScreen) : Prop where
  bounded : w.screen.Bounded
  opened : 0 < b.scalars → ∃ home cell, w.screen.activeGrid.Cluster home cell ∧ b.Counts cell

theorem agrees_default {screen : Screen} (h : screen.Bounded) (callbacks : TerminalCallbacks) :
    Agrees .default ⟨screen, callbacks⟩ := ⟨h, fun hopen => absurd hopen (Nat.lt_irrefl 0)⟩

/-- A spacing character begins a cluster, which ends at the cursor. -/
theorem Agrees.allows_spacing (hlatin : unicode.Latin) (h : Agrees b w) {c : Char} {width : Nat}
    (hwidth : unicode.terminalWidth c = some width) (hpos : 1 ≤ width) :
    Allows (w.print unicode c) fun t => t.screen.Bounded ∧
      ∃ home cell, (t.screen.activeGrid.pos = ⟨home.row, home.col + width⟩ ∧ cell.contents = [c]) ∧
        t.screen.activeGrid.Cluster home cell ∧ (b.print unicode c).Counts cell := by
  have hcolumns : unicode.columns c ≠ 0 := by
    rw [UnicodeWidth.columns_eq hwidth]
    omega
  refine Allows.and (allows_print h.bounded (Grid.stays_text Cell.kind_bounded trivial fun hzero => absurd hzero hcolumns)) ?_
  refine allows_ite.mpr ⟨fun hc => absurd hc (hlatin.not_control hwidth), fun _ => allows_bind.mpr (Screen.allows_gridMut ?_)⟩
  refine (Grid.allows_text hwidth hpos h.bounded.active.size).mono ?_
  rintro g ⟨-, home, hgpos, hcluster⟩
  refine allows_pure.mpr ⟨home, ⟨[c], decide (width > 1), false, w.screen.attrs⟩, ⟨?_, rfl⟩, ?_, ?_⟩
  · rw [Screen.activeGrid_withActive]
    exact hgpos
  · rw [Screen.activeGrid_withActive]
    exact hcluster
  · rw [ScalarBudget.print_spacing hwidth hpos]
    exact ⟨rfl, rfl⟩

theorem Agrees.allows_perform (hlatin : unicode.Latin) (h : Agrees b w) {event : Event}
    (herror : (b.perform unicode event).error = none) :
    Allows (w.perform unicode event) (Agrees (b.perform unicode event)) := by
  -- An event that closes the cluster draws no text.
  have hreset (hprinted : event.printed = none) (hscalars : (b.perform unicode event).scalars = 0) :
      Allows (w.perform unicode event) (Agrees (b.perform unicode event)) := by
    have hprint (c : Char) (hc : event = .print c) : Allows (w.print unicode c) (·.screen.Bounded) := by
      rw [hc] at hprinted
      cases hprinted
    refine (WrappedScreen.allows_perform Cell.kind_bounded h.bounded hprint).mono fun t ht => ?_
    exact ⟨ht, fun hopen => absurd hopen (by omega)⟩
  have hjoins (hevent : event.Joins unicode) (hopen : 0 < b.scalars) :
      Allows (w.perform unicode event) (Agrees (b.perform unicode event)) := by
    obtain ⟨home, cell, hcluster, hcounts⟩ := h.opened hopen
    obtain ⟨attrs, callbacks, hperform, hnext, hcounts'⟩ := perform_joins hlatin hcluster hcounts hevent herror
    have hbounded := bounded_joined (h.bounded.active.cellAt hcluster.holds) hcounts hevent herror
    rw [hperform]
    exact allows_ok.mpr ⟨{ h.bounded.withCell hbounded home with attrs := trivial }, fun _ => ⟨home, _, hnext, hcounts'⟩⟩
  cases event with
  | print c =>
    cases hwidth : unicode.terminalWidth c with
    | none => simp [ScalarBudget.perform, ScalarBudget.print, hwidth] at herror
    | some width =>
      by_cases hzero : width = 0
      · subst hzero
        exact hjoins hwidth (ScalarBudget.admits_print hwidth herror).opened
      · refine (h.allows_spacing hlatin hwidth (Nat.one_le_iff_ne_zero.mpr hzero)).mono ?_
        rintro t ⟨hbounded, home, cell, -, hcluster, hcounts⟩
        exact ⟨hbounded, fun _ => ⟨home, cell, hcluster, hcounts⟩⟩
  | csiDispatch params intermediates c =>
    by_cases hm : c = 'm'
    · have hsame : b.perform unicode (.csiDispatch params intermediates c) = b := if_neg (not_not.mpr hm)
      by_cases hopen : 0 < b.scalars
      · exact hjoins hm hopen
      · exact hreset rfl (by rw [hsame]; omega)
    · exact hreset rfl (by simp [ScalarBudget.perform, hm, ScalarBudget.resetCluster])
  | execute byte => exact hreset rfl rfl
  | hook => exact hreset rfl rfl
  | oscDispatch params => exact hreset rfl rfl
  | escDispatch intermediates byte => exact hreset rfl rfl

/-- Budget and screen stay in step. -/
theorem Agrees.allows_process (hlatin : unicode.Latin) (h : Agrees b w) {events : List Event}
    (herror : (b.after unicode events).error = none) :
    Allows (w.process unicode events) (Agrees (b.after unicode events)) := by
  induction events generalizing b w with
  | nil => exact allows_pure.mpr h
  | cons event events ih =>
    rw [process_cons, allows_bind]
    exact (h.allows_perform hlatin (ScalarBudget.error_of_after herror)).mono fun t ht => ih ht herror

/-- A whole cluster is in the cell that its spacing character was drawn in. -/
theorem Agrees.cluster (hlatin : unicode.Latin) (h : Agrees b w) {first marks : List Event} {c : Char}
    (hspacing : unicode.Spacing c) (hmarks : ∀ event ∈ marks, event.Joins unicode)
    (herror : (b.after unicode (first ++ .print c :: marks)).error = none) :
    Allows (w.process unicode (first ++ [.print c])) fun t =>
      ∃ home cell, t.screen.activeGrid.pos = ⟨home.row, home.col + unicode.columns c⟩ ∧
        t.screen.activeGrid.cellAt home = some cell ∧ cell.contents = [c] ∧
        ∃ attrs callbacks, t.process unicode marks =
          .ok ⟨{ t.screen.withCell home { cell with contents := c :: marks.filterMap Event.printed } with attrs },
            callbacks⟩ := by
  obtain ⟨width, hwidth, hpos⟩ := hspacing
  have hafter : (((b.after unicode first).print unicode c).after unicode marks).error = none := by
    rwa [ScalarBudget.after_append] at herror
  rw [process_append, allows_bind]
  refine (h.allows_process hlatin (ScalarBudget.error_of_append herror)).mono fun v hv => ?_
  rw [process_cons, allows_bind]
  refine (hv.allows_spacing hlatin hwidth hpos).mono ?_
  rintro t ⟨-, home, cell, ⟨hcursor, hcontents⟩, hcluster, hcounts⟩
  refine allows_pure.mpr ⟨home, cell, UnicodeWidth.columns_eq hwidth ▸ hcursor, hcluster.holds, hcontents, ?_⟩
  have hstored := process_joins hlatin hcluster hcounts hmarks hafter
  rwa [hcontents] at hstored

/-- On a screen of two rows and two columns every character has room. -/
theorem eventsFit_of_two (unicode : UnicodeWidth) (h : w.screen.Sound) (hrows : 2 ≤ w.screen.size.rows)
    (hcols : 2 ≤ w.screen.size.cols) (events : List Event) : EventsFit unicode events w := by
  induction events generalizing w with
  | nil => trivial
  | cons event events ih =>
    have hfits : event.Fits unicode w.screen := by
      cases event with
      | print c => exact fun _ _ => ⟨Nat.le_trans (unicode.columns_le c) hcols, fun _ => hrows⟩
      | _ => trivial
    refine ⟨hfits, fun t ht => ?_⟩
    obtain ⟨t', ht', hkept⟩ := returns_perform h hfits
    cases ht.symm.trans ht'
    have hsize : t.screen.size = w.screen.size := by rw [hkept.1.size, hkept.2, h.size]
    exact ih hkept.1 (hsize ▸ hrows) (hsize ▸ hcols)

end WrappedScreen

/-- No cell holds more scalars than a screen may show. -/
theorem Screen.MadeOf.validateScreen_eq {S : Size → Prop} {Q : Attrs → Prop} {s : Screen} (h : s.MadeOf S Cell.Bounded Q) :
    validateScreen s = .ok () := by
  unfold validateScreen
  simp only
  rw [if_neg]
  intro hany
  obtain ⟨cell, hcell, hlong⟩ := List.any_eq_true.mp hany
  obtain ⟨row, -, hcell⟩ := List.mem_flatMap.mp hcell
  obtain ⟨column, -, hcell⟩ := List.mem_filterMap.mp hcell
  have hat : s.activeGrid.cellAt ⟨row, column⟩ = some cell := hcell
  have hbounded : cell.Bounded := h.active.cellAt hat
  exact absurd (of_decide_eq_true hlong) (Nat.not_lt.mpr hbounded.1)

/-- What the budget admits, the screen stores. A scalar without columns belongs to a spacing character, in whose cell
    it is appended, and all cells keep to their bounds. -/
theorem admission_agrees_with_storage (hlatin : unicode.Latin) {screen : Screen} (hscreen : screen.Bounded)
    {events : List Event} (haccepts : (ScalarBudget.after unicode .default events).error = none)
    (callbacks : TerminalCallbacks) :
    (screen.Sound → 2 ≤ screen.size.rows → 2 ≤ screen.size.cols →
      ∃ w, WrappedScreen.process unicode ⟨screen, callbacks⟩ events = .ok w) ∧
    (∀ before mark rest, events = before ++ .print mark :: rest → unicode.terminalWidth mark = some 0 →
      ∃ first c marks, before = first ++ .print c :: marks ∧ unicode.Spacing c ∧ ∀ event ∈ marks, event.Joins unicode) ∧
    (∀ first c marks rest, events = first ++ .print c :: (marks ++ rest) → unicode.Spacing c →
      (∀ event ∈ marks, event.Joins unicode) →
      ∀ w, WrappedScreen.process unicode ⟨screen, callbacks⟩ (first ++ [.print c]) = .ok w →
        ∃ home cell, w.screen.activeGrid.pos = ⟨home.row, home.col + unicode.columns c⟩ ∧
          w.screen.activeGrid.cellAt home = some cell ∧ cell.contents = [c] ∧
          ∃ attrs callbacks, w.process unicode marks =
            .ok ⟨{ w.screen.withCell home { cell with contents := c :: marks.filterMap Event.printed } with attrs },
              callbacks⟩) ∧
    ∀ before rest w, events = before ++ rest → WrappedScreen.process unicode ⟨screen, callbacks⟩ before = .ok w →
      w.screen.Bounded ∧ validateScreen w.screen = .ok () := by
  have hstart := WrappedScreen.agrees_default hscreen callbacks
  refine ⟨fun hsound hrows hcols => ?_, ?_, ?_, ?_⟩
  · have hfits := WrappedScreen.eventsFit_of_two (w := ⟨screen, callbacks⟩) unicode hsound hrows hcols events
    obtain ⟨w, hw, -⟩ := WrappedScreen.returns_process (w := ⟨screen, callbacks⟩) hsound hfits
    exact ⟨w, hw⟩
  · intro before mark rest hsplit hwidth
    have hbefore := ScalarBudget.error_of_append (hsplit ▸ haccepts)
    have hprint : ((ScalarBudget.after unicode .default before).print unicode mark).error = none := by
      rw [hsplit, ScalarBudget.after_append] at haccepts
      exact ScalarBudget.error_of_after haccepts
    exact ScalarBudget.exists_spacing hbefore (ScalarBudget.admits_print hwidth hprint).opened
  · intro first c marks rest hsplit hspacing hmarks w hw
    have hcluster : (ScalarBudget.after unicode .default (first ++ .print c :: marks)).error = none := by
      rw [hsplit, ← List.cons_append, ← List.append_assoc] at haccepts
      exact ScalarBudget.error_of_append haccepts
    exact hstart.cluster hlatin hspacing hmarks hcluster w hw
  · intro before rest w hsplit hw
    have hagrees := hstart.allows_process hlatin (ScalarBudget.error_of_append (hsplit ▸ haccepts)) w hw
    exact ⟨hagrees.bounded, hagrees.bounded.validateScreen_eq⟩

theorem sketch_latin : sketch.unicode.Latin where
  printable := by
    intro c hlow hhigh
    show (if _ then _ else if _ then _ else if _ then _ else _) = _
    rw [if_neg (by omega), if_neg (by omega), if_neg (by omega)]
  controls := by
    intro c hlow hhigh
    exact if_pos (Or.inr ⟨by omega, hhigh⟩)

/-- A letter, and an accent that joins it after a change of the attributes. -/
theorem admission_agrees_with_storage_accent :
    ∃ screen w, Screen.new ⟨2, 2⟩ = .ok screen ∧
      WrappedScreen.process sketch.unicode ⟨screen, ⟨none⟩⟩ [.print 'e'] = .ok w ∧
      ∃ (home : Pos) (cell : Cell) (attrs : Attrs) (callbacks : TerminalCallbacks), cell.contents = ['e'] ∧
        w.process sketch.unicode [.csiDispatch [[1]] [] 'm', .print '\u0301'] =
          .ok ⟨{ w.screen.withCell home { cell with contents := ['e', '\u0301'] } with attrs }, callbacks⟩ := by
  have hnew : Screen.new ⟨2, 2⟩ = .ok _ := rfl
  have hbounded := Screen.madeOf_new (S := fun size => size.cols ≤ u16Max) Cell.kind_bounded (by decide) _ hnew
  have haccepts : (ScalarBudget.after sketch.unicode .default
      [.print 'e', .csiDispatch [[1]] [] 'm', .print '\u0301']).error = none := by decide
  have hmarks : ∀ event ∈ [Event.csiDispatch [[1]] [] 'm', .print '\u0301'], event.Joins sketch.unicode := by
    intro event hevent
    rcases List.mem_pair.mp hevent with rfl | rfl
    · rfl
    · exact show sketch.unicode.terminalWidth '\u0301' = some 0 by decide
  obtain ⟨home, cell, -, -, hcontents, attrs, callbacks, hprocess⟩ :=
    (admission_agrees_with_storage sketch_latin hbounded haccepts ⟨none⟩).2.2.1 [] 'e' _ [] rfl ⟨1, by decide, by decide⟩
      hmarks _ rfl
  exact ⟨_, _, hnew, rfl, home, cell, attrs, callbacks, hcontents, hprocess⟩

end MoshClient.Vt100
