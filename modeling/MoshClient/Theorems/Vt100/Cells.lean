import MoshClient.Theorems.Vt100.State

/-! What the cells of a screen are made of. A property of cells that a new cell has, and that clearing a cell and
    setting one leave it with, stays with every cell of both grids through all operations but the joining of scalars,
    whether or not a resize has cut wide characters. -/

namespace MoshClient.Vt100
open Checked

variable {P : Cell → Prop} {Q : Attrs → Prop} {S : Size → Prop}

/-- A property of cells, with one of the attributes that are drawn with. -/
structure Kind (P : Cell → Prop) (Q : Attrs → Prop) : Prop where
  new : P .new
  clear : ∀ (cell : Cell) (attrs : Attrs), Q attrs → P (cell.clear attrs)
  clearOwn : ∀ cell : Cell, P cell → P (cell.clear cell.attrs)
  continuation : ∀ (cell : Cell) (wide : Bool), P cell → P (cell.setWideContinuation wide)
  set : ∀ (unicode : UnicodeWidth) (cell : Cell) (c : Char) (attrs : Attrs), Q attrs → Allows (cell.set unicode c attrs) P
  rendition : Attrs.Rendition Q

/-! ### Rows -/

def Row.MadeOf (P : Cell → Prop) (row : Row) : Prop := ∀ cell ∈ row.cells, P cell

namespace Row

variable {row : Row}

theorem madeOf_new (hkind : Kind P Q) (cols : Nat) : (Row.new cols).MadeOf P := by
  intro cell hcell
  rw [List.eq_of_mem_replicate hcell]
  exact hkind.new

theorem madeOf_clear (hkind : Kind P Q) {attrs : Attrs} (ha : Q attrs) (row : Row) : (row.clear attrs).MadeOf P := by
  intro cell hcell
  obtain ⟨old, -, rfl⟩ := List.mem_map.mp hcell
  exact hkind.clear old attrs ha

theorem MadeOf.resize (hkind : Kind P Q) (h : row.MadeOf P) (len : Nat) : (row.resize len .new).MadeOf P := by
  intro cell hcell
  rcases List.mem_append.mp hcell with hold | hnew
  · exact h cell (List.mem_of_mem_take hold)
  · rw [List.eq_of_mem_replicate hnew]
    exact hkind.new

theorem MadeOf.allows_clearWide (hkind : Kind P Q) (h : row.MadeOf P) (col : Nat) :
    Allows (row.clearWide col) (MadeOf P) := by
  have hclear (i : Nat) : Allows (update row.cells i fun other => other.clear other.attrs) fun cells =>
      Row.MadeOf P { row with cells } := allows_update h hkind.clearOwn
  refine allows_bind.mpr (.of_forall fun cell => allows_ite.mpr ⟨fun _ => ?_, fun _ => ?_⟩)
  · exact allows_bind.mpr ((hclear _).mono fun _ => allows_pure.mpr)
  · refine allows_ite.mpr ⟨fun _ => allows_bind.mpr (.of_forall fun other => ?_), fun _ => allows_pure.mpr h⟩
    exact allows_bind.mpr ((hclear _).mono fun _ => allows_pure.mpr)

theorem MadeOf.allows_remove (hkind : Kind P Q) (h : row.MadeOf P) (i : Nat) : Allows (row.remove i) (MadeOf P) := by
  refine allows_bind.mpr ((h.allows_clearWide hkind i).mono fun next hnext => ?_)
  exact allows_bind.mpr ((Checked.allows_remove hnext).mono fun _ hcells => allows_pure.mpr hcells)

theorem MadeOf.allows_erase (hkind : Kind P Q) {attrs : Attrs} (ha : Q attrs) (h : row.MadeOf P) (i : Nat) :
    Allows (row.erase i attrs) (MadeOf P) := by
  refine allows_bind.mpr (.of_forall fun cell => ?_)
  refine allows_bind.mpr ((h.allows_clearWide hkind i).mono fun next hnext => allows_bind.mpr ?_)
  refine (allows_update hnext fun cell _ => hkind.clear cell attrs ha).mono fun cells hcells => ?_
  exact allows_bind.mpr (.of_forall fun _ => allows_bind.mpr (.of_forall fun _ => allows_pure.mpr hcells))

theorem MadeOf.allows_truncate (hkind : Kind P Q) (h : row.MadeOf P) (len : Nat) :
    Allows (row.truncate len) (MadeOf P) := by
  refine allows_bind.mpr (.of_forall fun last => allows_bind.mpr ?_)
  refine (allows_update (fun cell hcell => h cell (List.mem_of_mem_take hcell)) fun cell hcell => ?_).mono
    fun _ hcells => allows_pure.mpr hcells
  split
  · exact hkind.clearOwn cell hcell
  · exact hcell

theorem MadeOf.allows_insertCell (hkind : Kind P Q) (h : row.MadeOf P) (col : Nat) (wide : Bool) :
    Allows (Grid.insertCell col wide row) (MadeOf P) := by
  have hflag {row : Row} (h : row.MadeOf P) (flag : Bool) : Allows (update row.cells col (·.setWideContinuation flag))
      fun cells => Row.MadeOf P { row with cells } :=
    allows_update h fun cell hcell => hkind.continuation cell flag hcell
  have hinsert {row : Row} (h : row.MadeOf P) : Allows (row.insert col .new) (MadeOf P) :=
    allows_bind.mpr ((allows_insert h hkind.new).mono fun _ hcells => allows_pure.mpr hcells)
  cases wide with
  | false => exact allows_bind.mpr (allows_pure.mpr (allows_bind.mpr ((hinsert h).mono fun _ => allows_pure.mpr)))
  | true =>
    refine allows_bind.mpr ((hflag h false).mono fun _ hcells => allows_bind.mpr (allows_pure.mpr ?_))
    refine allows_bind.mpr ((hinsert hcells).mono fun _ hrow => ?_)
    exact allows_bind.mpr ((hflag hrow true).mono fun _ => allows_pure.mpr)

end Row

/-! ### Grids -/

/-- The size is of one kind, and the cells are of another. -/
structure Grid.MadeOf (S : Size → Prop) (P : Cell → Prop) (g : Grid) : Prop where
  size : S g.size
  rows : ∀ row ∈ g.rows, row.MadeOf P

namespace Grid

variable {g t : Grid} {attrs : Attrs}

/-- When an operation returns, the grid is made as before. -/
def Stays (S : Size → Prop) (P : Cell → Prop) (op : Grid → Except Fault Grid) : Prop :=
  ∀ g, g.MadeOf S P → Allows (op g) (MadeOf S P)

/-- The cursor and the margins may have changed, and nothing else. -/
structure Moved (g t : Grid) : Prop where
  size : t.size = g.size
  rows : t.rows = g.rows

theorem Moved.trans {u : Grid} (h : Moved g t) (hu : Moved t u) : Moved g u :=
  ⟨hu.size.trans h.size, hu.rows.trans h.rows⟩

theorem MadeOf.moved (h : g.MadeOf S P) (ht : Moved g t) : t.MadeOf S P := by
  refine ⟨?_, ?_⟩
  · rw [ht.size]
    exact h.size
  · rw [ht.rows]
    exact h.rows

theorem MadeOf.redrawn (h : g.MadeOf S P) {rows : List Row} (hrows : ∀ row ∈ rows, row.MadeOf P) :
    { g with rows }.MadeOf S P := ⟨h.size, hrows⟩

theorem stays_of_moved {op : Grid → Except Fault Grid} (hop : ∀ g, Allows (op g) (Moved g)) : Stays S P op :=
  fun g h => (hop g).mono fun _ ht => h.moved ht

/-! The cursor -/

/-- The cursor is in another row. -/
def RowSet (g t : Grid) : Prop := ∃ row, t = { g with pos.row := row }

theorem RowSet.moved (h : RowSet g t) : Moved g t := by
  obtain ⟨row, rfl⟩ := h
  exact ⟨rfl, rfl⟩

theorem allows_rowClampTop (g : Grid) (region : Bool) : Allows (g.rowClampTop region) fun clamped => RowSet g clamped.2 := by
  refine allows_ite.mpr ⟨fun _ => ?_, fun _ => allows_pure.mpr ⟨g.pos.row, rfl⟩⟩
  exact allows_bind.mpr (.of_forall fun _ => allows_pure.mpr ⟨g.scrollTop, rfl⟩)

theorem allows_rowClampBottom (g : Grid) (region : Bool) :
    Allows (g.rowClampBottom region) fun clamped => RowSet g clamped.2 := by
  have hclamp (bottom : Nat) : Allows (if g.pos.row > bottom then do
        let rows ← Checked.sub g.pos.row bottom
        return (rows, { g with pos.row := bottom })
      else return (0, g)) fun clamped => RowSet g clamped.2 := by
    refine allows_ite.mpr ⟨fun _ => ?_, fun _ => allows_pure.mpr ⟨g.pos.row, rfl⟩⟩
    exact allows_bind.mpr (.of_forall fun _ => allows_pure.mpr ⟨bottom, rfl⟩)
  cases region with
  | false => exact allows_bind.mpr (.of_forall hclamp)
  | true => exact hclamp _

theorem allows_rowClamp (g : Grid) : Allows g.rowClamp (Moved g) :=
  allows_bind.mpr (.of_forall fun _ => allows_pure.mpr ⟨rfl, rfl⟩)

theorem allows_colClamp (g : Grid) : Allows g.colClamp (Moved g) :=
  allows_bind.mpr (.of_forall fun _ => allows_pure.mpr ⟨rfl, rfl⟩)

theorem allows_setPos (pos : Pos) (g : Grid) : Allows (g.setPos pos) (Moved g) := by
  refine allows_bind.mpr ((allows_rowClampTop _ _).mono fun top htop => ?_)
  refine allows_bind.mpr ((allows_rowClampBottom _ _).mono fun bottom hbottom => ?_)
  have hmoved : Moved g bottom.2 := .trans ⟨htop.moved.size, htop.moved.rows⟩ hbottom.moved
  exact (allows_colClamp _).mono fun _ hclamped => hmoved.trans hclamped

theorem allows_setOriginMode (mode : Bool) (g : Grid) : Allows (g.setOriginMode mode) (Moved g) :=
  (allows_setPos _ _).mono fun _ ht => ⟨ht.size, ht.rows⟩

theorem allows_setScrollRegion (top bottom : Nat) (g : Grid) : Allows (g.setScrollRegion top bottom) (Moved g) := by
  refine allows_bind.mpr (.of_forall fun last => allows_pure.mpr ?_)
  split <;> exact ⟨rfl, rfl⟩

theorem allows_colSet (i : Nat) (g : Grid) : Allows (g.colSet i) (Moved g) :=
  (allows_colClamp { g with pos.col := i }).mono fun _ ht => ⟨ht.size, ht.rows⟩

theorem allows_rowSet (i : Nat) (g : Grid) : Allows (g.rowSet i) (Moved g) :=
  (allows_rowClamp { g with pos.row := i }).mono fun _ ht => ⟨ht.size, ht.rows⟩

theorem allows_colTab (g : Grid) : Allows g.colTab (Moved g) :=
  allows_bind.mpr (.of_forall fun col => allows_colSet (col + 8) g)

theorem allows_rowIncClamp (count : Nat) (g : Grid) : Allows (g.rowIncClamp count) (Moved g) :=
  allows_bind.mpr ((allows_rowClampBottom _ _).mono fun _ ht => allows_pure.mpr ⟨ht.moved.size, ht.moved.rows⟩)

theorem allows_rowDecClamp (count : Nat) (g : Grid) : Allows (g.rowDecClamp count) (Moved g) :=
  allows_bind.mpr ((allows_rowClampTop _ _).mono fun _ ht => allows_pure.mpr ⟨ht.moved.size, ht.moved.rows⟩)

/-! Rows -/

theorem MadeOf.allows_drawingRowMut (h : g.MadeOf S P) {r : Nat} {change : Row → Except Fault Row}
    (hchange : ∀ row, row.MadeOf P → Allows (change row) (Row.MadeOf P)) :
    Allows (g.drawingRowMut r change) (MadeOf S P) := by
  refine allows_bind.mpr (allows_unwrap.mpr fun row hrow => ?_)
  refine allows_bind.mpr ((hchange row (h.rows row (List.mem_of_getElem? hrow))).mono fun changed hchanged => ?_)
  exact allows_pure.mpr (h.redrawn (forall_mem_set h.rows hchanged))

theorem MadeOf.allows_drawingCellMut (h : g.MadeOf S P) {pos : Pos} {change : Cell → Except Fault Cell}
    (hchange : ∀ cell, P cell → Allows (change cell) P) : Allows (g.drawingCellMut pos change) (MadeOf S P) := by
  refine h.allows_drawingRowMut fun row hrow => allows_bind.mpr (allows_unwrap.mpr fun cell hcell => ?_)
  refine allows_bind.mpr ((hchange cell (hrow cell (List.mem_of_getElem? hcell))).mono fun changed hchanged => ?_)
  exact allows_pure.mpr (forall_mem_set hrow hchanged)

theorem stays_currentRowMut {change : Grid → Row → Except Fault Row}
    (hchange : ∀ g row, row.MadeOf P → Allows (change g row) (Row.MadeOf P)) :
    Stays S P fun g => g.currentRowMut (change g) :=
  fun g h => h.allows_drawingRowMut (hchange g)

theorem allows_eraseRange (hkind : Kind P Q) (ha : Q attrs) {row : Row} (h : row.MadeOf P) (start stop : Nat) :
    Allows (forRange start stop (fun col row => row.erase col attrs) row) (Row.MadeOf P) :=
  Allows.foldlM h (fun _ col hrow => hrow.allows_erase hkind ha col) _

theorem stays_eraseRow (hkind : Kind P Q) (ha : Q attrs) : Stays S P (·.eraseRow attrs) :=
  stays_currentRowMut fun _ row _ => allows_pure.mpr (Row.madeOf_clear hkind ha row)

theorem stays_eraseRowForward (hkind : Kind P Q) (ha : Q attrs) : Stays S P (·.eraseRowForward attrs) :=
  stays_currentRowMut fun _ _ hrow => allows_eraseRange hkind ha hrow _ _

theorem stays_eraseRowBackward (hkind : Kind P Q) (ha : Q attrs) : Stays S P (·.eraseRowBackward attrs) := by
  intro g h
  refine allows_bind.mpr (.of_forall fun last => ?_)
  exact stays_currentRowMut (fun _ _ hrow => allows_eraseRange hkind ha hrow _ _) g h

theorem stays_eraseCells (hkind : Kind P Q) (ha : Q attrs) (count : Nat) : Stays S P (·.eraseCells count attrs) :=
  stays_currentRowMut fun _ _ hrow => allows_eraseRange hkind ha hrow _ _

/-- Some of the rows are cleared. -/
theorem MadeOf.clearRows (hkind : Kind P Q) (ha : Q attrs) (h : g.MadeOf S P) (kept cleared : List Row)
    (hkept : ∀ row ∈ kept, row ∈ g.rows) :
    ∀ row ∈ kept ++ cleared.map (·.clear attrs), row.MadeOf P := by
  intro row hrow
  rcases List.mem_append.mp hrow with hrow | hrow
  · exact h.rows row (hkept row hrow)
  · obtain ⟨old, -, rfl⟩ := List.mem_map.mp hrow
    exact Row.madeOf_clear hkind ha old

theorem stays_eraseAll (hkind : Kind P Q) (ha : Q attrs) : Stays S P fun g => pure (g.eraseAll attrs) := by
  intro g h
  exact allows_pure.mpr (h.redrawn (h.clearRows hkind ha [] _ fun _ hrow => absurd hrow List.not_mem_nil))

theorem stays_eraseAllForward (hkind : Kind P Q) (ha : Q attrs) : Stays S P (·.eraseAllForward attrs) := by
  intro g h
  refine stays_eraseRowForward hkind ha _ (h.redrawn ?_)
  exact h.clearRows hkind ha _ _ fun _ => List.mem_of_mem_take

theorem stays_eraseAllBackward (hkind : Kind P Q) (ha : Q attrs) : Stays S P (·.eraseAllBackward attrs) := by
  intro g h
  refine stays_eraseRowBackward hkind ha _ (h.redrawn fun row hrow => ?_)
  have hrows := h.clearRows hkind ha (g.rows.drop g.pos.row) (g.rows.take g.pos.row) fun _ => List.mem_of_mem_drop
  exact hrows row (List.mem_append.mpr (List.mem_append.mp hrow).symm)

theorem stays_insertCells (hkind : Kind P Q) (count : Nat) : Stays S P (·.insertCells count) := by
  intro g h
  have hinsert (wide : Bool) : Allows (g.currentRowMut fun row => do
        let row ← iterate (insertCell g.pos.col wide) count row
        row.truncate g.size.cols) (MadeOf S P) := by
    refine h.allows_drawingRowMut fun row hrow => allows_bind.mpr ?_
    refine (Allows.iterate hrow (fun _ hnext => hnext.allows_insertCell hkind _ _) count).mono fun next hnext => ?_
    exact hnext.allows_truncate hkind _
  refine allows_ite.mpr ⟨fun _ => allows_bind.mpr (.of_forall fun cell => ?_), fun _ => ?_⟩
  · exact allows_bind.mpr (allows_pure.mpr (hinsert _))
  · exact allows_bind.mpr (allows_pure.mpr (hinsert _))

theorem stays_deleteCells (hkind : Kind P Q) (count : Nat) : Stays S P (·.deleteCells count) := by
  intro g h
  refine allows_bind.mpr (.of_forall fun rest => ?_)
  refine h.allows_drawingRowMut fun row hrow => allows_bind.mpr ?_
  refine (Allows.iterate hrow (fun _ hnext => hnext.allows_remove hkind _) _).mono fun next hnext => ?_
  exact allows_pure.mpr (hnext.resize hkind _)

theorem stays_insertLine (hkind : Kind P Q) (row : Grid → Nat) : Stays S P fun g => g.insertLine (row g) := by
  intro g h
  refine allows_bind.mpr ((allows_remove h.rows).mono fun rows hrows => allows_bind.mpr ?_)
  refine (allows_insert hrows (Row.madeOf_new hkind _)).mono fun rows hrows => allows_bind.mpr ?_
  refine (allows_update hrows fun row hrow => ?_).mono fun rows hrows => allows_pure.mpr (h.redrawn hrows)
  exact hrow

theorem stays_deleteLine (hkind : Kind P Q) (row : Grid → Nat) : Stays S P fun g => g.deleteLine (row g) := by
  intro g h
  refine allows_bind.mpr ((allows_insert h.rows (Row.madeOf_new hkind _)).mono fun rows hrows => allows_bind.mpr ?_)
  exact (allows_remove hrows).mono fun rows hrows => allows_pure.mpr (h.redrawn hrows)

theorem stays_insertLines (hkind : Kind P Q) (count : Nat) : Stays S P (·.insertLines count) :=
  fun _ h => Allows.iterate h (stays_insertLine hkind (·.pos.row)) count

theorem stays_deleteLines (hkind : Kind P Q) (count : Nat) : Stays S P (·.deleteLines count) :=
  fun _ h => allows_bind.mpr (.of_forall fun _ => Allows.iterate h (stays_deleteLine hkind (·.pos.row)) _)

theorem stays_scrollUp (hkind : Kind P Q) (count : Nat) : Stays S P (·.scrollUp count) :=
  fun _ h => allows_bind.mpr (.of_forall fun _ => Allows.iterate h (stays_deleteLine hkind (·.scrollTop)) _)

theorem stays_scrollDown (hkind : Kind P Q) (count : Nat) : Stays S P (·.scrollDown count) :=
  fun _ h => Allows.iterate h (stays_insertLine hkind (·.scrollTop)) count

theorem MadeOf.allows_rowIncScroll (hkind : Kind P Q) (h : g.MadeOf S P) (count : Nat) :
    Allows (g.rowIncScroll count) fun scrolled => scrolled.2.MadeOf S P := by
  refine allows_bind.mpr ((allows_rowClampBottom _ _).mono fun clamped hclamped => ?_)
  have hnext : clamped.2.MadeOf S P := h.moved ⟨hclamped.moved.size, hclamped.moved.rows⟩
  refine allows_ite.mpr ⟨fun _ => ?_, fun _ => allows_pure.mpr hnext⟩
  exact allows_bind.mpr ((stays_scrollUp hkind _ _ hnext).mono fun _ hscrolled => allows_pure.mpr hscrolled)

theorem stays_lineFeed (hkind : Kind P Q) : Stays S P fun g => do
    let (_, g) ← g.rowIncScroll 1
    return g :=
  fun _ h => allows_bind.mpr ((h.allows_rowIncScroll hkind 1).mono fun _ => allows_pure.mpr)

theorem stays_rowDecScroll (hkind : Kind P Q) (count : Nat) : Stays S P (·.rowDecScroll count) := by
  intro g h
  refine allows_bind.mpr ((allows_rowClampTop _ _).mono fun clamped hclamped => ?_)
  exact stays_scrollDown hkind _ _ (h.moved ⟨hclamped.moved.size, hclamped.moved.rows⟩)

theorem stays_colWrap (hkind : Kind P Q) (width : Nat) (wrap : Bool) : Stays S P (·.colWrap width wrap) := by
  intro g h
  refine allows_bind.mpr (.of_forall fun limit => allows_ite.mpr ⟨fun _ => ?_, fun _ => allows_pure.mpr h⟩)
  have hstart : { g with pos.col := 0 }.MadeOf S P := h.moved ⟨rfl, rfl⟩
  refine allows_bind.mpr ((hstart.allows_rowIncScroll hkind 1).mono fun scrolled hscrolled => ?_)
  refine allows_bind.mpr (.of_forall fun prevRow => ?_)
  exact hscrolled.allows_drawingRowMut fun _ hrow => allows_pure.mpr hrow

/-! Text -/

theorem stays_draw (hkind : Kind P Q) (ha : Q attrs) (unicode : UnicodeWidth) (width : Nat) (c : Char) :
    Stays S P (·.draw unicode width attrs c) := by
  have hset {g : Grid} (h : g.MadeOf S P) (pos : Pos) (c : Char) :
      Allows (g.drawingCellMut pos fun cell => cell.set unicode c attrs) (MadeOf S P) :=
    h.allows_drawingCellMut fun cell _ => hkind.set unicode cell c attrs ha
  have hclear {g : Grid} (h : g.MadeOf S P) (pos : Pos) :
      Allows (g.drawingCellMut pos fun cell => pure (cell.clear attrs)) (MadeOf S P) :=
    h.allows_drawingCellMut fun cell _ => allows_pure.mpr (hkind.clear cell attrs ha)
  have hnextHalf {g : Grid} (h : g.MadeOf S P) : Allows (g.clearNextHalf attrs) (MadeOf S P) := by
    refine allows_bind.mpr (.of_forall fun cell => allows_ite.mpr ⟨fun _ => ?_, fun _ => allows_pure.mpr h⟩)
    refine allows_bind.mpr ((hclear h _).mono fun next hnext => allows_bind.mpr (.of_forall fun last => ?_))
    refine allows_ite.mpr ⟨fun _ => ?_, fun _ => allows_pure.mpr hnext⟩
    exact hnext.allows_drawingRowMut fun _ hrow => allows_pure.mpr hrow
  have hwide {g : Grid} (h : g.MadeOf S P) : Allows (g.continueWide attrs) (MadeOf S P) := by
    refine allows_bind.mpr ((hnextHalf h).mono fun next hnext => allows_bind.mpr ?_)
    refine (hnext.allows_drawingCellMut fun cell _ => allows_pure.mpr ?_).mono fun last hlast => ?_
    · exact hkind.continuation _ true (hkind.clear cell .default hkind.rendition.default)
    · exact allows_pure.mpr (hlast.moved ⟨rfl, rfl⟩)
  intro g h
  have hfirst : Allows (g.clearFirstHalf attrs) (MadeOf S P) := by
    refine allows_bind.mpr (.of_forall fun cell => allows_ite.mpr ⟨fun _ => ?_, fun _ => allows_pure.mpr h⟩)
    exact allows_bind.mpr (.of_forall fun col => hclear h _)
  refine allows_bind.mpr (hfirst.mono fun first hfirst => allows_bind.mpr ?_)
  have hsecond : Allows (first.clearSecondHalf unicode attrs) (MadeOf S P) :=
    allows_bind.mpr (.of_forall fun cell => allows_ite.mpr ⟨fun _ => hset hfirst _ _, fun _ => allows_pure.mpr hfirst⟩)
  refine hsecond.mono fun second hsecond => allows_bind.mpr ((hset hsecond _ _).mono fun next hnext => ?_)
  have hmoved : (next.colInc 1).MadeOf S P := hnext.moved ⟨rfl, rfl⟩
  exact allows_ite.mpr ⟨fun _ => hwide hmoved, fun _ => allows_pure.mpr hmoved⟩

/-- A scalar joins a cell of the grid, or none. -/
theorem stays_combine {c : Char} (happend : ∀ cell : Cell, P cell → Allows (cell.append c) P) :
    Stays S P (·.combine c) := by
  intro g h
  have hjoin (pos : Pos) : Allows (g.drawingCellMut pos (·.append c)) (MadeOf S P) := h.allows_drawingCellMut happend
  -- The scalar joins the cell at `col`, or the first half of the character that ends there.
  have hhalves (prevCell : Cell) (row col cols : Nat) : Allows (if prevCell.isWideContinuation then do
        let col ← Checked.sub cols 2
        g.drawingCellMut ⟨row, col⟩ (·.append c)
      else do
        let col ← pure col
        g.drawingCellMut ⟨row, col⟩ (·.append c)) (MadeOf S P) :=
    allows_ite.mpr ⟨fun _ => allows_bind.mpr (.of_forall fun _ => hjoin _), fun _ => hjoin _⟩
  refine allows_ite.mpr ⟨fun _ => ?_, fun _ => allows_ite.mpr ⟨fun _ => ?_, fun _ => allows_pure.mpr h⟩⟩
  · exact allows_bind.mpr (.of_forall fun col => allows_bind.mpr (.of_forall fun prevCell => hhalves _ _ _ _))
  · refine allows_bind.mpr (.of_forall fun row => allows_bind.mpr (.of_forall fun prevRow => ?_))
    refine allows_ite.mpr ⟨fun _ => ?_, fun _ => allows_pure.mpr h⟩
    exact allows_bind.mpr (.of_forall fun col => allows_bind.mpr (.of_forall fun prevCell => hhalves _ _ _ _))

theorem stays_text (hkind : Kind P Q) (ha : Q attrs) {unicode : UnicodeWidth} {c : Char}
    (happend : unicode.columns c = 0 → ∀ cell : Cell, P cell → Allows (cell.append c) P) :
    Stays S P (·.text unicode attrs c) := by
  intro g h
  show Allows (g.text unicode attrs c) _
  by_cases hc : Invisible unicode c
  · rw [text_of_invisible hc]
    exact allows_ok.mpr h
  · rw [text_of_visible hc]
    refine allows_bind.mpr (.of_forall fun wrap => allows_bind.mpr ?_)
    refine (stays_colWrap hkind _ wrap g h).mono fun next hnext => allows_ite.mpr ⟨fun hzero => ?_, fun _ => ?_⟩
    · exact stays_combine (happend hzero) next hnext
    · exact stays_draw hkind ha unicode _ c next hnext

/-! Sizes -/

theorem madeOf_new {size : Size} (hsize : S size) : Allows (Grid.new size) (MadeOf S P) := by
  refine allows_bind.mpr (.of_forall fun last => allows_pure.mpr ⟨hsize, fun row hrow => ?_⟩)
  exact absurd hrow List.not_mem_nil

theorem MadeOf.allocateRows (hkind : Kind P Q) (h : g.MadeOf S P) : g.allocateRows.MadeOf S P := by
  unfold Grid.allocateRows
  split
  · refine h.redrawn fun row hrow => ?_
    rw [List.eq_of_mem_replicate hrow]
    exact Row.madeOf_new hkind _
  · exact h

theorem stays_clear (hkind : Kind P Q) : Stays S P clear := by
  intro g h
  refine allows_bind.mpr (.of_forall fun last => allows_pure.mpr ⟨h.size, fun row hrow => ?_⟩)
  obtain ⟨old, -, rfl⟩ := List.mem_map.mp hrow
  exact Row.madeOf_clear hkind hkind.rendition.default old

theorem MadeOf.allows_setSize (hkind : Kind P Q) (h : g.MadeOf S P) {size : Size} (hsize : S size) :
    Allows (g.setSize size) (MadeOf S P) := by
  refine allows_bind.mpr (.of_forall fun oldLast => allows_bind.mpr (.of_forall fun last => allows_bind.mpr ?_))
  refine (allows_rowClampTop _ _).mono fun top htop => ?_
  refine allows_bind.mpr ((allows_rowClampBottom _ _).mono fun bottom hbottom => ?_)
  refine allows_bind.mpr ((allows_colClamp _).mono fun clamped hclamped => ?_)
  refine allows_bind.mpr (.of_forall fun lastCol => allows_pure.mpr ?_)
  refine MadeOf.moved ?_ ((htop.moved.trans hbottom.moved).trans ⟨hclamped.size, hclamped.rows⟩)
  refine ⟨hsize, fun row hrow => ?_⟩
  rcases List.mem_append.mp hrow with hold | hnew
  · obtain ⟨old, hmem, rfl⟩ := List.mem_map.mp (List.mem_of_mem_take hold)
    refine Row.MadeOf.resize hkind ?_ _
    split at hmem
    · obtain ⟨unwrapped, hunwrapped, rfl⟩ := List.mem_map.mp hmem
      exact h.rows unwrapped hunwrapped
    · exact h.rows old hmem
  · rw [List.eq_of_mem_replicate hnew]
    exact Row.madeOf_new hkind _

end Grid

/-! ### Screens -/

structure Screen.MadeOf (S : Size → Prop) (P : Cell → Prop) (Q : Attrs → Prop) (s : Screen) : Prop where
  grid : s.grid.MadeOf S P
  alternate : s.alternateGrid.MadeOf S P
  attrs : Q s.attrs
  savedAttrs : Q s.savedAttrs

namespace Screen

variable {s : Screen}

/-- When a control function returns, the screen is made as before. -/
def Stays (S : Size → Prop) (P : Cell → Prop) (Q : Attrs → Prop) (op : Screen → Except Fault Screen) : Prop :=
  ∀ s, s.MadeOf S P Q → Allows (op s) (MadeOf S P Q)

/-- The same, for one that may call `unhandled`. -/
def StaysFlagged (S : Size → Prop) (P : Cell → Prop) (Q : Attrs → Prop) (op : Screen → Except Fault (Screen × Bool)) : Prop :=
  ∀ s, s.MadeOf S P Q → Allows (op s) fun handled => handled.1.MadeOf S P Q

theorem Stays.bind {op next : Screen → Except Fault Screen} (hop : Stays S P Q op) (hnext : Stays S P Q next) :
    Stays S P Q fun s => op s >>= next :=
  fun s h => allows_bind.mpr ((hop s h).mono hnext)

theorem Stays.flagged {op : Screen → Except Fault Screen} (hop : Stays S P Q op) :
    StaysFlagged S P Q fun s => do return (← op s, false) :=
  fun s h => allows_bind.mpr ((hop s h).mono fun _ ht => allows_pure.mpr ht)

theorem MadeOf.active (h : s.MadeOf S P Q) : s.activeGrid.MadeOf S P := by
  unfold activeGrid
  split
  · exact h.alternate
  · exact h.grid

theorem MadeOf.allows_gridMut (h : s.MadeOf S P Q) {change : Grid → Except Fault Grid}
    (hchange : Allows (change s.activeGrid) (Grid.MadeOf S P)) : Allows (s.gridMut change) (MadeOf S P Q) := by
  refine allows_bind.mpr (hchange.mono fun g hg => allows_pure.mpr ?_)
  split
  · exact { h with alternate := hg }
  · exact { h with grid := hg }

theorem stays_gridMut {change : Grid → Except Fault Grid} (hchange : Grid.Stays S P change) :
    Stays S P Q (·.gridMut change) :=
  fun _ h => h.allows_gridMut (hchange _ h.active)

theorem stays_gridMut_attrs {change : Attrs → Grid → Except Fault Grid}
    (hchange : ∀ attrs, Q attrs → Grid.Stays S P (change attrs)) : Stays S P Q fun s => s.gridMut (change s.attrs) :=
  fun _ h => h.allows_gridMut (hchange _ h.attrs _ h.active)

theorem stays_moved {change : Grid → Except Fault Grid} (hchange : ∀ g, Allows (change g) (Grid.Moved g)) :
    Stays S P Q (·.gridMut change) := stays_gridMut (Grid.stays_of_moved hchange)

theorem stays_saveCursor : Stays S P Q saveCursor := by
  intro s h
  have hmoved := stays_moved (S := S) (P := P) (Q := Q) fun g => allows_pure.mpr (Grid.Moved.mk (t := g.saveCursor) rfl rfl)
  exact allows_bind.mpr ((hmoved s h).mono fun t ht => allows_pure.mpr { ht with savedAttrs := ht.attrs })

theorem stays_restoreCursor : Stays S P Q restoreCursor := by
  intro s h
  have hmoved := stays_moved (S := S) (P := P) (Q := Q) fun g => allows_pure.mpr (Grid.Moved.mk (t := g.restoreCursor) rfl rfl)
  exact allows_bind.mpr ((hmoved s h).mono fun t ht => allows_pure.mpr { ht with attrs := ht.savedAttrs })

theorem madeOf_new (hkind : Kind P Q) {size : Size} (hsize : S size) : Allows (Screen.new size) (MadeOf S P Q) := by
  have hnew : Allows (Grid.new size) (Grid.MadeOf S P) := Grid.madeOf_new hsize
  refine allows_bind.mpr (hnew.mono fun grid hgrid => allows_bind.mpr ?_)
  refine hnew.mono fun alternate halternate => allows_pure.mpr ?_
  exact ⟨hgrid.allocateRows hkind, halternate, hkind.rendition.default, hkind.rendition.default⟩

theorem MadeOf.allows_setSize (hkind : Kind P Q) (h : s.MadeOf S P Q) {rows cols : Nat} (hsize : S ⟨rows, cols⟩) :
    Allows (s.setSize rows cols) (MadeOf S P Q) := by
  refine allows_bind.mpr ((h.grid.allows_setSize hkind hsize).mono fun grid hgrid => allows_bind.mpr ?_)
  refine (h.alternate.allows_setSize hkind hsize).mono fun alternate halternate => allows_pure.mpr ?_
  exact { h with grid := hgrid, alternate := halternate }

theorem stays_ris (hkind : Kind P Q) : Stays S P Q ris := fun _ h => madeOf_new hkind h.grid.size

theorem MadeOf.enterAlternateGrid (hkind : Kind P Q) (h : s.MadeOf S P Q) : s.enterAlternateGrid.MadeOf S P Q :=
  { h with alternate := h.alternate.allocateRows hkind }

theorem stays_decsetParam (hkind : Kind P Q) (param : List Nat) : StaysFlagged S P Q (·.decsetParam param) := by
  intro s h
  show Allows (s.decsetParam param) _
  unfold decsetParam
  split
  · exact (stays_moved (Grid.allows_setOriginMode _)).flagged s h
  · exact allows_pure.mpr (h.enterAlternateGrid hkind)
  · refine allows_bind.mpr ((stays_saveCursor s h).mono fun t ht => allows_bind.mpr ?_)
    refine (Grid.stays_clear hkind _ ht.alternate).mono fun alternate halternate => allows_pure.mpr ?_
    exact MadeOf.enterAlternateGrid hkind { ht with alternate := halternate }
  · exact allows_ite.mpr ⟨fun _ => allows_pure.mpr { h with }, fun _ => allows_pure.mpr h⟩
  · exact allows_pure.mpr h

theorem stays_decrstParam (param : List Nat) : StaysFlagged S P Q (·.decrstParam param) := by
  intro s h
  show Allows (s.decrstParam param) _
  unfold decrstParam
  split
  · exact (stays_moved (Grid.allows_setOriginMode _)).flagged s h
  · exact allows_pure.mpr { h with }
  · exact stays_restoreCursor.flagged s.exitAlternateGrid { h with }
  · exact allows_ite.mpr ⟨fun _ => allows_pure.mpr { h with }, fun _ => allows_pure.mpr h⟩
  · exact allows_pure.mpr h

theorem stays_forParams {handle : Screen → List Nat → Except Fault (Screen × Bool)}
    (hhandle : ∀ param, StaysFlagged S P Q (handle · param)) (params : List (List Nat)) :
    StaysFlagged S P Q (·.forParams handle params) := by
  intro s h
  refine Allows.foldlM (P := fun handled : Screen × Bool => handled.1.MadeOf S P Q) h (fun handled param hhandled => ?_) params
  exact allows_bind.mpr ((hhandle param handled.1 hhandled).mono fun _ ht => allows_pure.mpr ht)

theorem stays_ed (hkind : Kind P Q) (mode : Nat) : StaysFlagged S P Q (·.ed mode) := by
  intro s h
  show Allows (s.ed mode) _
  unfold ed
  split
  · exact (stays_gridMut_attrs fun _ ha => Grid.stays_eraseAllForward hkind ha).flagged s h
  · exact (stays_gridMut_attrs fun _ ha => Grid.stays_eraseAllBackward hkind ha).flagged s h
  · exact (stays_gridMut (Grid.stays_eraseAll hkind h.attrs)).flagged s h
  · exact allows_pure.mpr h

theorem stays_el (hkind : Kind P Q) (mode : Nat) : StaysFlagged S P Q (·.el mode) := by
  intro s h
  show Allows (s.el mode) _
  unfold el
  split
  · exact (stays_gridMut_attrs fun _ ha => Grid.stays_eraseRowForward hkind ha).flagged s h
  · exact (stays_gridMut_attrs fun _ ha => Grid.stays_eraseRowBackward hkind ha).flagged s h
  · exact (stays_gridMut_attrs fun _ ha => Grid.stays_eraseRow hkind ha).flagged s h
  · exact allows_pure.mpr h

theorem stays_sgr (hkind : Kind P Q) (params : List (List Nat)) : StaysFlagged S P Q fun s => pure (s.sgr params) := by
  intro s h
  refine allows_pure.mpr ?_
  unfold sgr
  split
  · exact { h with attrs := hkind.rendition.default }
  · exact { h with attrs := hkind.rendition.sgrLoop h.attrs params 0 false }

end Screen

/-! ### Events -/

namespace WrappedScreen

variable {w : WrappedScreen} {unicode : UnicodeWidth}

theorem allows_onScreen (h : w.screen.MadeOf S P Q) {change : Screen → Except Fault Screen}
    (hchange : Screen.Stays S P Q change) : Allows (w.onScreen change) (·.screen.MadeOf S P Q) :=
  allows_bind.mpr ((hchange w.screen h).mono fun _ ht => allows_pure.mpr ht)

theorem allows_orUnhandled (h : w.screen.MadeOf S P Q) {change : Screen → Except Fault (Screen × Bool)}
    (hchange : Screen.StaysFlagged S P Q change) (params : List (List Nat)) (intermediate : Option UInt8) (c : Char) :
    Allows (w.orUnhandled params intermediate c change) (·.screen.MadeOf S P Q) :=
  allows_bind.mpr ((hchange w.screen h).mono fun _ ht => allows_pure.mpr ht)

theorem allows_execute (hkind : Kind P Q) (h : w.screen.MadeOf S P Q) (b : UInt8) :
    Allows (w.execute b) (·.screen.MadeOf S P Q) := by
  have hlf : Screen.Stays S P Q Screen.lf := Screen.stays_gridMut (Grid.stays_lineFeed hkind)
  unfold execute
  split
  · exact allows_pure.mpr h
  · exact allows_onScreen h (Screen.stays_moved fun _ => allows_pure.mpr ⟨rfl, rfl⟩)
  · exact allows_onScreen h (Screen.stays_moved Grid.allows_colTab)
  · exact allows_onScreen h hlf
  · exact allows_onScreen h hlf
  · exact allows_onScreen h hlf
  · exact allows_onScreen h (Screen.stays_moved (Grid.allows_colSet 0))
  · exact allows_pure.mpr h
  · exact allows_pure.mpr h
  · exact allows_pure.mpr h

theorem allows_escDispatch (hkind : Kind P Q) (h : w.screen.MadeOf S P Q) (intermediates : Bytes) (b : UInt8) :
    Allows (w.escDispatch intermediates b) (·.screen.MadeOf S P Q) := by
  unfold escDispatch
  split
  · exact allows_pure.mpr h
  · split
    · exact allows_onScreen h Screen.stays_saveCursor
    · exact allows_onScreen h Screen.stays_restoreCursor
    · exact allows_onScreen h fun s hs => allows_pure.mpr { hs with }
    · exact allows_onScreen h fun s hs => allows_pure.mpr { hs with }
    · exact allows_onScreen h (Screen.stays_gridMut (Grid.stays_rowDecScroll hkind 1))
    · exact allows_onScreen h (Screen.stays_ris hkind)
    · exact allows_pure.mpr h
    · exact allows_pure.mpr h

theorem allows_csiDispatch (hkind : Kind P Q) (h : w.screen.MadeOf S P Q) (params : List (List Nat))
    (intermediates : Bytes) (c : Char) : Allows (w.csiDispatch params intermediates c) (·.screen.MadeOf S P Q) := by
  have hon {change : Grid → Except Fault Grid} (hchange : Grid.Stays S P change) :=
    allows_onScreen h (Screen.stays_gridMut hchange)
  have hmove {change : Grid → Except Fault Grid} (hchange : ∀ g, Allows (change g) (Grid.Moved g)) :=
    allows_onScreen h (Screen.stays_moved hchange)
  -- A parameter is brought down to an index first.
  have hless {a : Nat} {op : Nat → Screen → Except Fault Screen} (hop : ∀ n, Screen.Stays S P Q (op n)) :
      Screen.Stays S P Q fun s => (Checked.sub a 1 >>= fun n => op n s) :=
    fun s hs => allows_bind.mpr (.of_forall fun n => hop n s hs)
  unfold csiDispatch
  split
  · split
    · exact hon (Grid.stays_insertCells hkind _)
    · exact hmove (Grid.allows_rowDecClamp _)
    · exact hmove (Grid.allows_rowIncClamp _)
    · exact hmove fun g => Grid.allows_colSet _ g
    · exact hmove fun g => allows_pure.mpr ⟨rfl, rfl⟩
    · exact allows_onScreen h
        ((Screen.stays_moved (Grid.allows_colSet 0)).bind (Screen.stays_moved (Grid.allows_rowIncClamp _)))
    · exact allows_onScreen h
        ((Screen.stays_moved (Grid.allows_colSet 0)).bind (Screen.stays_moved (Grid.allows_rowDecClamp _)))
    · exact allows_onScreen h (hless fun _ => Screen.stays_moved (Grid.allows_colSet _))
    · exact allows_onScreen h (hless fun _ => hless fun _ => Screen.stays_moved (Grid.allows_setPos _))
    · exact allows_orUnhandled h (Screen.stays_ed hkind _) _ _ _
    · exact allows_orUnhandled h (Screen.stays_el hkind _) _ _ _
    · exact hon (Grid.stays_insertLines hkind _)
    · exact hon (Grid.stays_deleteLines hkind _)
    · exact hon (Grid.stays_deleteCells hkind _)
    · exact hon (Grid.stays_scrollUp hkind _)
    · exact hon (Grid.stays_scrollDown hkind _)
    · exact allows_onScreen h (Screen.stays_gridMut_attrs fun _ ha => Grid.stays_eraseCells hkind ha _)
    · exact allows_onScreen h (hless fun _ => Screen.stays_moved (Grid.allows_rowSet _))
    · exact allows_orUnhandled h (Screen.stays_sgr hkind params) _ _ _
    · exact allows_onScreen h (hless fun _ => hless fun _ => Screen.stays_moved (Grid.allows_setScrollRegion _ _))
    · exact allows_ite.mpr ⟨fun _ => allows_pure.mpr h, fun _ => allows_pure.mpr h⟩
    · exact allows_pure.mpr h
  · split
    · exact allows_orUnhandled h (Screen.stays_ed hkind _) _ _ _
    · exact allows_orUnhandled h (Screen.stays_el hkind _) _ _ _
    · exact allows_orUnhandled h (Screen.stays_forParams (Screen.stays_decsetParam hkind) params) _ _ _
    · exact allows_orUnhandled h (Screen.stays_forParams Screen.stays_decrstParam params) _ _ _
    · exact allows_pure.mpr h
  · exact allows_pure.mpr h

/-- Every event but a printed character leaves the screen made as before. -/
theorem allows_perform (hkind : Kind P Q) (h : w.screen.MadeOf S P Q) {event : Event}
    (hprint : ∀ c, event = .print c → Allows (w.print unicode c) (·.screen.MadeOf S P Q)) :
    Allows (w.perform unicode event) (·.screen.MadeOf S P Q) := by
  cases event with
  | print c => exact hprint c rfl
  | execute b => exact allows_execute hkind h b
  | hook => exact allows_pure.mpr h
  | oscDispatch params =>
    refine allows_pure.mpr ?_
    unfold oscDispatch
    split <;> exact h
  | csiDispatch params intermediates c => exact allows_csiDispatch hkind h params intermediates c
  | escDispatch intermediates b => exact allows_escDispatch hkind h intermediates b

theorem allows_print (h : w.screen.MadeOf S P Q) {c : Char}
    (htext : Grid.Stays S P (·.text unicode w.screen.attrs c)) : Allows (w.print unicode c) (·.screen.MadeOf S P Q) := by
  refine allows_ite.mpr ⟨fun _ => allows_pure.mpr h, fun _ => allows_bind.mpr ?_⟩
  exact (h.allows_gridMut (htext _ h.active)).mono fun _ ht => allows_pure.mpr ht

/-- What joining a scalar keeps as well, every event keeps. -/
theorem allows_process (hkind : Kind P Q) (happend : ∀ (c : Char) (cell : Cell), P cell → Allows (cell.append c) P)
    (h : w.screen.MadeOf S P Q) (events : List Event) :
    Allows (w.process unicode events) (·.screen.MadeOf S P Q) := by
  refine Allows.foldlM (P := fun w : WrappedScreen => w.screen.MadeOf S P Q) h (fun w event hw => ?_) events
  exact allows_perform hkind hw fun c _ => allows_print hw (Grid.stays_text hkind hw.attrs fun _ => happend c)

end WrappedScreen

/-! ### Terminal states -/

namespace TerminalState

variable {crates : Crates} {s t : TerminalState}

/-- The states of all runs, also of those in which a resize cuts wide characters. -/
inductive Built (crates : Crates) : TerminalState → Prop
  | new {columns rows : Nat} {s : TerminalState} (h : TerminalState.new columns rows = .ok (.ok s)) : Built crates s
  | call {s t : TerminalState} (call : TerminalCall) (hs : Built crates s) (h : call.perform crates s = .ok (.ok t)) :
      Built crates t

/-- Host bytes are applied when they are valid, when the screen handles all that they say, and when it is valid then. -/
structure Hosts (crates : Crates) (s : TerminalState) (bytes : Bytes) (w : WrappedScreen) : Prop where
  valid : validateHostBytes crates bytes = .ok ()
  blank : ∃ blank, Screen.new s.screen.size = .ok blank
  processed : WrappedScreen.process crates.unicode ⟨s.screen, ⟨none⟩⟩ (crates.vte.advance crates.vte.new bytes).1 = .ok w
  handled : w.callbacks.unsupportedSequence = none
  shown : validateScreen w.screen = .ok ()

theorem applyHostBytes_ok_iff {bytes : Bytes} :
    s.applyHostBytes crates bytes = .ok (.ok t) ↔ ∃ w, Hosts crates s bytes w ∧ t = { s with screen := w.screen } := by
  unfold applyHostBytes
  constructor
  · intro h
    split at h
    · cases h
    · rename_i hvalid
      cases hblank : Screen.new s.screen.size with
      | error fault => rw [hblank] at h; cases h
      | ok blank =>
        cases hprocessed : WrappedScreen.process crates.unicode ⟨s.screen, ⟨none⟩⟩
            (crates.vte.advance crates.vte.new bytes).1 with
        | error fault => rw [hblank, hprocessed] at h; cases h
        | ok w =>
          rw [hblank, hprocessed] at h
          simp only [bind, Except.bind] at h
          split at h
          · cases h
          · cases h
          · rename_i hhandled hshown
            cases h
            exact ⟨w, ⟨hvalid, ⟨blank, hblank⟩, hprocessed, hhandled, hshown⟩, rfl⟩
  · rintro ⟨w, ⟨hvalid, ⟨blank, hblank⟩, hprocessed, hhandled, hshown⟩, rfl⟩
    rw [hvalid]
    simp only [hblank, hprocessed, bind, Except.bind]
    rw [hhandled, hshown]
    rfl

/-- An invariant of the screens of terminal states. -/
structure Invariant (crates : Crates) (I : Screen → Prop) : Prop where
  new : ∀ columns rows, isValidSize columns rows = true → Allows (Screen.new ⟨rows, columns⟩) I
  hosts : ∀ s bytes w, I s.screen → Hosts crates s bytes w → I w.screen
  resize : ∀ screen columns rows, isValidSize columns rows = true → I screen → Allows (screen.setSize rows columns) I

/-- The invariant of a result that is not an error. -/
def Shows (I : Screen → Prop) (result : TerminalResult) : Prop := ∀ t, result = .ok t → I t.screen

theorem shows_error {I : Screen → Prop} (e : TerminalError) : Shows I (.error e) := by
  intro t ht
  cases ht

theorem shows_ok {I : Screen → Prop} (h : I s.screen) : Shows I (.ok s) := by
  intro t ht
  cases ht
  exact h

theorem Invariant.allows_new {I : Screen → Prop} (hI : Invariant crates I) (columns rows : Nat) :
    Allows (TerminalState.new columns rows) (Shows I) := by
  unfold TerminalState.new checkedSize
  by_cases hvalid : isValidSize columns rows = true
  · rw [if_pos hvalid]
    exact allows_bind.mpr ((hI.new columns rows hvalid).mono fun screen hscreen => allows_pure.mpr (shows_ok hscreen))
  · rw [if_neg hvalid]
    exact allows_pure.mpr (shows_error _)

theorem Invariant.allows_applyOperation {I : Screen → Prop} (hI : Invariant crates I) (h : I s.screen)
    (operation : TerminalOperation) : Allows (s.applyOperation crates operation) (Shows I) := by
  cases operation with
  | hostBytes bytes =>
    rintro result hresult t rfl
    obtain ⟨w, hw, rfl⟩ := applyHostBytes_ok_iff.mp hresult
    exact hI.hosts s bytes w h hw
  | resize columns rows =>
    unfold applyOperation checkedSize
    by_cases hvalid : isValidSize columns rows = true
    · simp only [if_pos hvalid]
      refine allows_bind.mpr ((hI.resize s.screen columns rows hvalid h).mono fun screen hscreen => ?_)
      exact allows_pure.mpr (shows_ok hscreen)
    · simp only [if_neg hvalid]
      exact allows_pure.mpr (shows_error _)
  | echoAcknowledgement number =>
    exact allows_ite.mpr ⟨fun _ => allows_pure.mpr (shows_error _), fun _ => allows_pure.mpr (shows_ok h)⟩

theorem Invariant.allows_applyOperations {I : Screen → Prop} (hI : Invariant crates I) (h : I s.screen)
    (operations : List TerminalOperation) : Allows (s.applyOperations crates operations) (Shows I) := by
  induction operations generalizing s with
  | nil => exact allows_pure.mpr (shows_ok h)
  | cons operation operations ih =>
    refine allows_bind.mpr ((hI.allows_applyOperation h operation).mono fun result hresult => ?_)
    cases result with
    | error e => exact allows_pure.mpr (shows_error e)
    | ok next => exact ih (hresult next rfl)

theorem Invariant.of_built {I : Screen → Prop} (hI : Invariant crates I) (h : Built crates s) : I s.screen := by
  induction h with
  | @new columns rows s h => exact hI.allows_new columns rows _ h s rfl
  | @call s t call _ h ih =>
    obtain ⟨result, hresult, rfl⟩ := TerminalCall.returns_perform_iff.mp ⟨Except.ok t, h, rfl⟩
    exact hI.allows_applyOperations ih _ _ hresult t rfl

/-- What joining a scalar keeps as well is an invariant, with what the sizes of all terminals have. -/
theorem invariant_madeOf (hkind : Kind P Q) (happend : ∀ (c : Char) (cell : Cell), P cell → Allows (cell.append c) P)
    (hsize : ∀ columns rows, isValidSize columns rows = true → S ⟨rows, columns⟩) :
    Invariant crates (Screen.MadeOf S P Q) where
  new := fun columns rows hvalid => Screen.madeOf_new hkind (hsize columns rows hvalid)
  hosts := fun _ _ w h hw => WrappedScreen.allows_process hkind happend h _ w hw.processed
  resize := fun _ columns rows hvalid h => h.allows_setSize hkind (hsize columns rows hvalid)

end TerminalState

end MoshClient.Vt100
