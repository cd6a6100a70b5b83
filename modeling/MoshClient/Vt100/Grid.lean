import MoshClient.Vt100.Cell

/-! Rows and grids (`vt100/row.rs`, `vt100/grid.rs`). No screen here keeps a scrollback, so that a grid is its rows.
    The lengths and positions are `u16`, and a method panics where it would leave them or miss a row or a cell. -/

namespace MoshClient.Vt100
open Checked

def u16Max : Nat := 65535

def saturatingAdd (a b : Nat) : Nat := min (a + b) u16Max

/-! ### Rows -/

structure Row where
  cells : List Cell
  wrapped : Bool
  deriving DecidableEq, Repr

namespace Row

def new (cols : Nat) : Row := ⟨List.replicate cols .new, false⟩

/-- The number of cells, as a `u16`. -/
def cols (self : Row) : Except Fault Nat :=
  if self.cells.length ≤ u16Max then .ok self.cells.length else .error .unwrap

def clear (self : Row) (attrs : Attrs) : Row := ⟨self.cells.map (·.clear attrs), false⟩

def insert (self : Row) (i : Nat) (cell : Cell) : Except Fault Row := do
  let cells ← Checked.insert self.cells i cell
  return ⟨cells, false⟩

def clearWide (self : Row) (col : Nat) : Except Fault Row := do
  let cell ← index self.cells col
  if cell.isWide then
    let cells ← update self.cells (col + 1) fun other => other.clear other.attrs
    return { self with cells }
  else if cell.isWideContinuation then
    let other ← sub col 1
    let cells ← update self.cells other fun other => other.clear other.attrs
    return { self with cells }
  else return self

def remove (self : Row) (i : Nat) : Except Fault Row := do
  let self ← self.clearWide i
  let cells ← Checked.remove self.cells i
  return ⟨cells, false⟩

def erase (self : Row) (i : Nat) (attrs : Attrs) : Except Fault Row := do
  let cell ← index self.cells i
  let self ← self.clearWide i
  let cells ← update self.cells i (·.clear attrs)
  let cols ← self.cols
  let last ← sub cols (if cell.isWide then 2 else 1)
  return ⟨cells, self.wrapped && i ≠ last⟩

def truncate (self : Row) (len : Nat) : Except Fault Row := do
  let last ← sub len 1
  let cells ← update (self.cells.take len) last fun lastCell =>
    if lastCell.isWide then lastCell.clear lastCell.attrs else lastCell
  return ⟨cells, false⟩

/-- Cuts the row, or fills it up with `cell`. Unlike `truncate`, it leaves a wide cell whose second half is cut. -/
def resize (self : Row) (len : Nat) (cell : Cell) : Row :=
  ⟨self.cells.take len ++ List.replicate (len - self.cells.length) cell, false⟩

def wrap (self : Row) (wrap : Bool) : Row := { self with wrapped := wrap }

end Row

/-! ### Grids -/

structure Size where
  rows : Nat
  cols : Nat
  deriving DecidableEq, Repr

structure Pos where
  row : Nat
  col : Nat
  deriving DecidableEq, Repr

structure Grid where
  size : Size
  pos : Pos
  savedPos : Pos
  rows : List Row
  scrollTop : Nat
  scrollBottom : Nat
  originMode : Bool
  savedOriginMode : Bool
  deriving DecidableEq, Repr

namespace Grid

def new (size : Size) : Except Fault Grid := do
  let scrollBottom ← sub size.rows 1
  return ⟨size, ⟨0, 0⟩, ⟨0, 0⟩, [], 0, scrollBottom, false, false⟩

def newRow (self : Grid) : Row := .new self.size.cols

def allocateRows (self : Grid) : Grid :=
  if self.rows = [] then { self with rows := List.replicate self.size.rows self.newRow } else self

def clear (self : Grid) : Except Fault Grid := do
  let scrollBottom ← sub self.size.rows 1
  return { self with
    pos := ⟨0, 0⟩, savedPos := ⟨0, 0⟩, rows := self.rows.map (·.clear .default), scrollTop := 0, scrollBottom,
    originMode := false, savedOriginMode := false }

/-! Access -/

def drawingRow (self : Grid) (row : Nat) : Except Fault Row := unwrap self.rows[row]?

def drawingCell (self : Grid) (pos : Pos) : Except Fault Cell := do
  let row ← self.drawingRow pos.row
  unwrap row.cells[pos.col]?

/-- `drawing_row_mut`, with the change that is made to the row. -/
def drawingRowMut (self : Grid) (row : Nat) (change : Row → Except Fault Row) : Except Fault Grid := do
  let changed ← change (← self.drawingRow row)
  return { self with rows := self.rows.set row changed }

/-- `drawing_cell_mut`, with the change that is made to the cell. -/
def drawingCellMut (self : Grid) (pos : Pos) (change : Cell → Except Fault Cell) : Except Fault Grid :=
  self.drawingRowMut pos.row fun row => do
    let changed ← change (← unwrap row.cells[pos.col]?)
    return { row with cells := row.cells.set pos.col changed }

def currentRowMut (self : Grid) (change : Row → Except Fault Row) : Except Fault Grid :=
  self.drawingRowMut self.pos.row change

/-! Clamping. The first two return how far the row was moved. -/

def rowClampTop (self : Grid) (limitToScrollRegion : Bool) : Except Fault (Nat × Grid) :=
  if limitToScrollRegion ∧ self.pos.row < self.scrollTop then do
    let rows ← sub self.scrollTop self.pos.row
    return (rows, { self with pos.row := self.scrollTop })
  else return (0, self)

def rowClampBottom (self : Grid) (limitToScrollRegion : Bool) : Except Fault (Nat × Grid) := do
  let bottom ← if limitToScrollRegion then pure self.scrollBottom else sub self.size.rows 1
  if self.pos.row > bottom then
    let rows ← sub self.pos.row bottom
    return (rows, { self with pos.row := bottom })
  else return (0, self)

def rowClamp (self : Grid) : Except Fault Grid := do
  let last ← sub self.size.rows 1
  return { self with pos.row := min self.pos.row last }

def colClamp (self : Grid) : Except Fault Grid := do
  let last ← sub self.size.cols 1
  return { self with pos.col := min self.pos.col last }

/-! The cursor -/

def setPos (self : Grid) (pos : Pos) : Except Fault Grid := do
  let row := if self.originMode then saturatingAdd pos.row self.scrollTop else pos.row
  let (_, self) ← { self with pos := ⟨row, pos.col⟩ }.rowClampTop self.originMode
  let (_, self) ← self.rowClampBottom self.originMode
  self.colClamp

def saveCursor (self : Grid) : Grid := { self with savedPos := self.pos, savedOriginMode := self.originMode }

def restoreCursor (self : Grid) : Grid := { self with pos := self.savedPos, originMode := self.savedOriginMode }

def setOriginMode (self : Grid) (mode : Bool) : Except Fault Grid := { self with originMode := mode }.setPos ⟨0, 0⟩

def inScrollRegion (self : Grid) : Bool := self.scrollTop ≤ self.pos.row ∧ self.pos.row ≤ self.scrollBottom

def setScrollRegion (self : Grid) (top bottom : Nat) : Except Fault Grid := do
  let last ← sub self.size.rows 1
  let bottom := min bottom last
  let self :=
    if top < bottom then { self with scrollTop := top, scrollBottom := bottom }
    else { self with scrollTop := 0, scrollBottom := last }
  return { self with pos := ⟨self.scrollTop, 0⟩ }

def rowSet (self : Grid) (i : Nat) : Except Fault Grid := { self with pos.row := i }.rowClamp

def colSet (self : Grid) (i : Nat) : Except Fault Grid := { self with pos.col := i }.colClamp

def colInc (self : Grid) (count : Nat) : Grid := { self with pos.col := saturatingAdd self.pos.col count }

def colIncClamp (self : Grid) (count : Nat) : Except Fault Grid := (self.colInc count).colClamp

def colDec (self : Grid) (count : Nat) : Grid := { self with pos.col := self.pos.col - count }

def colTab (self : Grid) : Except Fault Grid := do
  let col ← sub self.pos.col (self.pos.col % 8)
  { self with pos.col := col + 8 }.colClamp

def rowIncClamp (self : Grid) (count : Nat) : Except Fault Grid := do
  let (_, self) ← { self with pos.row := saturatingAdd self.pos.row count }.rowClampBottom self.inScrollRegion
  return self

def rowDecClamp (self : Grid) (count : Nat) : Except Fault Grid := do
  let (_, self) ← { self with pos.row := self.pos.row - count }.rowClampTop self.inScrollRegion
  return self

/-! Erasing -/

def eraseAll (self : Grid) (attrs : Attrs) : Grid := { self with rows := self.rows.map (·.clear attrs) }

def eraseRow (self : Grid) (attrs : Attrs) : Except Fault Grid := self.currentRowMut fun row => pure (row.clear attrs)

def eraseRowForward (self : Grid) (attrs : Attrs) : Except Fault Grid :=
  self.currentRowMut (forRange self.pos.col self.size.cols fun col row => row.erase col attrs)

def eraseRowBackward (self : Grid) (attrs : Attrs) : Except Fault Grid := do
  let last ← sub self.size.cols 1
  self.currentRowMut (forRange 0 (min self.pos.col last + 1) fun col row => row.erase col attrs)

def eraseAllForward (self : Grid) (attrs : Attrs) : Except Fault Grid :=
  let below := (self.rows.drop (self.pos.row + 1)).map (·.clear attrs)
  { self with rows := self.rows.take (self.pos.row + 1) ++ below }.eraseRowForward attrs

def eraseAllBackward (self : Grid) (attrs : Attrs) : Except Fault Grid :=
  let above := (self.rows.take self.pos.row).map (·.clear attrs)
  { self with rows := above ++ self.rows.drop self.pos.row }.eraseRowBackward attrs

def eraseCells (self : Grid) (count : Nat) (attrs : Attrs) : Except Fault Grid :=
  self.currentRowMut
    (forRange self.pos.col (min (saturatingAdd self.pos.col count) self.size.cols) fun col row => row.erase col attrs)

/-! Inserting and deleting -/

/-- A round of `insert_cells`. Between the halves of a wide character, the new cell takes the place of the second. -/
def insertCell (col : Nat) (wide : Bool) (row : Row) : Except Fault Row := do
  let row ←
    if wide then do
      let cells ← update row.cells col (·.setWideContinuation false)
      pure { row with cells }
    else pure row
  let row ← row.insert col .new
  if wide then
    let cells ← update row.cells col (·.setWideContinuation true)
    return { row with cells }
  else return row

def insertCells (self : Grid) (count : Nat) : Except Fault Grid := do
  let wide ←
    if self.pos.col < self.size.cols then do
      let cell ← self.drawingCell self.pos
      pure cell.isWideContinuation
    else pure false
  self.currentRowMut fun row => do
    let row ← iterate (insertCell self.pos.col wide) count row
    row.truncate self.size.cols

def deleteCells (self : Grid) (count : Nat) : Except Fault Grid := do
  let rest ← sub self.size.cols self.pos.col
  self.currentRowMut fun row => do
    let row ← iterate (fun row => row.remove self.pos.col) (min count rest) row
    return row.resize self.size.cols .new

/-- Removes the last row of the scroll region, and inserts an empty one at `row`. -/
def insertLine (self : Grid) (row : Nat) : Except Fault Grid := do
  let rows ← Checked.remove self.rows self.scrollBottom
  let rows ← Checked.insert rows row self.newRow
  let rows ← update rows self.scrollBottom (·.wrap false)
  return { self with rows }

/-- Inserts an empty row below the scroll region, and removes the one at `row`. -/
def deleteLine (self : Grid) (row : Nat) : Except Fault Grid := do
  let rows ← Checked.insert self.rows (self.scrollBottom + 1) self.newRow
  let rows ← Checked.remove rows row
  return { self with rows }

def insertLines (self : Grid) (count : Nat) : Except Fault Grid :=
  iterate (fun self => self.insertLine self.pos.row) count self

def deleteLines (self : Grid) (count : Nat) : Except Fault Grid := do
  let rest ← sub self.size.rows self.pos.row
  iterate (fun self => self.deleteLine self.pos.row) (min count rest) self

def scrollUp (self : Grid) (count : Nat) : Except Fault Grid := do
  let rest ← sub self.size.rows self.scrollTop
  iterate (fun self => self.deleteLine self.scrollTop) (min count rest) self

def scrollDown (self : Grid) (count : Nat) : Except Fault Grid :=
  iterate (fun self => self.insertLine self.scrollTop) count self

/-- Returns how far the region was scrolled. -/
def rowIncScroll (self : Grid) (count : Nat) : Except Fault (Nat × Grid) := do
  let inScrollRegion := self.inScrollRegion
  let (lines, self) ← { self with pos.row := saturatingAdd self.pos.row count }.rowClampBottom inScrollRegion
  if inScrollRegion then
    let self ← self.scrollUp lines
    return (lines, self)
  else return (0, self)

def rowDecScroll (self : Grid) (count : Nat) : Except Fault Grid := do
  let extraLines := count - self.pos.row
  let (lines, self) ← { self with pos.row := self.pos.row - count }.rowClampTop self.inScrollRegion
  self.scrollDown (lines + extraLines)

def colWrap (self : Grid) (width : Nat) (wrap : Bool) : Except Fault Grid := do
  let limit ← sub self.size.cols width
  if self.pos.col > limit then
    let prevPos := self.pos
    let (scrolled, self) ← { self with pos.col := 0 }.rowIncScroll 1
    let prevRow ← sub prevPos.row scrolled
    self.drawingRowMut prevRow fun row => pure (row.wrap (wrap && prevRow + 1 = self.pos.row))
  else return self

/-! Size -/

def setSize (self : Grid) (size : Size) : Except Fault Grid := do
  let rows := if size.cols ≠ self.size.cols then self.rows.map (·.wrap false) else self.rows
  let oldLast ← sub self.size.rows 1
  let last ← sub size.rows 1
  let scrollBottom := if self.scrollBottom = oldLast then last else self.scrollBottom
  let rows := rows.map (·.resize size.cols .new)
  let rows := rows.take size.rows ++ List.replicate (size.rows - rows.length) (.new size.cols)
  let scrollBottom := if scrollBottom ≥ size.rows then last else scrollBottom
  let scrollTop := if scrollBottom < self.scrollTop then 0 else self.scrollTop
  let (_, self) ← { self with size, rows, scrollTop, scrollBottom }.rowClampTop false
  let (_, self) ← self.rowClampBottom false
  let self ← self.colClamp
  let lastCol ← sub self.size.cols 1
  return { self with savedPos := ⟨min self.savedPos.row last, min self.savedPos.col lastCol⟩ }

end Grid

end MoshClient.Vt100
