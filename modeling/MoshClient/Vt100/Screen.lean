import MoshClient.Paint
import MoshClient.Vt100.Grid

/-! The screen and the control functions that change it (`vt100/screen.rs`). -/

namespace MoshClient.Vt100
open Checked

/-! ### Drawing text -/

namespace Grid

/-- A scalar without a width of its own joins the character before the cursor, in this row or at the end of the row
    that wraps into it. -/
def combine (self : Grid) (c : Char) : Except Fault Grid := do
  if self.pos.col > 0 then
    let col ← sub self.pos.col 1
    let prevCell ← self.drawingCell ⟨self.pos.row, col⟩
    let col ← if prevCell.isWideContinuation then sub self.pos.col 2 else pure col
    self.drawingCellMut ⟨self.pos.row, col⟩ (·.append c)
  else if self.pos.row > 0 then
    let row ← sub self.pos.row 1
    let prevRow ← self.drawingRow row
    if prevRow.wrapped then
      let col ← sub self.size.cols 1
      let prevCell ← self.drawingCell ⟨row, col⟩
      let col ← if prevCell.isWideContinuation then sub self.size.cols 2 else pure col
      self.drawingCellMut ⟨row, col⟩ (·.append c)
    else return self
  else return self

/-- The first half of a wide character whose second half is about to be drawn over. -/
def clearFirstHalf (self : Grid) (attrs : Attrs) : Except Fault Grid := do
  let cell ← self.drawingCell self.pos
  if cell.isWideContinuation then
    let col ← sub self.pos.col 1
    self.drawingCellMut ⟨self.pos.row, col⟩ fun prevCell => pure (prevCell.clear attrs)
  else return self

/-- The second half of a wide character whose first half is about to be drawn over becomes a space. -/
def clearSecondHalf (unicode : UnicodeWidth) (self : Grid) (attrs : Attrs) : Except Fault Grid := do
  let cell ← self.drawingCell self.pos
  if cell.isWide then
    self.drawingCellMut ⟨self.pos.row, self.pos.col + 1⟩ fun nextCell => nextCell.set unicode ' ' attrs
  else return self

/-- The second half of a wide character whose first half is about to become the second half of another. -/
def clearNextHalf (self : Grid) (attrs : Attrs) : Except Fault Grid := do
  let cell ← self.drawingCell self.pos
  if cell.isWide then
    let nextNextPos : Pos := ⟨self.pos.row, self.pos.col + 1⟩
    let self ← self.drawingCellMut nextNextPos fun nextNextCell => pure (nextNextCell.clear attrs)
    let last ← sub self.size.cols 1
    if nextNextPos.col = last then self.drawingRowMut self.pos.row fun row => pure (row.wrap false) else return self
  else return self

/-- The second half of a wide character, at the cursor. -/
def continueWide (self : Grid) (attrs : Attrs) : Except Fault Grid := do
  let self ← self.clearNextHalf attrs
  let self ← self.drawingCellMut self.pos fun nextCell => pure ((nextCell.clear .default).setWideContinuation true)
  return self.colInc 1

/-- A character of one or two columns is drawn at the cursor. -/
def draw (unicode : UnicodeWidth) (self : Grid) (width : Nat) (attrs : Attrs) (c : Char) : Except Fault Grid := do
  let self ← self.clearFirstHalf attrs
  let self ← self.clearSecondHalf unicode attrs
  let self ← self.drawingCellMut self.pos fun cell => cell.set unicode c attrs
  let self := self.colInc 1
  if width > 1 then self.continueWide attrs else return self

/-- Whether a row ends in text, so that the next character continues it. -/
def endsInText (self : Grid) (width : Nat) : Except Fault Bool := do
  let limit ← sub self.size.cols width
  if self.pos.col > limit then
    let col ← sub self.size.cols 1
    let lastCell ← self.drawingCell ⟨self.pos.row, col⟩
    return lastCell.hasContents || lastCell.isWideContinuation
  else return false

def text (unicode : UnicodeWidth) (self : Grid) (attrs : Attrs) (c : Char) : Except Fault Grid :=
  let width := unicode.terminalWidth c
  if width.isNone && c.toNat < 256 then return self
  else do
    let width := width.getD 1
    let wrap ← self.endsInText width
    let self ← self.colWrap width wrap
    if width = 0 then self.combine c else self.draw unicode width attrs c

end Grid

/-! ### Screens -/

structure Screen where
  grid : Grid
  alternateGrid : Grid
  attrs : Attrs
  savedAttrs : Attrs
  modes : ScreenModes
  deriving DecidableEq, Repr

namespace Screen

def new (size : Size) : Except Fault Screen := do
  let grid ← Grid.new size
  let alternateGrid ← Grid.new size
  return ⟨grid.allocateRows, alternateGrid, .default, .default, .new⟩

def setSize (self : Screen) (rows cols : Nat) : Except Fault Screen := do
  let grid ← self.grid.setSize ⟨rows, cols⟩
  let alternateGrid ← self.alternateGrid.setSize ⟨rows, cols⟩
  return { self with grid, alternateGrid }

/-- `grid()`, the grid that is shown. -/
def activeGrid (self : Screen) : Grid := if self.modes.mode .alternateScreen then self.alternateGrid else self.grid

/-- `grid_mut()`, with the change that is made to the grid. -/
def gridMut (self : Screen) (change : Grid → Except Fault Grid) : Except Fault Screen := do
  let changed ← change self.activeGrid
  return if self.modes.mode .alternateScreen then { self with alternateGrid := changed } else { self with grid := changed }

def size (self : Screen) : Size := self.activeGrid.size

def cell (self : Screen) (row col : Nat) : Option Cell := do
  let row ← self.activeGrid.rows[row]?
  row.cells[col]?

def setMode (self : Screen) (flag : ModeFlag) : Screen := { self with modes := self.modes.setMode flag }

def clearMode (self : Screen) (flag : ModeFlag) : Screen := { self with modes := self.modes.clearMode flag }

def enterAlternateGrid (self : Screen) : Screen :=
  { self.setMode .alternateScreen with alternateGrid := self.alternateGrid.allocateRows }

def exitAlternateGrid (self : Screen) : Screen := self.clearMode .alternateScreen

def saveCursor (self : Screen) : Except Fault Screen := do
  let self ← self.gridMut fun grid => pure grid.saveCursor
  return { self with savedAttrs := self.attrs }

def restoreCursor (self : Screen) : Except Fault Screen := do
  let self ← self.gridMut fun grid => pure grid.restoreCursor
  return { self with attrs := self.savedAttrs }

def text (unicode : UnicodeWidth) (self : Screen) (c : Char) : Except Fault Screen :=
  self.gridMut fun grid => grid.text unicode self.attrs c

/-! Control codes -/

def bs (self : Screen) : Except Fault Screen := self.gridMut fun grid => pure (grid.colDec 1)

def tab (self : Screen) : Except Fault Screen := self.gridMut Grid.colTab

def lf (self : Screen) : Except Fault Screen := self.gridMut fun grid => do
  let (_, grid) ← grid.rowIncScroll 1
  return grid

def vt (self : Screen) : Except Fault Screen := self.lf

def ff (self : Screen) : Except Fault Screen := self.lf

def cr (self : Screen) : Except Fault Screen := self.gridMut (·.colSet 0)

/-! Escape codes -/

def decsc (self : Screen) : Except Fault Screen := self.saveCursor

def decrc (self : Screen) : Except Fault Screen := self.restoreCursor

def deckpam (self : Screen) : Screen := self.setMode .applicationKeypad

def deckpnm (self : Screen) : Screen := self.clearMode .applicationKeypad

def ri (self : Screen) : Except Fault Screen := self.gridMut (·.rowDecScroll 1)

def ris (self : Screen) : Except Fault Screen := Screen.new self.grid.size

/-! `CSI` codes. The flag of a result says that `unhandled` was called. -/

def ich (self : Screen) (count : Nat) : Except Fault Screen := self.gridMut (·.insertCells count)

def cuu (self : Screen) (offset : Nat) : Except Fault Screen := self.gridMut (·.rowDecClamp offset)

def cud (self : Screen) (offset : Nat) : Except Fault Screen := self.gridMut (·.rowIncClamp offset)

def cuf (self : Screen) (offset : Nat) : Except Fault Screen := self.gridMut (·.colIncClamp offset)

def cub (self : Screen) (offset : Nat) : Except Fault Screen := self.gridMut fun grid => pure (grid.colDec offset)

def cnl (self : Screen) (offset : Nat) : Except Fault Screen := do
  let self ← self.gridMut (·.colSet 0)
  self.gridMut (·.rowIncClamp offset)

def cpl (self : Screen) (offset : Nat) : Except Fault Screen := do
  let self ← self.gridMut (·.colSet 0)
  self.gridMut (·.rowDecClamp offset)

def cha (self : Screen) (col : Nat) : Except Fault Screen := do
  let col ← sub col 1
  self.gridMut (·.colSet col)

def cup (self : Screen) (row col : Nat) : Except Fault Screen := do
  let row ← sub row 1
  let col ← sub col 1
  self.gridMut (·.setPos ⟨row, col⟩)

def ed (self : Screen) (mode : Nat) : Except Fault (Screen × Bool) :=
  match mode with
  | 0 => return (← self.gridMut (·.eraseAllForward self.attrs), false)
  | 1 => return (← self.gridMut (·.eraseAllBackward self.attrs), false)
  | 2 => return (← self.gridMut fun grid => pure (grid.eraseAll self.attrs), false)
  | _ => return (self, true)

def decsed (self : Screen) (mode : Nat) : Except Fault (Screen × Bool) := self.ed mode

def el (self : Screen) (mode : Nat) : Except Fault (Screen × Bool) :=
  match mode with
  | 0 => return (← self.gridMut (·.eraseRowForward self.attrs), false)
  | 1 => return (← self.gridMut (·.eraseRowBackward self.attrs), false)
  | 2 => return (← self.gridMut (·.eraseRow self.attrs), false)
  | _ => return (self, true)

def decsel (self : Screen) (mode : Nat) : Except Fault (Screen × Bool) := self.el mode

def il (self : Screen) (count : Nat) : Except Fault Screen := self.gridMut (·.insertLines count)

def dl (self : Screen) (count : Nat) : Except Fault Screen := self.gridMut (·.deleteLines count)

def dch (self : Screen) (count : Nat) : Except Fault Screen := self.gridMut (·.deleteCells count)

def su (self : Screen) (count : Nat) : Except Fault Screen := self.gridMut (·.scrollUp count)

def sd (self : Screen) (count : Nat) : Except Fault Screen := self.gridMut (·.scrollDown count)

def ech (self : Screen) (count : Nat) : Except Fault Screen := self.gridMut (·.eraseCells count self.attrs)

def vpa (self : Screen) (row : Nat) : Except Fault Screen := do
  let row ← sub row 1
  self.gridMut (·.rowSet row)

def decstbm (self : Screen) (top bottom : Nat) : Except Fault Screen := do
  let top ← sub top 1
  let bottom ← sub bottom 1
  self.gridMut (·.setScrollRegion top bottom)

/-- A parameter of `CSI ? h`. The modes that touch no grid are those of `ScreenModes.decset`. -/
def decsetParam (self : Screen) (param : List Nat) : Except Fault (Screen × Bool) :=
  match param with
  | [6] => return (← self.gridMut (·.setOriginMode true), false)
  | [47] => return (self.enterAlternateGrid, false)
  | [1049] => do
    let self ← self.decsc
    let alternateGrid ← self.alternateGrid.clear
    return ({ self with alternateGrid }.enterAlternateGrid, false)
  | [param] =>
    if param ∈ [1, 5, 9, 25, 1000, 1002, 1003, 1005, 1006, 2004] then
      return ({ self with modes := self.modes.decset [param] }, false)
    else return (self, true)
  | _ => return (self, true)

/-- A parameter of `CSI ? l`. The modes that touch no grid are those of `ScreenModes.decrst`. -/
def decrstParam (self : Screen) (param : List Nat) : Except Fault (Screen × Bool) :=
  match param with
  | [6] => return (← self.gridMut (·.setOriginMode false), false)
  | [47] => return (self.exitAlternateGrid, false)
  | [1049] => return (← self.exitAlternateGrid.decrc, false)
  | [param] =>
    if param ∈ [1, 5, 9, 25, 1000, 1002, 1003, 1005, 1006, 2004] then
      return ({ self with modes := self.modes.decrst [param] }, false)
    else return (self, true)
  | _ => return (self, true)

/-- The parameters in turn. -/
def forParams (handle : Screen → List Nat → Except Fault (Screen × Bool)) (self : Screen) (params : List (List Nat)) :
    Except Fault (Screen × Bool) :=
  params.foldlM (fun handled param => do
    let next ← handle handled.1 param
    return (next.1, handled.2 || next.2)) (self, false)

def decset (self : Screen) (params : List (List Nat)) : Except Fault (Screen × Bool) := self.forParams decsetParam params

def decrst (self : Screen) (params : List (List Nat)) : Except Fault (Screen × Bool) := self.forParams decrstParam params

end Screen

/-! ### Graphic rendition -/

namespace Attrs

def u16ToU8 (i : Nat) : Option UInt8 := if i > 255 then none else some (UInt8.ofNat i)

/-- What a parameter of `CSI m` does: it changes the attributes, calls `unhandled`, or ends the sequence. -/
inductive SgrParam where
  | attrs (attrs : Attrs)
  | unhandled
  | stop
  deriving DecidableEq, Repr

def sgrColor (select : Color → Attrs) : Option Color → SgrParam
  | some color => .attrs (select color)
  | none => .stop

/-- A parameter on its own, other than `38` and `48`. -/
def sgrNumber (self : Attrs) (n : Nat) : SgrParam :=
  match n with
  | 0 => .attrs .default
  | 1 => .attrs self.setBold
  | 2 => .attrs self.setDim
  | 3 => .attrs (self.setItalic true)
  | 4 => .attrs (self.setUnderline true)
  | 5 => .attrs (self.setBlink true)
  | 7 => .attrs (self.setInverse true)
  | 8 => .attrs (self.setHidden true)
  | 22 => .attrs self.setNormalIntensity
  | 23 => .attrs (self.setItalic false)
  | 24 => .attrs (self.setUnderline false)
  | 25 => .attrs (self.setBlink false)
  | 27 => .attrs (self.setInverse false)
  | 28 => .attrs (self.setHidden false)
  | 39 => .attrs { self with fgcolor := .default }
  | 49 => .attrs { self with bgcolor := .default }
  | n =>
    if 30 ≤ n ∧ n ≤ 37 then .attrs { self with fgcolor := .idx (UInt8.ofNat (n - 30)) }
    else if 40 ≤ n ∧ n ≤ 47 then .attrs { self with bgcolor := .idx (UInt8.ofNat (n - 40)) }
    else if 90 ≤ n ∧ n ≤ 97 then .attrs { self with fgcolor := .idx (UInt8.ofNat (n - 82)) }
    else if 100 ≤ n ∧ n ≤ 107 then .attrs { self with bgcolor := .idx (UInt8.ofNat (n - 92)) }
    else .unhandled

def rgb (r g b : Nat) : Option Color := do return .rgb (← u16ToU8 r) (← u16ToU8 g) (← u16ToU8 b)

def idx (i : Nat) : Option Color := do return .idx (← u16ToU8 i)

/-- A parameter with its subparameters. -/
def sgrParam (self : Attrs) (param : List Nat) : SgrParam :=
  match param with
  | [n] => self.sgrNumber n
  | [38, 2, r, g, b] => sgrColor ({ self with fgcolor := · }) (rgb r g b)
  | [38, 5, i] => sgrColor ({ self with fgcolor := · }) (idx i)
  | [48, 2, r, g, b] => sgrColor ({ self with bgcolor := · }) (rgb r g b)
  | [48, 5, i] => sgrColor ({ self with bgcolor := · }) (idx i)
  | _ => .unhandled

/-- The colour that the parameters after `38` or `48` select, with the number of them. An error ends the sequence, and
    says whether `unhandled` was called. -/
def nextColor (params : List (List Nat)) : Except Bool (Color × Nat) :=
  match params with
  | [2] :: [r] :: [g] :: [b] :: _ => ((rgb r g b).map (·, 4)).elim (.error false) .ok
  | [2] :: _ => .error false
  | [5] :: [i] :: _ => ((idx i).map (·, 2)).elim (.error false) .ok
  | [5] :: _ => .error false
  | [] => .error false
  | _ => .error true

/-- The parameters in turn, without the next `taken` that belong to a colour. The flag says that `unhandled` was
    called. -/
def sgrLoop : List (List Nat) → Nat → Attrs × Bool → Attrs × Bool
  | [], _, result => result
  | _ :: params, taken + 1, result => sgrLoop params taken result
  | param :: params, 0, (self, unhandled) =>
    if param = [38] then
      match nextColor params with
      | .ok (color, taken) => sgrLoop params taken ({ self with fgcolor := color }, unhandled)
      | .error called => (self, unhandled || called)
    else if param = [48] then
      match nextColor params with
      | .ok (color, taken) => sgrLoop params taken ({ self with bgcolor := color }, unhandled)
      | .error called => (self, unhandled || called)
    else
      match self.sgrParam param with
      | .attrs attrs => sgrLoop params 0 (attrs, unhandled)
      | .unhandled => sgrLoop params 0 (self, true)
      | .stop => (self, unhandled)

end Attrs

def Screen.sgr (self : Screen) (params : List (List Nat)) : Screen × Bool :=
  if params = [] then ({ self with attrs := .default }, false)
  else
    let result := Attrs.sgrLoop params 0 (self.attrs, false)
    ({ self with attrs := result.1 }, result.2)

end MoshClient.Vt100
