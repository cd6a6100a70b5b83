import MoshClient.Vt100.State

/-! Painting (`vt100/term.rs`, `Attrs::write_escape_code_diff`, `Row::write_contents_formatted`,
    `Grid::write_contents_formatted`, `terminal/paint.rs`). A writer returns the bytes that it appends. -/

namespace MoshClient.Vt100
open Checked

/-! ### Bytes -/

namespace Term

/-- The decimal digits of a number. -/
def itoa (n : Nat) : Bytes := (Nat.toDigits 10 n).map fun digit => digit.toNat.toUInt8

/-- `ESC [ n final`, with the number left out when it is one, and nothing when it is zero. -/
def counted (n : Nat) (final : UInt8) : Bytes :=
  match n with
  | 0 => []
  | 1 => [0x1b, 0x5b, final]
  | n => [0x1b, 0x5b] ++ itoa n ++ [final]

def clearScreen : Bytes := [0x1b, 0x5b, 0x48, 0x1b, 0x5b, 0x4a]
def clearRowForward : Bytes := [0x1b, 0x5b, 0x4b]
def crlf : Bytes := [0x0d, 0x0a]
def backspace : Bytes := [0x08]
def saveCursor : Bytes := [0x1b, 0x37]
def restoreCursor : Bytes := [0x1b, 0x38]
def clearAttrs : Bytes := [0x1b, 0x5b, 0x6d]
def moveRight (count : Nat) : Bytes := counted count 0x43
def eraseChar (count : Nat) : Bytes := counted count 0x58

def moveTo (pos : Pos) : Bytes :=
  if pos.row = 0 ∧ pos.col = 0 then [0x1b, 0x5b, 0x48]
  else [0x1b, 0x5b] ++ itoa (pos.row + 1) ++ [0x3b] ++ itoa (pos.col + 1) ++ [0x48]

def moveFromTo (source target : Pos) : Bytes :=
  if target.row = source.row + 1 ∧ target.col = 0 then crlf
  else if source.row = target.row ∧ source.col < target.col then moveRight (target.col - source.col)
  else if target ≠ source then moveTo target
  else []

end Term

/-! ### Attributes -/

namespace Attrs

/-- The parameters of a colour: `base + i` for the first eight, `bright + i` for the next eight, and `base + 8` with
    its arguments for the others. -/
def colorParams (base bright : Nat) : Color → List Nat
  | .default => [base + 9]
  | .idx i =>
    if i.toNat < 8 then [i.toNat + base]
    else if i.toNat < 16 then [i.toNat + bright]
    else [base + 8, 5, i.toNat]
  | .rgb r g b => [base + 8, 2, r.toNat, g.toNat, b.toNat]

/-- The parameter of the intensity, when it has changed. -/
def intensityParams (self other : Attrs) : Except Fault (List Nat) :=
  if self.intensity = other.intensity then return []
  else if self.intensity = 0 then return [22]
  else if self.intensity = textModeBold then return [1]
  else if self.intensity = textModeDim then return [2]
  else .error .unreachable

/-- The parameter of a flag that has changed. -/
def flagParams (flag : Attrs → Bool) (on off : Nat) (self other : Attrs) : List Nat :=
  if flag self = flag other then [] else if flag self then [on] else [off]

/-- The parameters of what has changed. -/
def diffParams (self other : Attrs) : Except Fault (List Nat) := do
  let intensity ← self.intensityParams other
  return (if self.fgcolor = other.fgcolor then [] else colorParams 30 82 self.fgcolor) ++
    (if self.bgcolor = other.bgcolor then [] else colorParams 40 92 self.bgcolor) ++ intensity ++
    flagParams italic 3 23 self other ++ flagParams underline 4 24 self other ++
    flagParams inverse 7 27 self other ++ flagParams blink 5 25 self other ++ flagParams hidden 8 28 self other

/-- `ESC [ p ; … ; p m`, and nothing without parameters. -/
def sgrBytes : List Nat → Bytes
  | [] => []
  | param :: params =>
    [0x1b, 0x5b] ++ Term.itoa param ++ params.flatMap (fun param => 0x3b :: Term.itoa param) ++ [0x6d]

def writeEscapeCodeDiff (self other : Attrs) : Except Fault Bytes := do
  if self ≠ other ∧ self = .default then return Term.clearAttrs
  else
    let params ← self.diffParams other
    return sgrBytes params

end Attrs

/-! ### Rows -/

/-- A row that is being written: the position and the attributes of the terminal after the output, and the column
    from which cells without contents, of some attributes, are still to be erased. -/
structure RowWriter where
  contents : Bytes
  prevWasWide : Bool
  prevPos : Pos
  prevAttrs : Attrs
  erase : Option (Nat × Attrs)

namespace RowWriter

def write (self : RowWriter) (bytes : Bytes) : RowWriter := { self with contents := self.contents ++ bytes }

def setAttrs (self : RowWriter) (attrs : Attrs) : Except Fault RowWriter :=
  if self.prevAttrs ≠ attrs then do
    let bytes ← attrs.writeEscapeCodeDiff self.prevAttrs
    return { self.write bytes with prevAttrs := attrs }
  else return self

/-- Moves to the cells that are to be erased. After a row that wraps, the move has to go on from its end. -/
def startErase (self : RowWriter) (cols row : Nat) (wrapping : Bool) (prevCol : Nat) (attrs : Attrs) :
    Except Fault RowWriter :=
  let newPos : Pos := ⟨row, prevCol⟩
  let move :=
    if wrapping ∧ self.prevPos.row + 1 = row ∧ self.prevPos.col ≥ cols then
      if prevCol > 0 then List.replicate prevCol 0x20 else [0x20] ++ Term.backspace
    else Term.moveFromTo self.prevPos newPos
  { self.write move with prevPos := newPos }.setAttrs attrs

/-- Erases the cells before `col`, when a cell ends them. -/
def flushErase (self : RowWriter) (cols row : Nat) (wrapping : Bool) (col : Nat) (cell : Cell) : Except Fault RowWriter :=
  match self.erase with
  | none => return self
  | some (prevCol, attrs) =>
    if cell.hasContents ∨ cell.attrs ≠ attrs then do
      let self ← self.startErase cols row wrapping prevCol attrs
      let count ← sub col prevCol
      return { self.write (Term.eraseChar count) with erase := none }
    else return self

/-- Moves to a cell with contents. After a row that wraps, the first one is where the output goes on. -/
def startContents (self : RowWriter) (last row : Nat) (wrapping : Bool) (col : Nat) : RowWriter :=
  let pos : Pos := ⟨row, col⟩
  if pos ≠ self.prevPos then
    let move :=
      if wrapping ∧ self.prevPos.row + 1 = row ∧ last ≤ self.prevPos.col ∧ col = 0 then []
      else Term.moveFromTo self.prevPos pos
    { self.write move with prevPos := pos }
  else self

def writeContents (self : RowWriter) (cols row : Nat) (wrapping : Bool) (col : Nat) (cell : Cell) :
    Except Fault RowWriter := do
  let last ← sub cols (if cell.isWide then 1 else 0)
  let self ← (self.startContents last row wrapping col).setAttrs cell.attrs
  return { self.write (cell.contents.flatMap String.utf8EncodeChar) with
    prevPos.col := self.prevPos.col + if cell.isWide then 2 else 1 }

/-- A cell of the row. -/
def cell (self : RowWriter) (cols row : Nat) (wrapping : Bool) (col : Nat) (cell : Cell) : Except Fault RowWriter :=
  if self.prevWasWide then return { self with prevWasWide := false }
  else do
    let self ← { self with prevWasWide := cell.isWide }.flushErase cols row wrapping col cell
    if cell = .new then return self
    else if cell.hasContents then self.writeContents cols row wrapping col cell
    else if self.erase.isNone then return { self with erase := some (col, cell.attrs) }
    else return self

/-- The cells from `col` on. -/
def cells (cols row : Nat) (wrapping : Bool) : Nat → List Cell → RowWriter → Except Fault RowWriter
  | _, [], self => return self
  | col, cell :: rest, self => do
    let self ← self.cell cols row wrapping col cell
    RowWriter.cells cols row wrapping (col + 1) rest self

/-- The start of a row. After one that wraps, an empty first cell has to be drawn to wrap there. -/
def startRow (self : RowWriter) (row : Nat) (wrapping : Bool) (firstCell : Cell) : Except Fault RowWriter :=
  let self := { self with prevWasWide := false, erase := none }
  if wrapping ∧ firstCell = .new then do
    let self ← self.setAttrs .default
    return { self.write ([0x20] ++ Term.backspace ++ Term.eraseChar 1) with prevPos := ⟨row, 0⟩ }
  else return self

/-- Erases to the end of the row. -/
def finish (self : RowWriter) (cols row : Nat) (wrapping : Bool) : Except Fault RowWriter :=
  match self.erase with
  | none => return self
  | some (prevCol, attrs) => do
    let self ← self.startErase cols row wrapping prevCol attrs
    return self.write Term.clearRowForward

end RowWriter

/-- A row as a whole, from its first column. -/
def Row.writeContentsFormatted (self : Row) (width row : Nat) (wrapping : Bool) (writer : RowWriter) :
    Except Fault RowWriter := do
  let cols ← self.cols
  let firstCell ← index self.cells 0
  let writer ← writer.startRow row wrapping firstCell
  let writer ← RowWriter.cells cols row wrapping 0 (self.cells.take width) writer
  writer.finish cols row wrapping

/-! ### Grids -/

namespace Grid

/-- The rows from `i` on. -/
def writeRows (width : Nat) : Nat → Bool → List Row → RowWriter → Except Fault RowWriter
  | _, _, [], writer => return writer
  | i, wrapping, row :: rows, writer => do
    let writer ← row.writeContentsFormatted width i wrapping writer
    writeRows width (i + 1) row.wrapped rows writer

/-- The last cell of a row that is not the second half of a character. -/
def endCell (self : Grid) (row : Nat) : Except Fault (Pos × Cell) := do
  let col ← sub self.size.cols 1
  let last ← self.drawingCell ⟨row, col⟩
  let col ← if last.isWideContinuation then sub self.size.cols 2 else pure col
  let cell ← self.drawingCell ⟨row, col⟩
  return (⟨row, col⟩, cell)

/-- Draws the cell at `pos` again, to put the cursor behind it. -/
def redraw (prevPos pos : Pos) (prevAttrs : Attrs) (cell : Cell) : Except Fault Bytes := do
  let before ← cell.attrs.writeEscapeCodeDiff prevAttrs
  let after ← prevAttrs.writeEscapeCodeDiff cell.attrs
  return Term.moveFromTo prevPos pos ++ before ++ cell.contents.flatMap String.utf8EncodeChar ++ after

/-- The rows above the cursor, from below: the first that ends in text puts the cursor behind it, and new lines bring
    it down. -/
def writeFromAbove (self : Grid) (prevPos : Pos) (prevAttrs : Attrs) : Nat → Except Fault (Option Bytes)
  | 0 => return none
  | i + 1 => do
    let (pos, cell) ← self.endCell i
    if cell.hasContents then
      let drawn ←
        if prevPos.row ≠ i ∨ prevPos.col < self.size.cols then redraw prevPos pos prevAttrs cell else pure []
      let lines ← sub self.pos.row i
      return some (drawn ++ List.replicate lines 0x0a)
    else self.writeFromAbove prevPos prevAttrs i

def writeCursorPositionFormatted (self : Grid) (prevPos : Pos) (prevAttrs : Attrs) : Except Fault Bytes := do
  if prevPos ≠ self.pos ∧ self.pos.col ≥ self.size.cols then
    let (pos, cell) ← self.endCell self.pos.row
    if cell.hasContents then redraw prevPos pos prevAttrs cell
    else
      match ← self.writeFromAbove prevPos prevAttrs self.pos.row with
      | some bytes => return bytes
      | none =>
        let col ← sub self.size.cols 1
        let endCell ← self.drawingCell ⟨self.pos.row, col⟩
        let before ← endCell.attrs.writeEscapeCodeDiff prevAttrs
        let after ← prevAttrs.writeEscapeCodeDiff endCell.attrs
        return Term.moveFromTo prevPos ⟨self.pos.row, col⟩ ++ [0x20] ++ before ++ Term.saveCursor ++ Term.backspace ++
          Term.eraseChar 1 ++ Term.restoreCursor ++ after
  else return Term.moveFromTo prevPos self.pos

/-- The bytes, and the attributes of the terminal after them. -/
def writeContentsFormatted (self : Grid) : Except Fault (Bytes × Attrs) := do
  let writer : RowWriter := ⟨Term.clearAttrs ++ Term.clearScreen, false, ⟨0, 0⟩, .default, none⟩
  let writer ← writeRows self.size.cols 0 false self.rows writer
  let position ← self.writeCursorPositionFormatted writer.prevPos writer.prevAttrs
  return (writer.contents ++ position, writer.prevAttrs)

end Grid

/-! ### Screens -/

namespace Screen

def writeContentsFormatted (self : Screen) : Except Fault Bytes := do
  let (contents, prevAttrs) ← self.activeGrid.writeContentsFormatted
  let attrs ← self.attrs.writeEscapeCodeDiff prevAttrs
  return MoshClient.Term.reverseVideo (self.modes.mode .reverseVideo) ++
    MoshClient.Term.hideCursor (self.modes.mode .hideCursor) ++ contents ++ attrs

def writeInputModeFormatted (self : Screen) : Bytes :=
  MoshClient.Term.applicationKeypad (self.modes.mode .applicationKeypad) ++
    MoshClient.Term.applicationCursor (self.modes.mode .applicationCursor) ++
    MoshClient.Term.bracketedPaste (self.modes.mode .bracketedPaste) ++
    MoshClient.Term.mouseProtocolMode self.modes.mouseProtocolMode .none ++
    MoshClient.Term.mouseProtocolEncoding self.modes.mouseProtocolEncoding .default

def stateFormatted (self : Screen) : Except Fault Bytes := do
  let contents ← self.writeContentsFormatted
  return contents ++ self.writeInputModeFormatted

end Screen

/-- Whether two terminals are painted alike. -/
def TerminalState.displayEquivalent (self other : TerminalState) : Except Fault Bool := do
  let formatted ← self.screen.stateFormatted
  let otherFormatted ← other.screen.stateFormatted
  return formatted == otherFormatted

/-- A full repaint, as one output chunk. -/
def TerminalPainter.full (state : TerminalState) : Except Fault (Except PaintError Bytes) := do
  let formatted ← state.screen.stateFormatted
  return TerminalPainter.bounded (TerminalPainter.initialProfilePolicyReset ++ formatted)

end MoshClient.Vt100
