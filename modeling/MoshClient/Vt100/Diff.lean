import MoshClient.Vt100.Paint

/-! Painting what has changed since an earlier state (`Row::write_contents_diff`, `Grid::write_contents_diff`,
    `Screen::state_diff`, `terminal/paint.rs`), and what a session paints (`SessionDriver::emit_output`). -/

namespace MoshClient.Vt100
open Checked

/-! ### Rows -/

namespace RowWriter

/-- A cell of the row, with the cell that was there. -/
def diffCell (self : RowWriter) (cols row : Nat) (wrapping : Bool) (col : Nat) (cell prevCell : Cell) :
    Except Fault RowWriter :=
  if self.prevWasWide then return { self with prevWasWide := false }
  else do
    let self ← { self with prevWasWide := cell.isWide }.flushErase cols row wrapping col cell
    if cell = prevCell then return self
    else if cell.hasContents then self.writeContents cols row wrapping col cell
    else if self.erase.isNone then return { self with erase := some (col, cell.attrs) }
    else return self

/-- The cells from `col` on. -/
def diffCells (cols row : Nat) (wrapping : Bool) : Nat → List (Cell × Cell) → RowWriter → Except Fault RowWriter
  | _, [], self => return self
  | col, (cell, prevCell) :: rest, self => do
    let self ← self.diffCell cols row wrapping col cell prevCell
    RowWriter.diffCells cols row wrapping (col + 1) rest self

/-- The start of a row. Where the row above has begun to wrap, and the first cell is the same, that cell is drawn again
    to wrap there. -/
def startDiff (self : RowWriter) (cols row : Nat) (wrapping prevWrapping : Bool) (firstCell prevFirstCell : Cell) :
    Except Fault RowWriter := do
  let self := { self with prevWasWide := false, erase := none }
  if wrapping ∧ ¬prevWrapping ∧ firstCell = prevFirstCell ∧ self.prevPos.row + 1 = row then
    let last ← sub cols (if prevFirstCell.isWide then 1 else 0)
    if self.prevPos.col ≥ last then
      let self ← self.setAttrs firstCell.attrs
      let needErase := prevFirstCell.contents.isEmpty
      let cellContents := if needErase then [0x20] else prevFirstCell.contents.flatMap String.utf8EncodeChar
      let wide := if prevFirstCell.isWide then Term.backspace else []
      let erased := if needErase then Term.eraseChar 1 else []
      return { self.write (cellContents ++ Term.backspace ++ wide ++ erased) with prevPos := ⟨row, 0⟩ }
    else return self
  else return self

/-- The end of a row that begins or ceases to wrap. Its last character is drawn again, so that the next row goes on
    from it, and erased before that to break the wrapping. -/
def finishDiff (self : RowWriter) (cols row : Nat) (line : Row) : Except Fault RowWriter := do
  let last ← sub cols 1
  let lastCell ← index line.cells last
  let endCol ← if lastCell.isWideContinuation then sub cols 2 else pure last
  let self := { self.write (Term.moveFromTo self.prevPos ⟨row, endCol⟩) with prevPos := ⟨row, endCol⟩ }
  let self := if line.wrapped then self else self.write (Term.eraseChar 1)
  let endCell ← index line.cells endCol
  if endCell.hasContents then
    let self ← self.setAttrs endCell.attrs
    return { self.write (endCell.contents.flatMap String.utf8EncodeChar) with
      prevPos.col := self.prevPos.col + if endCell.isWide then 2 else 1 }
  else return self

end RowWriter

/-- A row as a whole, from its first column, where `prev` is shown. -/
def Row.writeContentsDiff (self prev : Row) (width row : Nat) (wrapping prevWrapping : Bool) (writer : RowWriter) :
    Except Fault RowWriter := do
  let cols ← self.cols
  let firstCell ← index self.cells 0
  let prevFirstCell ← index prev.cells 0
  let writer ← writer.startDiff cols row wrapping prevWrapping firstCell prevFirstCell
  let writer ← RowWriter.diffCells cols row wrapping 0 ((self.cells.zip prev.cells).take width) writer
  let writer ← writer.finish cols row wrapping
  if self.wrapped ≠ prev.wrapped then writer.finishDiff cols row self else return writer

/-! ### Grids -/

namespace Grid

/-- The rows from `i` on. -/
def writeRowsDiff (width : Nat) : Nat → Bool → Bool → List (Row × Row) → RowWriter → Except Fault RowWriter
  | _, _, _, [], writer => return writer
  | i, wrapping, prevWrapping, (row, prevRow) :: rows, writer => do
    let writer ← row.writeContentsDiff prevRow width i wrapping prevWrapping writer
    writeRowsDiff width (i + 1) row.wrapped prevRow.wrapped rows writer

/-- The bytes, and the attributes of the terminal after them. -/
def writeContentsDiff (self prev : Grid) (prevAttrs : Attrs) : Except Fault (Bytes × Attrs) := do
  let writer ← writeRowsDiff self.size.cols 0 false false (self.rows.zip prev.rows) ⟨[], false, prev.pos, prevAttrs, none⟩
  let position ← self.writeCursorPositionFormatted writer.prevPos writer.prevAttrs
  return (writer.contents ++ position, writer.prevAttrs)

end Grid

/-! ### Screens -/

namespace Screen

def writeContentsDiff (self prev : Screen) : Except Fault Bytes := do
  let (contents, prevAttrs) ← self.activeGrid.writeContentsDiff prev.activeGrid prev.attrs
  let attrs ← self.attrs.writeEscapeCodeDiff prevAttrs
  return (if self.modes.mode .reverseVideo ≠ prev.modes.mode .reverseVideo then
      MoshClient.Term.reverseVideo (self.modes.mode .reverseVideo) else []) ++
    (if self.modes.mode .hideCursor ≠ prev.modes.mode .hideCursor then
      MoshClient.Term.hideCursor (self.modes.mode .hideCursor) else []) ++ contents ++ attrs

def writeInputModeDiff (self prev : Screen) : Bytes :=
  (if self.modes.mode .applicationKeypad ≠ prev.modes.mode .applicationKeypad then
    MoshClient.Term.applicationKeypad (self.modes.mode .applicationKeypad) else []) ++
  (if self.modes.mode .applicationCursor ≠ prev.modes.mode .applicationCursor then
    MoshClient.Term.applicationCursor (self.modes.mode .applicationCursor) else []) ++
  (if self.modes.mode .bracketedPaste ≠ prev.modes.mode .bracketedPaste then
    MoshClient.Term.bracketedPaste (self.modes.mode .bracketedPaste) else []) ++
  MoshClient.Term.mouseProtocolMode self.modes.mouseProtocolMode prev.modes.mouseProtocolMode ++
  MoshClient.Term.mouseProtocolEncoding self.modes.mouseProtocolEncoding prev.modes.mouseProtocolEncoding

def stateDiff (self prev : Screen) : Except Fault Bytes := do
  let contents ← self.writeContentsDiff prev
  return contents ++ self.writeInputModeDiff prev

end Screen

/-- A repaint of what has changed, as one output chunk. A terminal of another size is painted in full. -/
def TerminalPainter.incremental (previous current : TerminalState) : Except Fault (Except PaintError Bytes) :=
  if previous.screen.size ≠ current.screen.size then TerminalPainter.full current
  else do
    let formatted ← current.screen.stateDiff previous.screen
    return TerminalPainter.bounded formatted

/-! ### The output of a session -/

/-- `vt100::Parser`, a terminal that reads output. -/
structure Parser (crates : Crates) where
  parser : crates.vte.State
  screen : WrappedScreen

def Parser.process {crates : Crates} (self : Parser crates) (bytes : Bytes) : Except Fault (Parser crates) := do
  let screen ← self.screen.process crates.unicode (crates.vte.advance self.parser bytes).1
  return ⟨(crates.vte.advance self.parser bytes).2, screen⟩

/-- A call of `emit_output`: whether a repaint was requested, and what is displayed. -/
structure Emission where
  forceFullRepaint : Bool
  current : TerminalState

def Emission.output (self : Emission) (paintedState : Option TerminalState) : Except Fault (Except PaintError Bytes) :=
  if self.forceFullRepaint then TerminalPainter.full self.current
  else
    match paintedState with
    | some previous => TerminalPainter.incremental previous self.current
    | none => TerminalPainter.full self.current

/-- What a session has painted last, and a terminal that has read all that it has painted. -/
structure Projection (crates : Crates) where
  paintedState : Option TerminalState
  terminal : Parser crates

namespace Projection

variable {crates : Crates}

def emit (self : Projection crates) (emission : Emission) : Except Fault (Except PaintError (Projection crates)) := do
  match ← emission.output self.paintedState with
  | .error e => return .error e
  | .ok output =>
    let terminal ← self.terminal.process output
    return .ok ⟨some emission.current, terminal⟩

def emitAll (self : Projection crates) : List Emission → Except Fault (Except PaintError (Projection crates))
  | [] => return .ok self
  | emission :: emissions => do
    match ← self.emit emission with
    | .error e => return .error e
    | .ok next => next.emitAll emissions

end Projection

end MoshClient.Vt100
