import MoshClient.Session

/-! The painter (`terminal/paint.rs`) with the modes of a screen that it writes (`vt100/screen.rs`,
    `vt100/term.rs`), and a consumer that applies its output byte by byte. What the grid and the attributes of a
    screen draw is left to a canvas: texts, and control functions without a private marker. -/

namespace MoshClient
open Limits

/-! ### Modes -/

inductive MouseProtocolMode where
  | none
  | press
  | pressRelease
  | buttonMotion
  | anyMotion
  deriving DecidableEq, Repr

inductive MouseProtocolEncoding where
  | default
  | utf8
  | sgr
  deriving DecidableEq, Repr

/-- The flags of a screen. -/
inductive ModeFlag where
  | applicationKeypad
  | applicationCursor
  | hideCursor
  | alternateScreen
  | bracketedPaste
  | reverseVideo
  deriving DecidableEq, Repr

def ModeFlag.bit : ModeFlag → BitVec 8
  | .applicationKeypad => 0b00000001
  | .applicationCursor => 0b00000010
  | .hideCursor => 0b00000100
  | .alternateScreen => 0b00001000
  | .bracketedPaste => 0b00010000
  | .reverseVideo => 0b00100000

structure ScreenModes where
  modes : BitVec 8
  mouseProtocolMode : MouseProtocolMode
  mouseProtocolEncoding : MouseProtocolEncoding
  deriving DecidableEq, Repr

namespace ScreenModes

def new : ScreenModes := ⟨0, .none, .default⟩

def setMode (self : ScreenModes) (flag : ModeFlag) : ScreenModes := { self with modes := self.modes ||| flag.bit }

def clearMode (self : ScreenModes) (flag : ModeFlag) : ScreenModes := { self with modes := self.modes &&& ~~~flag.bit }

def mode (self : ScreenModes) (flag : ModeFlag) : Bool := self.modes &&& flag.bit != 0

def setMouseMode (self : ScreenModes) (mode : MouseProtocolMode) : ScreenModes := { self with mouseProtocolMode := mode }

def clearMouseMode (self : ScreenModes) (mode : MouseProtocolMode) : ScreenModes :=
  if self.mouseProtocolMode = mode then { self with mouseProtocolMode := .none } else self

def setMouseEncoding (self : ScreenModes) (encoding : MouseProtocolEncoding) : ScreenModes :=
  { self with mouseProtocolEncoding := encoding }

def clearMouseEncoding (self : ScreenModes) (encoding : MouseProtocolEncoding) : ScreenModes :=
  if self.mouseProtocolEncoding = encoding then { self with mouseProtocolEncoding := .default } else self

/-- `ESC =` -/
def deckpam (self : ScreenModes) : ScreenModes := self.setMode .applicationKeypad

/-- `ESC >` -/
def deckpnm (self : ScreenModes) : ScreenModes := self.clearMode .applicationKeypad

/-- `CSI ? h`, for its parameters in turn. The others change the grid, or are unhandled. -/
def decset (self : ScreenModes) (params : List Nat) : ScreenModes :=
  params.foldl (fun self param =>
    match param with
    | 1 => self.setMode .applicationCursor
    | 5 => self.setMode .reverseVideo
    | 9 => self.setMouseMode .press
    | 25 => self.clearMode .hideCursor
    | 47 => self.setMode .alternateScreen
    | 1000 => self.setMouseMode .pressRelease
    | 1002 => self.setMouseMode .buttonMotion
    | 1003 => self.setMouseMode .anyMotion
    | 1005 => self.setMouseEncoding .utf8
    | 1006 => self.setMouseEncoding .sgr
    | 1049 => self.setMode .alternateScreen
    | 2004 => self.setMode .bracketedPaste
    | _ => self) self

/-- `CSI ? l`, for its parameters in turn. -/
def decrst (self : ScreenModes) (params : List Nat) : ScreenModes :=
  params.foldl (fun self param =>
    match param with
    | 1 => self.clearMode .applicationCursor
    | 5 => self.clearMode .reverseVideo
    | 9 => self.clearMouseMode .press
    | 25 => self.setMode .hideCursor
    | 47 => self.clearMode .alternateScreen
    | 1000 => self.clearMouseMode .pressRelease
    | 1002 => self.clearMouseMode .buttonMotion
    | 1003 => self.clearMouseMode .anyMotion
    | 1005 => self.clearMouseEncoding .utf8
    | 1006 => self.clearMouseEncoding .sgr
    | 1049 => self.clearMode .alternateScreen
    | 2004 => self.clearMode .bracketedPaste
    | _ => self) self

end ScreenModes

/-! ### The bytes of a mode -/

namespace Term

/-- `ESC [ ? param final` -/
def privateMode (param : Nat) (final : UInt8) : Bytes :=
  [0x1b, 0x5b, 0x3f] ++ (Nat.toDigits 10 param).map (fun digit => digit.toNat.toUInt8) ++ [final]

/-- `ESC [ ? param h` -/
def set (param : Nat) : Bytes := privateMode param 0x68

/-- `ESC [ ? param l` -/
def reset (param : Nat) : Bytes := privateMode param 0x6c

def hideCursor (state : Bool) : Bytes := if state then reset 25 else set 25

def reverseVideo (state : Bool) : Bytes := if state then set 5 else reset 5

def applicationKeypad (state : Bool) : Bytes := if state then [0x1b, 0x3d] else [0x1b, 0x3e]

def applicationCursor (state : Bool) : Bytes := if state then set 1 else reset 1

def bracketedPaste (state : Bool) : Bytes := if state then set 2004 else reset 2004

def mouseProtocolMode (mode prev : MouseProtocolMode) : Bytes :=
  if mode = prev then []
  else
    match mode with
    | .none =>
      match prev with
      | .none => []
      | .press => reset 9
      | .pressRelease => reset 1000
      | .buttonMotion => reset 1002
      | .anyMotion => reset 1003
    | .press => set 9
    | .pressRelease => set 1000
    | .buttonMotion => set 1002
    | .anyMotion => set 1003

def mouseProtocolEncoding (encoding prev : MouseProtocolEncoding) : Bytes :=
  if encoding = prev then []
  else
    match encoding with
    | .default =>
      match prev with
      | .default => []
      | .utf8 => reset 1005
      | .sgr => reset 1006
    | .utf8 => set 1005
    | .sgr => set 1006

end Term

/-! ### Drawing -/

/-- What a grid draws: plain bytes, `ESC 7`, `ESC 8`, and `CSI` sequences without a private marker. -/
inductive Drawing where
  | plain (bytes : Bytes) (hplain : ∀ byte ∈ bytes, byte ≠ 0x1b)
  | saveCursor
  | restoreCursor
  | csi (params : Bytes) (final : UInt8) (hparams : ∀ byte ∈ params, 0x30 ≤ byte ∧ byte ≤ 0x3b)
      (hfinal : 0x40 ≤ final ∧ final ≤ 0x7e)

def Drawing.bytes : Drawing → Bytes
  | .plain bytes _ => bytes
  | .saveCursor => [0x1b, 0x37]
  | .restoreCursor => [0x1b, 0x38]
  | .csi params final _ _ => [0x1b, 0x5b] ++ params ++ [final]

/-- How the contents `G` of a screen are drawn, from nothing and from earlier contents. -/
structure Canvas (G : Type) where
  formatted : G → List Drawing
  diff : G → G → List Drawing

/-! ### Screens -/

structure Screen (G : Type) where
  size : Nat × Nat
  modes : ScreenModes
  grid : G

namespace Screen

variable {G : Type}

def writeContentsFormatted (canvas : Canvas G) (self : Screen G) : Bytes :=
  Term.reverseVideo (self.modes.mode .reverseVideo) ++
    Term.hideCursor (self.modes.mode .hideCursor) ++
    (canvas.formatted self.grid).flatMap Drawing.bytes

def writeContentsDiff (canvas : Canvas G) (self prev : Screen G) : Bytes :=
  (if self.modes.mode .reverseVideo ≠ prev.modes.mode .reverseVideo then
    Term.reverseVideo (self.modes.mode .reverseVideo) else []) ++
  (if self.modes.mode .hideCursor ≠ prev.modes.mode .hideCursor then
    Term.hideCursor (self.modes.mode .hideCursor) else []) ++
  (canvas.diff self.grid prev.grid).flatMap Drawing.bytes

def writeInputModeFormatted (self : Screen G) : Bytes :=
  Term.applicationKeypad (self.modes.mode .applicationKeypad) ++
    Term.applicationCursor (self.modes.mode .applicationCursor) ++
    Term.bracketedPaste (self.modes.mode .bracketedPaste) ++
    Term.mouseProtocolMode self.modes.mouseProtocolMode .none ++
    Term.mouseProtocolEncoding self.modes.mouseProtocolEncoding .default

def writeInputModeDiff (self prev : Screen G) : Bytes :=
  (if self.modes.mode .applicationKeypad ≠ prev.modes.mode .applicationKeypad then
    Term.applicationKeypad (self.modes.mode .applicationKeypad) else []) ++
  (if self.modes.mode .applicationCursor ≠ prev.modes.mode .applicationCursor then
    Term.applicationCursor (self.modes.mode .applicationCursor) else []) ++
  (if self.modes.mode .bracketedPaste ≠ prev.modes.mode .bracketedPaste then
    Term.bracketedPaste (self.modes.mode .bracketedPaste) else []) ++
  Term.mouseProtocolMode self.modes.mouseProtocolMode prev.modes.mouseProtocolMode ++
  Term.mouseProtocolEncoding self.modes.mouseProtocolEncoding prev.modes.mouseProtocolEncoding

def stateFormatted (canvas : Canvas G) (self : Screen G) : Bytes :=
  self.writeContentsFormatted canvas ++ self.writeInputModeFormatted

def stateDiff (canvas : Canvas G) (self prev : Screen G) : Bytes :=
  self.writeContentsDiff canvas prev ++ self.writeInputModeDiff prev

end Screen

/-! ### The painter -/

namespace TerminalPainter

variable {G : Type}

def initialProfilePolicyReset : Bytes := Term.reset 1001 ++ Term.reset 1004 ++ Term.reset 1015

def bounded (output : Bytes) : Except PaintError Bytes :=
  if output.length > maxOutputChunkBytes then .error .outputTooLarge else .ok output

def full (canvas : Canvas G) (state : Screen G) : Except PaintError Bytes :=
  bounded (initialProfilePolicyReset ++ state.stateFormatted canvas)

def incremental (canvas : Canvas G) (previous current : Screen G) : Except PaintError Bytes :=
  if previous.size ≠ current.size then full canvas current else bounded (current.stateDiff canvas previous)

end TerminalPainter

/-- A terminal whose states are painted through their screens. -/
structure PaintedTerminal (T G : Type) extends Terminal T where
  canvas : Canvas G
  screen : T → Screen G
  full_eq : ∀ state, full state = TerminalPainter.full canvas (screen state)
  incremental_eq : ∀ previous current,
    incremental previous current = TerminalPainter.incremental canvas (screen previous) (screen current)

/-! ### A consumer -/

inductive ParserState where
  | ground
  | escape
  | csi (isPrivate : Bool) (params : List Nat) (param : Nat)
  deriving DecidableEq, Repr

/-- A terminal that follows the modes of the output. -/
structure Consumer where
  parser : ParserState
  modes : ScreenModes
  deriving DecidableEq, Repr

namespace Consumer

def new : Consumer := ⟨.ground, .new⟩

/-- The end of a `CSI` sequence. Without the private marker it is no concern of the modes. -/
def dispatch (self : Consumer) (isPrivate : Bool) (params : List Nat) (final : UInt8) : Consumer :=
  if isPrivate ∧ final = 0x68 then ⟨.ground, self.modes.decset params⟩
  else if isPrivate ∧ final = 0x6c then ⟨.ground, self.modes.decrst params⟩
  else ⟨.ground, self.modes⟩

def advance (self : Consumer) (byte : UInt8) : Consumer :=
  match self.parser with
  | .ground => if byte = 0x1b then { self with parser := .escape } else self
  | .escape =>
    if byte = 0x5b then { self with parser := .csi false [] 0 }
    else if byte = 0x3d then ⟨.ground, self.modes.deckpam⟩
    else if byte = 0x3e then ⟨.ground, self.modes.deckpnm⟩
    else { self with parser := .ground }
  | .csi isPrivate params param =>
    if byte = 0x1b then { self with parser := .escape }
    else if byte = 0x3f then { self with parser := .csi true params param }
    else if 0x30 ≤ byte ∧ byte ≤ 0x39 then
      { self with parser := .csi isPrivate params (param * 10 + (byte.toNat - 0x30)) }
    else if byte = 0x3b then { self with parser := .csi isPrivate (params ++ [param]) 0 }
    else if 0x40 ≤ byte ∧ byte ≤ 0x7e then self.dispatch isPrivate (params ++ [param]) byte
    else self

def process (self : Consumer) (bytes : Bytes) : Consumer := bytes.foldl advance self

end Consumer

/-! ### Output of a session -/

/-- A call of `emit_output`: whether a repaint was requested, and what is displayed. -/
structure Emission (G : Type) where
  forceFullRepaint : Bool
  current : Screen G

/-- What a session has painted last, and the consumer of all that it has painted. -/
structure Surface (G : Type) where
  paintedState : Option (Screen G)
  consumer : Consumer

def Emission.output {G : Type} (canvas : Canvas G) (paintedState : Option (Screen G)) (self : Emission G) :
    Except PaintError Bytes :=
  if self.forceFullRepaint then TerminalPainter.full canvas self.current
  else
    match paintedState with
    | some previous => TerminalPainter.incremental canvas previous self.current
    | none => TerminalPainter.full canvas self.current

/-- A chunk that was sent: the emission, and the surface before and after it. -/
structure Chunk (G : Type) where
  before : Surface G
  emission : Emission G
  after : Surface G

namespace Surface

variable {G : Type}

def new : Surface G := ⟨none, .new⟩

/-- The chunks of a run. An emission that fails sends nothing and ends the run. -/
def chunks (canvas : Canvas G) : Surface G → List (Emission G) → List (Chunk G)
  | _, [] => []
  | self, emission :: emissions =>
    match emission.output canvas self.paintedState with
    | .error _ => []
    | .ok output =>
      let next : Surface G := ⟨some emission.current, self.consumer.process output⟩
      ⟨self, emission, next⟩ :: chunks canvas next emissions

end Surface

/-- What the driver has painted last, and a consumer of its output. -/
def SessionDriver.surface {T G : Type} (terminal : PaintedTerminal T G) (self : SessionDriver T) : Surface G :=
  ⟨self.paintedState.map terminal.screen, Consumer.new.process self.trace.emitted.flatten⟩

end MoshClient
