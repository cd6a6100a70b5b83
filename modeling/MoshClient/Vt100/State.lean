import MoshClient.Vt100.Screen

/-! The events of the escape sequence parser (`vt100/perform.rs`), and the terminal state that a difference changes
    (`terminal/state.rs`). The parser itself is `vte`, and delivers some events. -/

namespace MoshClient.Vt100
open Checked Limits

/-! ### Events -/

inductive Event where
  | print (c : Char)
  | execute (b : UInt8)
  | hook
  | oscDispatch (params : List Bytes)
  | csiDispatch (params : List (List Nat)) (intermediates : Bytes) (c : Char)
  | escDispatch (intermediates : Bytes) (b : UInt8)
  deriving DecidableEq, Repr

/-- A parser of escape sequences. -/
structure Vte where
  State : Type
  new : State
  advance : State → Bytes → List Event × State

/-- The crates below the terminal. -/
structure Crates where
  vte : Vte
  unicode : UnicodeWidth

/-- What the screen does not handle: the error of the last of it. -/
structure TerminalCallbacks where
  unsupportedSequence : Option TerminalError
  deriving DecidableEq, Repr

def isSuppressedExternalPolicySequence (intermediate : Option UInt8) (params : List (List Nat)) (finalCharacter : Char) :
    Bool :=
  intermediate = some 0x3f ∧
    (finalCharacter = 'l' ∧ params ∈ [[[1001]], [[1004]], [[1015]]] ∨ finalCharacter = 'h' ∧ params = [[1004]])

namespace TerminalCallbacks

def unhandledChar (_ : TerminalCallbacks) : TerminalCallbacks := ⟨some .unsupportedCharacter⟩

def unhandledControl (_ : TerminalCallbacks) : TerminalCallbacks := ⟨some .unsupportedControl⟩

def unhandledEscape (_ : TerminalCallbacks) : TerminalCallbacks := ⟨some .unsupportedEscape⟩

def unhandledOsc (_ : TerminalCallbacks) : TerminalCallbacks := ⟨some .unsupportedOsc⟩

def unhandledCsi (self : TerminalCallbacks) (intermediate : Option UInt8) (params : List (List Nat)) (c : Char) :
    TerminalCallbacks :=
  if isSuppressedExternalPolicySequence intermediate params c then self
  else ⟨some (.unsupportedCsi intermediate (params.head?.bind List.head?) c)⟩

end TerminalCallbacks

/-! ### Parameters -/

/-- The parameter at `i`, or `0`. -/
def paramAt (params : List (List Nat)) (i : Nat) : Nat := (params[i]?.bind List.head?).getD 0

def paramOr (params : List (List Nat)) (i default : Nat) : Nat :=
  if paramAt params i = 0 then default else paramAt params i

def canonicalizeParams1 (params : List (List Nat)) (default : Nat) : Nat := paramOr params 0 default

def canonicalizeParams2 (params : List (List Nat)) (default1 default2 : Nat) : Nat × Nat :=
  (paramOr params 0 default1, paramOr params 1 default2)

def canonicalizeParamsDecstbm (params : List (List Nat)) (size : Size) : Nat × Nat :=
  (paramOr params 0 1, paramOr params 1 size.rows)

/-! ### Performing an event -/

structure WrappedScreen where
  screen : Screen
  callbacks : TerminalCallbacks
  deriving DecidableEq, Repr

namespace WrappedScreen

def onScreen (self : WrappedScreen) (change : Screen → Except Fault Screen) : Except Fault WrappedScreen := do
  let screen ← change self.screen
  return { self with screen }

def print (unicode : UnicodeWidth) (self : WrappedScreen) (c : Char) : Except Fault WrappedScreen :=
  if 0x80 ≤ c.toNat ∧ c.toNat < 0xa0 then return { self with callbacks := self.callbacks.unhandledChar }
  else self.onScreen (·.text unicode c)

def execute (self : WrappedScreen) (b : UInt8) : Except Fault WrappedScreen :=
  match b.toNat with
  | 7 => return self
  | 8 => self.onScreen Screen.bs
  | 9 => self.onScreen Screen.tab
  | 10 => self.onScreen Screen.lf
  | 11 => self.onScreen Screen.vt
  | 12 => self.onScreen Screen.ff
  | 13 => self.onScreen Screen.cr
  | 14 => return self
  | 15 => return self
  | _ => return { self with callbacks := self.callbacks.unhandledControl }

def escDispatch (self : WrappedScreen) (intermediates : Bytes) (b : UInt8) : Except Fault WrappedScreen :=
  if intermediates ≠ [] then return { self with callbacks := self.callbacks.unhandledEscape }
  else
    match Char.ofNat b.toNat with
    | '7' => self.onScreen Screen.decsc
    | '8' => self.onScreen Screen.decrc
    | '=' => self.onScreen fun screen => pure screen.deckpam
    | '>' => self.onScreen fun screen => pure screen.deckpnm
    | 'M' => self.onScreen Screen.ri
    | 'c' => self.onScreen Screen.ris
    | 'g' => return self
    | _ => return { self with callbacks := self.callbacks.unhandledEscape }

/-- A control function that may call `unhandled`. -/
def orUnhandled (self : WrappedScreen) (params : List (List Nat)) (intermediate : Option UInt8) (c : Char)
    (change : Screen → Except Fault (Screen × Bool)) : Except Fault WrappedScreen := do
  let handled ← change self.screen
  return ⟨handled.1, if handled.2 then self.callbacks.unhandledCsi intermediate params c else self.callbacks⟩

def csiDispatch (self : WrappedScreen) (params : List (List Nat)) (intermediates : Bytes) (c : Char) :
    Except Fault WrappedScreen :=
  let count := canonicalizeParams1 params 1
  let mode := canonicalizeParams1 params 0
  let unhandled := { self with callbacks := self.callbacks.unhandledCsi intermediates.head? params c }
  match intermediates.head? with
  | none =>
    match c with
    | '@' => self.onScreen (·.ich count)
    | 'A' => self.onScreen (·.cuu count)
    | 'B' => self.onScreen (·.cud count)
    | 'C' => self.onScreen (·.cuf count)
    | 'D' => self.onScreen (·.cub count)
    | 'E' => self.onScreen (·.cnl count)
    | 'F' => self.onScreen (·.cpl count)
    | 'G' => self.onScreen (·.cha count)
    | 'H' => self.onScreen (·.cup (canonicalizeParams2 params 1 1).1 (canonicalizeParams2 params 1 1).2)
    | 'J' => self.orUnhandled params none c (·.ed mode)
    | 'K' => self.orUnhandled params none c (·.el mode)
    | 'L' => self.onScreen (·.il count)
    | 'M' => self.onScreen (·.dl count)
    | 'P' => self.onScreen (·.dch count)
    | 'S' => self.onScreen (·.su count)
    | 'T' => self.onScreen (·.sd count)
    | 'X' => self.onScreen (·.ech count)
    | 'd' => self.onScreen (·.vpa count)
    | 'm' => self.orUnhandled params none c fun screen => pure (screen.sgr params)
    | 'r' =>
      let region := canonicalizeParamsDecstbm params self.screen.size
      self.onScreen (·.decstbm region.1 region.2)
    -- A request to resize the window is a callback that does nothing.
    | 't' => if params.head?.bind List.head? = some 8 then return self else return unhandled
    | _ => return unhandled
  | some 0x3f =>
    match c with
    | 'J' => self.orUnhandled params (some 0x3f) c (·.decsed mode)
    | 'K' => self.orUnhandled params (some 0x3f) c (·.decsel mode)
    | 'h' => self.orUnhandled params (some 0x3f) c (·.decset params)
    | 'l' => self.orUnhandled params (some 0x3f) c (·.decrst params)
    | _ => return unhandled
  | some _ => return unhandled

def base64 : Bytes := "ABCDEFGHIJKLMNOPQRSTUVWXYZabcdefghijklmnopqrstuvwxyz0123456789+/=".toList.map (·.toNat.toUInt8)

def clipboardSelector : Bytes := "cpqs01234567".toList.map (·.toNat.toUInt8)

/-- The titles and the clipboard are callbacks that do nothing. -/
def oscHandled (params : List Bytes) : Bool :=
  match params with
  | [0x30] :: parts => parts ≠ []
  | [0x31] :: parts => parts ≠ []
  | [0x32] :: parts => parts ≠ []
  | [[0x35, 0x32], ty, data] => ty.all (· ∈ clipboardSelector) && (data = [0x3f] || data.all (· ∈ base64))
  | _ => false

def oscDispatch (self : WrappedScreen) (params : List Bytes) : WrappedScreen :=
  if oscHandled params then self else { self with callbacks := self.callbacks.unhandledOsc }

def perform (unicode : UnicodeWidth) (self : WrappedScreen) : Event → Except Fault WrappedScreen
  | .print c => self.print unicode c
  | .execute b => self.execute b
  | .hook => return self
  | .oscDispatch params => return self.oscDispatch params
  | .csiDispatch params intermediates c => self.csiDispatch params intermediates c
  | .escDispatch intermediates b => self.escDispatch intermediates b

/-- `Parser::process`, for the events that the parser delivers. -/
def process (unicode : UnicodeWidth) (self : WrappedScreen) (events : List Event) : Except Fault WrappedScreen :=
  events.foldlM (perform unicode) self

end WrappedScreen

/-! ### Validation -/

def maxUnicodeScalarsPerCell : Nat := 8

def maxBytesBeforeCombiningAppend : Nat := contentBytes - 4

/-- `core::str::from_utf8`: the well-formed sequences, shortest form only and without surrogates. -/
def isUtf8 : Bytes → Bool
  | [] => true
  | a :: rest =>
    if a ≤ 0x7f then isUtf8 rest
    else
      match rest with
      | [] => false
      | b :: rest =>
        if 0xc2 ≤ a ∧ a ≤ 0xdf then (0x80 ≤ b && b ≤ 0xbf) && isUtf8 rest
        else
          match rest with
          | [] => false
          | c :: rest =>
            if 0xe0 ≤ a ∧ a ≤ 0xef then
              ((if a = 0xe0 then 0xa0 else 0x80) ≤ b && b ≤ (if a = 0xed then 0x9f else 0xbf)) &&
                (0x80 ≤ c && c ≤ 0xbf) && isUtf8 rest
            else
              match rest with
              | [] => false
              | d :: rest =>
                (0xf0 ≤ a && a ≤ 0xf4) &&
                  ((if a = 0xf0 then 0x90 else 0x80) ≤ b && b ≤ (if a = 0xf4 then 0x8f else 0xbf)) &&
                  (0x80 ≤ c && c ≤ 0xbf) && (0x80 ≤ d && d ≤ 0xbf) && isUtf8 rest

structure ScalarBudget where
  scalars : Nat
  utf8Bytes : Nat
  prints : Nat
  lastPrinted : Option Char
  error : Option TerminalError
  deriving DecidableEq, Repr

namespace ScalarBudget

def default : ScalarBudget := ⟨0, 0, 0, none, none⟩

def resetCluster (self : ScalarBudget) : ScalarBudget := { self with scalars := 0, utf8Bytes := 0 }

def print (unicode : UnicodeWidth) (self : ScalarBudget) (character : Char) : ScalarBudget :=
  let self := { self with prints := self.prints + 1, lastPrinted := some character }
  match unicode.terminalWidth character with
  | none => { self with error := some .unsupportedControl }
  | some 0 =>
    if self.scalars = 0 then { self with error := some .tooManyScalarsInCell }
    else if self.scalars = maxUnicodeScalarsPerCell then { self with error := some .tooManyScalarsInCell }
    else if self.utf8Bytes ≥ maxBytesBeforeCombiningAppend then { self with error := some .cellEncodingTooLarge }
    else { self with scalars := self.scalars + 1, utf8Bytes := self.utf8Bytes + character.utf8Size }
  | some _ => { self with scalars := 1, utf8Bytes := character.utf8Size }

def perform (unicode : UnicodeWidth) (self : ScalarBudget) : Event → ScalarBudget
  | .print c => self.print unicode c
  | .csiDispatch _ _ c => if c ≠ 'm' then self.resetCluster else self
  | .execute _ => self.resetCluster
  | .hook => self.resetCluster
  | .oscDispatch _ => self.resetCluster
  | .escDispatch _ _ => self.resetCluster

end ScalarBudget

def validateHostBytes (crates : Crates) (bytes : Bytes) : Except TerminalError Unit :=
  if ¬isUtf8 bytes then .error .invalidUtf8
  else
    let parsed := crates.vte.advance crates.vte.new bytes
    let budget := parsed.1.foldl (ScalarBudget.perform crates.unicode) .default
    let printsBeforeSentinel := budget.prints
    let budget := (crates.vte.advance parsed.2 [0x58]).1.foldl (ScalarBudget.perform crates.unicode) budget
    match budget.error with
    | some error => .error error
    | none =>
      if budget.prints ≠ printsBeforeSentinel + 1 ∨ budget.lastPrinted ≠ some 'X' then .error .incompleteSequence
      else .ok ()

def validateScreen (screen : Screen) : Except TerminalError Unit :=
  let cells := (List.range screen.size.rows).flatMap fun row =>
    (List.range screen.size.cols).filterMap fun column => screen.cell row column
  if cells.any fun cell => cell.contents.length > maxUnicodeScalarsPerCell then .error .tooManyScalarsInCell
  else .ok ()

/-! ### The terminal state -/

inductive TerminalOperation where
  | hostBytes (bytes : Bytes)
  | resize (columns rows : Nat)
  | echoAcknowledgement (number : Nat)
  deriving DecidableEq, Repr

structure TerminalDifference where
  operations : List TerminalOperation
  deriving DecidableEq, Repr

/-- The rows and columns of an admitted size. -/
def checkedSize (columns rows : Nat) : Except TerminalError (Nat × Nat) :=
  if isValidSize columns rows then .ok (rows, columns) else .error .invalidTerminalSize

structure TerminalState where
  screen : Screen
  echoAcknowledgement : Option Nat
  deriving DecidableEq, Repr

/-- What a method returns when it does not panic. -/
abbrev TerminalResult := Except TerminalError TerminalState

namespace TerminalState

def new (columns rows : Nat) : Except Fault TerminalResult :=
  match checkedSize columns rows with
  | .error e => return .error e
  | .ok (rows, columns) => do
    let screen ← Screen.new ⟨rows, columns⟩
    return .ok ⟨screen, none⟩

def applyHostBytes (crates : Crates) (self : TerminalState) (bytes : Bytes) : Except Fault TerminalResult :=
  match validateHostBytes crates bytes with
  | .error e => return .error e
  | .ok () => do
    -- The parser is made with an empty screen, which is replaced before it is used.
    let _ ← Screen.new self.screen.size
    let parser ← WrappedScreen.process crates.unicode ⟨self.screen, ⟨none⟩⟩ (crates.vte.advance crates.vte.new bytes).1
    match parser.callbacks.unsupportedSequence, validateScreen parser.screen with
    | some error, _ => return .error error
    | none, .error error => return .error error
    | none, .ok () => return .ok { self with screen := parser.screen }

def applyOperation (crates : Crates) (self : TerminalState) : TerminalOperation → Except Fault TerminalResult
  | .hostBytes bytes => self.applyHostBytes crates bytes
  | .resize columns rows =>
    match checkedSize columns rows with
    | .error e => return .error e
    | .ok (rows, columns) => do
      let screen ← self.screen.setSize rows columns
      return .ok { self with screen }
  | .echoAcknowledgement number =>
    if self.echoAcknowledgement.any (number < ·) then return .error .invalidOperation
    else return .ok { self with echoAcknowledgement := some number }

def applyOperations (crates : Crates) (self : TerminalState) : List TerminalOperation → Except Fault TerminalResult
  | [] => return .ok self
  | operation :: operations => do
    match ← self.applyOperation crates operation with
    | .error e => return .error e
    | .ok next => next.applyOperations crates operations

def apply (crates : Crates) (self : TerminalState) (difference : TerminalDifference) : Except Fault TerminalResult :=
  self.applyOperations crates difference.operations

def withPredictedAscii (crates : Crates) (self : TerminalState) (byte : UInt8) : Except Fault TerminalResult :=
  if 0x20 ≤ byte ∧ byte ≤ 0x7e then self.applyHostBytes crates [byte] else .error .assertion

end TerminalState

end MoshClient.Vt100
