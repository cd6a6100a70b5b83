import Mathlib.Algebra.GroupWithZero.Nat
import MoshClient.Lib.Checked

/-! The cells of a screen (`terminal_width.rs`, `vt100/attrs.rs`, `vt100/cell.rs`). -/

namespace MoshClient.Vt100
open Checked

/-! ### Width -/

/-- The scalars that take two columns, whatever `unicode-width` says. -/
def wideOverrides : List (Nat × Nat) := [(0x302e, 0x302f), (0x16ff0, 0x16ff1), (0x3248, 0x324f)]

/-- The scalars that take one column, whatever `unicode-width` says. -/
def narrowOverrides : List (Nat × Nat) :=
  [(0x00ad, 0x00ad), (0x0605, 0x0605), (0x070f, 0x070f), (0x0890, 0x0891), (0x08e2, 0x08e2),
    (0x09be, 0x09be), (0x09d7, 0x09d7), (0x0b3e, 0x0b3e), (0x0b57, 0x0b57), (0x0bbe, 0x0bbe), (0x0bd7, 0x0bd7),
    (0x0cc0, 0x0cc0), (0x0cc2, 0x0cc2), (0x0cc7, 0x0cc8), (0x0cca, 0x0ccb),
    (0x0cd5, 0x0cd6), (0x0d3e, 0x0d3e), (0x0d4e, 0x0d4e), (0x0d57, 0x0d57), (0x0dcf, 0x0dcf),
    (0x0ddf, 0x0ddf), (0x1715, 0x1715), (0x1734, 0x1734), (0x1b35, 0x1b35), (0x1b3b, 0x1b3b), (0x1b3d, 0x1b3d),
    (0x1b43, 0x1b44), (0x1baa, 0x1baa), (0x1bf2, 0x1bf3), (0x17a4, 0x17a4),
    (0x17d8, 0x17d8), (0xa8fa, 0xa8fa), (0xa953, 0xa953), (0xa9c0, 0xa9c0), (0xff9e, 0xff9f),
    (0x111c0, 0x111c0), (0x111c2, 0x111c3), (0x11235, 0x11235), (0x1133e, 0x1133e),
    (0x1134d, 0x1134d), (0x11357, 0x11357), (0x113b8, 0x113b8), (0x113c2, 0x113c2), (0x113c5, 0x113c5),
    (0x113c7, 0x113c9), (0x113cf, 0x113cf), (0x113d1, 0x113d1), (0x114b0, 0x114b0),
    (0x114bd, 0x114bd), (0x115af, 0x115af), (0x116b6, 0x116b6), (0x11930, 0x11930), (0x1193d, 0x1193d),
    (0x1193f, 0x1193f), (0x11941, 0x11941), (0x11a84, 0x11a89), (0x11d46, 0x11d46),
    (0x11f02, 0x11f02), (0x11f41, 0x11f41), (0x1d165, 0x1d166),
    (0x1d16d, 0x1d172)]

def inRanges (codepoint : Nat) (ranges : List (Nat × Nat)) : Bool :=
  ranges.any fun range => range.1 ≤ codepoint && codepoint ≤ range.2

/-- The columns of a character in `unicode-width`: at most two, and one for a space. -/
structure UnicodeWidth where
  width : Char → Option Nat
  le_two : ∀ character columns, width character = some columns → columns ≤ 2
  space : width ' ' = some 1

def UnicodeWidth.terminalWidth (unicode : UnicodeWidth) (character : Char) : Option Nat :=
  let codepoint := character.toNat
  if codepoint = 0x2d7f then some 0
  else if inRanges codepoint wideOverrides then some 2
  else if inRanges codepoint narrowOverrides then some 1
  else unicode.width character

/-! ### Attributes -/

inductive Color where
  | default
  | idx (i : UInt8)
  | rgb (r g b : UInt8)
  deriving DecidableEq, Repr

def textModeIntensity : BitVec 8 := 0b00000011
def textModeBold : BitVec 8 := 0b00000001
def textModeDim : BitVec 8 := 0b00000010
def textModeItalic : BitVec 8 := 0b00000100
def textModeUnderline : BitVec 8 := 0b00001000
def textModeInverse : BitVec 8 := 0b00010000
def textModeBlink : BitVec 8 := 0b00100000
def textModeHidden : BitVec 8 := 0b01000000

structure Attrs where
  fgcolor : Color
  bgcolor : Color
  mode : BitVec 8
  deriving DecidableEq, Repr

namespace Attrs

def default : Attrs := ⟨.default, .default, 0⟩

def intensity (self : Attrs) : BitVec 8 := self.mode &&& textModeIntensity

def setBold (self : Attrs) : Attrs := { self with mode := self.mode &&& ~~~textModeIntensity ||| textModeBold }

def setDim (self : Attrs) : Attrs := { self with mode := self.mode &&& ~~~textModeIntensity ||| textModeDim }

def setNormalIntensity (self : Attrs) : Attrs := { self with mode := self.mode &&& ~~~textModeIntensity }

/-- `bold`, `italic` and the other flags of the mode. -/
def flag (self : Attrs) (bit : BitVec 8) : Bool := self.mode &&& bit != 0

def setFlag (self : Attrs) (bit : BitVec 8) (on : Bool) : Attrs :=
  { self with mode := if on then self.mode ||| bit else self.mode &&& ~~~bit }

def italic (self : Attrs) : Bool := self.flag textModeItalic
def underline (self : Attrs) : Bool := self.flag textModeUnderline
def inverse (self : Attrs) : Bool := self.flag textModeInverse
def blink (self : Attrs) : Bool := self.flag textModeBlink
def hidden (self : Attrs) : Bool := self.flag textModeHidden

def setItalic (self : Attrs) (italic : Bool) : Attrs := self.setFlag textModeItalic italic
def setUnderline (self : Attrs) (underline : Bool) : Attrs := self.setFlag textModeUnderline underline
def setInverse (self : Attrs) (inverse : Bool) : Attrs := self.setFlag textModeInverse inverse
def setBlink (self : Attrs) (blink : Bool) : Attrs := self.setFlag textModeBlink blink
def setHidden (self : Attrs) (hidden : Bool) : Attrs := self.setFlag textModeHidden hidden

end Attrs

/-! ### Cells -/

def contentBytes : Nat := 22

/-- A cell. The source keeps `contents` as UTF-8, and its length and the two flags in one byte. -/
structure Cell where
  contents : List Char
  isWide : Bool
  isWideContinuation : Bool
  attrs : Attrs
  deriving DecidableEq, Repr

namespace Cell

def new : Cell := ⟨[], false, false, .default⟩

/-- The bytes of the contents. -/
def len (self : Cell) : Nat := (self.contents.map Char.utf8Size).sum

def hasContents (self : Cell) : Bool := decide (0 < self.len)

/-- Writes `c` after the contents. -/
def appendChar (self : Cell) (c : Char) : Except Fault Cell :=
  if self.len + c.utf8Size ≤ contentBytes then .ok { self with contents := self.contents ++ [c] } else .error .index

def clear (self : Cell) (attrs : Attrs) : Cell :=
  { self with contents := [], isWide := false, isWideContinuation := false, attrs }

def set (unicode : UnicodeWidth) (self : Cell) (c : Char) (a : Attrs) : Except Fault Cell := do
  let self ← { self with contents := [], isWide := false, isWideContinuation := false }.appendChar c
  return { self with isWide := decide ((unicode.terminalWidth c).getD 1 > 1), attrs := a }

def append (self : Cell) (c : Char) : Except Fault Cell :=
  if self.len ≥ contentBytes - 4 then .ok self
  else { self with contents := if self.len = 0 then [' '] else self.contents }.appendChar c

def setWideContinuation (self : Cell) (wide : Bool) : Cell := { self with isWideContinuation := wide }

end Cell

end MoshClient.Vt100
