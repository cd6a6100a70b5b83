import MoshClient.Theorems.Vt100.Boundaries
import MoshClient.Theorems.Vt100.Sgr

/-! Commands: the pieces that a painter writes. A parser reads each of them as one event, and so reads what is written
    one after another. On a grid without margins, the commands that move the cursor put it where they say. -/

namespace MoshClient.Vt100
open Checked

/-! ### Commands -/

inductive Command where
  | text (c : Char)
  | control (b : UInt8)
  | csi (marker : Bytes) (numbers : List Bytes) (final : UInt8)
  | escape (b : UInt8)

namespace Command

def bytes : Command → Bytes
  | .text c => String.utf8EncodeChar c
  | .control b => [b]
  | .csi marker numbers final => [0x1b, 0x5b] ++ marker ++ [0x3b].intercalate numbers ++ [final]
  | .escape b => [0x1b, b]

def event : Command → Event
  | .text c => .print c
  | .control b => .execute b
  | .csi marker numbers final =>
    .csiDispatch (numbers.map fun digits => [Vte.number digits]) marker (Char.ofNat final.toNat)
  | .escape b => .escDispatch [] b

/-- The commands that a painter writes: printable characters, backspace and line ends, control sequences with at most a
    question mark and some numbers, and four escape sequences. -/
def Valid : Command → Prop
  | .text c => 0x20 ≤ c.toNat ∧ ¬(0x7f ≤ c.toNat ∧ c.toNat < 0xa0)
  | .control b => b ∈ [0x08, 0x0a, 0x0d]
  | .csi marker numbers final => marker ∈ [[], [0x3f]] ∧ (numbers ≠ [] ∧ numbers.length ≤ 32) ∧
    (∀ digits ∈ numbers, Vte.number digits ≤ 65535 ∧ ∀ digit ∈ digits, 0x30 ≤ digit ∧ digit ≤ 0x39) ∧
    0x40 ≤ final ∧ final ≤ 0x7e
  | .escape b => b ∈ [0x37, 0x38, 0x3d, 0x3e]

end Command

/-- What `vte` holds of commands: each is one event, after which the parser is where it began. -/
structure Vte.ReadsCommands (vte : Vte) (ground : vte.State → Prop) : Prop extends vte.Automaton ground where
  reads : ∀ command : Command, command.Valid →
    vte.events command.bytes = [command.event] ∧ ground (vte.advance vte.new command.bytes).2

theorem Vte.Automaton.grounded_advance {vte : Vte} {ground : vte.State → Prop} (h : vte.Automaton ground) {state : vte.State}
    {bytes : Bytes} (hstate : ground state) (hbytes : ground (vte.advance vte.new bytes).2) :
    ground (vte.advance state bytes).2 := by
  have hfresh := h.fresh _ hstate (bytes ++ [0x58])
  rw [h.append, h.append, h.fresh _ hstate bytes] at hfresh
  rw [h.sentinel] at hbytes ⊢
  rw [List.append_cancel_left hfresh]
  exact hbytes

theorem Vte.Automaton.grounded_append {vte : Vte} {ground : vte.State → Prop} (h : vte.Automaton ground) {bytes more : Bytes}
    (hbytes : ground (vte.advance vte.new bytes).2) (hmore : ground (vte.advance vte.new more).2) :
    ground (vte.advance vte.new (bytes ++ more)).2 := by
  rw [h.append]
  exact h.grounded_advance hbytes hmore

/-- What `unicode-width` holds of control characters. -/
structure UnicodeWidth.Controls (unicode : UnicodeWidth) : Prop where
  none : ∀ c : Char, c.toNat < 0x20 ∨ 0x7f ≤ c.toNat ∧ c.toNat < 0xa0 → unicode.width c = none

theorem UnicodeWidth.Controls.valid {unicode : UnicodeWidth} (h : unicode.Controls) {c : Char} {width : Nat}
    (hwidth : unicode.terminalWidth c = some width) : (Command.text c).Valid := by
  by_contra hvalid
  have hcontrol : c.toNat < 0x20 ∨ 0x7f ≤ c.toNat ∧ c.toNat < 0xa0 := by
    unfold Command.Valid at hvalid
    omega
  rw [unicode.terminalWidth_latin (by omega), h.none c hcontrol] at hwidth
  cases hwidth

/-! ### Displays -/

/-- What a painter writes to: the grid that is shown, and the attributes. -/
structure Display where
  grid : Grid
  attrs : Attrs
  savedAttrs : Attrs

namespace WrappedScreen

/-- The screen with a display in it. -/
def showing (w : WrappedScreen) (d : Display) : WrappedScreen :=
  { w with screen := { w.screen.withActive d.grid with attrs := d.attrs, savedAttrs := d.savedAttrs } }

variable {w : WrappedScreen} {d e : Display}

@[simp] theorem activeGrid_showing (w : WrappedScreen) (d : Display) : (w.showing d).screen.activeGrid = d.grid :=
  Screen.activeGrid_withActive w.screen d.grid

@[simp] theorem attrs_showing (w : WrappedScreen) (d : Display) : (w.showing d).screen.attrs = d.attrs := rfl

theorem withActive_showing (w : WrappedScreen) (d : Display) (g : Grid) :
    (w.showing d).screen.withActive g = (w.showing { d with grid := g }).screen := by
  unfold showing Screen.withActive
  split <;> rename_i h <;> simp_all

theorem gridMut_showing {change : Grid → Except Fault Grid} {g : Grid} (h : change d.grid = .ok g) :
    (w.showing d).screen.gridMut change = .ok (w.showing { d with grid := g }).screen := by
  rw [Screen.gridMut_eq (g := g) (by rw [activeGrid_showing, h]), withActive_showing]

theorem onScreen_showing {change : Screen → Except Fault Screen}
    (h : change (w.showing d).screen = .ok (w.showing e).screen) : (w.showing d).onScreen change = .ok (w.showing e) := by
  unfold onScreen
  rw [h]
  rfl

theorem orUnhandled_showing {change : Screen → Except Fault (Screen × Bool)} {params : List (List Nat)}
    {intermediate : Option UInt8} {c : Char} (h : change (w.showing d).screen = .ok ((w.showing e).screen, false)) :
    (w.showing d).orUnhandled params intermediate c change = .ok (w.showing e) := by
  unfold orUnhandled
  rw [h]
  rfl

end WrappedScreen

section Painting

variable {crates : Crates} {ground : crates.vte.State → Prop} {bytes more : Bytes} {d e f : Display}

/-- The bytes take a screen that shows one display to the same screen with another. -/
structure Paints (crates : Crates) (ground : crates.vte.State → Prop) (bytes : Bytes) (d e : Display) : Prop where
  grounded : ground (crates.vte.advance crates.vte.new bytes).2
  processed : ∀ w : WrappedScreen, (w.showing d).process crates.unicode (crates.vte.events bytes) = .ok (w.showing e)

theorem Paints.nil (hvte : crates.vte.ReadsCommands ground) (d : Display) : Paints crates ground [] d d where
  grounded := by
    rw [hvte.nil]
    exact hvte.new
  processed := by
    intro w
    rw [hvte.toAutomaton.events_nil]
    rfl

theorem Paints.append (hvte : crates.vte.ReadsCommands ground) (h : Paints crates ground bytes d e)
    (hmore : Paints crates ground more e f) : Paints crates ground (bytes ++ more) d f where
  grounded := hvte.toAutomaton.grounded_append h.grounded hmore.grounded
  processed := by
    intro w
    rw [hvte.toAutomaton.events_append h.grounded, WrappedScreen.process_append, h.processed]
    exact hmore.processed w

theorem paints_command (hvte : crates.vte.ReadsCommands ground) (command : Command) (hvalid : command.Valid)
    (h : ∀ w : WrappedScreen, (w.showing d).perform crates.unicode command.event = .ok (w.showing e)) :
    Paints crates ground command.bytes d e where
  grounded := (hvte.reads command hvalid).2
  processed := by
    intro w
    rw [(hvte.reads command hvalid).1, WrappedScreen.process_cons, h]
    rfl

/-! ### Text and control characters -/

theorem paints_text (hvte : crates.vte.ReadsCommands ground) (hcontrols : crates.unicode.Controls) {c : Char} {width : Nat}
    (hwidth : crates.unicode.terminalWidth c = some width) {g : Grid} (h : d.grid.text crates.unicode d.attrs c = .ok g) :
    Paints crates ground (String.utf8EncodeChar c) d { d with grid := g } := by
  have hvalid := hcontrols.valid hwidth
  refine paints_command hvte (.text c) hvalid fun w => ?_
  show (w.showing d).print crates.unicode c = _
  have hvisible : ¬(0x80 ≤ c.toNat ∧ c.toNat < 0xa0) := fun hc => hvalid.2 ⟨by omega, hc.2⟩
  rw [WrappedScreen.print, if_neg hvisible]
  exact WrappedScreen.onScreen_showing (WrappedScreen.gridMut_showing (by rw [WrappedScreen.attrs_showing, h]))

theorem paints_backspace (hvte : crates.vte.ReadsCommands ground) (d : Display) :
    Paints crates ground Term.backspace d { d with grid := d.grid.colDec 1 } :=
  paints_command hvte (.control 0x08) (by simp [Command.Valid]) fun _ =>
    WrappedScreen.onScreen_showing (WrappedScreen.gridMut_showing rfl)

/-! ### Control sequences -/

/-- A control sequence with a number that is left out. -/
theorem valid_csi {final : UInt8} (hfinal : 0x40 ≤ final ∧ final ≤ 0x7e) : (Command.csi [] [[]] final).Valid := by
  refine ⟨List.mem_cons_self, ⟨List.cons_ne_nil _ _, by decide⟩, fun digits hdigits => ?_, hfinal⟩
  rw [List.mem_singleton.mp hdigits]
  exact ⟨by decide, fun digit hdigit => absurd hdigit List.not_mem_nil⟩

theorem valid_numbers {marker : Bytes} (hmarker : marker ∈ [[], [0x3f]]) {numbers : List Nat}
    (hne : numbers ≠ []) (hlength : numbers.length ≤ 32) (hnumbers : ∀ n ∈ numbers, n ≤ 65535) {final : UInt8}
    (hfinal : 0x40 ≤ final ∧ final ≤ 0x7e) : (Command.csi marker (numbers.map Term.itoa) final).Valid := by
  refine ⟨hmarker, ⟨by simpa using hne, by simpa using hlength⟩, fun digits hdigits => ?_, hfinal⟩
  obtain ⟨n, hn, rfl⟩ := List.mem_map.mp hdigits
  exact ⟨(Term.number_itoa n).symm ▸ hnumbers n hn, fun digit => Term.mem_itoa⟩

theorem event_numbers (marker : Bytes) (numbers : List Nat) (final : UInt8) :
    (Command.csi marker (numbers.map Term.itoa) final).event =
      .csiDispatch (numbers.map fun n => [n]) marker (Char.ofNat final.toNat) := by
  simp [Command.event, Term.number_itoa]

/-- A count, which is left out when it is one. -/
theorem paints_counted (hvte : crates.vte.ReadsCommands ground) {n : Nat} (hpos : 1 ≤ n) (hle : n ≤ 65535)
    {final : UInt8} (hfinal : 0x40 ≤ final ∧ final ≤ 0x7e)
    (h : ∀ params, canonicalizeParams1 params 1 = n → ∀ w : WrappedScreen,
      (w.showing d).csiDispatch params [] (Char.ofNat final.toNat) = .ok (w.showing e)) :
    Paints crates ground (Term.counted n final) d e := by
  by_cases hone : n = 1
  · subst hone
    exact paints_command hvte (.csi [] [[]] final) (valid_csi hfinal) (h [[0]] rfl)
  · have hbytes : Term.counted n final = (Command.csi [] ([n].map Term.itoa) final).bytes := by
      unfold Term.counted
      split
      · omega
      · exact absurd rfl hone
      · simp [Command.bytes, List.intercalate]
    rw [hbytes]
    refine paints_command hvte _ (valid_numbers List.mem_cons_self (List.cons_ne_nil _ _) (by simp) ?_ hfinal) ?_
    · intro m hm
      rwa [List.mem_singleton.mp hm]
    · rw [event_numbers]
      refine h [[n]] ?_
      show (if n = 0 then 1 else n) = n
      rw [if_neg (by omega)]

theorem paints_eraseChar (hvte : crates.vte.ReadsCommands ground) {n : Nat} (hpos : 1 ≤ n) (hle : n ≤ 65535) {g : Grid}
    (h : d.grid.eraseCells n d.attrs = .ok g) : Paints crates ground (Term.eraseChar n) d { d with grid := g } := by
  refine paints_counted hvte hpos hle (by decide) fun params hparams w => ?_
  show (w.showing d).onScreen (·.ech (canonicalizeParams1 params 1)) = _
  rw [hparams]
  exact WrappedScreen.onScreen_showing (WrappedScreen.gridMut_showing h)

theorem paints_clearRowForward (hvte : crates.vte.ReadsCommands ground) {g : Grid}
    (h : d.grid.eraseRowForward d.attrs = .ok g) : Paints crates ground Term.clearRowForward d { d with grid := g } := by
  refine paints_command hvte (.csi [] [[]] 0x4b) (valid_csi (by decide)) fun w => ?_
  show (w.showing d).orUnhandled [[0]] none 'K' (·.el 0) = _
  refine WrappedScreen.orUnhandled_showing ?_
  show (do return (← (w.showing d).screen.gridMut (·.eraseRowForward d.attrs), false)) = _
  rw [WrappedScreen.gridMut_showing h]
  rfl

theorem paints_clearForward (hvte : crates.vte.ReadsCommands ground) {g : Grid}
    (h : d.grid.eraseAllForward d.attrs = .ok g) : Paints crates ground [0x1b, 0x5b, 0x4a] d { d with grid := g } := by
  refine paints_command hvte (.csi [] [[]] 0x4a) (valid_csi (by decide)) fun w => ?_
  show (w.showing d).orUnhandled [[0]] none 'J' (·.ed 0) = _
  refine WrappedScreen.orUnhandled_showing ?_
  show (do return (← (w.showing d).screen.gridMut (·.eraseAllForward d.attrs), false)) = _
  rw [WrappedScreen.gridMut_showing h]
  rfl

/-! ### The cursor -/

/-- A grid without margins. -/
structure Grid.Plain (g : Grid) : Prop extends g.Ready where
  origin : g.originMode = false
  top : g.scrollTop = 0
  bottom : g.scrollBottom = g.size.rows - 1

theorem Grid.Plain.withPos {g : Grid} (h : g.Plain) {pos : Pos} (hrow : pos.row < g.size.rows) (hcol : pos.col ≤ g.size.cols) :
    { g with pos }.Plain :=
  ⟨h.toReady.withPos hrow hcol, h.origin, h.top, h.bottom⟩

theorem Grid.Plain.setPos_eq {g : Grid} (h : g.Plain) {pos : Pos} (hrow : pos.row < g.size.rows)
    (hcol : pos.col < g.size.cols) : g.setPos pos = .ok { g with pos } := by
  have hlast : min pos.row (g.size.rows - 1) = pos.row := by omega
  have hlastCol : min pos.col (g.size.cols - 1) = pos.col := by omega
  unfold Grid.setPos
  rw [h.origin, ← returns_eq_iff]
  refine returns_bind.mpr (Grid.returns_rowClampTop (returns_bind.mpr ?_))
  refine Grid.returns_rowClampBottom (by exact h.rows_pos) (Grid.returns_colClamp (by exact h.cols_pos) ?_)
  simp only [Grid.firstRow, Grid.lastRow, Bool.false_eq_true, if_false, Nat.max_zero, hlast, hlastCol]

theorem paints_moveTo (hvte : crates.vte.ReadsCommands ground) (hplain : d.grid.Plain) (pos : Pos)
    (hrow : pos.row < d.grid.size.rows) (hcol : pos.col < d.grid.size.cols) :
    Paints crates ground (Term.moveTo pos) d { d with grid := { d.grid with pos } } := by
  have hcup {params : List (List Nat)} (hparams : canonicalizeParams2 params 1 1 = (pos.row + 1, pos.col + 1))
      (w : WrappedScreen) :
      (w.showing d).csiDispatch params [] 'H' = .ok (w.showing { d with grid := { d.grid with pos } }) := by
    show (w.showing d).onScreen (·.cup (canonicalizeParams2 params 1 1).1 (canonicalizeParams2 params 1 1).2) = _
    rw [hparams]
    refine WrappedScreen.onScreen_showing ?_
    have hcup : (w.showing d).screen.cup (pos.row + 1) (pos.col + 1) = (w.showing d).screen.gridMut (·.setPos pos) := by
      unfold Screen.cup Checked.sub
      rw [if_pos (Nat.le_add_left 1 _), if_pos (Nat.le_add_left 1 _)]
      rfl
    rw [hcup, WrappedScreen.gridMut_showing (hplain.setPos_eq hrow hcol)]
  unfold Term.moveTo
  split
  · rename_i hhome
    refine paints_command hvte (.csi [] [[]] 0x48) (valid_csi (by decide)) (hcup ?_)
    rw [hhome.1, hhome.2]
    rfl
  · have hbytes : [0x1b, 0x5b] ++ Term.itoa (pos.row + 1) ++ [0x3b] ++ Term.itoa (pos.col + 1) ++ [0x48] =
        (Command.csi [] ([pos.row + 1, pos.col + 1].map Term.itoa) 0x48).bytes := by
      simp [Command.bytes, List.intercalate]
    have hrows := hplain.rows_le
    have hcols := hplain.cols_le
    unfold u16Max at hrows hcols
    rw [hbytes]
    refine paints_command hvte _ (valid_numbers List.mem_cons_self (List.cons_ne_nil _ _) (by simp) ?_ (by decide)) ?_
    · intro n hn
      simp only [List.mem_cons, List.not_mem_nil, or_false] at hn
      omega
    · rw [event_numbers]
      exact hcup rfl

theorem paints_moveRight (hvte : crates.vte.ReadsCommands ground) (hplain : d.grid.Plain) {n : Nat} (hpos : 1 ≤ n)
    (hcol : d.grid.pos.col + n < d.grid.size.cols) : Paints crates ground (Term.moveRight n) d
      { d with grid := { d.grid with pos := ⟨d.grid.pos.row, d.grid.pos.col + n⟩ } } := by
  have hcols := hplain.cols_le
  have hinc : d.grid.colIncClamp n = .ok { d.grid with pos := ⟨d.grid.pos.row, d.grid.pos.col + n⟩ } := by
    rw [← returns_eq_iff]
    refine Grid.returns_colClamp (by exact hplain.cols_pos) ?_
    have hadd : min (saturatingAdd d.grid.pos.col n) (d.grid.size.cols - 1) = d.grid.pos.col + n := by
      unfold saturatingAdd
      omega
    show { d.grid with pos.col := min (saturatingAdd d.grid.pos.col n) (d.grid.size.cols - 1) } = _
    rw [hadd]
  unfold u16Max at hcols
  refine paints_counted hvte hpos (by omega) (by decide) fun params hparams w => ?_
  show (w.showing d).onScreen (·.cuf (canonicalizeParams1 params 1)) = _
  rw [hparams]
  exact WrappedScreen.onScreen_showing (WrappedScreen.gridMut_showing hinc)

/-- The next line, where there is one. -/
theorem Grid.Plain.rowIncScroll_eq {g : Grid} (h : g.Plain) (hrow : g.pos.row + 1 < g.size.rows) :
    g.rowIncScroll 1 = .ok (0, { g with pos.row := g.pos.row + 1 }) := by
  have hrows := h.rows_le
  have hregion : g.inScrollRegion = true := by
    simp only [Grid.inScrollRegion, decide_eq_true_eq, h.top, h.bottom]
    omega
  have hadd : saturatingAdd g.pos.row 1 = g.pos.row + 1 := by
    unfold saturatingAdd
    omega
  have hlast : g.lastRow true = g.size.rows - 1 := h.bottom
  have hmin : min (g.pos.row + 1) (g.size.rows - 1) = g.pos.row + 1 := by omega
  unfold Grid.rowIncScroll
  rw [hregion, hadd, ← returns_eq_iff]
  refine returns_bind.mpr (Grid.returns_rowClampBottom (by exact h.rows_pos) ?_)
  show Returns (do
    let scrolled ← scrollUp { g with pos.row := min (g.pos.row + 1) (g.lastRow true) } (g.pos.row + 1 - g.lastRow true)
    return (g.pos.row + 1 - g.lastRow true, scrolled)) _
  rw [hlast, hmin, show g.pos.row + 1 - (g.size.rows - 1) = 0 by omega]
  refine returns_bind.mpr (returns_bind.mpr (returns_sub.mpr ⟨?_, ?_⟩))
  · exact Nat.le_of_lt (Nat.lt_of_le_of_lt h.top_le h.bottom_lt)
  · rw [Nat.zero_min]
    exact returns_ok.mpr (returns_pure.mpr rfl)

theorem paints_lineFeed (hvte : crates.vte.ReadsCommands ground) (hplain : d.grid.Plain)
    (hrow : d.grid.pos.row + 1 < d.grid.size.rows) :
    Paints crates ground [0x0a] d { d with grid := { d.grid with pos.row := d.grid.pos.row + 1 } } := by
  refine paints_command hvte (.control 0x0a) (by simp [Command.Valid]) fun w => ?_
  refine WrappedScreen.onScreen_showing (WrappedScreen.gridMut_showing ?_)
  rw [hplain.rowIncScroll_eq hrow]
  rfl

theorem paints_crlf (hvte : crates.vte.ReadsCommands ground) (hplain : d.grid.Plain)
    (hrow : d.grid.pos.row + 1 < d.grid.size.rows) :
    Paints crates ground Term.crlf d { d with grid := { d.grid with pos := ⟨d.grid.pos.row + 1, 0⟩ } } := by
  have hcr : Paints crates ground [0x0d] d { d with grid := { d.grid with pos.col := 0 } } := by
    refine paints_command hvte (.control 0x0d) (by simp [Command.Valid]) fun w => ?_
    refine WrappedScreen.onScreen_showing (WrappedScreen.gridMut_showing ?_)
    rw [← returns_eq_iff]
    refine Grid.returns_colClamp (by exact hplain.cols_pos) ?_
    show { d.grid with pos.col := min 0 (d.grid.size.cols - 1) } = _
    rw [Nat.zero_min]
  have hlf := paints_lineFeed hvte (d := { d with grid := { d.grid with pos.col := 0 } })
    (hplain.withPos hplain.row_lt (Nat.zero_le _)) hrow
  exact hcr.append hvte hlf

/-- A move takes the cursor from where it is to another cell. -/
theorem paints_moveFromTo (hvte : crates.vte.ReadsCommands ground) (hplain : d.grid.Plain) {pos : Pos}
    (hrow : pos.row < d.grid.size.rows) (hcol : pos.col < d.grid.size.cols) :
    Paints crates ground (Term.moveFromTo d.grid.pos pos) d { d with grid := { d.grid with pos } } := by
  unfold Term.moveFromTo
  split_ifs with hnext hright hother
  · have hpos : pos = ⟨d.grid.pos.row + 1, 0⟩ := by rw [← hnext.1, ← hnext.2]
    rw [hpos]
    exact paints_crlf hvte hplain (hnext.1 ▸ hrow)
  · have hpos : pos = ⟨d.grid.pos.row, d.grid.pos.col + (pos.col - d.grid.pos.col)⟩ := by
      rw [hright.1, Nat.add_sub_cancel' (Nat.le_of_lt hright.2)]
    have hmove := paints_moveRight (n := pos.col - d.grid.pos.col) hvte hplain (by omega) (by omega)
    rwa [← hpos] at hmove
  · exact paints_moveTo hvte hplain pos hrow hcol
  · rw [not_not.mp hother]
    exact .nil hvte d

/-! ### Attributes -/

theorem paints_sgr (hvte : crates.vte.ReadsCommands ground) (command : Command) (hvalid : command.Valid)
    {params : List (List Nat)} (hevent : command.event = .csiDispatch params [] 'm') (hne : params ≠ []) {attrs : Attrs}
    (h : Attrs.sgrLoop params 0 (d.attrs, false) = (attrs, false)) :
    Paints crates ground command.bytes d { d with attrs } := by
  refine paints_command hvte command hvalid fun w => ?_
  rw [hevent]
  show (w.showing d).orUnhandled params none 'm' (fun screen => pure (screen.sgr params)) = _
  refine WrappedScreen.orUnhandled_showing ?_
  have hsgr : (w.showing d).screen.sgr params = ((w.showing { d with attrs }).screen, false) := by
    unfold Screen.sgr
    rw [if_neg hne, WrappedScreen.attrs_showing, h]
    rfl
  rw [hsgr]
  rfl

/-- The bytes for a change of attributes make the change. -/
theorem returns_paints_attrs (hvte : crates.vte.ReadsCommands ground) (d : Display) (hattrs : d.attrs.Proper) {next : Attrs}
    (hnext : next.Proper) :
    Returns (next.writeEscapeCodeDiff d.attrs) fun bytes => Paints crates ground bytes d { d with attrs := next } := by
  refine returns_ite.mpr ⟨fun hreset => returns_pure.mpr ?_, fun _ => returns_bind.mpr ?_⟩
  · rw [hreset.2]
    exact paints_sgr hvte (.csi [] [[]] 0x6d) (valid_csi (by decide)) rfl (List.cons_ne_nil _ _) rfl
  · refine (Attrs.changes_diffParams hnext.sound (hnext.spare.trans hattrs.spare.symm)).mono fun params hchanges => ?_
    have hloop := hchanges.steps [] false
    rw [List.append_nil] at hloop
    refine returns_pure.mpr ?_
    cases params with
    | nil =>
      have hsame : d.attrs = next := congrArg Prod.fst hloop
      rw [← hsame]
      exact .nil hvte d
    | cons param params =>
      have hbytes : Attrs.sgrBytes (param :: params) = (Command.csi [] ((param :: params).map Term.itoa) 0x6d).bytes :=
        Attrs.sgrBytes_eq param params
      rw [hbytes]
      refine paints_sgr hvte _ (valid_numbers List.mem_cons_self (List.cons_ne_nil _ _) ?_ ?_ (by decide))
        (event_numbers _ _ _) (List.cons_ne_nil _ _) hloop
      · exact Nat.le_trans hchanges.length (by decide)
      · exact fun n hn => Nat.le_trans (hchanges.byte n hn) (by decide)

theorem paints_saveCursor (hvte : crates.vte.ReadsCommands ground) (d : Display) :
    Paints crates ground Term.saveCursor d { d with grid := d.grid.saveCursor, savedAttrs := d.attrs } := by
  refine paints_command hvte (.escape 0x37) (by simp [Command.Valid]) fun w => ?_
  have hgrid : (w.showing d).screen.gridMut (fun grid => pure grid.saveCursor) =
      .ok (w.showing { d with grid := d.grid.saveCursor }).screen := WrappedScreen.gridMut_showing rfl
  refine WrappedScreen.onScreen_showing ?_
  show ((w.showing d).screen.gridMut (fun grid => pure grid.saveCursor) >>= _) = _
  rw [hgrid]
  rfl

theorem paints_restoreCursor (hvte : crates.vte.ReadsCommands ground) (d : Display) :
    Paints crates ground Term.restoreCursor d { d with grid := d.grid.restoreCursor, attrs := d.savedAttrs } := by
  refine paints_command hvte (.escape 0x38) (by simp [Command.Valid]) fun w => ?_
  have hgrid : (w.showing d).screen.gridMut (fun grid => pure grid.restoreCursor) =
      .ok (w.showing { d with grid := d.grid.restoreCursor }).screen := WrappedScreen.gridMut_showing rfl
  refine WrappedScreen.onScreen_showing ?_
  show ((w.showing d).screen.gridMut (fun grid => pure grid.restoreCursor) >>= _) = _
  rw [hgrid]
  rfl

end Painting

/-! ### A parser that reads commands -/

namespace SketchState

theorem run_digits {digits : Bytes} (hdigits : ∀ digit ∈ digits, 0x30 ≤ digit ∧ digit ≤ 0x39)
    (intermediates : Bytes) (params : List (List Nat)) (param : Nat) (rest : Bytes) :
    Vte.run resume (.csi intermediates params param) (digits ++ rest) = Vte.run resume
      (.csi intermediates params (digits.foldl (fun n digit => n * 10 + (digit.toNat - 0x30)) param)) rest := by
  induction digits generalizing param with
  | nil => rfl
  | cons digit digits ih =>
    have hstep : resume digit (.csi intermediates params param) =
        ([], .csi intermediates params (param * 10 + (digit.toNat - 0x30))) :=
      if_pos (hdigits digit List.mem_cons_self)
    rw [List.cons_append, Vte.run, hstep, ih fun d hd => hdigits d (List.mem_cons_of_mem _ hd)]
    rfl

theorem resume_final {final : UInt8} (hfinal : 0x40 ≤ final) (intermediates : Bytes) (params : List (List Nat)) (param : Nat) :
    resume final (.csi intermediates params param) =
      ([.csiDispatch (params ++ [[param]]) intermediates (Char.ofNat final.toNat)], .ground) := by
  have hdigit : ¬(0x30 ≤ final ∧ final ≤ 0x39) := fun h => absurd (UInt8.le_trans hfinal h.2) (by decide)
  have hseparator : final ≠ 0x3b := by
    rintro rfl
    exact absurd hfinal (by decide)
  have hlow : ¬final < 0x40 := UInt8.not_lt.mpr hfinal
  show step final (.csi intermediates params param) = _
  simp only [step, if_neg hdigit, if_neg hseparator, if_neg hlow]

theorem run_sequence {numbers : List Bytes} {final : UInt8} (hne : numbers ≠ [])
    (hnumbers : ∀ digits ∈ numbers, ∀ digit ∈ digits, 0x30 ≤ digit ∧ digit ≤ 0x39) (hfinal : 0x40 ≤ final)
    (intermediates : Bytes) (params : List (List Nat)) :
    Vte.run resume (.csi intermediates params 0) ([0x3b].intercalate numbers ++ [final]) =
      ([.csiDispatch (params ++ numbers.map fun digits => [Vte.number digits]) intermediates (Char.ofNat final.toNat)],
        .ground) := by
  induction numbers generalizing params with
  | nil => exact absurd rfl hne
  | cons digits numbers ih =>
    have hdigits := hnumbers digits List.mem_cons_self
    cases numbers with
    | nil =>
      rw [show [0x3b].intercalate [digits] = digits by simp [List.intercalate], run_digits hdigits, Vte.run, resume_final hfinal]
      rfl
    | cons more numbers =>
      have hjoin : [0x3b].intercalate (digits :: more :: numbers) ++ [final] =
          digits ++ 0x3b :: ([0x3b].intercalate (more :: numbers) ++ [final]) := by
        simp [List.intercalate]
      have hrest := ih (by simp) (fun d hd => hnumbers d (List.mem_cons_of_mem _ hd)) (params ++ [[Vte.number digits]])
      rw [hjoin, run_digits hdigits, Vte.run]
      show ([] ++ (Vte.run resume (.csi intermediates (params ++ [[Vte.number digits]]) 0) _).1,
        (Vte.run resume (.csi intermediates (params ++ [[Vte.number digits]]) 0) _).2) = _
      rw [hrest, List.append_assoc]
      rfl

theorem resume_ascii {n : Nat} (hlow : 0x20 ≤ n) (hhigh : n < 0x80) :
    resume (UInt8.ofNat n) .ground = ([.print (Char.ofNat n)], .ground) := by
  have hto : (UInt8.ofNat n).toNat = n := by
    rw [UInt8.toNat_ofNat']
    omega
  show step (UInt8.ofNat n) .ground = _
  unfold step
  rw [if_neg, if_neg, if_pos, hto]
  · rw [UInt8.lt_iff_toNat_lt, hto]
    exact hhigh
  · rw [UInt8.lt_iff_toNat_lt, hto]
    exact Nat.not_lt.mpr hlow
  · rw [← UInt8.toNat_inj, hto]
    exact fun h => absurd (h ▸ hlow) (by decide)

/-- The first byte of a character that has more. -/
theorem resume_lead {n missing bits : Nat} (hbits : missing = 1 ∧ bits = 0x20 ∧ 0xc0 ≤ n ∧ n < 0xe0 ∨
      missing = 2 ∧ bits = 0x10 ∧ 0xe0 ≤ n ∧ n < 0xf0 ∨ missing = 3 ∧ bits = 0x08 ∧ 0xf0 ≤ n ∧ n < 0x100) :
    resume (UInt8.ofNat n) .ground = ([], .utf8 missing (n % bits)) := by
  have hto : (UInt8.ofNat n).toNat = n := by
    rw [UInt8.toNat_ofNat']
    omega
  show step (UInt8.ofNat n) .ground = _
  unfold step
  simp only [← UInt8.toNat_inj, UInt8.lt_iff_toNat_lt, hto, UInt8.reduceToNat]
  rcases hbits with ⟨rfl, rfl, hlow, hhigh⟩ | ⟨rfl, rfl, hlow, hhigh⟩ | ⟨rfl, rfl, hlow, hhigh⟩
  · rw [if_neg (by omega), if_neg (by omega), if_neg (by omega), if_pos hhigh]
  · rw [if_neg (by omega), if_neg (by omega), if_neg (by omega), if_neg (by omega), if_pos hhigh]
  · rw [if_neg (by omega), if_neg (by omega), if_neg (by omega), if_neg (by omega), if_neg (by omega)]

/-- A byte that continues a character. -/
theorem resume_next {k : Nat} (hk : k < 0x40) (missing code : Nat) :
    resume (UInt8.ofNat (k + 0x80)) (.utf8 missing code) =
      if missing ≤ 1 then ([.print (Char.ofNat (code * 0x40 + k))], .ground)
      else ([], .utf8 (missing - 1) (code * 0x40 + k)) := by
  have hto : (UInt8.ofNat (k + 0x80)).toNat = k + 0x80 := by
    rw [UInt8.toNat_ofNat']
    omega
  have hrange : 0x80 ≤ UInt8.ofNat (k + 0x80) ∧ UInt8.ofNat (k + 0x80) < 0xc0 := by
    rw [UInt8.le_iff_toNat_le, UInt8.lt_iff_toNat_lt, hto]
    exact ⟨Nat.le_add_left _ _, Nat.add_lt_add_right hk _⟩
  show (if _ then _ else _) = _
  rw [if_pos hrange]
  unfold step
  rw [hto, show (k + 0x80) % 0x40 = k by omega]

theorem run_char {c : Char} (h : 0x20 ≤ c.val.toNat) :
    Vte.run resume .ground (String.utf8EncodeChar c) = ([.print c], .ground) := by
  have hchar {n : Nat} (hn : n = c.val.toNat) : Char.ofNat n = c := by
    rw [hn]
    exact Char.ofNat_toNat c
  have hlt : c.val.toNat < 0x200000 := by
    rcases c.valid with hvalid | ⟨_, hvalid⟩
    · exact lt_trans hvalid (by decide)
    · exact lt_trans hvalid (by decide)
  have hnext (n : Nat) : n % 64 < 0x40 := Nat.mod_lt _ (by decide)
  unfold String.utf8EncodeChar
  dsimp only
  -- One, two, three or four bytes.
  split
  · rw [Vte.run, resume_ascii h (by omega), hchar rfl]
    rfl
  · split
    · rw [Vte.run, resume_lead (.inl ⟨rfl, rfl, by omega⟩), Vte.run, resume_next (hnext _), if_pos (by decide),
        hchar (by omega)]
      rfl
    · split
      · rw [Vte.run, resume_lead (.inr (.inl ⟨rfl, rfl, by omega⟩)), Vte.run, resume_next (hnext _), if_neg (by decide),
          Vte.run, resume_next (hnext _), if_pos (by decide), hchar (by omega)]
        rfl
      · rw [Vte.run, resume_lead (.inr (.inr ⟨rfl, rfl, by omega⟩)), Vte.run, resume_next (hnext _), if_neg (by decide),
          Vte.run, resume_next (hnext _), if_neg (by decide), Vte.run, resume_next (hnext _), if_pos (by decide),
          hchar (by omega)]
        rfl

theorem run_command {command : Command} (hvalid : command.Valid) :
    Vte.run resume .ground command.bytes = ([command.event], .ground) := by
  cases command with
  | text c => exact run_char hvalid.1
  | control b =>
    simp only [Command.Valid, List.mem_cons, List.not_mem_nil, or_false] at hvalid
    rcases hvalid with rfl | rfl | rfl <;> rfl
  | escape b =>
    simp only [Command.Valid, List.mem_cons, List.not_mem_nil, or_false] at hvalid
    rcases hvalid with rfl | rfl | rfl | rfl <;> rfl
  | csi marker numbers final =>
    obtain ⟨hmarker, hnumbers, hdigits, hfinal, _⟩ := hvalid
    have hrun (intermediates : Bytes) := run_sequence hnumbers.1 (fun digits h => (hdigits digits h).2) hfinal intermediates []
    simp only [List.mem_cons, List.not_mem_nil, or_false] at hmarker
    rcases hmarker with rfl | rfl
    · exact hrun []
    · exact hrun [0x3f]

end SketchState

theorem resuming_readsCommands : resuming.vte.ReadsCommands fun state : SketchState => state = .ground where
  toAutomaton := resuming_automaton
  reads := by
    intro command hvalid
    have hrun := SketchState.run_command hvalid
    exact ⟨congrArg Prod.fst hrun, congrArg Prod.snd hrun⟩

theorem resuming_controls : resuming.unicode.Controls where
  none := fun _ hc => if_pos hc

end MoshClient.Vt100
