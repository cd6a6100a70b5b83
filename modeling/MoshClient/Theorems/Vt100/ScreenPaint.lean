import MoshClient.Theorems.Paint
import MoshClient.Theorems.Vt100.FullPaint

/-! Painting a screen in full: the contents, the attributes and the modes. What is painted brings every consumer of the
    same size to the same view, so that two states are painted alike exactly when they have the same view. -/

namespace MoshClient.Vt100
open Checked

/-! ### Modes -/

namespace WrappedScreen

def withModes (w : WrappedScreen) (modes : ScreenModes) : WrappedScreen := { w with screen := { w.screen with modes } }

variable {w : WrappedScreen} {d : Display}

@[simp] theorem modes_showing (w : WrappedScreen) (d : Display) : (w.showing d).screen.modes = w.screen.modes := by
  unfold showing Screen.withActive
  split <;> rfl

theorem showing_withModes {modes : ScreenModes} (h : modes.mode .alternateScreen = w.screen.modes.mode .alternateScreen) :
    (w.showing d).withModes modes = (w.withModes modes).showing d := by
  unfold withModes showing Screen.withActive
  rw [h]
  split <;> rfl

/-- A screen shows its active grid and its attributes. -/
theorem showing_self (w : WrappedScreen) :
    w.showing ⟨w.screen.activeGrid, w.screen.attrs, w.screen.savedAttrs⟩ = w := by
  unfold showing Screen.withActive Screen.activeGrid
  split <;> rfl

end WrappedScreen

section Painting

variable {crates : Crates} {ground : crates.vte.State → Prop} {bytes more : Bytes} {d e f : Display}
  {effect : Shown → Shown}

/-- The bytes take a screen that shows one display to one that shows another, with an effect on the modes. -/
structure Renders (crates : Crates) (ground : crates.vte.State → Prop) (bytes : Bytes) (d e : Display)
    (effect : Shown → Shown) : Prop where
  grounded : ground (crates.vte.advance crates.vte.new bytes).2
  processed : ∀ w : WrappedScreen, ∃ modes : ScreenModes, modes.shown = effect w.screen.modes.shown ∧
    modes.mode .alternateScreen = w.screen.modes.mode .alternateScreen ∧
    (w.showing d).process crates.unicode (crates.vte.events bytes) = .ok ((w.withModes modes).showing e)

theorem Paints.renders (h : Paints crates ground bytes d e) : Renders crates ground bytes d e id :=
  ⟨h.grounded, fun w => ⟨w.screen.modes, rfl, rfl, h.processed w⟩⟩

theorem Renders.of_eq (h : Renders crates ground bytes d e effect) {next : Shown → Shown} (heq : effect = next) :
    Renders crates ground bytes d e next := heq ▸ h

theorem Renders.append (hvte : crates.vte.ReadsCommands ground) {next : Shown → Shown}
    (h : Renders crates ground bytes d e effect) (hmore : Renders crates ground more e f next) :
    Renders crates ground (bytes ++ more) d f (next ∘ effect) where
  grounded := hvte.toAutomaton.grounded_append h.grounded hmore.grounded
  processed := by
    intro w
    obtain ⟨modes, hshown, halternate, hprocessed⟩ := h.processed w
    obtain ⟨modes', hshown', halternate', hprocessed'⟩ := hmore.processed (w.withModes modes)
    refine ⟨modes', hshown'.trans (congrArg next hshown), halternate'.trans halternate, ?_⟩
    rw [hvte.toAutomaton.events_append h.grounded, WrappedScreen.process_append, hprocessed]
    exact hprocessed'

theorem renders_command (hvte : crates.vte.ReadsCommands ground) (command : Command) (hvalid : command.Valid)
    (next : ScreenModes → ScreenModes) (hshown : ∀ m, (next m).shown = effect m.shown)
    (halternate : ∀ m, (next m).mode .alternateScreen = m.mode .alternateScreen)
    (h : ∀ w : WrappedScreen, w.perform crates.unicode command.event = .ok (w.withModes (next w.screen.modes))) :
    Renders crates ground command.bytes d d effect where
  grounded := (hvte.reads command hvalid).2
  processed := by
    intro w
    refine ⟨next w.screen.modes, hshown _, halternate _, ?_⟩
    rw [(hvte.reads command hvalid).1, WrappedScreen.process_cons, h, WrappedScreen.modes_showing,
      WrappedScreen.showing_withModes (halternate _)]
    rfl

/-- The modes that touch no grid. -/
def plainModes : List Nat := [1, 5, 9, 25, 1000, 1002, 1003, 1005, 1006, 2004]

theorem decset_alternate {param : Nat} (h : param ∈ plainModes) (m : ScreenModes) :
    (m.decset [param]).mode .alternateScreen = m.mode .alternateScreen ∧
      (m.decrst [param]).mode .alternateScreen = m.mode .alternateScreen := by
  have hset (flag : ModeFlag) (hflag : flag ≠ .alternateScreen) :
      (m.setMode flag).mode .alternateScreen = m.mode .alternateScreen ∧
        (m.clearMode flag).mode .alternateScreen = m.mode .alternateScreen := by
    rw [ScreenModes.mode_setMode, ScreenModes.mode_clearMode, decide_eq_false hflag]
    exact ⟨rfl, rfl⟩
  have hmouse (mode : MouseProtocolMode) : (m.clearMouseMode mode).mode .alternateScreen = m.mode .alternateScreen := by
    unfold ScreenModes.clearMouseMode
    split <;> rfl
  have hencoding (encoding : MouseProtocolEncoding) :
      (m.clearMouseEncoding encoding).mode .alternateScreen = m.mode .alternateScreen := by
    unfold ScreenModes.clearMouseEncoding
    split <;> rfl
  simp only [plainModes, List.mem_cons, List.not_mem_nil, or_false] at h
  rcases h with rfl | rfl | rfl | rfl | rfl | rfl | rfl | rfl | rfl | rfl
  · exact hset .applicationCursor (by decide)
  · exact hset .reverseVideo (by decide)
  · exact ⟨rfl, hmouse .press⟩
  · exact (hset .hideCursor (by decide)).symm
  · exact ⟨rfl, hmouse .pressRelease⟩
  · exact ⟨rfl, hmouse .buttonMotion⟩
  · exact ⟨rfl, hmouse .anyMotion⟩
  · exact ⟨rfl, hencoding .utf8⟩
  · exact ⟨rfl, hencoding .sgr⟩
  · exact hset .bracketedPaste (by decide)

theorem valid_private {param : Nat} (h : param ∈ plainModes) {final : UInt8} (hfinal : 0x40 ≤ final ∧ final ≤ 0x7e) :
    (Command.csi [0x3f] ([param].map Term.itoa) final).Valid := by
  refine valid_numbers (by simp) (List.cons_ne_nil _ _) (by simp) (fun n hn => ?_) hfinal
  rw [List.mem_singleton.mp hn]
  exact Nat.le_of_lt_succ ((by decide : ∀ param ∈ plainModes, param < 65536) param h)

theorem decset_plain {param : Nat} (h : param ∈ plainModes) (screen : Screen) :
    screen.decset [[param]] = .ok ({ screen with modes := screen.modes.decset [param] }, false) ∧
      screen.decrst [[param]] = .ok ({ screen with modes := screen.modes.decrst [param] }, false) := by
  simp only [plainModes, List.mem_cons, List.not_mem_nil, or_false] at h
  rcases h with rfl | rfl | rfl | rfl | rfl | rfl | rfl | rfl | rfl | rfl <;> exact ⟨rfl, rfl⟩

theorem bytes_private (param : Nat) (final : UInt8) :
    MoshClient.Term.privateMode param final = (Command.csi [0x3f] ([param].map Term.itoa) final).bytes := by
  simp [MoshClient.Term.privateMode, Command.bytes, List.intercalate, Term.itoa]

theorem renders_set (hvte : crates.vte.ReadsCommands ground) (d : Display) (param : Nat) (hparam : param ∈ plainModes)
    (hshown : ∀ m : ScreenModes, (m.decset [param]).shown = effect m.shown) :
    Renders crates ground (MoshClient.Term.set param) d d effect := by
  rw [MoshClient.Term.set, bytes_private]
  refine renders_command hvte _ (valid_private hparam (by decide)) (·.decset [param]) hshown
    (fun m => (decset_alternate hparam m).1) fun w => ?_
  rw [event_numbers]
  show w.orUnhandled [[param]] (some 0x3f) 'h' (·.decset [[param]]) = _
  rw [WrappedScreen.orUnhandled, (decset_plain hparam w.screen).1]
  rfl

theorem renders_reset (hvte : crates.vte.ReadsCommands ground) (d : Display) (param : Nat) (hparam : param ∈ plainModes)
    (hshown : ∀ m : ScreenModes, (m.decrst [param]).shown = effect m.shown) :
    Renders crates ground (MoshClient.Term.reset param) d d effect := by
  rw [MoshClient.Term.reset, bytes_private]
  refine renders_command hvte _ (valid_private hparam (by decide)) (·.decrst [param]) hshown
    (fun m => (decset_alternate hparam m).2) fun w => ?_
  rw [event_numbers]
  show w.orUnhandled [[param]] (some 0x3f) 'l' (·.decrst [[param]]) = _
  rw [WrappedScreen.orUnhandled, (decset_plain hparam w.screen).2]
  rfl

/-- A mode that is switched on and off. -/
theorem renders_flag {write : Bool → Bytes} {flag : ModeFlag}
    (hon : Renders crates ground (write true) d d (Shown.set flag true))
    (hoff : Renders crates ground (write false) d d (Shown.set flag false)) (state : Bool) :
    Renders crates ground (write state) d d (Shown.set flag state) := by
  cases state with
  | true => exact hon
  | false => exact hoff

theorem renders_reverseVideo (hvte : crates.vte.ReadsCommands ground) (d : Display) (state : Bool) :
    Renders crates ground (MoshClient.Term.reverseVideo state) d d (Shown.set .reverseVideo state) :=
  renders_flag (renders_set hvte d 5 (by decide) fun m => m.shown_setMode .reverseVideo)
    (renders_reset hvte d 5 (by decide) fun m => m.shown_clearMode .reverseVideo) state

theorem renders_hideCursor (hvte : crates.vte.ReadsCommands ground) (d : Display) (state : Bool) :
    Renders crates ground (MoshClient.Term.hideCursor state) d d (Shown.set .hideCursor state) :=
  renders_flag (renders_reset hvte d 25 (by decide) fun m => m.shown_setMode .hideCursor)
    (renders_set hvte d 25 (by decide) fun m => m.shown_clearMode .hideCursor) state

theorem renders_applicationCursor (hvte : crates.vte.ReadsCommands ground) (d : Display) (state : Bool) :
    Renders crates ground (MoshClient.Term.applicationCursor state) d d (Shown.set .applicationCursor state) :=
  renders_flag (renders_set hvte d 1 (by decide) fun m => m.shown_setMode .applicationCursor)
    (renders_reset hvte d 1 (by decide) fun m => m.shown_clearMode .applicationCursor) state

theorem renders_bracketedPaste (hvte : crates.vte.ReadsCommands ground) (d : Display) (state : Bool) :
    Renders crates ground (MoshClient.Term.bracketedPaste state) d d (Shown.set .bracketedPaste state) :=
  renders_flag (renders_set hvte d 2004 (by decide) fun m => m.shown_setMode .bracketedPaste)
    (renders_reset hvte d 2004 (by decide) fun m => m.shown_clearMode .bracketedPaste) state

theorem renders_applicationKeypad (hvte : crates.vte.ReadsCommands ground) (d : Display) (state : Bool) :
    Renders crates ground (MoshClient.Term.applicationKeypad state) d d (Shown.set .applicationKeypad state) := by
  refine renders_flag ?_ ?_ state
  · refine renders_command hvte (.escape 0x3d) (by simp [Command.Valid]) (·.setMode .applicationKeypad)
      (fun m => m.shown_setMode .applicationKeypad) (fun m => ?_) fun w => rfl
    rw [ScreenModes.mode_setMode]
    rfl
  · refine renders_command hvte (.escape 0x3e) (by simp [Command.Valid]) (·.clearMode .applicationKeypad)
      (fun m => m.shown_clearMode .applicationKeypad) (fun m => ?_) fun w => rfl
    rw [ScreenModes.mode_clearMode]
    rfl

theorem renders_nil (hvte : crates.vte.ReadsCommands ground) (d : Display) : Renders crates ground [] d d id :=
  (Paints.nil hvte d).renders

theorem changeMouseMode_of_ne {mode prev : MouseProtocolMode} (h : mode ≠ prev) (self : Shown) :
    self.changeMouseMode mode prev = { self with
      mouseProtocolMode :=
        if mode = .none then if self.mouseProtocolMode = prev then .none else self.mouseProtocolMode else mode } := by
  unfold Shown.changeMouseMode rewritten
  rw [if_neg h]

theorem renders_mouseProtocolMode (hvte : crates.vte.ReadsCommands ground) (d : Display) (mode prev : MouseProtocolMode) :
    Renders crates ground (MoshClient.Term.mouseProtocolMode mode prev) d d (Shown.changeMouseMode mode prev) := by
  unfold MoshClient.Term.mouseProtocolMode
  by_cases hsame : mode = prev
  · have heffect : Shown.changeMouseMode mode prev = id := by
      funext self
      unfold Shown.changeMouseMode rewritten
      rw [if_pos hsame]
      rfl
    rw [if_pos hsame, heffect]
    exact renders_nil hvte d
  · have hchange := changeMouseMode_of_ne hsame
    rw [if_neg hsame]
    cases mode with
    | none =>
      cases prev with
      | none => exact absurd rfl hsame
      | press => exact renders_reset hvte d 9 (by decide) fun m => m.shown_clearMouseMode .press
      | pressRelease => exact renders_reset hvte d 1000 (by decide) fun m => m.shown_clearMouseMode .pressRelease
      | buttonMotion => exact renders_reset hvte d 1002 (by decide) fun m => m.shown_clearMouseMode .buttonMotion
      | anyMotion => exact renders_reset hvte d 1003 (by decide) fun m => m.shown_clearMouseMode .anyMotion
    | press => exact renders_set hvte d 9 (by decide) fun m => (hchange m.shown).symm
    | pressRelease => exact renders_set hvte d 1000 (by decide) fun m => (hchange m.shown).symm
    | buttonMotion => exact renders_set hvte d 1002 (by decide) fun m => (hchange m.shown).symm
    | anyMotion => exact renders_set hvte d 1003 (by decide) fun m => (hchange m.shown).symm

theorem changeMouseEncoding_of_ne {encoding prev : MouseProtocolEncoding} (h : encoding ≠ prev) (self : Shown) :
    self.changeMouseEncoding encoding prev = { self with
      mouseProtocolEncoding := if encoding = .default then
        if self.mouseProtocolEncoding = prev then .default else self.mouseProtocolEncoding else encoding } := by
  unfold Shown.changeMouseEncoding rewritten
  rw [if_neg h]

theorem renders_mouseProtocolEncoding (hvte : crates.vte.ReadsCommands ground) (d : Display)
    (encoding prev : MouseProtocolEncoding) :
    Renders crates ground (MoshClient.Term.mouseProtocolEncoding encoding prev) d d
      (Shown.changeMouseEncoding encoding prev) := by
  unfold MoshClient.Term.mouseProtocolEncoding
  by_cases hsame : encoding = prev
  · have heffect : Shown.changeMouseEncoding encoding prev = id := by
      funext self
      unfold Shown.changeMouseEncoding rewritten
      rw [if_pos hsame]
      rfl
    rw [if_pos hsame, heffect]
    exact renders_nil hvte d
  · have hchange := changeMouseEncoding_of_ne hsame
    rw [if_neg hsame]
    cases encoding with
    | default =>
      cases prev with
      | default => exact absurd rfl hsame
      | utf8 => exact renders_reset hvte d 1005 (by decide) fun m => m.shown_clearMouseEncoding .utf8
      | sgr => exact renders_reset hvte d 1006 (by decide) fun m => m.shown_clearMouseEncoding .sgr
    | utf8 => exact renders_set hvte d 1005 (by decide) fun m => (hchange m.shown).symm
    | sgr => exact renders_set hvte d 1006 (by decide) fun m => (hchange m.shown).symm

/-- The modes that a repaint resets are none of the terminal's, and it takes no offence at them. -/
theorem renders_policyReset (hvte : crates.vte.ReadsCommands ground) (d : Display) :
    Renders crates ground MoshClient.TerminalPainter.initialProfilePolicyReset d d id := by
  have hreset {param : Nat} (hparam : param ∈ [1001, 1004, 1015]) :
      Renders crates ground (MoshClient.Term.reset param) d d id := by
    rw [MoshClient.Term.reset, bytes_private]
    simp only [List.mem_cons, List.not_mem_nil, or_false] at hparam
    refine renders_command hvte _ (valid_numbers (by simp) (List.cons_ne_nil _ _) (by simp) ?_ (by decide)) id
      (fun _ => rfl) (fun _ => rfl) fun w => ?_
    · intro n hn
      rw [List.mem_singleton.mp hn]
      omega
    · rw [event_numbers]
      rcases hparam with rfl | rfl | rfl <;> rfl
  exact ((hreset (by simp)).append hvte (hreset (by simp))).append hvte (hreset (by simp))

/-! ### Screens -/

/-- What can be seen of a screen, and what the next character looks like. -/
structure View where
  rows : List Row
  pos : Pos
  attrs : Attrs
  modes : Shown
  deriving DecidableEq, Repr

def View.withModes (v : View) (modes : Shown) : View := { v with modes }

def Screen.view (s : Screen) : View := ⟨s.activeGrid.rows, s.activeGrid.pos, s.attrs, s.modes.shown⟩

variable {s : Screen}

/-- The state of a screen, on any display of its size without margins. -/
theorem Screen.returns_renders (hvte : crates.vte.ReadsCommands ground) (hcontrols : crates.unicode.Controls)
    (hs : s.Shown crates.unicode) (hplain : d.grid.Plain) (hsize : d.grid.size = s.activeGrid.size) :
    Returns s.stateFormatted fun bytes => ∃ e, Renders crates ground bytes d e (Shown.afterFull s.modes.shown) ∧
      e.Matches s.activeGrid ∧ e.grid.pos = s.activeGrid.pos ∧ e.attrs = s.attrs := by
  refine returns_bind.mpr (returns_bind.mpr ?_)
  refine (Grid.returns_paints_contents hvte hcontrols hplain hsize hs.sound.active hs.drawn.active).mono ?_
  rintro ⟨contents, attrs⟩ ⟨e, hcontents, hmatches, hpos, hattrs, hproper⟩
  dsimp only at hcontents hattrs hproper
  subst hattrs
  refine returns_bind.mpr ((returns_paints_attrs hvte e hproper hs.drawn.attrs).mono fun shade hshade => ?_)
  refine returns_pure.mpr (returns_pure.mpr ⟨{ e with attrs := s.attrs }, ?_,
    ⟨hmatches.plain, hmatches.size, hmatches.rows⟩, hpos, rfl⟩)
  have hdrawn := (((renders_reverseVideo hvte d (s.modes.mode .reverseVideo)).append hvte
    (renders_hideCursor hvte d (s.modes.mode .hideCursor))).append hvte hcontents.renders).append hvte hshade.renders
  have hmodes := ((((renders_applicationKeypad hvte { e with attrs := s.attrs } (s.modes.mode .applicationKeypad)).append hvte
    (renders_applicationCursor hvte _ (s.modes.mode .applicationCursor))).append hvte
    (renders_bracketedPaste hvte _ (s.modes.mode .bracketedPaste))).append hvte
    (renders_mouseProtocolMode hvte _ s.modes.mouseProtocolMode .none)).append hvte
    (renders_mouseProtocolEncoding hvte _ s.modes.mouseProtocolEncoding .default)
  refine (hdrawn.append hvte hmodes).of_eq (funext fun before => ?_)
  simp only [Function.comp, id, Shown.set, Shown.afterFull, Shown.changeMouseMode, Shown.changeMouseEncoding, rewritten_off]
  rfl

/-- A screen that shows a display. -/
theorem Display.Matches.view (h : e.Matches s.activeGrid) (hpos : e.grid.pos = s.activeGrid.pos) (hattrs : e.attrs = s.attrs)
    (w : WrappedScreen) : (w.showing e).screen.view = s.view.withModes w.screen.modes.shown := by
  unfold Screen.view
  rw [WrappedScreen.activeGrid_showing, WrappedScreen.attrs_showing, WrappedScreen.modes_showing, h.rows, hpos, hattrs]
  rfl

/-- A consumer that can be painted on: its screen has the size of a grid, and no margins. -/
structure WrappedScreen.Fits (w : WrappedScreen) (g : Grid) : Prop where
  plain : w.screen.activeGrid.Plain
  size : w.screen.activeGrid.size = g.size

theorem Renders.view {w : WrappedScreen}
    (h : Renders crates ground bytes ⟨w.screen.activeGrid, w.screen.attrs, w.screen.savedAttrs⟩ e effect)
    (hmatches : e.Matches s.activeGrid) (hpos : e.grid.pos = s.activeGrid.pos) (hattrs : e.attrs = s.attrs) :
    ∃ t, w.process crates.unicode (crates.vte.events bytes) = .ok t ∧ t.Fits s.activeGrid ∧
      t.screen.view = s.view.withModes (effect w.screen.modes.shown) := by
  obtain ⟨modes, hshown, -, hprocessed⟩ := h.processed w
  rw [w.showing_self] at hprocessed
  refine ⟨_, hprocessed, ?_, ?_⟩
  · exact ⟨by rw [WrappedScreen.activeGrid_showing]; exact hmatches.plain,
      by rw [WrappedScreen.activeGrid_showing]; exact hmatches.size⟩
  · rw [hmatches.view hpos hattrs, ← hshown]
    rfl

/-! ### What the bytes depend on -/

section Congr

variable {g other : Grid}

/-- Two grids that look the same. -/
structure Grid.Alike (g other : Grid) : Prop where
  size : g.size = other.size
  pos : g.pos = other.pos
  rows : g.rows = other.rows

theorem Grid.Alike.endCell (h : g.Alike other) (r : Nat) : g.endCell r = other.endCell r := by
  unfold Grid.endCell Grid.drawingCell Grid.drawingRow
  rw [h.size, h.rows]

theorem Grid.Alike.writeFromAbove (h : g.Alike other) (prevPos : Pos) (prevAttrs : Attrs) (i : Nat) :
    g.writeFromAbove prevPos prevAttrs i = other.writeFromAbove prevPos prevAttrs i := by
  induction i with
  | zero => rfl
  | succ i ih =>
    unfold Grid.writeFromAbove
    rw [h.endCell, h.size, h.pos, ih]

theorem Grid.Alike.writeContentsFormatted (h : g.Alike other) : g.writeContentsFormatted = other.writeContentsFormatted := by
  unfold Grid.writeContentsFormatted Grid.writeCursorPositionFormatted Grid.drawingCell Grid.drawingRow
  simp only [h.endCell, h.writeFromAbove, h.size, h.pos, h.rows]

end Congr

/-- A grid without its margins. -/
def Grid.unbounded (g : Grid) : Grid := { g with originMode := false, scrollTop := 0, scrollBottom := g.size.rows - 1 }

theorem Grid.Ready.plain_unbounded {g : Grid} (h : g.Ready) : g.unbounded.Plain := by
  have hrows := h.rows_pos
  refine ⟨⟨{ h.toSound with top_le := Nat.zero_le _, bottom_lt := ?_, bottom_pos := ?_ }, h.length⟩, rfl, rfl, rfl⟩
  · show g.size.rows - 1 < g.size.rows
    omega
  · intro (htwo : 2 ≤ g.size.rows)
    show 1 ≤ g.size.rows - 1
    omega

/-- A consumer for a screen, with no modes set. -/
def Screen.consumer (s : Screen) : WrappedScreen :=
  WrappedScreen.showing ⟨{ s with modes := .new }, ⟨none⟩⟩ ⟨s.activeGrid.unbounded, .default, .default⟩

theorem Screen.Sound.fits_consumer (h : s.Sound) : s.consumer.Fits s.activeGrid where
  plain := by
    rw [Screen.consumer, WrappedScreen.activeGrid_showing]
    exact h.active.plain_unbounded
  size := by
    rw [Screen.consumer, WrappedScreen.activeGrid_showing]
    rfl

theorem Shown.afterFull_new (shown : Shown) : shown.afterFull ScreenModes.new.shown = shown :=
  Shown.afterFull_eq_iff.mpr ⟨fun _ => rfl, fun _ => rfl⟩

/-! ### Full repaints -/

theorem TerminalState.Tended.shown {s : TerminalState} (h : s.Tended crates) : s.screen.Shown crates.unicode :=
  ⟨h.kept.sound.screen, h.kept.drawn⟩

theorem TerminalPainter.returns_full (hvte : crates.vte.ReadsCommands ground) (hcontrols : crates.unicode.Controls)
    {s : TerminalState} (hs : s.Tended crates) (hplain : d.grid.Plain) (hsize : d.grid.size = s.screen.activeGrid.size) :
    Returns (TerminalPainter.full s) fun painted => ∀ bytes, painted = .ok bytes →
      ∃ e, Renders crates ground bytes d e (Shown.afterFull s.screen.modes.shown) ∧ e.Matches s.screen.activeGrid ∧
        e.grid.pos = s.screen.activeGrid.pos ∧ e.attrs = s.screen.attrs := by
  refine returns_bind.mpr ((Screen.returns_renders hvte hcontrols hs.shown hplain hsize).mono ?_)
  rintro formatted ⟨e, hrenders, hmatches, hpos, hattrs⟩
  refine returns_pure.mpr fun bytes hbytes => ⟨e, ?_, hmatches, hpos, hattrs⟩
  rw [Surface.bounded_ok hbytes]
  exact (renders_policyReset hvte d).append hvte hrenders

end Painting

end MoshClient.Vt100
