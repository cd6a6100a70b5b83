import MoshClient.Theorems.Vt100.IncrementalPaint

/-! The output of a session. A terminal that reads it shows, after each chunk, the state that was painted last, whether
    it was painted in full or from what has changed. -/

namespace MoshClient.Vt100
open Checked

section Painting

variable {crates : Crates} {ground : crates.vte.State → Prop}

/-- What an emission needs. A state of a tended run, of the size of the terminal; a full repaint over an earlier one finds
    the mouse modes reset that it does not write; and no row goes on with the one above it at an empty cell. -/
structure Emission.Admitted (crates : Crates) (size : Size) (paintedState : Option TerminalState) (emission : Emission) :
    Prop where
  tended : emission.current.Tended crates
  size : emission.current.screen.size = size
  resets : emission.forceFullRepaint = true → ∀ previous, paintedState = some previous →
    previous.screen.modes.Resets emission.current.screen.modes
  continues : emission.forceFullRepaint = false → ∀ previous, paintedState = some previous →
    emission.current.screen.activeGrid.Continues previous.screen.activeGrid

/-- Each emission of a run is admitted after the one before it. -/
def Emission.AllAdmitted (crates : Crates) (size : Size) : Option TerminalState → List Emission → Prop
  | _, [] => True
  | paintedState, emission :: emissions =>
    emission.Admitted crates size paintedState ∧ AllAdmitted crates size (some emission.current) emissions

namespace Projection

variable {projection : Projection crates} {size : Size} {emission : Emission}

/-- The terminal is between two control functions, has no margins, and has no modes set before the first paint. -/
structure Settled (ground : crates.vte.State → Prop) (size : Size) (projection : Projection crates) : Prop where
  grounded : ground projection.terminal.parser
  plain : projection.terminal.screen.screen.activeGrid.Plain
  sized : projection.terminal.screen.screen.size = size
  fresh : projection.paintedState = none → projection.terminal.screen.screen.modes.shown = ScreenModes.new.shown
  painted : ∀ painted, projection.paintedState = some painted → painted.Tended crates ∧ painted.screen.size = size ∧
    projection.terminal.screen.screen.picture = painted.screen.picture

/-- A terminal that has read a chunk which shows a state. -/
theorem Settled.read (hvte : crates.vte.ReadsCommands ground) (h : projection.Settled ground size) {bytes : Bytes}
    {state : TerminalState} (hstate : state.Tended crates) (hsize : state.screen.size = size)
    (hgrounded : ground (crates.vte.advance crates.vte.new bytes).2) {t : WrappedScreen}
    (hprocess : projection.terminal.screen.process crates.unicode (crates.vte.events bytes) = .ok t)
    (hfits : t.Fits state.screen.activeGrid) (hpicture : t.screen.picture = state.screen.picture) :
    Returns (projection.terminal.process bytes) fun terminal => Settled ground size ⟨some state, terminal⟩ := by
  unfold Parser.process
  rw [hvte.fresh _ h.grounded]
  unfold Vte.events at hprocess
  rw [hprocess]
  refine returns_pure.mpr ⟨hvte.toAutomaton.grounded_advance h.grounded hgrounded, hfits.plain, hfits.size.trans hsize, ?_, ?_⟩
  · rintro ⟨⟩
  · rintro _ ⟨⟩
    exact ⟨hstate, hsize, hpicture⟩

theorem Settled.fits (h : projection.Settled ground size) {state : TerminalState} (hsize : state.screen.size = size) :
    projection.terminal.screen.Fits state.screen.activeGrid := ⟨h.plain, h.sized.trans hsize.symm⟩

/-- A full repaint is read as the state. -/
theorem Settled.returns_full (hvte : crates.vte.ReadsCommands ground) (hcontrols : crates.unicode.Controls)
    (h : projection.Settled ground size) {state : TerminalState} (hstate : state.Tended crates)
    (hsize : state.screen.size = size)
    (hresets : ∀ previous, projection.paintedState = some previous → previous.screen.modes.Resets state.screen.modes) :
    Returns (TerminalPainter.full state) fun painted => ∀ bytes, painted = .ok bytes →
      Returns (projection.terminal.process bytes) fun terminal => Settled ground size ⟨some state, terminal⟩ := by
  have hfits := h.fits hsize
  refine (TerminalPainter.returns_full
    (d := ⟨_, projection.terminal.screen.screen.attrs, projection.terminal.screen.screen.savedAttrs⟩) hvte hcontrols hstate hfits.plain hfits.size).mono fun painted hpainted bytes hbytes => ?_
  obtain ⟨e, hrenders, hmatches, hpos, hattrs⟩ := hpainted bytes hbytes
  obtain ⟨t, hprocess, hfits', hview⟩ := hrenders.view hmatches hpos hattrs
  -- The mouse modes that are not written are not there.
  have hmodes : state.screen.modes.shown.afterFull projection.terminal.screen.screen.modes.shown = state.screen.modes.shown := by
    cases hpainted : projection.paintedState with
    | none => rw [h.fresh hpainted, Shown.afterFull_new]
    | some previous =>
      obtain ⟨hmode, hencoding⟩ := hresets previous hpainted
      have hshown : projection.terminal.screen.screen.modes.shown = previous.screen.modes.shown :=
        congrArg Picture.modes (h.painted previous hpainted).2.2
      rw [hshown]
      exact Shown.afterFull_eq_iff.mpr ⟨hmode, hencoding⟩
  rw [hmodes] at hview
  exact h.read hvte hstate hsize hrenders.grounded hprocess hfits' (congrArg View.picture hview)

theorem Settled.returns_output (hvte : crates.vte.ReadsCommands ground) (hcontrols : crates.unicode.Controls)
    (h : projection.Settled ground size) (ha : emission.Admitted crates size projection.paintedState) :
    Returns (emission.output projection.paintedState) fun painted => ∀ bytes, painted = .ok bytes →
      Returns (projection.terminal.process bytes) fun terminal => Settled ground size ⟨some emission.current, terminal⟩ := by
  refine returns_ite.mpr ⟨fun hforce => h.returns_full hvte hcontrols ha.tended ha.size (ha.resets hforce), fun hforce => ?_⟩
  cases hpainted : projection.paintedState with
  | none =>
    refine h.returns_full hvte hcontrols ha.tended ha.size fun previous hprevious => ?_
    cases hpainted.symm.trans hprevious
  | some previous =>
    obtain ⟨hprevious, hsize, hpicture⟩ := h.painted previous hpainted
    have hsame : previous.screen.size = emission.current.screen.size := hsize.trans ha.size.symm
    refine returns_ite.mpr ⟨fun hother => absurd hsame hother, fun _ => returns_bind.mpr ?_⟩
    refine (ha.tended.shown.returns_follows hvte hcontrols hprevious.shown hsame
      (ha.continues (Bool.eq_false_iff.mpr hforce) previous hpainted) (h.fits ha.size) hpicture).mono ?_
    rintro formatted ⟨hgrounded, t, hprocess, hfits, ht⟩
    refine returns_pure.mpr fun bytes hbytes => ?_
    obtain rfl := Surface.bounded_ok hbytes
    exact h.read hvte ha.tended ha.size hgrounded hprocess hfits ht

theorem Settled.returns_emit (hvte : crates.vte.ReadsCommands ground) (hcontrols : crates.unicode.Controls)
    (h : projection.Settled ground size) (ha : emission.Admitted crates size projection.paintedState) :
    Returns (projection.emit emission) fun result => ∀ next, result = .ok next →
      next.Settled ground size ∧ next.paintedState = some emission.current := by
  refine returns_bind.mpr ((h.returns_output hvte hcontrols ha).mono fun painted hpainted => ?_)
  cases painted with
  | error e =>
    refine returns_pure.mpr ?_
    rintro _ ⟨⟩
  | ok bytes =>
    refine returns_bind.mpr ((hpainted bytes rfl).mono fun terminal hterminal => returns_pure.mpr ?_)
    rintro _ ⟨⟩
    exact ⟨hterminal, rfl⟩

theorem Settled.returns_emitAll (hvte : crates.vte.ReadsCommands ground) (hcontrols : crates.unicode.Controls)
    {emissions : List Emission} (h : projection.Settled ground size)
    (ha : Emission.AllAdmitted crates size projection.paintedState emissions) :
    Returns (projection.emitAll emissions) fun result => ∀ last, result = .ok last →
      last.Settled ground size ∧ last.paintedState = (emissions.getLast?.map Emission.current).or projection.paintedState := by
  induction emissions generalizing projection with
  | nil =>
    refine returns_pure.mpr ?_
    rintro _ ⟨⟩
    exact ⟨h, rfl⟩
  | cons emission emissions ih =>
    refine returns_bind.mpr ((h.returns_emit hvte hcontrols ha.1).mono fun result hresult => ?_)
    cases result with
    | error e =>
      refine returns_pure.mpr ?_
      rintro _ ⟨⟩
    | ok next =>
      obtain ⟨hnext, hpainted⟩ := hresult next rfl
      refine (ih hnext (hpainted.symm ▸ ha.2)).mono fun result hlast last hresult => ?_
      obtain ⟨hsettled, hstate⟩ := hlast last hresult
      refine ⟨hsettled, hstate.trans ?_⟩
      rw [hpainted, List.getLast?_cons]
      cases emissions.getLast? <;> rfl

/-- Whatever states a session displays, and whichever of them it paints in full, a terminal that has read all its output
    shows the state that was painted last. -/
theorem output_shows_painted_state (hvte : crates.vte.ReadsCommands ground) (hcontrols : crates.unicode.Controls)
    {emissions : List Emission} (hsettled : projection.Settled ground size) (hnew : projection.paintedState = none)
    (ha : Emission.AllAdmitted crates size none emissions) :
    Returns (projection.emitAll emissions) fun result => ∀ last, result = .ok last →
      last.paintedState = emissions.getLast?.map Emission.current ∧
        ∀ painted, last.paintedState = some painted → last.terminal.screen.screen.picture = painted.screen.picture := by
  refine (hsettled.returns_emitAll hvte hcontrols (hnew.symm ▸ ha)).mono fun result hlast last hresult => ?_
  obtain ⟨hend, hstate⟩ := hlast last hresult
  rw [hnew, Option.or_none] at hstate
  exact ⟨hstate, fun painted hpainted => (hend.painted painted hpainted).2.2⟩

/-- A new terminal, a letter, and a repaint of it. -/
theorem output_shows_painted_state_letter :
    ∃ s t, TerminalState.new 4 2 = .ok (.ok s) ∧ s.apply resuming ⟨[.hostBytes [0x41]]⟩ = .ok (.ok t) ∧
      Returns ((⟨none, ⟨SketchState.ground, s.screen.consumer⟩⟩ : Projection resuming).emitAll
          [⟨false, s⟩, ⟨false, t⟩, ⟨true, t⟩]) fun result => ∀ last, result = .ok last →
        last.paintedState = some t ∧
          ∀ painted, last.paintedState = some painted → last.terminal.screen.screen.picture = painted.screen.picture := by
  refine ⟨_, _, rfl, rfl, ?_⟩
  have hs := @TerminalState.Tended.new resuming 4 2 _ rfl
  have ht := TerminalState.Tended.call (.apply ⟨[.hostBytes [0x41]]⟩) hs ⟨trivial, fun _ _ => trivial⟩ rfl
  have hfits := hs.shown.sound.fits_consumer
  refine output_shows_painted_state resuming_readsCommands resuming_controls ⟨rfl, hfits.plain, hfits.size, fun _ => rfl, ?_⟩ rfl
    ⟨⟨hs, rfl, ?_, ?_⟩, ⟨ht, rfl, ?_, ?_⟩, ⟨ht, rfl, ?_, ?_⟩, trivial⟩
  · rintro _ ⟨⟩
  · rintro ⟨⟩
  · rintro _ _ ⟨⟩
  · rintro ⟨⟩
  · exact fun _ _ _ => Grid.continues_of_unwrapped (by decide)
  · rintro _ _ ⟨⟩
    exact ⟨fun _ => rfl, fun _ => rfl⟩
  · rintro ⟨⟩

end Projection

end Painting

end MoshClient.Vt100
