import MoshClient.Theorems.Vt100.Screen
import MoshClient.Vt100.State

/-! The terminal state. Between resizes that cut no wide character, a difference is applied without a panic exactly
    when each character it prints has room. -/

namespace MoshClient.Vt100
open Checked

/-! ### Parameters -/

theorem paramOr_pos (params : List (List Nat)) (i : Nat) {default : Nat} (h : 1 ≤ default) : 1 ≤ paramOr params i default := by
  unfold paramOr
  split
  · exact h
  · omega

theorem canonicalizeParams1_pos (params : List (List Nat)) : 1 ≤ canonicalizeParams1 params 1 :=
  paramOr_pos params 0 (Nat.le_refl 1)

/-! ### Events -/

/-- A character that is printed has room on the screen. -/
def Event.Fits (unicode : UnicodeWidth) (screen : Screen) : Event → Prop
  | .print c =>
    ¬(0x80 ≤ c.toNat ∧ c.toNat < 0xa0) → ¬Grid.Invisible unicode c → screen.activeGrid.Fits (unicode.columns c)
  | _ => True

namespace WrappedScreen

variable {w : WrappedScreen} {unicode : UnicodeWidth}

/-- The screen after an event. -/
def Kept (w t : WrappedScreen) : Prop := t.screen.Sound ∧ t.screen.grid.size = w.screen.grid.size

theorem returns_onScreen (h : w.screen.Sound) {change : Screen → Except Fault Screen} (hchange : Screen.Keeps change) :
    Returns (w.onScreen change) (Kept w) :=
  returns_bind.mpr ((hchange w.screen h).mono fun _ ht => returns_pure.mpr ht)

theorem returns_orUnhandled (h : w.screen.Sound) {change : Screen → Except Fault (Screen × Bool)}
    (hchange : Screen.KeepsFlagged change) (params : List (List Nat)) (intermediate : Option UInt8) (c : Char) :
    Returns (w.orUnhandled params intermediate c change) (Kept w) :=
  returns_bind.mpr ((hchange w.screen h).mono fun _ ht => returns_pure.mpr ht)

theorem returns_unhandled (h : w.screen.Sound) (callbacks : TerminalCallbacks) :
    Returns (pure { w with callbacks }) (Kept w) := returns_pure.mpr ⟨h, rfl⟩

theorem returns_execute (h : w.screen.Sound) (b : UInt8) : Returns (w.execute b) (Kept w) := by
  have hlf : Screen.Keeps Screen.lf := Screen.keeps_gridMut Grid.keeps_lineFeed
  unfold execute
  split
  · exact returns_pure.mpr ⟨h, rfl⟩
  · exact returns_onScreen h (Screen.keeps_gridMut (Grid.keeps_colDec 1))
  · exact returns_onScreen h (Screen.keeps_gridMut Grid.keeps_colTab)
  · exact returns_onScreen h hlf
  · exact returns_onScreen h hlf
  · exact returns_onScreen h hlf
  · exact returns_onScreen h (Screen.keeps_gridMut (Grid.keeps_colSet 0))
  · exact returns_pure.mpr ⟨h, rfl⟩
  · exact returns_pure.mpr ⟨h, rfl⟩
  · exact returns_unhandled h _

theorem returns_escDispatch (h : w.screen.Sound) (intermediates : Bytes) (b : UInt8) :
    Returns (w.escDispatch intermediates b) (Kept w) := by
  unfold escDispatch
  split
  · exact returns_unhandled h _
  · split
    · exact returns_onScreen h Screen.keeps_saveCursor
    · exact returns_onScreen h Screen.keeps_restoreCursor
    · exact returns_onScreen h fun s hs => returns_pure.mpr ⟨hs.setMode (by decide), rfl⟩
    · exact returns_onScreen h fun s hs => returns_pure.mpr ⟨hs.clearMode _, rfl⟩
    · exact returns_onScreen h (Screen.keeps_gridMut (Grid.keeps_rowDecScroll 1))
    · exact returns_onScreen h Screen.keeps_ris
    · exact returns_pure.mpr ⟨h, rfl⟩
    · exact returns_unhandled h _

theorem returns_csiDispatch (h : w.screen.Sound) (params : List (List Nat)) (intermediates : Bytes) (c : Char) :
    Returns (w.csiDispatch params intermediates c) (Kept w) := by
  have hcount := canonicalizeParams1_pos params
  have hon {change : Grid → Except Fault Grid} (hchange : Grid.Keeps change) :=
    returns_onScreen h (Screen.keeps_gridMut hchange)
  unfold csiDispatch
  split
  · split
    · exact hon (Grid.keeps_insertCells _)
    · exact hon (Grid.keeps_rowDecClamp _)
    · exact hon (Grid.keeps_rowIncClamp _)
    · exact hon (Grid.keeps_colIncClamp _)
    · exact hon (Grid.keeps_colDec _)
    · exact returns_onScreen h
        ((Screen.keeps_gridMut (Grid.keeps_colSet 0)).bind (Screen.keeps_gridMut (Grid.keeps_rowIncClamp _)))
    · exact returns_onScreen h
        ((Screen.keeps_gridMut (Grid.keeps_colSet 0)).bind (Screen.keeps_gridMut (Grid.keeps_rowDecClamp _)))
    · refine returns_onScreen h fun s hs => returns_bind.mpr (returns_sub.mpr ⟨hcount, ?_⟩)
      exact Screen.keeps_gridMut (Grid.keeps_colSet _) s hs
    · refine returns_onScreen h fun s hs => returns_bind.mpr (returns_sub.mpr ⟨hcount, returns_bind.mpr ?_⟩)
      refine returns_sub.mpr ⟨paramOr_pos params 1 (Nat.le_refl 1), ?_⟩
      exact Screen.keeps_gridMut (Grid.keeps_setPos _) s hs
    · exact returns_orUnhandled h (Screen.keeps_ed _) _ _ _
    · exact returns_orUnhandled h (Screen.keeps_el _) _ _ _
    · exact hon (Grid.keeps_insertLines _)
    · exact hon (Grid.keeps_deleteLines _)
    · exact hon (Grid.keeps_deleteCells _)
    · exact hon (Grid.keeps_scrollUp _)
    · exact hon (Grid.keeps_scrollDown _)
    · exact returns_onScreen h (Screen.keeps_gridMut_attrs fun _ ha => Grid.keeps_eraseCells _ ha)
    · refine returns_onScreen h fun s hs => returns_bind.mpr (returns_sub.mpr ⟨hcount, ?_⟩)
      exact Screen.keeps_gridMut (Grid.keeps_rowSet _) s hs
    · exact returns_orUnhandled h (Screen.keeps_sgr params) _ _ _
    · refine returns_onScreen h fun s hs => returns_bind.mpr (returns_sub.mpr ⟨hcount, returns_bind.mpr ?_⟩)
      refine returns_sub.mpr ⟨paramOr_pos params 1 ?_, Screen.keeps_gridMut (Grid.keeps_setScrollRegion _ _) s hs⟩
      exact h.active.rows_pos
    · split
      · exact returns_pure.mpr ⟨h, rfl⟩
      · exact returns_unhandled h _
    · exact returns_unhandled h _
  · split
    · exact returns_orUnhandled h (Screen.keeps_ed _) _ _ _
    · exact returns_orUnhandled h (Screen.keeps_el _) _ _ _
    · exact returns_orUnhandled h (Screen.keeps_forParams Screen.keeps_decsetParam params) _ _ _
    · exact returns_orUnhandled h (Screen.keeps_forParams Screen.keeps_decrstParam params) _ _ _
    · exact returns_unhandled h _
  · exact returns_unhandled h _

theorem returns_perform (h : w.screen.Sound) {event : Event} (hfits : event.Fits unicode w.screen) :
    Returns (w.perform unicode event) (Kept w) := by
  cases event with
  | print c =>
    refine returns_ite.mpr ⟨fun _ => returns_unhandled h _, fun hc => ?_⟩
    exact returns_bind.mpr ((Screen.returns_text h (hfits hc)).mono fun _ ht => returns_pure.mpr ht)
  | execute b => exact returns_execute h b
  | hook => exact returns_pure.mpr ⟨h, rfl⟩
  | oscDispatch params =>
    refine returns_pure.mpr ?_
    unfold oscDispatch
    split <;> exact ⟨h, rfl⟩
  | csiDispatch params intermediates c => exact returns_csiDispatch h params intermediates c
  | escDispatch intermediates b => exact returns_escDispatch h intermediates b

theorem not_returns_perform (h : w.screen.Sound) {event : Event} (hfits : ¬event.Fits unicode w.screen)
    (Q : WrappedScreen → Prop) : ¬Returns (w.perform unicode event) Q := by
  cases event with
  | print c =>
    unfold Event.Fits at hfits
    obtain ⟨hc, hfits⟩ := Classical.not_imp.mp hfits
    obtain ⟨hvisible, hfits⟩ := Classical.not_imp.mp hfits
    intro hreturns
    exact Screen.not_returns_text h hvisible hfits _ (returns_bind.mp ((returns_ite.mp hreturns).2 hc))
  | _ => exact absurd trivial hfits

/-- Each event finds a screen on which it fits. -/
def EventsFit (unicode : UnicodeWidth) : List Event → WrappedScreen → Prop
  | [], _ => True
  | event :: events, w => event.Fits unicode w.screen ∧ ∀ t, w.perform unicode event = .ok t → EventsFit unicode events t

theorem returns_process (h : w.screen.Sound) {events : List Event} (hfits : EventsFit unicode events w) :
    Returns (w.process unicode events) (Kept w) := by
  induction events generalizing w with
  | nil => exact returns_pure.mpr ⟨h, rfl⟩
  | cons event events ih =>
    obtain ⟨t, ht, hkept⟩ := returns_perform h hfits.1
    unfold process
    rw [List.foldlM_cons, ht]
    exact (ih hkept.1 (hfits.2 t ht)).mono fun u hu => ⟨hu.1, hu.2.trans hkept.2⟩

theorem eventsFit_of_returns (h : w.screen.Sound) {events : List Event} {Q : WrappedScreen → Prop}
    (hreturns : Returns (w.process unicode events) Q) : EventsFit unicode events w := by
  induction events generalizing w with
  | nil => trivial
  | cons event events ih =>
    unfold process at hreturns
    rw [List.foldlM_cons, returns_bind] at hreturns
    have hevent : event.Fits unicode w.screen := by
      by_contra hfits
      exact not_returns_perform h hfits _ hreturns
    refine ⟨hevent, fun t ht => ?_⟩
    obtain ⟨u, hu, hkept⟩ := returns_perform h hevent
    cases ht.symm.trans hu
    rw [ht, returns_ok] at hreturns
    exact ih hkept.1 hreturns

end WrappedScreen

/-! ### Operations -/

namespace TerminalState

variable {crates : Crates} {s t : TerminalState}

/-- What the operation prints has room. -/
def PrintsFit (crates : Crates) (s : TerminalState) : TerminalOperation → Prop
  | .hostBytes bytes =>
    validateHostBytes crates bytes = .ok () →
      WrappedScreen.EventsFit crates.unicode (crates.vte.advance crates.vte.new bytes).1 ⟨s.screen, ⟨none⟩⟩
  | _ => True

/-- A resize leaves no wide character without its second half, on either grid. -/
def CutsNothing (s : TerminalState) : TerminalOperation → Prop
  | .resize columns rows =>
    isValidSize columns rows = true → s.screen.grid.CutsNothing columns ∧ s.screen.alternateGrid.CutsNothing columns
  | _ => True

/-- Each operation that is reached has the property. -/
def Throughout (crates : Crates) (P : TerminalState → TerminalOperation → Prop) :
    List TerminalOperation → TerminalState → Prop
  | [], _ => True
  | operation :: operations, s =>
    P s operation ∧ ∀ t, s.applyOperation crates operation = .ok (.ok t) → Throughout crates P operations t

/-- The screen is sound, and of a size that is admitted. -/
structure Sound (s : TerminalState) : Prop where
  screen : s.screen.Sound
  valid : isValidSize s.screen.grid.size.cols s.screen.grid.size.rows = true

/-- The result, if it is no error, is a sound terminal. -/
def Good (result : TerminalResult) : Prop := ∀ t, result = .ok t → t.Sound

theorem good_error (e : TerminalError) : Good (.error e) := by
  intro t ht
  cases ht

theorem good_ok (h : s.Sound) : Good (.ok s) := by
  rintro t ⟨⟩
  exact h

theorem size_le_of_valid {columns rows : Nat} (h : isValidSize columns rows = true) :
    1 ≤ rows ∧ rows ≤ 200 ∧ 1 ≤ columns ∧ columns ≤ 500 := by
  unfold isValidSize at h
  rw [Bool.not_eq_true', decide_eq_false_iff_not] at h
  unfold Limits.maxTerminalColumns Limits.maxTerminalRows at h
  omega

theorem size_of_valid {columns rows : Nat} (h : isValidSize columns rows = true) :
    1 ≤ rows ∧ rows ≤ u16Max ∧ 1 ≤ columns ∧ columns ≤ u16Max := by
  have := size_le_of_valid h
  unfold u16Max
  omega

theorem returns_new (columns rows : Nat) : Returns (TerminalState.new columns rows) Good := by
  unfold TerminalState.new checkedSize
  by_cases hvalid : isValidSize columns rows = true
  · rw [if_pos hvalid]
    obtain ⟨hrows, hrows', hcols, hcols'⟩ := size_of_valid hvalid
    refine returns_bind.mpr ((Screen.returns_new hrows hrows' hcols hcols').mono fun screen hscreen => returns_pure.mpr ?_)
    exact good_ok ⟨hscreen.1, hscreen.2.symm ▸ hvalid⟩
  · rw [if_neg hvalid]
    exact returns_pure.mpr (good_error _)

theorem returns_applyHostBytes (h : s.Sound) {bytes : Bytes} (hfits : s.PrintsFit crates (.hostBytes bytes)) :
    Returns (s.applyHostBytes crates bytes) Good := by
  unfold applyHostBytes
  cases hvalid : validateHostBytes crates bytes with
  | error e => exact returns_pure.mpr (good_error e)
  | ok =>
    have hready := h.screen.active
    refine returns_bind.mpr ((Screen.returns_new hready.rows_pos hready.rows_le hready.cols_pos hready.cols_le).mono ?_)
    intro _ _
    refine returns_bind.mpr ((WrappedScreen.returns_process h.screen (hfits hvalid)).mono fun parser hparser => ?_)
    split
    · exact returns_pure.mpr (good_error _)
    · exact returns_pure.mpr (good_error _)
    · exact returns_pure.mpr (good_ok ⟨hparser.1, hparser.2.symm ▸ h.valid⟩)

theorem printsFit_of_returns (h : s.Sound) {bytes : Bytes} {Q : TerminalResult → Prop}
    (hreturns : Returns (s.applyHostBytes crates bytes) Q) : s.PrintsFit crates (.hostBytes bytes) := by
  intro hvalid
  unfold applyHostBytes at hreturns
  rw [hvalid] at hreturns
  obtain ⟨-, -, hreturns⟩ := returns_bind.mp hreturns
  exact WrappedScreen.eventsFit_of_returns h.screen (returns_bind.mp hreturns)

theorem returns_applyOperation (h : s.Sound) {operation : TerminalOperation} (hcut : s.CutsNothing operation)
    (hfits : s.PrintsFit crates operation) : Returns (s.applyOperation crates operation) Good := by
  cases operation with
  | hostBytes bytes => exact returns_applyHostBytes h hfits
  | resize columns rows =>
    unfold applyOperation checkedSize
    by_cases hvalid : isValidSize columns rows = true
    · simp only [hvalid, if_true]
      obtain ⟨hrows, hrows', hcols, hcols'⟩ := size_of_valid hvalid
      obtain ⟨hgrid, halternate⟩ := hcut hvalid
      refine returns_bind.mpr ((h.screen.returns_setSize hrows hrows' hcols hcols' hgrid halternate).mono fun screen hscreen => ?_)
      exact returns_pure.mpr (good_ok ⟨hscreen.1, hscreen.2.symm ▸ hvalid⟩)
    · simp only [hvalid]
      exact returns_pure.mpr (good_error _)
  | echoAcknowledgement number =>
    refine returns_ite.mpr ⟨fun _ => returns_pure.mpr (good_error _), fun _ => returns_pure.mpr (good_ok ⟨h.screen, h.valid⟩)⟩

theorem printsFit_of_returns_applyOperation (h : s.Sound) {operation : TerminalOperation}
    {Q : TerminalResult → Prop} (hreturns : Returns (s.applyOperation crates operation) Q) :
    s.PrintsFit crates operation := by
  cases operation with
  | hostBytes bytes => exact printsFit_of_returns h hreturns
  | _ => trivial

theorem returns_applyOperations (h : s.Sound) {operations : List TerminalOperation}
    (hcut : Throughout crates CutsNothing operations s) (hfits : Throughout crates (PrintsFit crates) operations s) :
    Returns (s.applyOperations crates operations) Good := by
  induction operations generalizing s with
  | nil => exact returns_pure.mpr (good_ok h)
  | cons operation operations ih =>
    obtain ⟨result, hresult, hgood⟩ := returns_applyOperation h hcut.1 hfits.1
    refine returns_bind.mpr ⟨result, hresult, ?_⟩
    cases result with
    | error e => exact returns_pure.mpr (good_error e)
    | ok t => exact ih (hgood t rfl) (hcut.2 t hresult) (hfits.2 t hresult)

theorem printsFit_of_returns_applyOperations (h : s.Sound) {operations : List TerminalOperation}
    (hcut : Throughout crates CutsNothing operations s) {Q : TerminalResult → Prop}
    (hreturns : Returns (s.applyOperations crates operations) Q) : Throughout crates (PrintsFit crates) operations s := by
  induction operations generalizing s with
  | nil => trivial
  | cons operation operations ih =>
    have hreturns := returns_bind.mp hreturns
    have hfits := printsFit_of_returns_applyOperation h hreturns
    refine ⟨hfits, fun t ht => ?_⟩
    obtain ⟨result, hresult, hgood⟩ := returns_applyOperation h hcut.1 hfits
    cases ht.symm.trans hresult
    rw [ht, returns_ok] at hreturns
    exact ih (hgood t rfl) (hcut.2 t ht) hreturns

end TerminalState

/-! ### Calls -/

/-- A call on a terminal state. -/
inductive TerminalCall where
  | apply (difference : TerminalDifference)
  | withPredictedAscii (byte : UInt8) (hbyte : 0x20 ≤ byte ∧ byte ≤ 0x7e)

namespace TerminalCall

variable {crates : Crates} {s t : TerminalState}

def perform (crates : Crates) (s : TerminalState) : TerminalCall → Except Fault TerminalResult
  | .apply difference => s.apply crates difference
  | .withPredictedAscii byte _ => s.withPredictedAscii crates byte

/-- The call, unless an earlier one has failed. -/
def performAfter (crates : Crates) (result : TerminalResult) (call : TerminalCall) : Except Fault TerminalResult :=
  match result with
  | .error e => return .error e
  | .ok s => call.perform crates s

/-- The operations that the call applies. -/
def operations : TerminalCall → List TerminalOperation
  | .apply difference => difference.operations
  | .withPredictedAscii byte _ => [.hostBytes [byte]]

theorem returns_perform_iff {call : TerminalCall} {Q : TerminalResult → Prop} :
    Returns (call.perform crates s) Q ↔ Returns (s.applyOperations crates call.operations) Q := by
  cases call with
  | apply difference => exact Iff.rfl
  | withPredictedAscii byte hbyte =>
    show Returns (if 0x20 ≤ byte ∧ byte ≤ 0x7e then s.applyHostBytes crates [byte] else .error .assertion) Q ↔ _
    rw [if_pos hbyte]
    refine Iff.trans ?_ returns_bind.symm
    refine ⟨fun h => h.mono fun result hresult => ?_, fun h => h.mono fun result hresult => ?_⟩
    · cases result with
      | error e => exact returns_pure.mpr hresult
      | ok t => exact returns_pure.mpr hresult
    · cases result with
      | error e => exact returns_pure.mp hresult
      | ok t => exact returns_pure.mp hresult

/-- No resize of the call cuts a wide character. -/
def CutsNothing (crates : Crates) (call : TerminalCall) (s : TerminalState) : Prop :=
  TerminalState.Throughout crates TerminalState.CutsNothing call.operations s

/-- Each character that the call prints has room. -/
def PrintsFit (crates : Crates) (call : TerminalCall) (s : TerminalState) : Prop :=
  TerminalState.Throughout crates (TerminalState.PrintsFit crates) call.operations s

end TerminalCall

namespace TerminalState

variable {crates : Crates} {s t : TerminalState}

/-- The states of the runs in which no resize cuts a wide character. -/
inductive Reached (crates : Crates) : TerminalState → Prop
  | new {columns rows : Nat} {s : TerminalState} (h : TerminalState.new columns rows = .ok (.ok s)) : Reached crates s
  | call {s t : TerminalState} (call : TerminalCall) (hs : Reached crates s) (hcut : call.CutsNothing crates s)
      (h : call.perform crates s = .ok (.ok t)) : Reached crates t

theorem Reached.sound (h : Reached crates s) : s.Sound := by
  induction h with
  | @new columns rows s h =>
    obtain ⟨result, hresult, hgood⟩ := returns_new columns rows
    cases h.symm.trans hresult
    exact hgood s rfl
  | @call s t call _ hcut h ih =>
    have hreturns : Returns (call.perform crates s) fun result => result = .ok t := ⟨_, h, rfl⟩
    have happly := TerminalCall.returns_perform_iff.mp hreturns
    have hfits := printsFit_of_returns_applyOperations ih hcut happly
    obtain ⟨result, -, rfl, hgood⟩ := happly.and (returns_applyOperations ih hcut hfits)
    exact hgood t rfl

/-- A call panics exactly when it prints a character that has no room. -/
theorem returns_iff_printsFit (h : Reached crates s) (call : TerminalCall) (hcut : call.CutsNothing crates s) :
    (∃ result, call.perform crates s = .ok result) ↔ call.PrintsFit crates s := by
  constructor
  · rintro ⟨result, hresult⟩
    have hreturns : Returns (call.perform crates s) fun _ => True := ⟨result, hresult, trivial⟩
    exact printsFit_of_returns_applyOperations h.sound hcut (TerminalCall.returns_perform_iff.mp hreturns)
  · intro hfits
    obtain ⟨result, hresult, -⟩ :=
      TerminalCall.returns_perform_iff.mpr (returns_applyOperations h.sound hcut hfits)
    exact ⟨result, hresult⟩

end TerminalState

/-! ### A parser -/

/-- Where a parser of texts and control functions is. -/
inductive SketchState where
  | ground
  | escape
  | csi (intermediates : Bytes) (params : List (List Nat)) (param : Nat)
  | utf8 (missing code : Nat)
  deriving DecidableEq

namespace SketchState

def step (byte : UInt8) : SketchState → List Event × SketchState
  | .ground =>
    if byte = 0x1b then ([], .escape)
    else if byte < 0x20 then ([.execute byte], .ground)
    else if byte < 0x80 then ([.print (Char.ofNat byte.toNat)], .ground)
    else if byte < 0xe0 then ([], .utf8 1 (byte.toNat % 0x20))
    else if byte < 0xf0 then ([], .utf8 2 (byte.toNat % 0x10))
    else ([], .utf8 3 (byte.toNat % 0x08))
  | .escape => if byte = 0x5b then ([], .csi [] [] 0) else ([.escDispatch [] byte], .ground)
  | .csi intermediates params param =>
    if 0x30 ≤ byte ∧ byte ≤ 0x39 then ([], .csi intermediates params (param * 10 + (byte.toNat - 0x30)))
    else if byte = 0x3b then ([], .csi intermediates (params ++ [[param]]) 0)
    else if byte < 0x40 then ([], .csi (intermediates ++ [byte]) params param)
    else ([.csiDispatch (params ++ [[param]]) intermediates (Char.ofNat byte.toNat)], .ground)
  | .utf8 missing code =>
    let code := code * 0x40 + byte.toNat % 0x40
    if missing ≤ 1 then ([.print (Char.ofNat code)], .ground) else ([], .utf8 (missing - 1) code)

def advance : SketchState → Bytes → List Event × SketchState
  | state, [] => ([], state)
  | state, byte :: bytes =>
    let stepped := state.step byte
    let rest := stepped.2.advance bytes
    (stepped.1 ++ rest.1, rest.2)

end SketchState

/-- The parser, and the widths of some blocks: controls, combining marks, ideographs. -/
def sketch : Crates where
  vte := ⟨SketchState, .ground, SketchState.advance⟩
  unicode := {
    width := fun c =>
      if c.toNat < 0x20 ∨ 0x7f ≤ c.toNat ∧ c.toNat < 0xa0 then none
      else if 0x300 ≤ c.toNat ∧ c.toNat < 0x370 then some 0
      else if 0x4e00 ≤ c.toNat ∧ c.toNat < 0xa000 then some 2
      else some 1
    le_two := by
      intro c columns h
      split_ifs at h <;> cases h <;> decide
    space := by decide }

namespace TerminalState

/-- The calls one after another, on a new terminal. -/
def run (crates : Crates) (columns rows : Nat) (calls : List TerminalCall) : Except Fault TerminalResult := do
  let start ← TerminalState.new columns rows
  calls.foldlM (TerminalCall.performAfter crates) start

theorem returns_iff_printsFit_blank :
    ∃ s, TerminalState.new 4 2 = .ok (.ok s) ∧
      ((∃ result, (TerminalCall.apply ⟨[.hostBytes [0x61]]⟩).perform sketch s = .ok result) ↔
        (TerminalCall.apply ⟨[.hostBytes [0x61]]⟩).PrintsFit sketch s) := by
  have hnew : TerminalState.new 4 2 = .ok (.ok _) := rfl
  exact ⟨_, hnew, returns_iff_printsFit (.new hnew) _ ⟨trivial, fun _ _ => trivial⟩⟩

/-- A wide character on a screen of one column, a line that wraps on a screen of one row, and an erased line after a
    resize that cut a wide character. -/
theorem apply_panics :
    run sketch 1 2 [.apply ⟨[.hostBytes [0xe4, 0xb8, 0xad]]⟩] = .error .overflow ∧
    run sketch 2 1 [.apply ⟨[.hostBytes [0x61, 0x62]]⟩, .withPredictedAscii 0x63 (by decide)] = .error .overflow ∧
    run sketch 4 2 [.apply ⟨[.hostBytes [0x61, 0x62, 0xe4, 0xb8, 0xad], .resize 3 2]⟩,
      .apply ⟨[.hostBytes [0x1b, 0x5b, 0x4b]]⟩] = .error .index := by
  decide +kernel

end TerminalState

end MoshClient.Vt100
