import MoshClient.Paint
import MoshClient.Theorems.Pass

/-! The modes of a consumer. Each mode that the painter writes takes the consumer to that mode, and what it draws
    between them leaves the modes alone. An incremental paint takes a consumer from the modes of the previous
    state to those of the current one; a full paint writes the mouse modes as for a fresh consumer, and so keeps
    those of the previous state that the current state does not have. -/

namespace MoshClient
open Effect Simulation SessionDriver

variable {T G : Type}

/-! ### What a consumer shows -/

/-- The modes that a consumer shows. -/
structure Shown where
  applicationKeypad : Bool
  applicationCursor : Bool
  bracketedPaste : Bool
  reverseVideo : Bool
  hideCursor : Bool
  mouseProtocolMode : MouseProtocolMode
  mouseProtocolEncoding : MouseProtocolEncoding
  deriving DecidableEq, Repr

def Shown.set (flag : ModeFlag) (state : Bool) (self : Shown) : Shown :=
  match flag with
  | .applicationKeypad => { self with applicationKeypad := state }
  | .applicationCursor => { self with applicationCursor := state }
  | .hideCursor => { self with hideCursor := state }
  | .alternateScreen => self
  | .bracketedPaste => { self with bracketedPaste := state }
  | .reverseVideo => { self with reverseVideo := state }

/-- A setting after `value` was written for a consumer in the setting `prev`. What is written for `off` is a reset
    of `prev`, which leaves any other setting. -/
def rewritten {α : Type} [DecidableEq α] (off value prev current : α) : α :=
  if value = prev then current
  else if value = off then if current = prev then off else current
  else value

/-- Written for a fresh consumer, a setting replaces the one that is shown, unless it is off. -/
theorem rewritten_off {α : Type} [DecidableEq α] (off value current : α) :
    rewritten off value off current = if value = off then current else value := by
  unfold rewritten
  split <;> rfl

/-- Written for a consumer in the previous setting, a setting replaces it. -/
theorem rewritten_self {α : Type} [DecidableEq α] (off value prev : α) : rewritten off value prev prev = value := by
  unfold rewritten
  split
  · exact Eq.symm ‹_›
  · split
    · rw [if_pos rfl, ‹value = off›]
    · rfl

theorem unwritten_eq_iff {α : Type} [DecidableEq α] {off value current : α} :
    (if value = off then current else value) = value ↔ (value = off → current = off) := by
  by_cases h : value = off
  · simp only [h, if_true, forall_const]
  · simp only [h, if_false, false_imp_iff]

def Shown.changeMouseMode (mode prev : MouseProtocolMode) (self : Shown) : Shown :=
  { self with mouseProtocolMode := rewritten .none mode prev self.mouseProtocolMode }

def Shown.changeMouseEncoding (encoding prev : MouseProtocolEncoding) (self : Shown) : Shown :=
  { self with mouseProtocolEncoding := rewritten .default encoding prev self.mouseProtocolEncoding }

/-- Written when it differs from what is shown, a flag replaces it. -/
theorem Shown.set_of_ne (flag : ModeFlag) {state prev : Bool} {self : Shown} (h : self.set flag prev = self) :
    (if state ≠ prev then Shown.set flag state else id) self = self.set flag state := by
  split
  · rfl
  · rename_i hsame
    rw [not_not.mp hsame, h]
    rfl

namespace ModeFlag

/-- The place of the flag's bit. -/
def index : ModeFlag → Nat
  | .applicationKeypad => 0
  | .applicationCursor => 1
  | .hideCursor => 2
  | .alternateScreen => 3
  | .bracketedPaste => 4
  | .reverseVideo => 5

theorem bit_eq (flag : ModeFlag) : flag.bit = BitVec.twoPow 8 flag.index := by
  cases flag <;> rfl

theorem index_lt (flag : ModeFlag) : flag.index < 8 := by
  cases flag <;> decide

theorem index_inj {flag other : ModeFlag} : flag.index = other.index ↔ flag = other := by
  cases flag <;> cases other <;> decide

end ModeFlag

namespace ScreenModes

def shown (m : ScreenModes) : Shown where
  applicationKeypad := m.mode .applicationKeypad
  applicationCursor := m.mode .applicationCursor
  bracketedPaste := m.mode .bracketedPaste
  reverseVideo := m.mode .reverseVideo
  hideCursor := m.mode .hideCursor
  mouseProtocolMode := m.mouseProtocolMode
  mouseProtocolEncoding := m.mouseProtocolEncoding

theorem mode_eq (m : ScreenModes) (flag : ModeFlag) : m.mode flag = m.modes.getLsbD flag.index := by
  unfold mode
  rw [flag.bit_eq, BitVec.and_twoPow]
  cases m.modes.getLsbD flag.index with
  | false => rfl
  | true => cases flag <;> rfl

theorem mode_setMode (m : ScreenModes) (flag other : ModeFlag) :
    (m.setMode flag).mode other = (decide (flag = other) || m.mode other) := by
  rw [mode_eq, mode_eq, setMode, flag.bit_eq, BitVec.getLsbD_or, BitVec.getLsbD_twoPow, Bool.or_comm]
  simp only [flag.index_lt, ModeFlag.index_inj, decide_true, Bool.true_and]

theorem mode_clearMode (m : ScreenModes) (flag other : ModeFlag) :
    (m.clearMode flag).mode other = (!decide (flag = other) && m.mode other) := by
  rw [mode_eq, mode_eq, clearMode, flag.bit_eq, BitVec.getLsbD_and, BitVec.getLsbD_not, BitVec.getLsbD_twoPow,
    Bool.and_comm]
  simp only [flag.index_lt, other.index_lt, ModeFlag.index_inj, decide_true, Bool.true_and]

theorem shown_setMode (m : ScreenModes) (flag : ModeFlag) : (m.setMode flag).shown = m.shown.set flag true := by
  unfold shown
  simp only [mode_setMode]
  cases flag <;> simp [Shown.set, setMode]

theorem shown_clearMode (m : ScreenModes) (flag : ModeFlag) : (m.clearMode flag).shown = m.shown.set flag false := by
  unfold shown
  simp only [mode_clearMode]
  cases flag <;> simp [Shown.set, clearMode]

theorem shown_clearMouseMode (m : ScreenModes) (mode : MouseProtocolMode) :
    (m.clearMouseMode mode).shown =
      { m.shown with mouseProtocolMode := if m.mouseProtocolMode = mode then .none else m.mouseProtocolMode } := by
  unfold clearMouseMode
  split <;> rfl

theorem shown_clearMouseEncoding (m : ScreenModes) (encoding : MouseProtocolEncoding) :
    (m.clearMouseEncoding encoding).shown =
      { m.shown with
        mouseProtocolEncoding := if m.mouseProtocolEncoding = encoding then .default else m.mouseProtocolEncoding } := by
  unfold clearMouseEncoding
  split <;> rfl

end ScreenModes

/-! ### Bytes and their effect -/

/-- The bytes of whole control functions, with their effect on what a consumer shows. -/
def Writes (bytes : Bytes) (effect : Shown → Shown) : Prop :=
  ∀ m : ScreenModes, ∃ m', Consumer.process ⟨.ground, m⟩ bytes = ⟨.ground, m'⟩ ∧ m'.shown = effect m.shown

theorem Writes.append {a b : Bytes} {f g : Shown → Shown} (ha : Writes a f) (hb : Writes b g) : Writes (a ++ b) (g ∘ f) := by
  intro m
  obtain ⟨m₁, h₁, hf⟩ := ha m
  obtain ⟨m₂, h₂, hg⟩ := hb m₁
  refine ⟨m₂, ?_, by rw [hg, hf]; rfl⟩
  unfold Consumer.process at h₁ h₂ ⊢
  rw [List.foldl_append, h₁, h₂]

theorem writes_nil : Writes [] id := fun m => ⟨m, rfl, rfl⟩

theorem Writes.ite {c : Prop} [Decidable c] {a b : Bytes} {f g : Shown → Shown} (ha : Writes a f) (hb : Writes b g) :
    Writes (if c then a else b) (if c then f else g) := by
  split
  · exact ha
  · exact hb

/-- A mode that is switched on and off. -/
theorem writes_flag {write : Bool → Bytes} {flag : ModeFlag}
    (hon : ∀ m, Consumer.process ⟨.ground, m⟩ (write true) = ⟨.ground, m.setMode flag⟩)
    (hoff : ∀ m, Consumer.process ⟨.ground, m⟩ (write false) = ⟨.ground, m.clearMode flag⟩) (state : Bool) :
    Writes (write state) (Shown.set flag state) := by
  intro m
  cases state with
  | true => exact ⟨_, hon m, m.shown_setMode flag⟩
  | false => exact ⟨_, hoff m, m.shown_clearMode flag⟩

/-- A mode that is written when it has changed. -/
theorem writes_change {write : Bool → Bytes} {flag : ModeFlag} (h : ∀ state, Writes (write state) (Shown.set flag state))
    (state prev : Bool) :
    Writes (if state ≠ prev then write state else []) (if state ≠ prev then Shown.set flag state else id) :=
  (h state).ite writes_nil

theorem writes_reverseVideo (state : Bool) : Writes (Term.reverseVideo state) (Shown.set .reverseVideo state) :=
  writes_flag (fun _ => rfl) (fun _ => rfl) state

theorem writes_hideCursor (state : Bool) : Writes (Term.hideCursor state) (Shown.set .hideCursor state) :=
  writes_flag (fun _ => rfl) (fun _ => rfl) state

theorem writes_applicationKeypad (state : Bool) :
    Writes (Term.applicationKeypad state) (Shown.set .applicationKeypad state) :=
  writes_flag (fun _ => rfl) (fun _ => rfl) state

theorem writes_applicationCursor (state : Bool) :
    Writes (Term.applicationCursor state) (Shown.set .applicationCursor state) :=
  writes_flag (fun _ => rfl) (fun _ => rfl) state

theorem writes_bracketedPaste (state : Bool) : Writes (Term.bracketedPaste state) (Shown.set .bracketedPaste state) :=
  writes_flag (fun _ => rfl) (fun _ => rfl) state

theorem writes_mouseProtocolMode (mode prev : MouseProtocolMode) :
    Writes (Term.mouseProtocolMode mode prev) (Shown.changeMouseMode mode prev) := by
  intro m
  unfold Term.mouseProtocolMode Shown.changeMouseMode rewritten
  split
  · exact writes_nil m
  · rename_i hchanged
    cases mode with
    | none =>
      cases prev with
      | none => exact absurd rfl hchanged
      | press => exact ⟨m.clearMouseMode .press, rfl, m.shown_clearMouseMode .press⟩
      | pressRelease => exact ⟨m.clearMouseMode .pressRelease, rfl, m.shown_clearMouseMode .pressRelease⟩
      | buttonMotion => exact ⟨m.clearMouseMode .buttonMotion, rfl, m.shown_clearMouseMode .buttonMotion⟩
      | anyMotion => exact ⟨m.clearMouseMode .anyMotion, rfl, m.shown_clearMouseMode .anyMotion⟩
    | press => exact ⟨m.setMouseMode .press, rfl, rfl⟩
    | pressRelease => exact ⟨m.setMouseMode .pressRelease, rfl, rfl⟩
    | buttonMotion => exact ⟨m.setMouseMode .buttonMotion, rfl, rfl⟩
    | anyMotion => exact ⟨m.setMouseMode .anyMotion, rfl, rfl⟩

theorem writes_mouseProtocolEncoding (encoding prev : MouseProtocolEncoding) :
    Writes (Term.mouseProtocolEncoding encoding prev) (Shown.changeMouseEncoding encoding prev) := by
  intro m
  unfold Term.mouseProtocolEncoding Shown.changeMouseEncoding rewritten
  split
  · exact writes_nil m
  · rename_i hchanged
    cases encoding with
    | default =>
      cases prev with
      | default => exact absurd rfl hchanged
      | utf8 => exact ⟨m.clearMouseEncoding .utf8, rfl, m.shown_clearMouseEncoding .utf8⟩
      | sgr => exact ⟨m.clearMouseEncoding .sgr, rfl, m.shown_clearMouseEncoding .sgr⟩
    | utf8 => exact ⟨m.setMouseEncoding .utf8, rfl, rfl⟩
    | sgr => exact ⟨m.setMouseEncoding .sgr, rfl, rfl⟩

/-! ### Drawing -/

theorem process_plain (m : ScreenModes) {bytes : Bytes} (h : ∀ byte ∈ bytes, byte ≠ 0x1b) :
    Consumer.process ⟨.ground, m⟩ bytes = ⟨.ground, m⟩ := by
  induction bytes with
  | nil => rfl
  | cons byte bytes ih =>
    have hbyte : Consumer.advance ⟨.ground, m⟩ byte = ⟨.ground, m⟩ := if_neg (h byte List.mem_cons_self)
    unfold Consumer.process at ih ⊢
    rw [List.foldl_cons, hbyte]
    exact ih fun b hb => h b (List.mem_cons_of_mem byte hb)

/-- Parameters do not end a `CSI` sequence, nor make it private. -/
theorem process_params (m : ScreenModes) {bytes : Bytes} (h : ∀ byte ∈ bytes, 0x30 ≤ byte ∧ byte ≤ 0x3b)
    (params : List Nat) (param : Nat) :
    ∃ params' param', Consumer.process ⟨.csi false params param, m⟩ bytes = ⟨.csi false params' param', m⟩ := by
  induction bytes generalizing params param with
  | nil => exact ⟨params, param, rfl⟩
  | cons byte bytes ih =>
    obtain ⟨hlow, hhigh⟩ := h byte List.mem_cons_self
    have hbyte : ∃ params' param', Consumer.advance ⟨.csi false params param, m⟩ byte = ⟨.csi false params' param', m⟩ := by
      unfold Consumer.advance
      dsimp only
      rw [if_neg (by rintro rfl; revert hlow; decide), if_neg (by rintro rfl; revert hhigh; decide)]
      split
      · exact ⟨_, _, rfl⟩
      · split
        · exact ⟨_, _, rfl⟩
        · rw [if_neg fun hfinal => absurd (UInt8.le_trans hfinal.1 hhigh) (by decide)]
          exact ⟨_, _, rfl⟩
    obtain ⟨params', param', hbyte⟩ := hbyte
    unfold Consumer.process at ih ⊢
    rw [List.foldl_cons, hbyte]
    exact ih (fun b hb => h b (List.mem_cons_of_mem byte hb)) params' param'

theorem advance_final (m : ScreenModes) {final : UInt8} (h : 0x40 ≤ final ∧ final ≤ 0x7e) (params : List Nat) (param : Nat) :
    Consumer.advance ⟨.csi false params param, m⟩ final = ⟨.ground, m⟩ := by
  have hne : ∀ byte : UInt8, ¬0x40 ≤ byte → final ≠ byte := by
    rintro byte hbyte rfl
    exact hbyte h.1
  unfold Consumer.advance
  dsimp only
  rw [if_neg (hne 0x1b (by decide)), if_neg (hne 0x3f (by decide)),
    if_neg fun hdigit => absurd (UInt8.le_trans h.1 hdigit.2) (by decide), if_neg (hne 0x3b (by decide)), if_pos h]
  simp [Consumer.dispatch]

theorem writes_drawing (drawing : Drawing) : Writes drawing.bytes id := by
  intro m
  cases drawing with
  | plain bytes hplain => exact ⟨m, process_plain m hplain, rfl⟩
  | saveCursor => exact ⟨m, rfl, rfl⟩
  | restoreCursor => exact ⟨m, rfl, rfl⟩
  | csi params final hparams hfinal =>
    obtain ⟨params', param', h⟩ := process_params m hparams [] 0
    refine ⟨m, ?_, rfl⟩
    have hopened : Consumer.process ⟨.ground, m⟩ ([0x1b, 0x5b] ++ params) = ⟨.csi false params' param', m⟩ := by
      unfold Consumer.process at h ⊢
      rw [List.foldl_append]
      exact h
    unfold Consumer.process at hopened
    rw [Drawing.bytes, Consumer.process, List.foldl_append, hopened]
    exact advance_final m hfinal params' param'

theorem writes_drawings (drawings : List Drawing) : Writes (drawings.flatMap Drawing.bytes) id := by
  induction drawings with
  | nil => exact writes_nil
  | cons drawing drawings ih =>
    rw [List.flatMap_cons]
    exact (writes_drawing drawing).append ih

/-! ### Paints -/

/-- What a full paint leaves of what a consumer showed before. -/
def Shown.afterFull (current before : Shown) : Shown :=
  { current with
    mouseProtocolMode := if current.mouseProtocolMode = .none then before.mouseProtocolMode else current.mouseProtocolMode
    mouseProtocolEncoding :=
      if current.mouseProtocolEncoding = .default then before.mouseProtocolEncoding else current.mouseProtocolEncoding }

theorem writes_full (canvas : Canvas G) (state : Screen G) :
    Writes (TerminalPainter.initialProfilePolicyReset ++ state.stateFormatted canvas)
      (Shown.afterFull state.modes.shown) := by
  have hreset : Writes TerminalPainter.initialProfilePolicyReset id := fun m => ⟨m, rfl, rfl⟩
  have hcontents := ((writes_reverseVideo (state.modes.mode .reverseVideo)).append
    (writes_hideCursor (state.modes.mode .hideCursor))).append (writes_drawings (canvas.formatted state.grid))
  have hmodes := ((((writes_applicationKeypad (state.modes.mode .applicationKeypad)).append
    (writes_applicationCursor (state.modes.mode .applicationCursor))).append
    (writes_bracketedPaste (state.modes.mode .bracketedPaste))).append
    (writes_mouseProtocolMode state.modes.mouseProtocolMode .none)).append
    (writes_mouseProtocolEncoding state.modes.mouseProtocolEncoding .default)
  intro m
  obtain ⟨m', hprocess, hshown⟩ := hreset.append (hcontents.append hmodes) m
  refine ⟨m', hprocess, hshown.trans ?_⟩
  simp only [Function.comp, id, Shown.set, Shown.afterFull, Shown.changeMouseMode, Shown.changeMouseEncoding, rewritten_off]
  rfl

/-- An incremental paint leads from what the previous state shows to what the current one shows. -/
theorem writes_diff (canvas : Canvas G) (current previous : Screen G) :
    ∃ effect, Writes (current.stateDiff canvas previous) effect ∧ effect previous.modes.shown = current.modes.shown := by
  have hcontents := ((writes_change writes_reverseVideo (current.modes.mode .reverseVideo)
      (previous.modes.mode .reverseVideo)).append
    (writes_change writes_hideCursor (current.modes.mode .hideCursor) (previous.modes.mode .hideCursor))).append
    (writes_drawings (canvas.diff current.grid previous.grid))
  have hmodes := ((((writes_change writes_applicationKeypad (current.modes.mode .applicationKeypad)
      (previous.modes.mode .applicationKeypad)).append
    (writes_change writes_applicationCursor (current.modes.mode .applicationCursor)
      (previous.modes.mode .applicationCursor))).append
    (writes_change writes_bracketedPaste (current.modes.mode .bracketedPaste)
      (previous.modes.mode .bracketedPaste))).append
    (writes_mouseProtocolMode current.modes.mouseProtocolMode previous.modes.mouseProtocolMode)).append
    (writes_mouseProtocolEncoding current.modes.mouseProtocolEncoding previous.modes.mouseProtocolEncoding)
  refine ⟨_, hcontents.append hmodes, ?_⟩
  -- From flag to flag, what is shown is still the previous state's in those that come later.
  simp only [Function.comp_apply]
  rw [Shown.set_of_ne .reverseVideo rfl, Shown.set_of_ne .hideCursor rfl, id_eq, Shown.set_of_ne .applicationKeypad rfl,
    Shown.set_of_ne .applicationCursor rfl, Shown.set_of_ne .bracketedPaste rfl]
  simp only [Shown.changeMouseMode, Shown.changeMouseEncoding, Shown.set, ScreenModes.shown, rewritten_self]

/-- A full paint shows the current state exactly when the mouse modes that it does not write are not shown. -/
theorem Shown.afterFull_eq_iff {current before : Shown} :
    current.afterFull before = current ↔
      (current.mouseProtocolMode = .none → before.mouseProtocolMode = .none) ∧
        (current.mouseProtocolEncoding = .default → before.mouseProtocolEncoding = .default) := by
  obtain ⟨_, _, _, _, _, mode, encoding⟩ := current
  simp only [afterFull, Shown.mk.injEq, true_and, unwritten_eq_iff]

/-! ### Runs -/

/-- A paint over `previous` that is written as for a fresh consumer. -/
def Emission.IsFull (previous : Screen G) (emission : Emission G) : Prop :=
  emission.forceFullRepaint = true ∨ previous.size ≠ emission.current.size

/-- The mouse modes that a full paint does not write are not there before it. -/
structure ScreenModes.Resets (previous current : ScreenModes) : Prop where
  mode : current.mouseProtocolMode = .none → previous.mouseProtocolMode = .none
  encoding : current.mouseProtocolEncoding = .default → previous.mouseProtocolEncoding = .default

namespace Surface

variable {surface : Surface G} {canvas : Canvas G} {emission : Emission G} {output : Bytes}

/-- The consumer shows the modes of the painted state. -/
def Follows (surface : Surface G) : Prop :=
  ∀ painted ∈ surface.paintedState, surface.consumer.modes.shown = painted.modes.shown

instance (surface : Surface G) : Decidable surface.Follows :=
  inferInstanceAs (Decidable (∀ painted ∈ surface.paintedState, _))

/-- The consumer has seen whole control functions, and is fresh before the first paint. -/
structure Settled (surface : Surface G) : Prop where
  ground : surface.consumer.parser = .ground
  fresh : surface.paintedState = none → surface.consumer.modes.shown = ScreenModes.new.shown

/-- A full paint over an earlier one resets the mouse modes that it does not write. -/
def Restores (surface : Surface G) (emission : Emission G) : Prop :=
  ∀ previous, surface.paintedState = some previous → emission.IsFull previous →
    previous.modes.Resets emission.current.modes

theorem bounded_ok {bytes : Bytes} (h : TerminalPainter.bounded bytes = .ok output) : output = bytes := by
  unfold TerminalPainter.bounded at h
  split at h
  · cases h
  · exact (Except.ok.inj h).symm

/-- What an emission writes. -/
theorem output_cases (h : emission.output canvas surface.paintedState = .ok output) :
    output = TerminalPainter.initialProfilePolicyReset ++ emission.current.stateFormatted canvas ∧
        (∀ previous, surface.paintedState = some previous → emission.IsFull previous) ∨
      ∃ previous, surface.paintedState = some previous ∧ ¬emission.IsFull previous ∧
        output = emission.current.stateDiff canvas previous := by
  unfold Emission.output at h
  split at h
  · exact Or.inl ⟨bounded_ok h, fun _ _ => Or.inl ‹_›⟩
  · rename_i hforce
    split at h
    · rename_i previous hpainted
      unfold TerminalPainter.incremental at h
      split at h
      · rename_i hsize
        refine Or.inl ⟨bounded_ok h, fun previous' hprevious => Or.inr ?_⟩
        cases hpainted.symm.trans hprevious
        exact hsize
      · rename_i hsize
        exact Or.inr ⟨previous, hpainted, fun hfull => hfull.elim hforce hsize, bounded_ok h⟩
    · rename_i hpainted
      refine Or.inl ⟨bounded_ok h, fun previous hprevious => ?_⟩
      cases hpainted.symm.trans hprevious

theorem Settled.consumer_eq (h : surface.Settled) : surface.consumer = ⟨.ground, surface.consumer.modes⟩ := by
  rw [← h.ground]

theorem settled_painted {current : Screen G} {m : ScreenModes} : Settled (⟨some current, ⟨.ground, m⟩⟩ : Surface G) := by
  refine ⟨rfl, ?_⟩
  rintro ⟨⟩

theorem follows_painted_iff {current : Screen G} {consumer : Consumer} :
    Follows ⟨some current, consumer⟩ ↔ consumer.modes.shown = current.modes.shown := by
  constructor
  · exact fun h => h current rfl
  · rintro h _ ⟨⟩
    exact h

/-- What a full paint needs of a consumer that shows the painted state. -/
theorem restores_iff (hsettled : surface.Settled) (hfollows : surface.Follows)
    (hfull : ∀ previous, surface.paintedState = some previous → emission.IsFull previous) :
    surface.Restores emission ↔
      emission.current.modes.shown.afterFull surface.consumer.modes.shown = emission.current.modes.shown := by
  rw [Shown.afterFull_eq_iff]
  unfold Restores
  cases hpainted : surface.paintedState with
  | none =>
    rw [hsettled.fresh hpainted]
    refine ⟨fun _ => ⟨fun _ => rfl, fun _ => rfl⟩, fun _ => ?_⟩
    rintro _ ⟨⟩
  | some previous =>
    rw [hfollows previous hpainted]
    constructor
    · intro h
      obtain ⟨hmode, hencoding⟩ := h previous rfl (hfull previous hpainted)
      exact ⟨hmode, hencoding⟩
    · rintro ⟨hmode, hencoding⟩ _ ⟨⟩ _
      exact ⟨hmode, hencoding⟩

/-- A chunk leaves the consumer settled, and in the modes of the painted state exactly when it restores them. -/
theorem follows_emit (hsettled : surface.Settled) (hfollows : surface.Follows)
    (h : emission.output canvas surface.paintedState = .ok output) :
    Settled (⟨some emission.current, surface.consumer.process output⟩ : Surface G) ∧
      (Follows ⟨some emission.current, surface.consumer.process output⟩ ↔ surface.Restores emission) := by
  rw [follows_painted_iff, hsettled.consumer_eq]
  rcases output_cases h with ⟨rfl, hfull⟩ | ⟨previous, hpainted, hnot, rfl⟩
  · obtain ⟨m, hprocess, hshown⟩ := writes_full canvas emission.current surface.consumer.modes
    rw [hprocess, restores_iff hsettled hfollows hfull, hshown]
    exact ⟨settled_painted, Iff.rfl⟩
  · obtain ⟨effect, hwrites, heffect⟩ := writes_diff canvas emission.current previous
    obtain ⟨m, hprocess, hshown⟩ := hwrites surface.consumer.modes
    rw [hprocess, hshown, hfollows previous hpainted, heffect]
    refine ⟨settled_painted, fun _ previous' hprevious hfull => ?_, fun _ => rfl⟩
    cases hpainted.symm.trans hprevious
    exact absurd hfull hnot

theorem settled_new : Settled (new : Surface G) := ⟨rfl, fun _ => rfl⟩

theorem follows_new : Follows (new : Surface G) := by
  rintro _ ⟨⟩

theorem follows_chunks_iff (hsettled : surface.Settled) (hfollows : surface.Follows) (emissions : List (Emission G)) :
    (∀ chunk ∈ surface.chunks canvas emissions, chunk.after.Follows) ↔
      ∀ chunk ∈ surface.chunks canvas emissions, chunk.before.Restores chunk.emission := by
  induction emissions generalizing surface with
  | nil => simp [chunks]
  | cons emission emissions ih =>
    unfold chunks
    cases houtput : emission.output canvas surface.paintedState with
    | error e => simp
    | ok output =>
      obtain ⟨hsettled', hiff⟩ := follows_emit hsettled hfollows houtput
      simp only [List.forall_mem_cons, hiff]
      exact and_congr_right fun hrestores => ih hsettled' (hiff.mpr hrestores)

/-- In a run, the consumer is in the modes of the painted state after each chunk exactly when each full paint over
    an earlier one finds the mouse modes reset that it does not write. -/
theorem follows_iff_restores (canvas : Canvas G) (emissions : List (Emission G)) :
    (∀ chunk ∈ new.chunks canvas emissions, chunk.after.Follows) ↔
      ∀ chunk ∈ new.chunks canvas emissions, chunk.before.Restores chunk.emission :=
  follows_chunks_iff settled_new follows_new emissions

/-- A program that had asked for the mouse lets it go. A repaint, or a change of the size, then leaves the consumer
    in the mouse modes of the paint before. -/
theorem full_paint_keeps_mouse_modes :
    let canvas : Canvas Unit := ⟨fun _ => [], fun _ _ => []⟩
    let asked : Emission Unit := ⟨false, ⟨(24, 80), ⟨0, .pressRelease, .sgr⟩, ()⟩⟩
    let repaint : Emission Unit := ⟨true, ⟨(24, 80), .new, ()⟩⟩
    let resize : Emission Unit := ⟨false, ⟨(40, 100), .new, ()⟩⟩
    (¬∀ chunk ∈ new.chunks canvas [asked, repaint], chunk.after.Follows) ∧
      ¬∀ chunk ∈ new.chunks canvas [asked, resize], chunk.after.Follows := by
  decide +kernel

end Surface

/-! ### The output of the driver -/

namespace Surface

variable {canvas : Canvas G} {s t : Surface G} {emission : Emission G} {emissions : List (Emission G)}

/-- The emissions, none of which fails, lead from one surface to the other. -/
inductive Leads (canvas : Canvas G) : Surface G → List (Emission G) → Surface G → Prop where
  | refl (s : Surface G) : Leads canvas s [] s
  | emit {s t : Surface G} {emission : Emission G} {emissions : List (Emission G)} {output : Bytes}
      (houtput : emission.output canvas s.paintedState = .ok output)
      (hrest : Leads canvas ⟨some emission.current, s.consumer.process output⟩ emissions t) :
      Leads canvas s (emission :: emissions) t

theorem Leads.snoc {output : Bytes} (h : Leads canvas s emissions t)
    (houtput : emission.output canvas t.paintedState = .ok output) :
    Leads canvas s (emissions ++ [emission]) ⟨some emission.current, t.consumer.process output⟩ := by
  induction h with
  | refl s => exact .emit houtput (.refl _)
  | emit hfirst _ ih => exact .emit hfirst (ih houtput)

theorem Leads.mem_chunks (h : Leads canvas s emissions t) :
    t = s ∨ ∃ chunk ∈ s.chunks canvas emissions, chunk.after = t := by
  induction h with
  | refl s => exact Or.inl rfl
  | emit houtput hrest ih =>
    refine Or.inr ?_
    unfold chunks
    rw [houtput]
    rcases ih with rfl | ⟨chunk, hchunk, rfl⟩
    · exact ⟨_, List.mem_cons_self, rfl⟩
    · exact ⟨chunk, List.mem_cons_of_mem _ hchunk, rfl⟩

end Surface

namespace SessionDriver

variable {T : Type} {p : Platform T} {terminal : PaintedTerminal T G} {s t : SessionDriver T}

theorem paint_eq (hterminal : p.terminal = terminal.toTerminal) (current : T) :
    s.paint p current =
      Emission.output terminal.canvas (s.surface terminal).paintedState ⟨s.forceFullRepaint, terminal.screen current⟩ := by
  unfold paint Emission.output surface
  rw [hterminal, terminal.full_eq]
  cases s.paintedState with
  | none => rfl
  | some previous => simp only [terminal.incremental_eq, Option.map_some]

/-- Some emissions lead from a fresh surface to the driver's. -/
def Painted (terminal : PaintedTerminal T G) (s : SessionDriver T) : Prop :=
  ∃ emissions, Surface.Leads terminal.canvas .new emissions (s.surface terminal)

theorem Painted.of_eq (hpainted : t.paintedState = s.paintedState) (hemitted : t.trace.emitted = s.trace.emitted)
    (hs : Painted terminal s) : Painted terminal t := by
  unfold Painted surface
  rw [hpainted, hemitted]
  exact hs

theorem painted_emitOutput (hterminal : p.terminal = terminal.toTerminal) : Preserves (Painted terminal) (emitOutput p) := by
  intro s hs
  rw [emitOutput, wp_bind, wp_get, wp_bind, wp_ofExcept]
  refine ⟨fun authoritative _ => ?_, fun _ _ => trivial⟩
  rw [wp_bind, wp_ofExcept]
  refine ⟨fun output houtput => ?_, fun _ _ => trivial⟩
  rw [paint_eq hterminal] at houtput
  obtain ⟨emissions, hleads⟩ := hs
  have hconsumer : (s.surface terminal).consumer.process output =
      Consumer.new.process (s.trace.emitted ++ [output]).flatten := by
    simp only [surface, Consumer.process, List.flatten_append, List.flatten_singleton, List.foldl_append]
  have hnext := hleads.snoc houtput
  rw [hconsumer] at hnext
  exact ⟨_, hnext⟩

theorem indifferent_painted : Indifferent (Painted terminal) where
  sender heq := .of_eq (congrArg (fun d => d.paintedState) heq :) (congrArg (fun d => d.trace.emitted) heq :)
  instruction heq := .of_eq (congrArg (fun d => d.paintedState) heq :) (congrArg (fun d => d.trace.emitted) heq :)
  loop heq := .of_eq (congrArg (fun d => d.paintedState) heq :) (congrArg (fun d => d.trace.emitted) heq :)

theorem painted_decodeDatagram (elapsedMs : Nat) (datagram : Bytes) (source : SocketAddr) :
    Preserves (Painted terminal) (decodeDatagram p elapsedMs datagram source) :=
  (frame_decodeDatagram p elapsedMs datagram source).preserves fun heq =>
    .of_eq (congrArg (fun d => d.paintedState) heq :) (congrArg (fun d => d.trace.emitted) heq :)

end SessionDriver

namespace Session

variable {T : Type} {p : Platform T} {terminal : PaintedTerminal T G}

/-- Until a method fails, emissions account for what a session has painted and put out. -/
theorem painted_run (hterminal : p.terminal = terminal.toTerminal) (c : Connection p) (actions : List SessionAction)
    (hlive : ∀ e, ((start c.driver).run p actions).task ≠ .ended (.error e)) :
    Painted terminal ((start c.driver).run p actions).driver := by
  refine MethodsKeep.run (indifferent_painted.methodsKeep painted_decodeDatagram (painted_emitOutput hterminal)) ?_ actions hlive
  obtain ⟨initialTerminal, heq⟩ := c.apartFromSender_eq
  exact indifferent_painted.sender heq ⟨[], .refl _⟩

/-- So a consumer of its output is in the modes of the painted state, if each full paint finds the mouse modes reset
    that it does not write. -/
theorem follows_run (hterminal : p.terminal = terminal.toTerminal) (c : Connection p) (actions : List SessionAction)
    (hlive : ∀ e, ((start c.driver).run p actions).task ≠ .ended (.error e)) :
    ∃ emissions, Surface.Leads terminal.canvas .new emissions (((start c.driver).run p actions).driver.surface terminal) ∧
      ((∀ chunk ∈ Surface.new.chunks terminal.canvas emissions, chunk.before.Restores chunk.emission) →
        (((start c.driver).run p actions).driver.surface terminal).Follows) := by
  obtain ⟨emissions, hleads⟩ := painted_run hterminal c actions hlive
  refine ⟨emissions, hleads, fun hrestores => ?_⟩
  have hfollows := (Surface.follows_chunks_iff Surface.settled_new Surface.follows_new emissions).mpr hrestores
  rcases hleads.mem_chunks with heq | ⟨chunk, hchunk, heq⟩
  · exact heq ▸ Surface.follows_new
  · exact heq ▸ hfollows chunk hchunk

end Session
end MoshClient
