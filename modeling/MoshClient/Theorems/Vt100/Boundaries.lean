import MoshClient.Theorems.Vt100.Cluster

/-! The boundaries of host bytes. Bytes are admitted when they leave the parser where a new parser is, so the fresh
    parsers of some operations deliver what one parser delivers for all their bytes. What the budget accepts from its
    start it accepts behind other bytes, and the screen is the same after both. -/

namespace MoshClient.Vt100
open Checked

/-! ### The parser -/

namespace Vte

/-- A deterministic automaton. It prints the sentinel in its ground states only, and is as good as new there. -/
structure Automaton (vte : Vte) (ground : vte.State → Prop) : Prop where
  nil : ∀ state, vte.advance state [] = ([], state)
  append : ∀ state bytes more, vte.advance state (bytes ++ more) =
    ((vte.advance state bytes).1 ++ (vte.advance (vte.advance state bytes).2 more).1,
      (vte.advance (vte.advance state bytes).2 more).2)
  new : ground vte.new
  sentinel : ∀ state, ground state ↔ (vte.advance state [0x58]).1.filterMap Event.printed = ['X']
  fresh : ∀ state, ground state → ∀ bytes, (vte.advance state bytes).1 = (vte.advance vte.new bytes).1

/-- What a new parser delivers. -/
def events (vte : Vte) (bytes : Bytes) : List Event := (vte.advance vte.new bytes).1

/-- What the parser delivers for the sentinel behind the bytes. -/
def sentinelEvents (vte : Vte) (bytes : Bytes) : List Event := (vte.advance (vte.advance vte.new bytes).2 [0x58]).1

namespace Automaton

variable {vte : Vte} {ground : vte.State → Prop} {bytes : Bytes}

theorem events_nil (h : vte.Automaton ground) : vte.events [] = [] := congrArg Prod.fst (h.nil vte.new)

theorem events_append (h : vte.Automaton ground) (hground : ground (vte.advance vte.new bytes).2) (more : Bytes) :
    vte.events (bytes ++ more) = vte.events bytes ++ vte.events more := by
  unfold events
  rw [h.append, h.fresh _ hground]

/-- The sentinel does not tell a parser in the ground state from a new one. -/
theorem sentinelEvents_append (h : vte.Automaton ground) (hground : ground (vte.advance vte.new bytes).2) (more : Bytes) :
    vte.sentinelEvents (bytes ++ more) = vte.sentinelEvents more := by
  -- Both parsers deliver the same for the bytes with the sentinel, and for the bytes.
  have hfresh := h.fresh _ hground (more ++ [0x58])
  rw [h.append, h.append, h.fresh _ hground more] at hfresh
  unfold sentinelEvents
  rw [h.append]
  exact List.append_cancel_left hfresh

end Automaton

end Vte

/-! ### UTF-8 -/

theorem isUtf8_append {bytes : Bytes} (h : isUtf8 bytes = true) (more : Bytes) : isUtf8 (bytes ++ more) = isUtf8 more := by
  fun_induction isUtf8 bytes with
  | case1 => rfl
  | case2 a rest ha ih =>
    rw [← ih h, List.cons_append, isUtf8.eq_def (a :: _)]
    simp only [if_pos ha]
  | case4 a ha b rest htwo ih =>
    simp only [Bool.and_eq_true] at h
    rw [← ih h.2, List.cons_append, List.cons_append, isUtf8.eq_def (a :: _)]
    simp only [if_neg ha, if_pos htwo, h.1, Bool.and_true, Bool.true_and]
  | case6 a ha b htwo c rest hthree ih =>
    simp only [Bool.and_eq_true] at h
    rw [← ih h.2, List.cons_append, List.cons_append, List.cons_append, isUtf8.eq_def (a :: _)]
    simp only [if_neg ha, if_neg htwo, if_pos hthree, h.1, Bool.and_true, Bool.true_and]
  | case8 a ha b htwo c hthree d rest ih =>
    simp only [Bool.and_eq_true] at h
    rw [← ih h.2, List.cons_append, List.cons_append, List.cons_append, List.cons_append, isUtf8.eq_def (a :: _)]
    simp only [if_neg ha, if_neg htwo, if_neg hthree, h.1, Bool.and_true, Bool.true_and]
  | _ => cases h

/-! ### The budget -/

namespace ScalarBudget

variable {unicode : UnicodeWidth} {b c : ScalarBudget} {event : Event} {events : List Event}

theorem printed_perform (unicode : UnicodeWidth) (b : ScalarBudget) (event : Event) :
    (b.perform unicode event).prints = b.prints + event.printed.toList.length ∧
      (b.perform unicode event).lastPrinted = event.printed.or b.lastPrinted := by
  cases event with
  | print character =>
    simp only [perform, print]
    split
    · exact ⟨rfl, rfl⟩
    · split_ifs <;> exact ⟨rfl, rfl⟩
    · exact ⟨rfl, rfl⟩
  | csiDispatch params intermediates final =>
    simp only [perform]
    split_ifs <;> exact ⟨rfl, rfl⟩
  | _ => exact ⟨rfl, rfl⟩

/-- The budget counts what is printed, and remembers the last of it. -/
theorem printed_after (unicode : UnicodeWidth) (b : ScalarBudget) (events : List Event) :
    (b.after unicode events).prints = b.prints + (events.filterMap Event.printed).length ∧
      (b.after unicode events).lastPrinted = (events.filterMap Event.printed).getLast?.or b.lastPrinted := by
  induction events generalizing b with
  | nil => exact ⟨rfl, rfl⟩
  | cons event events ih =>
    obtain ⟨hprints, hlast⟩ := ih (b.perform unicode event)
    obtain ⟨hprints', hlast'⟩ := printed_perform unicode b event
    have hcons : (event :: events).filterMap Event.printed = event.printed.toList ++ events.filterMap Event.printed := by
      cases hevent : event.printed <;> simp [hevent]
    refine ⟨hprints.trans ?_, hlast.trans ?_⟩
    · rw [hprints', hcons, List.length_append, Nat.add_assoc]
    · rw [hlast', hcons, List.getLast?_append, Option.or_assoc]
      cases event.printed <;> rfl

theorem prints_sentinel_iff (unicode : UnicodeWidth) (b : ScalarBudget) (events : List Event) :
    (b.after unicode events).prints = b.prints + 1 ∧ (b.after unicode events).lastPrinted = some 'X' ↔
      events.filterMap Event.printed = ['X'] := by
  obtain ⟨hprints, hlast⟩ := printed_after unicode b events
  rw [hprints, hlast]
  constructor
  · intro h
    obtain ⟨character, hcharacter⟩ := List.length_eq_one_iff.mp (Nat.add_left_cancel h.1)
    rw [hcharacter] at h ⊢
    simpa using h.2
  · intro h
    simp [h]

/-- The budget `b` accepts what `c` accepts: it has the same cluster open when `c` has one. -/
structure Covers (b c : ScalarBudget) : Prop where
  error : b.error = none
  scalars : 0 < c.scalars → b.scalars = c.scalars
  utf8Bytes : 0 < c.scalars → b.utf8Bytes = c.utf8Bytes

theorem covers_default (h : b.error = none) : Covers b default :=
  ⟨h, fun hopen => absurd hopen (Nat.lt_irrefl 0), fun hopen => absurd hopen (Nat.lt_irrefl 0)⟩

theorem Covers.perform (h : Covers b c) (herror : (c.perform unicode event).error = none) :
    Covers (b.perform unicode event) (c.perform unicode event) := by
  have hreset : Covers b.resetCluster c.resetCluster := ⟨h.error, fun _ => rfl, fun _ => rfl⟩
  cases event with
  | print character =>
    show Covers (b.print unicode character) (c.print unicode character)
    cases hwidth : unicode.terminalWidth character with
    | none => simp [ScalarBudget.perform, print, hwidth] at herror
    | some width =>
      by_cases hzero : width = 0
      · subst hzero
        -- A scalar without columns needs an open cluster, and where `c` has one `b` has the same.
        have hadmits := admits_print hwidth herror
        have hscalars := h.scalars hadmits.opened
        have hbytes := h.utf8Bytes hadmits.opened
        have hjoined := print_joins hwidth (hscalars ▸ hadmits.opened) (hscalars ▸ hadmits.scalars_ne)
          (hbytes ▸ hadmits.utf8Bytes_lt)
        rw [hjoined]
        refine ⟨h.error, fun _ => ?_, fun _ => ?_⟩
        · rw [hadmits.scalars, ← hscalars]
        · rw [hadmits.utf8Bytes, ← hbytes]
      · have hpos := Nat.one_le_iff_ne_zero.mpr hzero
        rw [print_spacing hwidth hpos, print_spacing hwidth hpos]
        exact ⟨h.error, fun _ => rfl, fun _ => rfl⟩
  | csiDispatch params intermediates final =>
    simp only [ScalarBudget.perform]
    split
    · exact hreset
    · exact h
  | _ => exact hreset

theorem Covers.after (h : Covers b c) (herror : (c.after unicode events).error = none) :
    Covers (b.after unicode events) (c.after unicode events) := by
  induction events generalizing b c with
  | nil => exact h
  | cons event events ih => exact ih (h.perform (error_of_after herror)) herror

/-- Spacing characters are accepted everywhere. -/
theorem error_after_spacing (h : b.error = none)
    (hspacing : ∀ character ∈ events.filterMap Event.printed, unicode.Spacing character) :
    (b.after unicode events).error = none := by
  induction events generalizing b with
  | nil => exact h
  | cons event events ih =>
    refine ih ?_ fun character hcharacter => hspacing character ?_
    · cases event with
      | print character =>
        obtain ⟨width, hwidth, hpos⟩ := hspacing character (by simp [Event.printed])
        show (b.print unicode character).error = none
        rw [print_spacing hwidth hpos]
        exact h
      | csiDispatch params intermediates final =>
        simp only [perform]
        split <;> exact h
      | _ => exact h
    · obtain ⟨printed, hprinted, hmem⟩ := List.mem_filterMap.mp hcharacter
      exact List.mem_filterMap.mpr ⟨printed, List.mem_cons_of_mem _ hprinted, hmem⟩

end ScalarBudget

/-! ### Admitted bytes -/

/-- Bytes that `validateHostBytes` admits. -/
structure Accepts (crates : Crates) (bytes : Bytes) : Prop where
  utf8 : isUtf8 bytes = true
  counted : (ScalarBudget.after crates.unicode .default
    (crates.vte.events bytes ++ crates.vte.sentinelEvents bytes)).error = none
  sentinel : (crates.vte.sentinelEvents bytes).filterMap Event.printed = ['X']

variable {crates : Crates} {ground : crates.vte.State → Prop} {bytes more : Bytes}

theorem validateHostBytes_ok_iff : validateHostBytes crates bytes = .ok () ↔ Accepts crates bytes := by
  have hsentinel := ScalarBudget.prints_sentinel_iff crates.unicode
    (ScalarBudget.after crates.unicode .default (crates.vte.events bytes)) (crates.vte.sentinelEvents bytes)
  constructor
  · intro h
    unfold validateHostBytes at h
    split at h
    · cases h
    · rename_i hutf8
      dsimp only at h
      split at h
      · cases h
      · rename_i herror
        split at h
        · cases h
        · rename_i hprints
          rw [not_or, not_not, not_not] at hprints
          refine ⟨not_not.mp hutf8, ?_, hsentinel.mp hprints⟩
          rw [ScalarBudget.after_append]
          exact herror
  · rintro ⟨hutf8, hcounted, hprinted⟩
    obtain ⟨hprints, hlast⟩ := hsentinel.mpr hprinted
    rw [ScalarBudget.after_append] at hcounted
    simp only [ScalarBudget.after, Vte.events, Vte.sentinelEvents] at hcounted hprints hlast
    simp [validateHostBytes, hutf8, hcounted, hprints, hlast]

namespace Accepts

theorem grounded (hvte : crates.vte.Automaton ground) (h : Accepts crates bytes) :
    ground (crates.vte.advance crates.vte.new bytes).2 := (hvte.sentinel _).mpr h.sentinel

theorem events_append (hvte : crates.vte.Automaton ground) (h : Accepts crates bytes) (more : Bytes) :
    crates.vte.events (bytes ++ more) = crates.vte.events bytes ++ crates.vte.events more :=
  hvte.events_append (h.grounded hvte) more

theorem append (hvte : crates.vte.Automaton ground) (h : Accepts crates bytes) (hmore : Accepts crates more) :
    Accepts crates (bytes ++ more) where
  utf8 := (isUtf8_append h.utf8 more).trans hmore.utf8
  counted := by
    rw [h.events_append hvte, hvte.sentinelEvents_append (h.grounded hvte), List.append_assoc, ScalarBudget.after_append]
    have hcovers := ScalarBudget.covers_default (ScalarBudget.error_of_append h.counted)
    exact (hcovers.after hmore.counted).error
  sentinel := by
    rw [hvte.sentinelEvents_append (h.grounded hvte)]
    exact hmore.sentinel

theorem nil (hvte : crates.vte.Automaton ground) (hlatin : crates.unicode.Latin) : Accepts crates [] := by
  have hsentinel : (crates.vte.sentinelEvents []).filterMap Event.printed = ['X'] := by
    unfold Vte.sentinelEvents
    rw [hvte.nil]
    exact (hvte.sentinel _).mp hvte.new
  refine ⟨rfl, ?_, hsentinel⟩
  rw [hvte.events_nil, List.nil_append]
  refine ScalarBudget.error_after_spacing rfl fun character hcharacter => ?_
  rw [hsentinel, List.mem_singleton] at hcharacter
  rw [hcharacter]
  exact ⟨1, (crates.unicode.terminalWidth_latin (by decide)).trans (hlatin.printable _ (by decide) (by decide)), le_rfl⟩

/-- One parser delivers for all the bytes what new parsers deliver for the chunks. -/
theorem flatten (hvte : crates.vte.Automaton ground) (hlatin : crates.unicode.Latin) {chunks : List Bytes}
    (h : ∀ chunk ∈ chunks, Accepts crates chunk) :
    Accepts crates chunks.flatten ∧ crates.vte.events chunks.flatten = chunks.flatMap crates.vte.events := by
  induction chunks with
  | nil => exact ⟨nil hvte hlatin, hvte.events_nil⟩
  | cons chunk chunks ih =>
    have hchunk := h chunk List.mem_cons_self
    obtain ⟨haccepts, hevents⟩ := ih fun other hother => h other (List.mem_cons_of_mem _ hother)
    refine ⟨hchunk.append hvte haccepts, ?_⟩
    rw [List.flatten_cons, hchunk.events_append hvte, hevents, List.flatMap_cons]

end Accepts

/-! ### Terminal states -/

theorem Cell.kind_any : Kind (fun _ => True) fun _ => True where
  new := trivial
  clear := fun _ _ _ => trivial
  clearOwn := fun _ _ => trivial
  continuation := fun _ _ _ => trivial
  set := fun _ _ _ _ _ => .of_forall fun _ => trivial
  rendition := Cell.kind_bounded.rendition

namespace TerminalState

variable {s t : TerminalState} {w v : WrappedScreen}

theorem invariant_bounded (hlatin : crates.unicode.Latin) : Invariant crates Screen.Bounded where
  new := fun _ _ hvalid => Screen.madeOf_new Cell.kind_bounded (size_of_valid hvalid).2.2.2
  hosts := by
    intro s bytes w h hw
    have haccepts := ScalarBudget.error_of_append (validateHostBytes_ok_iff.mp hw.valid).counted
    exact ((WrappedScreen.agrees_default h ⟨none⟩).allows_process hlatin haccepts w hw.processed).bounded
  resize := fun _ _ _ hvalid h => h.allows_setSize Cell.kind_bounded (size_of_valid hvalid).2.2.2

theorem invariant_size (crates : Crates) : Invariant crates
    (Screen.MadeOf (fun size => isValidSize size.cols size.rows = true) (fun _ => True) fun _ => True) :=
  invariant_madeOf Cell.kind_any (fun _ _ _ => .of_forall fun _ => trivial) fun _ _ hvalid => hvalid

/-- No bytes change nothing. -/
theorem hosts_nil (hvte : crates.vte.Automaton ground) (hlatin : crates.unicode.Latin) (hs : s.Built crates) :
    Hosts crates s [] ⟨s.screen, ⟨none⟩⟩ where
  valid := validateHostBytes_ok_iff.mpr (.nil hvte hlatin)
  blank := by
    obtain ⟨hrows, hrows', hcols, hcols'⟩ := size_of_valid ((invariant_size crates).of_built hs).active.size
    obtain ⟨blank, hblank, -⟩ := Screen.returns_new hrows hrows' hcols hcols'
    exact ⟨blank, hblank⟩
  processed := by
    rw [show (crates.vte.advance crates.vte.new []).1 = [] from hvte.events_nil]
    rfl
  handled := rfl
  shown := ((invariant_bounded hlatin).of_built hs).validateScreen_eq

/-- Bytes that are applied one after the other are applied together. -/
theorem Hosts.append (hvte : crates.vte.Automaton ground) (h : Hosts crates s bytes w)
    (hmore : Hosts crates { s with screen := w.screen } more v) : Hosts crates s (bytes ++ more) v := by
  have haccepts := validateHostBytes_ok_iff.mp h.valid
  -- The callbacks of the first parser are as those of a new one, or its bytes would not have been applied.
  have hwrapped : w = ⟨w.screen, ⟨none⟩⟩ := by
    obtain ⟨screen, ⟨unsupported⟩⟩ := w
    rw [show unsupported = none from h.handled]
  refine ⟨validateHostBytes_ok_iff.mpr (haccepts.append hvte (validateHostBytes_ok_iff.mp hmore.valid)), h.blank, ?_,
    hmore.handled, hmore.shown⟩
  rw [show (crates.vte.advance crates.vte.new (bytes ++ more)).1 = _ from haccepts.events_append hvte more,
    WrappedScreen.process_append]
  unfold Vte.events
  rw [h.processed]
  show w.process _ _ = _
  rw [hwrapped]
  exact hmore.processed

theorem applyOperations_cons_ok_iff {operation : TerminalOperation} {operations : List TerminalOperation} :
    s.applyOperations crates (operation :: operations) = .ok (.ok t) ↔
      ∃ next, s.applyOperation crates operation = .ok (.ok next) ∧
        next.applyOperations crates operations = .ok (.ok t) := by
  simp only [applyOperations]
  cases h : s.applyOperation crates operation with
  | error fault => simp [bind, Except.bind]
  | ok result =>
    cases result with
    | error e => simp [bind, Except.bind, pure, Except.pure]
    | ok next => simp [bind, Except.bind]

theorem apply_hostBytes_ok_iff : s.apply crates ⟨[.hostBytes bytes]⟩ = .ok (.ok t) ↔
    ∃ w, Hosts crates s bytes w ∧ t = { s with screen := w.screen } := by
  unfold apply
  rw [applyOperations_cons_ok_iff, ← applyHostBytes_ok_iff]
  constructor
  · rintro ⟨next, hnext, hrest⟩
    cases hrest
    exact hnext
  · intro h
    exact ⟨t, h, rfl⟩

/-- Some chunks behind bytes that were applied. -/
theorem Hosts.chunks (hvte : crates.vte.Automaton ground) (h : Hosts crates s bytes w) {chunks : List Bytes}
    (hchunks : { s with screen := w.screen }.applyOperations crates (chunks.map .hostBytes) = .ok (.ok t)) :
    ∃ v, Hosts crates s (bytes ++ chunks.flatten) v ∧ t = { s with screen := v.screen } := by
  induction chunks generalizing bytes w with
  | nil =>
    cases hchunks
    rw [List.flatten_nil, List.append_nil]
    exact ⟨w, h, rfl⟩
  | cons chunk chunks ih =>
    obtain ⟨next, hnext, hrest⟩ := applyOperations_cons_ok_iff.mp hchunks
    obtain ⟨v, hv, rfl⟩ := applyHostBytes_ok_iff.mp hnext
    rw [List.flatten_cons, ← List.append_assoc]
    exact ih (h.append hvte hv) hrest

end TerminalState

/-- Where host bytes are divided does not matter. Bytes that are applied in chunks are applied at once, to the same
    screen: what is admitted leaves the parser in a ground state, and one parser then delivers the events of all. -/
theorem chunk_boundaries_do_not_matter (hvte : crates.vte.Automaton ground) (hlatin : crates.unicode.Latin) :
    (∀ (s t : TerminalState) (chunks : List Bytes), (chunks = [] → s.Built crates) →
      s.apply crates ⟨chunks.map .hostBytes⟩ = .ok (.ok t) →
      s.apply crates ⟨[.hostBytes chunks.flatten]⟩ = .ok (.ok t)) ∧
    (∀ bytes, validateHostBytes crates bytes = .ok () → ground (crates.vte.advance crates.vte.new bytes).2) ∧
    ∀ chunks : List Bytes, (∀ chunk ∈ chunks, validateHostBytes crates chunk = .ok ()) →
      validateHostBytes crates chunks.flatten = .ok () ∧
      (crates.vte.advance crates.vte.new chunks.flatten).1 =
        chunks.flatMap fun chunk => (crates.vte.advance crates.vte.new chunk).1 := by
  refine ⟨?_, fun bytes h => (validateHostBytes_ok_iff.mp h).grounded hvte, ?_⟩
  · intro s t chunks hbuilt h
    rw [TerminalState.apply_hostBytes_ok_iff]
    cases chunks with
    | nil =>
      cases h
      exact ⟨_, TerminalState.hosts_nil hvte hlatin (hbuilt rfl), rfl⟩
    | cons chunk chunks =>
      obtain ⟨next, hnext, hrest⟩ := TerminalState.applyOperations_cons_ok_iff.mp h
      obtain ⟨w, hw, rfl⟩ := TerminalState.applyHostBytes_ok_iff.mp hnext
      exact hw.chunks hvte hrest
  · intro chunks h
    have hchunks := fun chunk hchunk => validateHostBytes_ok_iff.mp (h chunk hchunk)
    obtain ⟨haccepts, hevents⟩ := Accepts.flatten hvte hlatin hchunks
    exact ⟨validateHostBytes_ok_iff.mpr haccepts, hevents⟩

/-! ### A parser that resumes -/

/-- The parser that takes a byte at a time. -/
def Vte.run {State : Type} (step : UInt8 → State → List Event × State) : State → Bytes → List Event × State
  | state, [] => ([], state)
  | state, byte :: bytes =>
    ((step byte state).1 ++ (run step (step byte state).2 bytes).1, (run step (step byte state).2 bytes).2)

theorem Vte.run_append {State : Type} {step : UInt8 → State → List Event × State} (state : State) (bytes more : Bytes) :
    run step state (bytes ++ more) =
      ((run step state bytes).1 ++ (run step (run step state bytes).2 more).1,
        (run step (run step state bytes).2 more).2) := by
  induction bytes generalizing state with
  | nil => rfl
  | cons byte bytes ih =>
    simp only [List.cons_append, run]
    rw [ih, List.append_assoc]

/-- A character that breaks off is replaced, and the byte is read again. -/
def SketchState.resume (byte : UInt8) : SketchState → List Event × SketchState
  | .utf8 missing code =>
    if 0x80 ≤ byte ∧ byte < 0xc0 then step byte (.utf8 missing code)
    else (.print '\ufffd' :: (step byte .ground).1, (step byte .ground).2)
  | state => step byte state

/-- The parser, with the same widths. -/
def resuming : Crates := { sketch with vte := ⟨SketchState, .ground, Vte.run SketchState.resume⟩ }

theorem resuming_automaton : resuming.vte.Automaton fun state : SketchState => state = .ground where
  nil := fun _ => rfl
  append := Vte.run_append
  new := rfl
  sentinel := by
    intro state
    cases state with
    | ground => exact iff_of_true rfl rfl
    | _ => refine iff_of_false (fun h => ?_) (fun h => ?_) <;> cases h
  fresh := by
    rintro state rfl bytes
    rfl

/-- A change of the attributes, and a character of two bytes. -/
theorem chunk_boundaries_do_not_matter_bold :
    ∃ s t, TerminalState.new 4 2 = .ok (.ok s) ∧
      s.apply resuming ⟨[.hostBytes [0x1b, 0x5b, 0x31, 0x6d], .hostBytes [0xc3, 0xa9]]⟩ = .ok (.ok t) ∧
      s.apply resuming ⟨[.hostBytes [0x1b, 0x5b, 0x31, 0x6d, 0xc3, 0xa9]]⟩ = .ok (.ok t) := by
  refine ⟨_, _, rfl, rfl, ?_⟩
  exact (chunk_boundaries_do_not_matter resuming_automaton sketch_latin).1 _ _ [[0x1b, 0x5b, 0x31, 0x6d], [0xc3, 0xa9]]
    (fun h => absurd h (List.cons_ne_nil _ _)) rfl

end MoshClient.Vt100
