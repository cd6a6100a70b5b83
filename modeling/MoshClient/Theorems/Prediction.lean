import Mathlib.Data.List.Induction
import MoshClient.PredictionRun

/-! Local prediction. What is displayed changes only where a method says so; the predictions stay anchored to
    the authoritative state; and they are displayed only after a confirmation, and not for long. -/

namespace MoshClient
open Machine Effect Limits

variable {T : Type} {terminal : Terminal T}

namespace LocalPrediction

variable {self : LocalPrediction T}

/-! ### What the methods do -/

theorem displayingPrediction_iff : self.displayingPrediction = true ↔
    self.confidence = .confirmed ∧ self.pending ≠ [] ∧
      (self.mode = .always ∨ self.mode = .adaptive ∧ (self.adaptiveSlowLink = true ∨ self.adaptiveGlitch = true)) := by
  unfold displayingPrediction
  cases self.mode <;> simp [and_assoc]

/-- What `observe_input` can be. -/
inductive Inputs (terminal : Terminal T) (clientState : Nat) (bytes : Bytes) (authoritative : T) (nowMs : Nat)
    (self : LocalPrediction T) : EStateM.Result PredictionError (LocalPrediction T) Bool → Prop where
  | never (hmode : self.mode = .never) : Inputs terminal clientState bytes authoritative nowMs self (.ok false self)
  | cleared (hmode : self.mode ≠ .never) (hends : self.EndsEpoch bytes) :
      Inputs terminal clientState bytes authoritative nowMs self (.ok self.clear.1 self.clear.2)
  | started (byte : UInt8) (projected : T) (next : LocalPrediction T) (hmode : self.mode ≠ .never) (hends : ¬self.EndsEpoch bytes)
      (hempty : self.pending = []) (happlies : terminal.withPredictedAscii authoritative byte = .ok projected)
      (hnext : next = { self with
        base := some authoritative, projected := some projected, pending := [⟨clientState, nowMs, byte⟩] }) :
      Inputs terminal clientState bytes authoritative nowMs self (.ok next.displayingPrediction next)
  | appended (byte : UInt8) (before projected : T) (next : LocalPrediction T) (hmode : self.mode ≠ .never)
      (hends : ¬self.EndsEpoch bytes) (hpending : self.pending ≠ []) (hbefore : self.projected = some before)
      (happlies : terminal.withPredictedAscii before byte = .ok projected)
      (hnext : next = { self with projected := some projected, pending := self.pending ++ [⟨clientState, nowMs, byte⟩] }) :
      Inputs terminal clientState bytes authoritative nowMs self (.ok next.displayingPrediction next)
  | unstarted (e : TerminalError) (hends : ¬self.EndsEpoch bytes) (hempty : self.pending = []) :
      Inputs terminal clientState bytes authoritative nowMs self
        (.error (.terminal e) { self with base := some authoritative })
  | failed (e : PredictionError) (hends : ¬self.EndsEpoch bytes) (hpending : self.pending ≠ [])
      (hmissing : (∃ e', e = .terminal e') ∨ self.projected = none) :
      Inputs terminal clientState bytes authoritative nowMs self (.error e self)

theorem inputs_observeInput (terminal : Terminal T) (clientState : Nat) (bytes : Bytes) (authoritative : T) (nowMs : Nat)
    (self : LocalPrediction T) :
    Inputs terminal clientState bytes authoritative nowMs self
      (observeInput terminal clientState bytes authoritative nowMs self) := by
  unfold observeInput
  split
  · exact .never ‹_›
  · rename_i hmode
    split
    · exact .cleared hmode (Or.inl ‹_›)
    · rename_i byte hbyte
      split
      · exact .cleared hmode (Or.inr ‹_›)
      · rename_i hfull
        have hends : ¬self.EndsEpoch bytes := by
          intro h
          rcases h with h | h
          · rw [hbyte] at h
            cases h
          · exact hfull h
        dsimp only
        split
        · rename_i hempty
          have hempty := List.isEmpty_iff.mp hempty
          split
          · exact .unstarted _ hends hempty
          · exact .started byte _ _ hmode hends hempty ‹_› (by rw [hempty]; rfl)
        · rename_i hpending
          have hpending : self.pending ≠ [] := fun h => hpending (List.isEmpty_iff.mpr h)
          split
          · exact .failed _ hends hpending (Or.inr ‹_›)
          · split
            · exact .failed _ hends hpending (Or.inl ⟨_, rfl⟩)
            · exact .appended byte _ _ _ hmode hends hpending ‹_› ‹_› rfl

/-- What `observe_authoritative` can be. -/
inductive Observes (terminal : Terminal T) (authoritative : T) (self : LocalPrediction T) :
    EStateM.Result PredictionError (LocalPrediction T) Unit → Prop where
  | idle (h : self.mode = .never ∨ self.pending = []) : Observes terminal authoritative self (.ok () self)
  | failed (e : PredictionError) (hmode : self.mode ≠ .never) (hpending : self.pending ≠ [])
      (hmatch : longestMatchingPrefix terminal self authoritative = .error e) :
      Observes terminal authoritative self (.error e self)
  | diverged (h : self.Clears terminal (.authoritative authoritative)) :
      Observes terminal authoritative self (.ok () self.clear.2)
  | unacknowledged (count : Nat) (hmode : self.mode ≠ .never) (hpending : self.pending ≠ [])
      (hmatch : longestMatchingPrefix terminal self authoritative = .ok (some count))
      (hack : acknowledgedPrefix terminal self authoritative = 0) : Observes terminal authoritative self (.ok () self)
  | drained (hpending : self.pending ≠ []) (hconfirms : Confirms terminal self authoritative) :
      Observes terminal authoritative self (.ok ()
        { self with
          confidence := .confirmed, pending := [], base := none, projected := none, adaptiveGlitch := false })
  | rebased (count : Nat) (projected : T) (hmode : self.mode ≠ .never) (hconfirms : Confirms terminal self authoritative)
      (hrest : self.pending.drop count ≠ [])
      (hprojects : project terminal authoritative (self.pending.drop count) = .ok projected) :
      Observes terminal authoritative self (.ok ()
        { self with
          confidence := .confirmed, pending := self.pending.drop count, base := some authoritative
          projected := some projected })
  | unprojected (count : Nat) (e : TerminalError) (hmode : self.mode ≠ .never)
      (hconfirms : Confirms terminal self authoritative) :
      Observes terminal authoritative self
        (.error (.terminal e) { self with confidence := .confirmed, pending := self.pending.drop count })

theorem project_of_take {start expected : T} {pending : List PendingPrediction} {prediction : PendingPrediction}
    (h : terminal.withPredictedAscii start prediction.byte = .ok expected) :
    project terminal start (prediction :: pending) = project terminal expected pending := by
  rw [project, h]

theorem matchPrefix_some {authoritative : T} {pending : List PendingPrediction} {index count : Nat} {start : T}
    {matched : Option Nat} (h : matchPrefix terminal authoritative pending index start matched = .ok (some count)) :
    matched = some count ∨ ∃ more, count = index + more ∧ Matches terminal start pending authoritative more := by
  induction pending generalizing index start matched with
  | nil =>
    cases h
    exact Or.inl rfl
  | cons prediction pending ih =>
    rw [matchPrefix] at h
    split at h
    · cases h
    · rename_i expected happlies
      rcases ih h with hmatched | ⟨more, rfl, hle, last, hproject, hequivalent⟩
      · split at hmatched
        · rename_i hequivalent
          cases hmatched
          refine Or.inr ⟨1, rfl, Nat.le_add_left 1 _, expected, ?_, hequivalent⟩
          rw [List.take_succ_cons, project_of_take happlies, List.take_zero, project]
        · exact Or.inl hmatched
      · refine Or.inr ⟨more + 1, by omega, Nat.succ_le_succ hle, last, ?_, hequivalent⟩
        rw [List.take_succ_cons, project_of_take happlies, hproject]

theorem matches_of_longestMatchingPrefix {authoritative : T} {count : Nat}
    (h : longestMatchingPrefix terminal self authoritative = .ok (some count)) :
    ∃ base, self.base = some base ∧ Matches terminal base self.pending authoritative count := by
  unfold longestMatchingPrefix at h
  split at h
  · cases h
  · rename_i base hbase
    refine ⟨base, hbase, ?_⟩
    cases hmatch : matchPrefix terminal authoritative self.pending 0 base
        (if terminal.displayEquivalent base authoritative then some 0 else none) with
    | error e =>
      rw [hmatch] at h
      cases h
    | ok matched =>
      rw [hmatch] at h
      cases h
      rcases matchPrefix_some hmatch with hzero | ⟨more, hcount, hmatches⟩
      · split at hzero
        · rename_i hequivalent
          cases hzero
          exact ⟨Nat.zero_le _, base, rfl, hequivalent⟩
        · cases hzero
      · rw [Nat.zero_add] at hcount
        exact hcount ▸ hmatches

theorem observes_observeAuthoritative (terminal : Terminal T) (authoritative : T) (self : LocalPrediction T) :
    Observes terminal authoritative self (observeAuthoritative terminal authoritative self) := by
  unfold observeAuthoritative
  split
  · rename_i hidle
    exact .idle (hidle.imp_right List.isEmpty_iff.mp)
  · rename_i hactive
    obtain ⟨hmode, hpending⟩ := not_or.mp hactive
    rw [List.isEmpty_iff] at hpending
    split
    · exact .failed _ hmode hpending ‹_›
    · exact .diverged ⟨hmode, hpending, Or.inl ‹_›⟩
    · rename_i count hmatch
      show Observes terminal authoritative self
        (if acknowledgedPrefix terminal self authoritative > count then _
          else if acknowledgedPrefix terminal self authoritative = 0 then _ else _)
      split
      · exact .diverged ⟨hmode, hpending, Or.inr ⟨count, hmatch, ‹_›⟩⟩
      · rename_i hle
        split
        · exact .unacknowledged count hmode hpending hmatch ‹_›
        · rename_i hpos
          obtain ⟨base, hbase, hmatches⟩ := matches_of_longestMatchingPrefix hmatch
          have hconfirms : Confirms terminal self authoritative :=
            ⟨base, count, hbase, hmatches, Nat.pos_of_ne_zero hpos, Nat.le_of_not_lt hle⟩
          dsimp only
          split
          · rename_i hdrained
            rw [List.isEmpty_iff.mp hdrained]
            exact .drained hpending hconfirms
          · rename_i hrest
            split
            · exact .unprojected count _ hmode hconfirms
            · exact .rebased count _ hmode hconfirms (fun h => hrest (List.isEmpty_iff.mpr h)) ‹_›

/-- What `expire` can be. -/
theorem expire_cases (self : LocalPrediction T) (nowMs : Nat) :
    self.expire nowMs = self.clear ∨
      self.expire nowMs = (false, self) ∧ ∀ deadline, self.expirationDeadlineMs = some deadline → nowMs < deadline := by
  unfold expire
  split
  · exact Or.inl rfl
  · rename_i hlive
    refine Or.inr ⟨rfl, fun deadline hdeadline => ?_⟩
    rw [hdeadline, Option.any_some, decide_eq_true_eq] at hlive
    exact Nat.lt_of_not_le hlive

theorem updateSlowLink_eq (self : LocalPrediction T) (frameIntervalMs : Option Nat) :
    ∃ slowLink, self.updateSlowLink frameIntervalMs = { self with adaptiveSlowLink := slowLink } := by
  unfold updateSlowLink
  split
  · exact ⟨self.adaptiveSlowLink, rfl⟩
  · split
    · exact ⟨true, rfl⟩
    · split
      · exact ⟨false, rfl⟩
      · exact ⟨self.adaptiveSlowLink, rfl⟩

theorem updateGlitch_eq (self : LocalPrediction T) (nowMs : Nat) :
    ∃ glitch, self.updateGlitch nowMs = { self with adaptiveGlitch := glitch } := by
  unfold updateGlitch
  split
  · exact ⟨false, rfl⟩
  · split
    · exact ⟨true, rfl⟩
    · exact ⟨self.adaptiveGlitch, rfl⟩

/-- The policy decides only about the two adaptive flags. -/
theorem updatePolicy_eq (self : LocalPrediction T) (nowMs : Nat) (frameIntervalMs : Option Nat) :
    ∃ slowLink glitch, (self.updatePolicy nowMs frameIntervalMs).2 =
      { self with adaptiveSlowLink := slowLink, adaptiveGlitch := glitch } := by
  unfold updatePolicy
  dsimp only
  split
  · exact ⟨self.adaptiveSlowLink, self.adaptiveGlitch, rfl⟩
  · obtain ⟨slowLink, hslow⟩ := updateSlowLink_eq self frameIntervalMs
    obtain ⟨glitch, hglitch⟩ := updateGlitch_eq (self.updateSlowLink frameIntervalMs) nowMs
    exact ⟨slowLink, glitch, by rw [hglitch, hslow]⟩

/-! ### What is displayed -/

theorem display_of_not_displaying (h : self.displayingPrediction = false) (authoritative : T) :
    self.display authoritative = authoritative := by
  rw [display, h]
  rfl

theorem display_clear (h : self.clear.1 = false) (authoritative : T) :
    self.clear.2.display authoritative = self.display authoritative := by
  rw [display_of_not_displaying h, display_of_not_displaying]
  simp [clear, displayingPrediction]

/-- An input that `observe_input` does not report changes nothing that is displayed. -/
theorem wp_observeInput_display (clientState : Nat) (bytes : Bytes) (screen : T) (nowMs : Nat) (self : LocalPrediction T) :
    wp (observeInput terminal clientState bytes screen nowMs)
      (fun displayed next => displayed = false → ∀ authoritative, next.display authoritative = self.display authoritative)
      (fun _ _ => True) self := by
  have hcases := inputs_observeInput terminal clientState bytes screen nowMs self
  refine wp_intro (fun displayed next hok hdisplayed authoritative => ?_) fun _ _ _ => trivial
  rw [hok] at hcases
  -- A longer queue is displayed if the shorter one was.
  have hgrown : ∀ next : LocalPrediction T, next.displayingPrediction = false → next.mode = self.mode →
      next.confidence = self.confidence → next.adaptiveSlowLink = self.adaptiveSlowLink →
      next.adaptiveGlitch = self.adaptiveGlitch → next.pending ≠ [] →
      next.display authoritative = self.display authoritative := by
    intro next hhidden hmode hconfidence hslow hglitch hpending
    rw [display_of_not_displaying hhidden, display_of_not_displaying]
    rw [Bool.eq_false_iff, ne_eq, displayingPrediction_iff] at hhidden ⊢
    rw [hmode, hconfidence, hslow, hglitch] at hhidden
    exact fun h => hhidden ⟨h.1, hpending, h.2.2⟩
  cases hcases with
  | never => rfl
  | cleared => exact display_clear hdisplayed authoritative
  | started byte projected _ _ _ _ _ hnext =>
    subst hnext
    exact hgrown _ hdisplayed rfl rfl rfl rfl (List.cons_ne_nil _ _)
  | appended byte before projected _ _ _ _ _ _ hnext =>
    subst hnext
    exact hgrown _ hdisplayed rfl rfl rfl rfl (by simp)

theorem display_expire {nowMs : Nat} (h : (self.expire nowMs).1 = false) (authoritative : T) :
    (self.expire nowMs).2.display authoritative = self.display authoritative := by
  unfold expire at h ⊢
  split at h
  · rw [if_pos ‹_›]
    exact display_clear h authoritative
  · rw [if_neg ‹_›]

/-- A policy that does not report a change leaves what is displayed. -/
theorem display_updatePolicy {nowMs : Nat} {frameIntervalMs : Option Nat}
    (h : (self.updatePolicy nowMs frameIntervalMs).1 = false) (authoritative : T) :
    (self.updatePolicy nowMs frameIntervalMs).2.display authoritative = self.display authoritative := by
  have hsame : (self.updatePolicy nowMs frameIntervalMs).2.displayingPrediction = self.displayingPrediction := by
    unfold updatePolicy at h ⊢
    dsimp only at h ⊢
    split at h
    · rw [if_pos ‹_›]
    · rw [if_neg ‹_›]
      exact (bne_eq_false_iff_eq.mp h).symm
  obtain ⟨slowLink, glitch, heq⟩ := updatePolicy_eq self nowMs frameIntervalMs
  unfold display
  rw [hsame, heq]

/-! ### The queue of predictions -/

variable {mode : PredictionMode} {calls : List (PredictionCall T)} {call : PredictionCall T}

theorem after_append (calls : List (PredictionCall T)) (call : PredictionCall T) :
    after terminal mode (calls ++ [call]) = exec (call.invoke terminal) (after terminal mode calls) := by
  rw [after, List.foldl_append]
  rfl

/-- The pending predictions were made by inputs among the calls, in their order. -/
structure Queued (calls : List (PredictionCall T)) (s : LocalPrediction T) : Prop where
  clientStates : (s.pending.map PendingPrediction.clientState).Sublist (calls.filterMap PredictionCall.clientState?)
  times : (s.pending.map PendingPrediction.createdAtMs).Sublist (calls.filterMap PredictionCall.nowMs?)
  never : s.mode = .never → s.pending = []

theorem Queued.sublist {next : LocalPrediction T} (hs : Queued calls self) (hmode : next.mode = self.mode)
    (h : next.pending.Sublist self.pending) : Queued (calls ++ [call]) next := by
  refine ⟨?_, ?_, fun hnever => ?_⟩
  · rw [List.filterMap_append]
    exact ((h.map _).trans hs.clientStates).trans (List.sublist_append_left _ _)
  · rw [List.filterMap_append]
    exact ((h.map _).trans hs.times).trans (List.sublist_append_left _ _)
  · rw [hs.never (hmode ▸ hnever)] at h
    exact List.sublist_nil.mp h

theorem Queued.append {next : LocalPrediction T} {clientState nowMs : Nat} {bytes : Bytes} {screen : T} {byte : UInt8}
    (hs : Queued calls self) (hmode : next.mode ≠ .never)
    (h : next.pending = self.pending ++ [⟨clientState, nowMs, byte⟩]) :
    Queued (calls ++ [.input clientState bytes screen nowMs]) next := by
  refine ⟨?_, ?_, fun hnever => absurd hnever hmode⟩
  · rw [h, List.map_append, List.filterMap_append]
    exact hs.clientStates.append (List.Sublist.refl _)
  · rw [h, List.map_append, List.filterMap_append]
    exact hs.times.append (List.Sublist.refl _)

theorem Queued.invoke (hs : Queued calls self) (call : PredictionCall T) :
    Queued (calls ++ [call]) (exec (call.invoke terminal) self) := by
  have hclear : Queued (calls ++ [call]) self.clear.2 := hs.sublist rfl (List.nil_sublist _)
  refine exec_of_wp ?_
  cases call with
  | input clientState bytes screen nowMs =>
    have hcases := inputs_observeInput terminal clientState bytes screen nowMs self
    simp only [PredictionCall.invoke, wp_bind, wp_pure]
    refine wp_intro (fun displayed next hok => ?_) fun e next herror => ?_
    · rw [hok] at hcases
      cases hcases with
      | never => exact hs.sublist rfl (List.Sublist.refl _)
      | cleared => exact hclear
      | started byte projected _ hmode _ hempty _ hnext =>
        subst hnext
        exact hs.append hmode (by rw [hempty]; rfl)
      | appended byte before projected _ hmode _ _ _ _ hnext =>
        subst hnext
        exact hs.append hmode rfl
    · rw [herror] at hcases
      cases hcases <;> exact hs.sublist rfl (List.Sublist.refl _)
  | authoritative screen =>
    have hcases := observes_observeAuthoritative terminal screen self
    refine wp_intro (fun _ next hok => ?_) fun e next herror => ?_
    · rw [show observeAuthoritative terminal screen self = _ from hok] at hcases
      cases hcases with
      | idle => exact hs.sublist rfl (List.Sublist.refl _)
      | diverged => exact hclear
      | unacknowledged => exact hs.sublist rfl (List.Sublist.refl _)
      | drained => exact hs.sublist rfl (List.nil_sublist _)
      | rebased count => exact hs.sublist rfl (List.drop_sublist count _)
    · rw [show observeAuthoritative terminal screen self = _ from herror] at hcases
      cases hcases with
      | failed => exact hs.sublist rfl (List.Sublist.refl _)
      | unprojected count => exact hs.sublist rfl (List.drop_sublist count _)
  | expire nowMs =>
    show Queued _ (self.expire nowMs).2
    rcases expire_cases self nowMs with h | ⟨h, -⟩
    · rw [h]
      exact hclear
    · rw [h]
      exact hs.sublist rfl (List.Sublist.refl _)
  | updatePolicy nowMs frameIntervalMs =>
    show Queued _ (self.updatePolicy nowMs frameIntervalMs).2
    obtain ⟨slowLink, glitch, h⟩ := updatePolicy_eq self nowMs frameIntervalMs
    rw [h]
    exact hs.sublist rfl (List.Sublist.refl _)
  | reset => exact hclear

theorem queued_after (terminal : Terminal T) (mode : PredictionMode) (calls : List (PredictionCall T)) :
    Queued calls (after terminal mode calls) := by
  induction calls using List.reverseRecOn with
  | nil => exact ⟨List.nil_sublist _, List.nil_sublist _, fun _ => rfl⟩
  | append_singleton calls call ih =>
    rw [after_append]
    exact ih.invoke call

/-! ### Anchored predictions -/

/-- The predictions go on from a base, and the authoritative state looks like the base with some of them. -/
structure Anchored (terminal : Terminal T) (authoritative : T) (s : LocalPrediction T) : Prop where
  base_none : s.base = none ↔ s.pending = []
  projected_none : s.projected = none ↔ s.pending = []
  length_le : s.pending.length ≤ 32
  projects : ∀ base, s.base = some base →
    ∃ projected, s.projected = some projected ∧ project terminal base s.pending = .ok projected
  matched : ∀ base, s.base = some base → ∃ count, Matches terminal base s.pending authoritative count

theorem anchored_of_empty {authoritative : T} (hpending : self.pending = []) (hbase : self.base = none)
    (hprojected : self.projected = none) : Anchored terminal authoritative self where
  base_none := iff_of_true hbase hpending
  projected_none := iff_of_true hprojected hpending
  length_le := hpending ▸ Nat.zero_le _
  projects base h := by
    rw [hbase] at h
    cases h
  matched base h := by
    rw [hbase] at h
    cases h

theorem project_append {start expected : T} {pending : List PendingPrediction}
    (h : project terminal start pending = .ok expected) (rest : List PendingPrediction) :
    project terminal start (pending ++ rest) = project terminal expected rest := by
  induction pending generalizing start with
  | nil =>
    cases h
    rfl
  | cons prediction pending ih =>
    rw [project] at h
    split at h
    · cases h
    · rename_i next happlies
      rw [List.cons_append, project_of_take happlies]
      exact ih h

theorem Matches.append {base authoritative : T} {pending : List PendingPrediction} {count : Nat}
    (h : Matches terminal base pending authoritative count) (rest : List PendingPrediction) :
    Matches terminal base (pending ++ rest) authoritative count := by
  obtain ⟨hle, expected, hproject, hequivalent⟩ := h
  refine ⟨hle.trans (by rw [List.length_append]; omega), expected, ?_, hequivalent⟩
  rw [List.take_append_of_le_length hle]
  exact hproject

section Formatted
variable {terminal : FormattedTerminal T} {authoritative : T}

theorem matches_zero (terminal : FormattedTerminal T) (authoritative : T) (pending : List PendingPrediction) :
    Matches terminal.toTerminal authoritative pending authoritative 0 := by
  refine ⟨Nat.zero_le _, authoritative, rfl, ?_⟩
  rw [terminal.displayEquivalent_eq]
  exact beq_self_eq_true _

/-- An input keeps the anchor, and fails only because the terminal does. -/
theorem Anchored.observeInput (hs : Anchored terminal.toTerminal authoritative self) (clientState : Nat) (bytes : Bytes)
    (nowMs : Nat) :
    wp (observeInput terminal.toTerminal clientState bytes authoritative nowMs)
      (fun _ next => Anchored terminal.toTerminal authoritative next) (fun e _ => ∃ e', e = .terminal e') self := by
  have hcases := inputs_observeInput terminal.toTerminal clientState bytes authoritative nowMs self
  refine wp_intro (fun displayed next hok => ?_) fun e next herror => ?_
  · rw [hok] at hcases
    cases hcases with
    | never => exact hs
    | cleared => exact anchored_of_empty rfl rfl rfl
    | started byte projected _ _ _ _ happlies hnext =>
      subst hnext
      have hproject : project terminal.toTerminal authoritative [⟨clientState, nowMs, byte⟩] = .ok projected := by
        rw [project_of_take happlies, project]
      refine ⟨by simp, by simp, Nat.succ_le_succ (Nat.zero_le _), fun base hbase => ?_, fun base hbase => ?_⟩
      · cases hbase
        exact ⟨projected, rfl, hproject⟩
      · cases hbase
        exact ⟨0, matches_zero terminal authoritative _⟩
    | appended byte before projected _ _ hends hpending hbefore happlies hnext =>
      subst hnext
      obtain ⟨base, hbase⟩ := Option.ne_none_iff_exists'.mp (mt hs.base_none.mp hpending)
      have hlength : self.pending.length ≠ 32 := fun h => hends (Or.inr (Or.inl h))
      have hle := hs.length_le
      refine ⟨by simp [hbase], by simp, by rw [List.length_append]; simp only [List.length_singleton]; omega,
        fun base' hbase' => ?_, fun base' hbase' => ?_⟩
      · obtain ⟨projected', hprojected', hproject⟩ := hs.projects base' hbase'
        obtain rfl : before = projected' := Option.some.inj (hbefore.symm.trans hprojected')
        refine ⟨projected, rfl, ?_⟩
        rw [project_append hproject, project_of_take happlies, project]
      · obtain ⟨count, hmatches⟩ := hs.matched base' hbase'
        exact ⟨count, hmatches.append _⟩
  · rw [herror] at hcases
    cases hcases with
    | unstarted e => exact ⟨e, rfl⟩
    | failed e hends hpending hmissing =>
      exact hmissing.resolve_right fun hnone => hpending (hs.projected_none.mp hnone)

theorem longestMatchingPrefix_error {e : PredictionError} (hbase : self.base ≠ none)
    (h : longestMatchingPrefix terminal.toTerminal self authoritative = .error e) : ∃ e', e = .terminal e' := by
  unfold longestMatchingPrefix at h
  split at h
  · exact absurd ‹_› hbase
  · rename_i base _
    cases hmatch : matchPrefix terminal.toTerminal authoritative self.pending 0 base
        (if terminal.displayEquivalent base authoritative then some 0 else none) with
    | error e' =>
      rw [hmatch] at h
      cases h
      exact ⟨e', rfl⟩
    | ok matched =>
      rw [hmatch] at h
      cases h

/-- A new authoritative state becomes the anchor or clears the predictions, and fails only because the terminal
    does. -/
theorem Anchored.observeAuthoritative (hs : Anchored terminal.toTerminal authoritative self)
    (hnever : self.mode = .never → self.pending = []) (screen : T) :
    wp (observeAuthoritative terminal.toTerminal screen)
      (fun _ next => Anchored terminal.toTerminal screen next) (fun e _ => ∃ e', e = .terminal e') self := by
  have hcases := observes_observeAuthoritative terminal.toTerminal screen self
  refine wp_intro (fun _ next hok => ?_) fun e next herror => ?_
  · rw [hok] at hcases
    cases hcases with
    | idle hidle =>
      have hempty : self.pending = [] := hidle.elim hnever id
      exact anchored_of_empty hempty (hs.base_none.mpr hempty) (hs.projected_none.mpr hempty)
    | diverged => exact anchored_of_empty rfl rfl rfl
    | unacknowledged count hmode hpending hmatch =>
      -- The base stays; that the new state looks like some prefix has just been checked.
      obtain ⟨base, hbase, hmatches⟩ := matches_of_longestMatchingPrefix hmatch
      refine ⟨hs.base_none, hs.projected_none, hs.length_le, hs.projects, fun base' hbase' => ?_⟩
      obtain rfl : base = base' := Option.some.inj (hbase.symm.trans hbase')
      exact ⟨count, hmatches⟩
    | drained => exact anchored_of_empty rfl rfl rfl
    | rebased count projected hmode hconfirms hrest hprojects =>
      refine ⟨by simp [hrest], by simp [hrest], ?_, fun base hbase => ?_, fun base hbase => ?_⟩
      · exact (List.drop_sublist count self.pending).length_le.trans hs.length_le
      · cases hbase
        exact ⟨projected, rfl, hprojects⟩
      · cases hbase
        exact ⟨0, matches_zero terminal screen _⟩
  · rw [herror] at hcases
    cases hcases with
    | failed e _ hpending hmatch => exact longestMatchingPrefix_error (mt hs.base_none.mp hpending) hmatch
    | unprojected count e => exact ⟨e, rfl⟩

theorem authority_append (initial : T) (calls : List (PredictionCall T)) (call : PredictionCall T) :
    authority initial (calls ++ [call]) = authority (authority initial calls) [call] := List.foldl_append

/-- Each call of a run keeps the anchor. -/
theorem Anchored.invoke {initial : T} (hs : Anchored terminal.toTerminal (authority initial calls) self)
    (hnever : self.mode = .never → self.pending = [])
    (hcurrent : ∀ clientState bytes screen nowMs, call = .input clientState bytes screen nowMs →
      screen = authority initial calls) :
    wp (call.invoke terminal.toTerminal) (fun _ next => Anchored terminal.toTerminal (authority initial (calls ++ [call])) next)
      (fun e _ => ∃ e', e = .terminal e') self := by
  rw [authority_append]
  cases call with
  | input clientState bytes screen nowMs =>
    obtain rfl := hcurrent clientState bytes screen nowMs rfl
    simp only [PredictionCall.invoke, wp_bind, wp_pure]
    exact hs.observeInput clientState bytes nowMs
  | authoritative screen =>
    exact hs.observeAuthoritative hnever screen
  | expire nowMs =>
    show Anchored _ _ (self.expire nowMs).2
    rcases expire_cases self nowMs with h | ⟨h, -⟩
    · rw [h]
      exact anchored_of_empty rfl rfl rfl
    · rw [h]
      exact hs
  | updatePolicy nowMs frameIntervalMs =>
    show Anchored _ _ (self.updatePolicy nowMs frameIntervalMs).2
    obtain ⟨slowLink, glitch, h⟩ := updatePolicy_eq self nowMs frameIntervalMs
    rw [h]
    exact ⟨hs.base_none, hs.projected_none, hs.length_le, hs.projects, hs.matched⟩
  | reset => exact anchored_of_empty rfl rfl rfl

theorem Driven.init {initial : T} (h : Driven terminal.toTerminal mode initial (calls ++ [call])) :
    Driven terminal.toTerminal mode initial calls := by
  obtain ⟨htimed, hincreasing, hcurrent, happlies⟩ := h
  rw [Timed, List.filterMap_append] at htimed
  rw [List.filterMap_append] at hincreasing
  refine ⟨htimed.sublist (List.sublist_append_left _ _), hincreasing.sublist (List.sublist_append_left _ _), ?_, ?_⟩
  · intro before clientState bytes screen nowMs rest hcalls
    exact hcurrent before clientState bytes screen nowMs (rest ++ [call]) (by simp [hcalls])
  · intro before call' rest hcalls
    exact happlies before call' (rest ++ [call]) (by simp [hcalls])

theorem anchored_after {initial : T} (h : Driven terminal.toTerminal mode initial calls) :
    Anchored terminal.toTerminal (authority initial calls) (after terminal.toTerminal mode calls) := by
  induction calls using List.reverseRecOn with
  | nil => exact anchored_of_empty rfl rfl rfl
  | append_singleton calls call ih =>
    rw [after_append]
    have hcurrent : ∀ clientState bytes screen nowMs, call = .input clientState bytes screen nowMs →
        screen = authority initial calls := by
      intro clientState bytes screen nowMs hcall
      exact h.current calls clientState bytes screen nowMs [] (by rw [hcall])
    have hnever := (queued_after terminal.toTerminal mode calls).never
    refine exec_of_wp (((ih h.init).invoke hnever hcurrent).and (h.applies calls call [] rfl) |>.mono (fun _ _ hs => hs.1) ?_)
    intro e _ he
    obtain ⟨⟨e', rfl⟩, hne⟩ := he
    exact absurd rfl (hne e')

/-- What holds of a prediction that the driver runs, after every call. -/
structure Keeps (terminal : Terminal T) (authoritative : T) (s : LocalPrediction T) : Prop extends
    Anchored terminal authoritative s where
  increasing : (s.pending.map PendingPrediction.clientState).Pairwise (· < ·)
  nondecreasing : (s.pending.map PendingPrediction.createdAtMs).Pairwise (· ≤ ·)
  never : s.mode = .never → s.pending = []
  /-- What is displayed is the authoritative state, or the base with every prediction, of which the
      authoritative state already shows some. -/
  displays : s.display authoritative = authoritative ∨ ∃ base count,
    s.base = some base ∧ project terminal base s.pending = .ok (s.display authoritative) ∧
      Matches terminal base s.pending authoritative count

theorem Anchored.displays {terminal : Terminal T} (hs : Anchored terminal authoritative self) :
    self.display authoritative = authoritative ∨ ∃ base count,
      self.base = some base ∧ project terminal base self.pending = .ok (self.display authoritative) ∧
        Matches terminal base self.pending authoritative count := by
  cases hbase : self.base with
  | none =>
    have hempty := hs.base_none.mp hbase
    refine Or.inl (display_of_not_displaying ?_ authoritative)
    rw [Bool.eq_false_iff, ne_eq, displayingPrediction_iff]
    exact fun h => h.2.1 hempty
  | some base =>
    obtain ⟨projected, hprojected, hproject⟩ := hs.projects base hbase
    obtain ⟨count, hmatches⟩ := hs.matched base hbase
    cases hdisplaying : self.displayingPrediction with
    | false => exact Or.inl (display_of_not_displaying hdisplaying authoritative)
    | true =>
      refine Or.inr ⟨base, count, rfl, ?_, hmatches⟩
      rw [display, hdisplaying, hprojected]
      exact hproject

/-- In every run as the driver makes it, the predictions stay anchored to the authoritative state. -/
theorem predictions_anchored (terminal : FormattedTerminal T) (run : DrivenRun terminal.toTerminal) :
    Keeps terminal.toTerminal (authority run.initial run.calls) (after terminal.toTerminal run.mode run.calls) := by
  have hs := anchored_after run.driven
  have hqueued := queued_after terminal.toTerminal run.mode run.calls
  exact ⟨hs, run.driven.increasing.sublist hqueued.clientStates, List.Pairwise.sublist hqueued.times run.driven.timed,
    hqueued.never, hs.displays⟩

end Formatted

/-! ### Confirmation and limits -/

/-- A prediction is displayed only after a confirmation, and no call has cleared the predictions since. -/
def ConfirmedSince (terminal : Terminal T) (mode : PredictionMode) (calls : List (PredictionCall T)) : Prop :=
  ∃ before screen rest, calls = before ++ .authoritative screen :: rest ∧
    Confirms terminal (after terminal mode before) screen ∧
    ∀ earlier call later, rest = earlier ++ call :: later →
      ¬Clears terminal (after terminal mode (before ++ .authoritative screen :: earlier)) call

/-- The confidence after a call was there before and has not been cleared, or the call confirms. -/
def Vouched (terminal : Terminal T) (self : LocalPrediction T) (call : PredictionCall T) (next : LocalPrediction T) : Prop :=
  next.confidence = .confirmed →
    (self.confidence = .confirmed ∧ ¬self.Clears terminal call) ∨
      ∃ screen, call = .authoritative screen ∧ Confirms terminal self screen

theorem vouched_observeInput (terminal : Terminal T) (clientState : Nat) (bytes : Bytes) (screen : T) (nowMs : Nat)
    (self : LocalPrediction T) :
    wp (observeInput terminal clientState bytes screen nowMs)
      (fun _ next => Vouched terminal self (.input clientState bytes screen nowMs) next)
      (fun _ next => Vouched terminal self (.input clientState bytes screen nowMs) next) self := by
  have hcases := inputs_observeInput terminal clientState bytes screen nowMs self
  refine wp_intro (fun displayed next hok hconfirmed => ?_) fun e next herror hconfirmed => ?_
  · rw [hok] at hcases
    cases hcases with
    | never hmode => exact Or.inl ⟨hconfirmed, fun h => h.1 hmode⟩
    | cleared => cases hconfirmed
    | started byte projected _ _ hends _ _ hnext =>
      subst hnext
      exact Or.inl ⟨hconfirmed, fun h => hends h.2⟩
    | appended byte before projected _ _ hends _ _ _ hnext =>
      subst hnext
      exact Or.inl ⟨hconfirmed, fun h => hends h.2⟩
  · rw [herror] at hcases
    cases hcases with
    | unstarted e hends => exact Or.inl ⟨hconfirmed, fun h => hends h.2⟩
    | failed e hends => exact Or.inl ⟨hconfirmed, fun h => hends h.2⟩

theorem vouched_observeAuthoritative (terminal : Terminal T) (screen : T) (self : LocalPrediction T) :
    wp (observeAuthoritative terminal screen) (fun _ next => Vouched terminal self (.authoritative screen) next)
      (fun _ next => Vouched terminal self (.authoritative screen) next) self := by
  have hcases := observes_observeAuthoritative terminal screen self
  refine wp_intro (fun _ next hok hconfirmed => ?_) fun e next herror hconfirmed => ?_
  · rw [hok] at hcases
    cases hcases with
    | idle hidle => exact Or.inl ⟨hconfirmed, fun h => hidle.elim h.1 h.2.1⟩
    | diverged => cases hconfirmed
    | unacknowledged count hmode hpending hmatch hack =>
      refine Or.inl ⟨hconfirmed, fun h => ?_⟩
      rcases h.2.2 with hnone | ⟨count', -, hlt⟩
      · rw [hmatch] at hnone
        cases hnone
      · rw [hack] at hlt
        exact Nat.not_lt_zero _ hlt
    | drained _ hconfirms => exact Or.inr ⟨screen, rfl, hconfirms⟩
    | rebased _ _ _ hconfirms => exact Or.inr ⟨screen, rfl, hconfirms⟩
  · rw [herror] at hcases
    cases hcases with
    | failed e hmode hpending hmatch =>
      refine Or.inl ⟨hconfirmed, fun h => ?_⟩
      rcases h.2.2 with hnone | ⟨count', hsome, -⟩
      · rw [hmatch] at hnone
        cases hnone
      · rw [hmatch] at hsome
        cases hsome
    | unprojected count e _ hconfirms => exact Or.inr ⟨screen, rfl, hconfirms⟩

theorem vouched_expire (terminal : Terminal T) (nowMs : Nat) (self : LocalPrediction T) :
    Vouched terminal self (.expire nowMs) (self.expire nowMs).2 := by
  intro hconfirmed
  rcases expire_cases self nowMs with h | ⟨h, hlive⟩
  · rw [h] at hconfirmed
    cases hconfirmed
  · rw [h] at hconfirmed
    refine Or.inl ⟨hconfirmed, fun hclears => ?_⟩
    obtain ⟨deadline, hdeadline, hle⟩ := hclears
    exact Nat.not_lt_of_le hle (hlive deadline hdeadline)

theorem vouched_updatePolicy (terminal : Terminal T) (nowMs : Nat) (frameIntervalMs : Option Nat) (self : LocalPrediction T) :
    Vouched terminal self (.updatePolicy nowMs frameIntervalMs) (self.updatePolicy nowMs frameIntervalMs).2 := by
  obtain ⟨slowLink, glitch, h⟩ := updatePolicy_eq self nowMs frameIntervalMs
  rw [h]
  exact fun hconfirmed => Or.inl ⟨hconfirmed, fun hclears => hclears⟩

theorem vouched_invoke (terminal : Terminal T) (call : PredictionCall T) (self : LocalPrediction T) :
    wp (call.invoke terminal) (fun _ next => Vouched terminal self call next)
      (fun _ next => Vouched terminal self call next) self := by
  cases call with
  | input clientState bytes screen nowMs =>
    simp only [PredictionCall.invoke, wp_bind, wp_pure]
    exact vouched_observeInput terminal clientState bytes screen nowMs self
  | authoritative screen => exact vouched_observeAuthoritative terminal screen self
  | expire nowMs => exact vouched_expire terminal nowMs self
  | updatePolicy nowMs frameIntervalMs => exact vouched_updatePolicy terminal nowMs frameIntervalMs self
  | reset => exact fun hconfirmed => by cases hconfirmed

theorem confirmedSince_after (h : (after terminal mode calls).confidence = .confirmed) :
    ConfirmedSince terminal mode calls := by
  induction calls using List.reverseRecOn with
  | nil => cases h
  | append_singleton calls call ih =>
    rw [after_append] at h
    rcases exec_of_wp (vouched_invoke terminal call (after terminal mode calls)) h with
      ⟨hconfirmed, hkept⟩ | ⟨screen, rfl, hconfirms⟩
    · obtain ⟨before, screen, rest, rfl, hconfirms, hrest⟩ := ih hconfirmed
      refine ⟨before, screen, rest ++ [call], by simp, hconfirms, fun earlier call' later hsplit => ?_⟩
      -- The last call is the new one, or the split is one of the calls before.
      rcases List.eq_nil_or_concat later with rfl | ⟨later, last, rfl⟩
      · obtain ⟨rfl, hcall⟩ := List.append_inj' hsplit rfl
        cases hcall
        exact hkept
      · rw [List.concat_eq_append, ← List.cons_append, ← List.append_assoc] at hsplit
        exact hrest earlier call' later (List.append_inj' hsplit rfl).1
    · exact ⟨calls, screen, [], rfl, hconfirms, fun earlier call later hsplit => by simp at hsplit⟩

/-- What is displayed stays displayed under the policy. -/
theorem displaying_updatePolicy (nowMs : Nat) (frameIntervalMs : Option Nat) (h : self.displayingPrediction = true) :
    (self.updatePolicy nowMs frameIntervalMs).2.displayingPrediction = true := by
  have hslow : (self.updateSlowLink frameIntervalMs) = self ∨
      self.updateSlowLink frameIntervalMs = { self with adaptiveSlowLink := true } := by
    unfold updateSlowLink
    split
    · exact Or.inl rfl
    · split
      · exact Or.inr rfl
      · rw [if_neg (fun hdisable => hdisable.2 h)]
        exact Or.inl rfl
  have hraised : (self.updateSlowLink frameIntervalMs).displayingPrediction = true := by
    rcases hslow with hslow | hslow
    · rw [hslow]
      exact h
    · rw [hslow]
      rw [displayingPrediction_iff] at h ⊢
      exact ⟨h.1, h.2.1, h.2.2.imp_right fun hmode => ⟨hmode.1, Or.inl rfl⟩⟩
  unfold updatePolicy
  dsimp only
  split
  · exact h
  · unfold updateGlitch
    rw [displayingPrediction_iff] at hraised
    split
    · exact absurd (List.isEmpty_iff.mp ‹_›) hraised.2.1
    · split
      · rw [displayingPrediction_iff]
        exact ⟨hraised.1, hraised.2.1, hraised.2.2.imp_right fun hmode => ⟨hmode.1, Or.inr rfl⟩⟩
      · exact displayingPrediction_iff.mpr hraised

/-- What `expire` leaves is not older than the oldest prediction, which is not too old. -/
theorem live_expire {calls : List (PredictionCall T)} (hs : Queued calls self) (htimed : Timed calls) {nowMs : Nat} :
    ∀ prediction ∈ (self.expire nowMs).2.pending, nowMs < prediction.createdAtMs + 10000 := by
  rcases expire_cases self nowMs with h | ⟨h, hlive⟩
  · rw [h]
    exact fun _ hmem => absurd hmem List.not_mem_nil
  · rw [h]
    have hsorted : (self.pending.map PendingPrediction.createdAtMs).Pairwise (· ≤ ·) := List.Pairwise.sublist hs.times htimed
    intro prediction hmem
    cases hpending : self.pending with
    | nil =>
      rw [hpending] at hmem
      exact absurd hmem List.not_mem_nil
    | cons oldest rest =>
      have hmode : self.mode ≠ .never := by
        intro hnever
        rw [hs.never hnever] at hpending
        cases hpending
      have holdest : nowMs < saturatingAdd oldest.createdAtMs maxPredictionAgeMs := by
        refine hlive _ ?_
        rw [expirationDeadlineMs, if_neg hmode, hpending]
        rfl
      have hle : oldest.createdAtMs ≤ prediction.createdAtMs := by
        rw [hpending, List.map_cons, List.pairwise_cons] at hsorted
        rw [hpending] at hmem
        rcases List.mem_cons.mp hmem with rfl | hrest
        · exact Nat.le_refl _
        · exact hsorted.1 _ (List.mem_map_of_mem hrest)
      have hdeadline : saturatingAdd oldest.createdAtMs maxPredictionAgeMs ≤ oldest.createdAtMs + 10000 :=
        Nat.min_le_left _ _
      omega

/-- What is displayed is confirmed, and goes away only by a clear; what is pending is not too old. -/
structure WithinLimits (terminal : Terminal T) (mode : PredictionMode) (calls : List (PredictionCall T)) : Prop where
  confirmed : (after terminal mode calls).displayingPrediction = true → ConfirmedSince terminal mode calls
  policy : ∀ nowMs frameIntervalMs, (after terminal mode calls).displayingPrediction = true →
    ((after terminal mode calls).updatePolicy nowMs frameIntervalMs).2.displayingPrediction = true
  expired : ∀ before nowMs rest, calls = before ++ .expire nowMs :: rest →
    ∀ prediction ∈ (after terminal mode (before ++ [.expire nowMs])).pending, nowMs < prediction.createdAtMs + 10000

/-- In every run at times that do not decrease, no prediction is displayed before a confirmation, or for too
    long. -/
theorem predictions_within_limits (terminal : Terminal T) (mode : PredictionMode) (run : TimedRun T) :
    WithinLimits terminal mode run.calls where
  confirmed h := confirmedSince_after (displayingPrediction_iff.mp h).1
  policy nowMs frameIntervalMs := displaying_updatePolicy nowMs frameIntervalMs
  expired before nowMs rest hcalls := by
    have htimed : Timed before := by
      have htimed := run.timed
      rw [hcalls, Timed, List.filterMap_append] at htimed
      exact htimed.sublist (List.sublist_append_left _ _)
    rw [after_append]
    exact live_expire (queued_after terminal mode before) htimed

end LocalPrediction
end MoshClient
