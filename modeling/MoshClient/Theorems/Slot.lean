import MoshClient.Theorems.Reassembly

/-! The slot of the reassembler under any fragments, also those of a peer that contradicts itself. What it
    retains stays within the limits and agrees with itself, a fragment that is refused leaves the slot as
    expiry leaves it, and one that contradicts the slot empties it. -/

namespace MoshClient
open Effect Limits Machine

namespace IncompleteInstruction

/-- An incomplete instruction within its limits that agrees with itself. -/
structure Consistent (i : IncompleteInstruction) : Prop where
  bytes : i.storedBytes = (i.fragments.values.map fun f => f.body.length).sum
  bytes_le : i.storedBytes ≤ maxCompressedInstructionBytes
  number_lt : ∀ number f, i.fragments.get? number = some f → number < maxFragmentsPerInstruction
  final_iff : ∀ number, i.finalNumber = some number ↔ ∃ f, i.fragments.get? number = some f ∧ f.isFinal = true
  final_last : ∀ final, i.finalNumber = some final → ∀ number f, i.fragments.get? number = some f → number ≤ final
  incomplete : i.isComplete = false

variable {i : IncompleteInstruction} {fragment : Fragment}

/-- At most one fragment is marked as the final one. -/
theorem Consistent.final_unique (h : Consistent i) {number number' : Nat} {f f' : StoredFragment}
    (hf : i.fragments.get? number = some f) (hfinal : f.isFinal = true)
    (hf' : i.fragments.get? number' = some f') (hfinal' : f'.isFinal = true) : number = number' := by
  have h₁ := (h.final_iff number).mpr ⟨f, hf, hfinal⟩
  have h₂ := (h.final_iff number').mpr ⟨f', hf', hfinal'⟩
  exact Option.some.inj (h₁.symm.trans h₂)

/-- A fragment that joins the others agrees with what is known of the final one. -/
structure Joins (i : IncompleteInstruction) (fragment : Fragment) : Prop where
  new : i.fragments.get? fragment.number = none
  before_final : ∀ final, i.finalNumber = some final → fragment.number ≤ final
  no_final : fragment.isFinal = true → i.finalNumber = none
  after_all : fragment.isFinal = true → ∀ number f, i.fragments.get? number = some f → number ≤ fragment.number

theorem joins_of_classify (h : i.classify fragment = .ok .new) : Joins i fragment := by
  unfold classify at h
  cases hget : i.fragments.get? fragment.number with
  | some existing =>
    rw [hget] at h
    simp only at h
    split at h <;> cases h
  | none =>
    rw [hget] at h
    simp only at h
    split at h
    · cases h
    · rename_i hconflict
      simp only [conflicts, Bool.or_eq_true, Bool.and_eq_true, not_or, not_and, Bool.not_eq_true] at hconflict
      obtain ⟨hafter, hfinal⟩ := hconflict
      refine ⟨hget, fun final hfin => ?_, fun hmarked => ?_, fun hmarked number f hf => ?_⟩
      · simpa [hfin] using hafter
      · simpa using (hfinal hmarked).1
      · cases hlast : i.fragments.keys.getLast? with
        | none =>
          have hmem := OrderedMap.mem_keys.mpr ⟨f, hf⟩
          rw [List.getLast?_eq_none_iff.mp hlast] at hmem
          cases hmem
        | some last =>
          have hle := (hfinal hmarked).2
          simp only [hlast, Option.any_some, decide_eq_false_iff_not, Nat.not_lt] at hle
          exact (OrderedMap.le_last hlast (OrderedMap.mem_keys.mpr ⟨f, hf⟩)).trans hle

theorem joins_new (identifier nowMs : Nat) (fragment : Fragment) : Joins (new identifier nowMs) fragment :=
  ⟨rfl, fun _ h => (by cases h), fun _ => rfl, fun _ _ _ h => (by cases h)⟩

theorem consistent_new (identifier nowMs : Nat) : Consistent (new identifier nowMs) where
  bytes := rfl
  bytes_le := Nat.zero_le _
  number_lt _ _ h := by cases h
  final_iff _ := ⟨fun h => (by cases h), fun ⟨_, h, _⟩ => (by cases h)⟩
  final_last _ h := by cases h
  incomplete := rfl

theorem Consistent.final_iff_insert (h : Consistent i) (hjoins : Joins i fragment) (number : Nat) :
    (i.insert fragment).finalNumber = some number ↔
      ∃ f, (i.insert fragment).fragments.get? number = some f ∧ f.isFinal = true := by
  simp only [IncompleteInstruction.insert, OrderedMap.get?_insert]
  by_cases hmarked : fragment.isFinal = true
  · -- No fragment was marked before.
    have hnone : ∀ f, i.fragments.get? number = some f → f.isFinal ≠ true := fun f hf hfinal => by
      have := (h.final_iff number).mpr ⟨f, hf, hfinal⟩
      rw [hjoins.no_final hmarked] at this
      cases this
    rw [if_pos hmarked, Option.some.injEq]
    constructor
    · intro heq
      exact ⟨_, if_pos heq, hmarked⟩
    · rintro ⟨f, hf, hfinal⟩
      by_contra hne
      rw [if_neg hne] at hf
      exact hnone f hf hfinal
  · rw [if_neg hmarked, h.final_iff number]
    by_cases heq : fragment.number = number
    · rw [← heq, hjoins.new]
      simp [hmarked]
    · rw [if_neg heq]

theorem Consistent.insert (h : Consistent i) (hjoins : Joins i fragment) (hnumber : fragment.number < maxFragmentsPerInstruction)
    (hbytes : i.storedBytes + fragment.body.length ≤ maxCompressedInstructionBytes)
    (hincomplete : (i.insert fragment).isComplete = false) : Consistent (i.insert fragment) where
  bytes := by
    have hsum := ((OrderedMap.values_insert_perm hjoins.new ⟨fragment.body, fragment.isFinal⟩).map
      fun f => f.body.length).sum_nat
    simp only [List.map_cons, List.sum_cons] at hsum
    simp only [IncompleteInstruction.insert]
    rw [hsum, h.bytes, Nat.add_comm]
  bytes_le := hbytes
  number_lt number f hf := by
    simp only [IncompleteInstruction.insert, OrderedMap.get?_insert] at hf
    split at hf
    · rename_i heq
      exact heq ▸ hnumber
    · exact h.number_lt number f hf
  final_iff := h.final_iff_insert hjoins
  final_last final hfinal number f hf := by
    simp only [IncompleteInstruction.insert, OrderedMap.get?_insert] at hfinal hf
    split at hfinal
    · rename_i hmarked
      cases hfinal
      split at hf
      · rename_i heq
        exact Nat.le_of_eq heq.symm
      · exact hjoins.after_all hmarked number f hf
    · split at hf
      · rename_i heq
        exact heq ▸ hjoins.before_final final hfinal
      · exact h.final_last final hfinal number f hf
  incomplete := hincomplete

/-- The first fragment of an instruction does not complete it, unless it is the whole instruction. -/
theorem isComplete_first (identifier nowMs : Nat) (h : ¬(fragment.number = 0 ∧ fragment.isFinal = true)) :
    ((new identifier nowMs).insert fragment).isComplete = false := by
  by_cases hmarked : fragment.isFinal = true
  · have hsize : ((new identifier nowMs).insert fragment).fragments.size = 1 := rfl
    have hnumber : fragment.number ≠ 0 := fun heq => h ⟨heq, hmarked⟩
    simp only [isComplete, hsize]
    simp only [IncompleteInstruction.insert, hmarked, if_true, Bool.and_eq_false_iff, beq_eq_false_iff_ne]
    exact Or.inl (by omega)
  · simp [isComplete, IncompleteInstruction.insert, hmarked, new]

end IncompleteInstruction

namespace FragmentReassembler
open IncompleteInstruction

/-! ### One call -/

/-- What the slot holds is consistent. -/
def Held (r : FragmentReassembler) : Prop := ∀ i, r.incomplete = some i → Consistent i

/-- A fragment that is refused leaves the slot, and one that contradicts it empties it. -/
inductive Refused (r : FragmentReassembler) : ReassemblyError → FragmentReassembler → Prop where
  | outOfRange : Refused r .fragmentNumberOutOfRange r
  | tooLarge : Refused r .instructionTooLarge r
  | occupied : Refused r .tooManyIncompleteInstructions r
  | conflicting : Refused r .conflictingFragment { r with incomplete := none }

variable {r : FragmentReassembler} {nowMs : Nat} {fragment : Fragment}

theorem held_some {i : IncompleteInstruction} (hi : Consistent i) : Held { r with incomplete := some i } := fun _ hj =>
  Option.some.inj hj ▸ hi

theorem held_none : Held { r with incomplete := none } := fun _ h => by cases h

theorem wp_pushUnmatched_held (hr : Held r) (hnumber : fragment.number < maxFragmentsPerInstruction) :
    wp (pushUnmatched nowMs fragment) (fun _ t => Held t) (Refused r) r := by
  unfold wp
  fun_cases pushUnmatched nowMs fragment r with
  | case1 => exact hr
  | case2 => exact .tooLarge
  | case3 => exact .occupied
  | case4 => exact .tooLarge
  | case5 hmulti _ hbytes =>
    refine held_some ((consistent_new fragment.identifier nowMs).insert (joins_new _ _ fragment) hnumber ?_ ?_)
    · exact (Nat.zero_add _).trans_le (Nat.le_of_not_lt hbytes)
    · exact isComplete_first fragment.identifier nowMs hmulti

theorem classify_error {i : IncompleteInstruction} {e : ReassemblyError} (h : i.classify fragment = .error e) :
    e = .conflictingFragment := by
  unfold classify at h
  split at h
  · split at h
    · cases h
    · exact (Except.error.inj h).symm
  · split at h
    · exact (Except.error.inj h).symm
    · cases h

theorem wp_pushMatched_held {i : IncompleteInstruction} (hr : Held r) (hi : r.incomplete = some i)
    (hnumber : fragment.number < maxFragmentsPerInstruction) :
    wp (pushMatched i fragment) (fun _ t => Held t) (Refused r) r := by
  unfold wp
  fun_cases pushMatched i fragment r with
  | case1 e he =>
    rw [classify_error he]
    exact .conflicting
  | case2 => exact hr
  | case3 => exact .tooLarge
  | case4 => exact held_none
  | case5 he hbytes inserted hc =>
    exact held_some ((hr i hi).insert (joins_of_classify he) hnumber (Nat.le_of_not_lt hbytes) (by simpa using hc))

theorem wp_pushDue_held (hr : Held r) : wp (pushDue nowMs fragment) (fun _ t => Held t) (Refused r) r := by
  unfold wp
  fun_cases pushDue nowMs fragment r with
  | case1 => exact .outOfRange
  | case2 hnumber hnone => exact wp_pushUnmatched_held hr (Nat.lt_of_not_le hnumber)
  | case3 hnumber i hi hid => exact wp_pushMatched_held hr hi (Nat.lt_of_not_le hnumber)
  | case4 hnumber i hi hid => exact wp_pushUnmatched_held hr (Nat.lt_of_not_le hnumber)

/-- Expiry leaves the slot or empties it, and fails only on the clock. -/
theorem wp_expire (nowMs : Nat) (r : FragmentReassembler) :
    wp (expire nowMs) (fun _ t => t.incomplete = r.incomplete ∨ t.incomplete = none)
      (fun e t => t.incomplete = r.incomplete ∧ (e = .timeMovedBackwards ∧ t = r ∨ e = .timerExhausted)) r := by
  simp only [expire, wp_bind]
  refine (wp_observeTime nowMs r).mono ?_ ?_
  · rintro _ _ rfl
    refine (wp_expireDue nowMs _).mono ?_ ?_
    · rintro _ _ ⟨-, ⟨rfl, -⟩ | ⟨rfl, -⟩⟩
      · exact Or.inl rfl
      · exact Or.inr rfl
    · rintro _ _ ⟨rfl, rfl, -⟩
      exact ⟨rfl, Or.inr rfl⟩
  · rintro _ _ ⟨rfl, rfl, -⟩
    exact ⟨rfl, Or.inl ⟨rfl, rfl⟩⟩

theorem Held.of_incomplete {t : FragmentReassembler} (hr : Held r) (h : t.incomplete = r.incomplete ∨ t.incomplete = none) :
    Held t := by
  intro i hi
  rcases h with h | h
  · exact hr i (h ▸ hi)
  · rw [h] at hi
    cases hi

/-- A fragment is stored after expiry. -/
theorem wp_push_iff {Q : ReassemblyOutcome → FragmentReassembler → Prop}
    {E : ReassemblyError → FragmentReassembler → Prop} :
    wp (push nowMs fragment) Q E r ↔ wp (expire nowMs) (fun _ t => wp (pushDue nowMs fragment) Q E t) E r := by
  simp only [push, expire, wp_bind]

/-- What a failed push leaves in the slot. -/
structure Leaves (r : FragmentReassembler) (nowMs : Nat) (e : ReassemblyError) (t : FragmentReassembler) : Prop where
  refused : e = .fragmentNumberOutOfRange ∨ e = .instructionTooLarge ∨ e = .tooManyIncompleteInstructions →
    t.incomplete = (exec (expire nowMs) r).incomplete
  conflicting : e = .conflictingFragment → t.incomplete = none
  backwards : e = .timeMovedBackwards → t = r

theorem Refused.leaves {u t : FragmentReassembler} {e : ReassemblyError} (hu : exec (expire nowMs) r = u)
    (h : Refused u e t) : Leaves r nowMs e t := by
  cases h with
  | conflicting => exact ⟨by simp, fun _ => rfl, by simp⟩
  | _ => exact ⟨fun _ => by rw [hu], by simp, by simp⟩

theorem wp_push_held (hr : Held r) (nowMs : Nat) (fragment : Fragment) :
    wp (push nowMs fragment) (fun _ t => Held t) (fun e t => Held t ∧ Leaves r nowMs e t) r := by
  rw [wp_push_iff]
  refine wp_intro (fun expired u hok => ?_) fun e t herror => ?_
  · have hu : Held u := hr.of_incomplete ((wp_expire nowMs r).ok hok)
    refine (wp_pushDue_held hu).mono (fun _ _ h => h) fun e t hrefused => ⟨?_, hrefused.leaves (by rw [exec, hok])⟩
    cases hrefused with
    | conflicting => exact held_none
    | _ => exact hu
  · obtain ⟨hsame, ⟨rfl, rfl⟩ | rfl⟩ := (wp_expire nowMs r).error herror
    · exact ⟨hr, by simp, by simp, fun _ => rfl⟩
    · exact ⟨hr.of_incomplete (Or.inl hsame), by simp, by simp, by simp⟩

end FragmentReassembler

/-! ### Any calls -/

/-- A call of the reassembler, with any fragment. -/
inductive SlotCall where
  | push (nowMs : Nat) (fragment : Fragment)
  | expire (nowMs : Nat)
  | clear
  deriving DecidableEq, Repr

namespace FragmentReassembler
open IncompleteInstruction

def perform (r : FragmentReassembler) : SlotCall → FragmentReassembler
  | .push nowMs fragment => exec (push nowMs fragment) r
  | .expire nowMs => exec (expire nowMs) r
  | .clear => exec clear r

def performAll (startedAtMs : Nat) (calls : List SlotCall) : FragmentReassembler :=
  calls.foldl perform (new startedAtMs)

theorem held_perform {r : FragmentReassembler} (hr : Held r) (call : SlotCall) : Held (r.perform call) := by
  cases call with
  | push nowMs fragment => exact exec_of_wp ((wp_push_held hr nowMs fragment).mono (fun _ _ h => h) fun _ _ h => h.1)
  | expire nowMs =>
    exact exec_of_wp ((wp_expire nowMs r).mono (fun _ _ h => hr.of_incomplete h) fun _ _ h => hr.of_incomplete (Or.inl h.1))
  | clear => exact held_none

theorem held_performAll (startedAtMs : Nat) (calls : List SlotCall) : Held (performAll startedAtMs calls) :=
  List.foldlRecOn calls perform (motive := Held) (fun _ h => by cases h) fun _ hr call _ => held_perform hr call

/-- After any calls with any fragments, the slot holds at most one incomplete instruction, within its limits
    and in agreement with itself: the bytes are those of its fragments, and at most 1 MiB; its numbers are
    below 749; at most one fragment is final, it is the one noted, and no number is after it; and it is not
    complete. A push that then refuses a fragment leaves the slot as expiry leaves it, one that finds a
    contradiction empties it, and one whose clock goes backwards changes nothing. -/
theorem slot_consistent (startedAtMs : Nat) (calls : List SlotCall) :
    let r := performAll startedAtMs calls
    (∀ i, r.incomplete = some i →
      i.storedBytes = (i.fragments.values.map fun f => f.body.length).sum ∧
      i.storedBytes ≤ 1024 * 1024 ∧
      (∀ number f, i.fragments.get? number = some f → number < 749) ∧
      (∀ number number' f f', i.fragments.get? number = some f → f.isFinal = true →
        i.fragments.get? number' = some f' → f'.isFinal = true → number = number') ∧
      (∀ number, i.finalNumber = some number ↔ ∃ f, i.fragments.get? number = some f ∧ f.isFinal = true) ∧
      (∀ final, i.finalNumber = some final → ∀ number f, i.fragments.get? number = some f → number ≤ final) ∧
      i.isComplete = false) ∧
    ∀ nowMs fragment e t, push nowMs fragment r = .error e t →
      (e = .fragmentNumberOutOfRange ∨ e = .instructionTooLarge ∨ e = .tooManyIncompleteInstructions →
        t.incomplete = (exec (expire nowMs) r).incomplete) ∧
      (e = .conflictingFragment → t.incomplete = none) ∧
      (e = .timeMovedBackwards → t = r) := by
  intro r
  have hr := held_performAll startedAtMs calls
  refine ⟨fun i hi => ?_, fun nowMs fragment e t herror => ?_⟩
  · have h := hr i hi
    exact ⟨h.bytes, h.bytes_le, h.number_lt, fun _ _ _ _ => h.final_unique, h.final_iff, h.final_last, h.incomplete⟩
  · obtain ⟨-, hleaves⟩ := (wp_push_held hr nowMs fragment).error herror
    exact ⟨hleaves.refused, hleaves.conflicting, hleaves.backwards⟩

end FragmentReassembler
end MoshClient
