import Mathlib.Data.List.Induction
import Mathlib.Data.List.Sort
import MoshClient.Theorems.Slot

/-! Reassembly does not depend on the order of arrival. The fragments of one payload arrive in any order,
    with repetitions, and between whole instructions of other identifiers: every push answers what the
    numbers that came before call for, and the last new number completes the payload. -/

namespace MoshClient
open Effect Limits Machine

/-- A fragment that arrives: one of the payload, or a whole instruction of another identifier. -/
inductive Incoming (payload : Bytes) (identifier : Nat) where
  | fragment (number : Fin (fragmentCount payload)) (nowMs timestamp : Nat) (timestampReply : Option Nat)
  | single (other : Nat) (hother : other ≠ identifier) (body : Bytes) (hbody : body.length ≤ maxCompressedInstructionBytes)
      (nowMs timestamp : Nat) (timestampReply : Option Nat)

namespace Incoming
variable {payload : Bytes} {identifier : Nat}

def nowMs : Incoming payload identifier → Nat
  | .fragment _ nowMs _ _ => nowMs
  | .single _ _ _ _ nowMs _ _ => nowMs

def toFragment : Incoming payload identifier → Fragment
  | .fragment number _ timestamp reply => fragmentOf payload identifier number timestamp reply
  | .single other _ body _ _ timestamp reply => ⟨timestamp, reply, other, 0, true, body⟩

def number? : Incoming payload identifier → Option Nat
  | .fragment number _ _ _ => some number
  | .single .. => none

/-- The time at which a fragment of the payload arrives. -/
def time? : Incoming payload identifier → Option Nat
  | .fragment _ nowMs _ _ => some nowMs
  | .single .. => none

/-- The numbers of the payload's fragments that arrive. -/
def numbers (arrivals : List (Incoming payload identifier)) : List Nat := arrivals.filterMap number?

/-- The time of the first fragment of the payload. -/
def firstMs (arrivals : List (Incoming payload identifier)) : Option Nat := (arrivals.filterMap time?).head?

/-- Every fragment of the payload is among the numbers. -/
def Covers (payload : Bytes) (seen : List Nat) : Prop := ∀ number < fragmentCount payload, number ∈ seen

instance (seen : List Nat) : Decidable (Covers payload seen) := inferInstanceAs (Decidable (∀ _ < _, _))

theorem lt_of_mem_numbers {arrivals : List (Incoming payload identifier)} {number : Nat} (h : number ∈ numbers arrivals) :
    number < fragmentCount payload := by
  obtain ⟨a, -, ha⟩ := List.mem_filterMap.mp h
  cases a with
  | fragment number' => exact Option.some.inj ha ▸ number'.isLt
  | single => cases ha

/-- What a push should answer, from the numbers that came before. -/
def expected (seen : List Nat) : Incoming payload identifier → ReassemblyOutcome
  | .single _ _ body _ _ _ _ => .complete body
  | .fragment number _ _ _ =>
    if number.val ∈ seen then .duplicate
    else if Covers payload (number.val :: seen) then .complete payload
    else .pending

/-- The reassembler after the arrivals. -/
def after (startedAtMs : Nat) (arrivals : List (Incoming payload identifier)) : FragmentReassembler :=
  arrivals.foldl (fun r a => exec (FragmentReassembler.push a.nowMs a.toFragment) r) (.new startedAtMs)

end Incoming

namespace IncompleteInstruction
variable {payload : Bytes} {i : IncompleteInstruction}

/-! ### Completion -/

/-- An instruction is complete exactly when every fragment of its payload is stored. -/
theorem Partial.isComplete_iff (h : Partial payload i) (hpos : 0 < fragmentCount payload)
    (hfinal : ∀ number f, i.fragments.get? number = some f → f.isFinal = true → i.finalNumber = some number) :
    i.isComplete = true ↔ Incoming.Covers payload i.fragments.keys := by
  constructor
  · intro hc number hlt
    unfold isComplete at hc
    split at hc
    · cases hc
    · rename_i final hf
      simp only [Bool.and_eq_true, beq_iff_eq] at hc
      rw [hc.2, List.mem_range, (h.final final hf).1]
      exact hlt
  · intro hall
    have hperm : i.fragments.keys.Perm (List.range (fragmentCount payload)) := by
      refine (List.perm_ext_iff_of_nodup (OrderedMap.keys_nodup _) List.nodup_range).mpr fun n => ?_
      rw [List.mem_range]
      exact ⟨h.key_lt, hall n⟩
    have hkeys : i.fragments.keys = List.range (fragmentCount payload) :=
      List.Perm.eq_of_pairwise (fun _ _ _ _ hlt hgt => absurd hlt (Nat.lt_asymm hgt)) (OrderedMap.keys_sorted _)
        List.pairwise_lt_range hperm
    obtain ⟨f, hf⟩ := OrderedMap.mem_keys.mp (hall (fragmentCount payload - 1) (by omega))
    have hmarked : f.isFinal = true := by
      rw [(h.stored _ f hf).2, storedOf]
      simp
      omega
    have hnumber : fragmentCount payload - 1 + 1 = fragmentCount payload := by omega
    have hsize : i.fragments.size = fragmentCount payload := by
      have := congrArg List.length hkeys
      simpa [OrderedMap.keys, OrderedMap.size] using this
    simp [isComplete, hfinal _ f hf hmarked, hnumber, hsize, hkeys]

end IncompleteInstruction

namespace FragmentReassembler
open IncompleteInstruction
variable {payload : Bytes} {identifier number timestamp : Nat} {reply : Option Nat} {r : FragmentReassembler} {nowMs : Nat}

/-! ### One push -/

/-- What the slot holds is not due. -/
def Live (nowMs : Nat) (r : FragmentReassembler) : Prop := ∀ i, r.incomplete = some i →
  nowMs < i.createdAtMs + incompleteInstructionLifetimeMs ∧ i.createdAtMs + incompleteInstructionLifetimeMs < 2 ^ 64

theorem push_of_live (fragment : Fragment) (hclock : r.lastObservedMs ≤ nowMs) (hlive : Live nowMs r) :
    push nowMs fragment r = pushDue nowMs fragment { r with lastObservedMs := nowMs } := by
  have htime : observeTime nowMs r = .ok () { r with lastObservedMs := nowMs } := by
    unfold observeTime
    rw [if_neg (Nat.not_lt.mpr hclock)]
  have hexpire : expireDue nowMs { r with lastObservedMs := nowMs } = .ok 0 { r with lastObservedMs := nowMs } := by
    unfold expireDue
    cases hi : r.incomplete with
    | none => rfl
    | some i =>
      obtain ⟨hlt, hfits⟩ := hlive i hi
      simp only [checkedAdd_eq_some.mpr ⟨rfl, hfits⟩, if_neg (Nat.not_le.mpr hlt)]
  simp only [push, bind, EStateM.bind, htime, hexpire]

/-- A whole instruction of another identifier passes through. -/
theorem pushDue_single {other : Nat} {body : Bytes} (hother : ∀ i, r.incomplete = some i → i.identifier ≠ other)
    (hbody : body.length ≤ maxCompressedInstructionBytes) :
    pushDue nowMs ⟨timestamp, reply, other, 0, true, body⟩ r = .ok (.complete body) r := by
  have hunmatched : pushUnmatched nowMs ⟨timestamp, reply, other, 0, true, body⟩ r = .ok (.complete body) r := by
    unfold pushUnmatched
    rw [if_pos ⟨rfl, rfl⟩, if_pos hbody]
  unfold pushDue
  rw [if_neg (Nat.not_le.mpr (show 0 < maxFragmentsPerInstruction by decide))]
  cases hi : r.incomplete with
  | none => exact hunmatched
  | some i =>
    simp only [if_neg (hother i hi)]
    exact hunmatched

theorem number_lt_max (hlen : payload.length ≤ maxCompressedInstructionBytes) (hlt : number < fragmentCount payload) :
    number < maxFragmentsPerInstruction :=
  Nat.lt_of_lt_of_le hlt (Chunks.count_le bodyBytes_pos (Nat.le_trans hlen (by decide)))

theorem piece_length_le (hlen : payload.length ≤ maxCompressedInstructionBytes) (number : Nat) :
    (Chunks.piece maxFragmentBodyBytes payload number).length ≤ maxCompressedInstructionBytes := by
  unfold Chunks.piece
  rw [List.length_take, List.length_drop]
  omega

/-- A fragment that finds the slot free takes it, unless it is a whole instruction. -/
theorem pushDue_free {fragment : Fragment} (hnumber : fragment.number < maxFragmentsPerInstruction)
    (hbody : fragment.body.length ≤ maxCompressedInstructionBytes) (hnone : r.incomplete = none) :
    pushDue nowMs fragment r =
      if fragment.number = 0 ∧ fragment.isFinal then .ok (.complete fragment.body) r
      else .ok .pending { r with incomplete := some ((IncompleteInstruction.new fragment.identifier nowMs).insert fragment) } := by
  unfold pushDue
  rw [if_neg (Nat.not_le.mpr hnumber), hnone]
  simp only [pushUnmatched, hnone, if_pos hbody, if_neg (Nat.not_lt.mpr hbody), Option.isSome_none, Bool.false_eq_true,
    if_false]

/-- A further fragment of the payload is stored, unless it is stored already; the last one completes it. -/
theorem pushDue_next {i : IncompleteInstruction} (hlen : payload.length ≤ maxCompressedInstructionBytes)
    (hlt : number < fragmentCount payload) (hi : r.incomplete = some i) (hid : i.identifier = identifier)
    (hheld : Partial payload i) :
    pushDue nowMs (fragmentOf payload identifier number timestamp reply) r =
      if number ∈ i.fragments.keys then .ok .duplicate r
      else
        let inserted := i.insert (fragmentOf payload identifier number timestamp reply)
        if inserted.isComplete then .ok (.complete payload) { r with incomplete := none }
        else .ok .pending { r with incomplete := some inserted } := by
  unfold pushDue
  rw [if_neg (Nat.not_le.mpr (show (fragmentOf payload identifier number timestamp reply).number < _ from
    number_lt_max hlen hlt)), hi]
  simp only [show i.identifier = (fragmentOf payload identifier number timestamp reply).identifier from hid, if_true,
    pushMatched]
  cases hget : i.fragments.get? number with
  | some f =>
    rw [hheld.classify_stored hget, if_pos (OrderedMap.mem_keys.mpr ⟨f, hget⟩)]
  | none =>
    have hbytes : ¬i.storedBytes + (fragmentOf payload identifier number timestamp reply).body.length >
        maxCompressedInstructionBytes := by
      have := hheld.bytes_le hlt hget
      simp only [fragmentOf]
      omega
    have hfresh : number ∉ i.fragments.keys := fun hmem => by
      obtain ⟨f, hf⟩ := OrderedMap.mem_keys.mp hmem
      rw [hget] at hf
      cases hf
    rw [hheld.classify_new hlt hget, if_neg hfresh]
    simp only [if_neg hbytes]
    split
    · rename_i hc
      rw [(hheld.insert hlt hget).assemble_eq hc]
    · rfl

end FragmentReassembler

namespace Incoming
open IncompleteInstruction FragmentReassembler
variable {payload : Bytes} {identifier : Nat}

/-! ### The numbers that came -/

/-- The slot holds the fragments whose numbers came, the first of them at `first`. -/
structure Collected (payload : Bytes) (identifier : Nat) (seen : List Nat) (first : Option Nat)
    (i : IncompleteInstruction) : Prop where
  identifier : i.identifier = identifier
  created : first = some i.createdAtMs
  stored : Partial payload i
  consistent : Consistent i
  keys : ∀ number, number ∈ i.fragments.keys ↔ number ∈ seen

/-- What the reassembler holds after the numbers `seen`: nothing before the first and after the last new
    one, and in between those that came. -/
structure Progress (payload : Bytes) (identifier : Nat) (seen : List Nat) (first : Option Nat) (clock : Nat)
    (r : FragmentReassembler) : Prop where
  observed : r.lastObservedMs = clock
  fresh : seen = [] → first = none
  free : seen = [] ∨ Covers payload seen → r.incomplete = none
  held : seen ≠ [] → ¬Covers payload seen → ∃ i, r.incomplete = some i ∧ Collected payload identifier seen first i

variable {seen : List Nat} {first : Option Nat} {clock nowMs timestamp : Nat} {reply : Option Nat} {r : FragmentReassembler}

/-- A slot that is taken holds some, but not all, of the fragments. -/
theorem Progress.of_some (h : Progress payload identifier seen first clock r) {i : IncompleteInstruction}
    (hi : r.incomplete = some i) :
    seen ≠ [] ∧ ¬Covers payload seen ∧ Collected payload identifier seen first i := by
  have hseen : ¬(seen = [] ∨ Covers payload seen) := fun hfree => by
    rw [h.free hfree] at hi
    cases hi
  obtain ⟨hne, hcovers⟩ := not_or.mp hseen
  obtain ⟨j, hj, hcollected⟩ := h.held hne hcovers
  obtain rfl := Option.some.inj (hj.symm.trans hi)
  exact ⟨hne, hcovers, hcollected⟩

theorem covers_append {number : Nat} : Covers payload (seen ++ [number]) ↔ Covers payload (number :: seen) := by
  refine forall₂_congr fun n _ => ?_
  rw [List.mem_append, List.mem_singleton, List.mem_cons, or_comm]

theorem covers_of_mem {number : Nat} (h : number ∈ seen) : Covers payload (seen ++ [number]) ↔ Covers payload seen := by
  refine forall₂_congr fun n _ => ?_
  rw [List.mem_append, List.mem_singleton, or_iff_left_of_imp]
  rintro rfl
  exact h

/-- A whole instruction of another identifier changes nothing but the clock. -/
theorem Progress.single (h : Progress payload identifier seen first clock r) (hclock : clock ≤ nowMs) (hlive : Live nowMs r)
    {other : Nat} (hother : other ≠ identifier) {body : Bytes} (hbody : body.length ≤ maxCompressedInstructionBytes) :
    ∃ t, push nowMs ⟨timestamp, reply, other, 0, true, body⟩ r = .ok (.complete body) t ∧
      Progress payload identifier seen first nowMs t := by
  refine ⟨{ r with lastObservedMs := nowMs }, ?_, ⟨rfl, h.fresh, h.free, h.held⟩⟩
  rw [push_of_live _ (h.observed ▸ hclock) hlive]
  refine pushDue_single (fun i hi => ?_) hbody
  rw [(h.of_some hi).2.2.identifier]
  exact hother.symm

/-- The first number that comes. -/
theorem Progress.fragment_first (hlen : payload.length ≤ maxCompressedInstructionBytes)
    (h : Progress payload identifier [] first clock r) (hclock : clock ≤ nowMs) (hlive : Live nowMs r)
    (number : Fin (fragmentCount payload)) :
    ∃ t, push nowMs (fragmentOf payload identifier number timestamp reply) r =
        .ok (if Covers payload [number.val] then .complete payload else .pending) t ∧
      Progress payload identifier [number.val] (some nowMs) nowMs t := by
  have hnone := h.free (Or.inl rfl)
  have hnumber := number_lt_max hlen number.isLt
  have hcovers : Covers payload [number.val] ↔ fragmentCount payload = 1 := by
    unfold Covers
    simp only [List.mem_singleton]
    constructor
    · intro hall
      have h₀ := hall 0 (by have := number.isLt; omega)
      by_contra hne
      have h₁ := hall 1 (by have := number.isLt; omega)
      omega
    · intro hone n hn
      have := number.isLt
      omega
  have hpush : push nowMs (fragmentOf payload identifier number timestamp reply) r = _ :=
    (push_of_live _ (h.observed ▸ hclock) hlive).trans
      (pushDue_free (hnumber : (fragmentOf payload identifier number timestamp reply).number < _)
        (piece_length_le hlen number) hnone)
  have hsingle : ((fragmentOf payload identifier number timestamp reply).number = 0 ∧
      (fragmentOf payload identifier number timestamp reply).isFinal = true) ↔ fragmentCount payload = 1 := by
    simp only [fragmentOf, beq_iff_eq]
    have := number.isLt
    omega
  rw [hpush]
  by_cases hone : fragmentCount payload = 1
  · have hzero : number.val = 0 := (hsingle.mpr hone).1
    rw [if_pos (hsingle.mpr hone), if_pos (hcovers.mpr hone)]
    refine ⟨{ r with lastObservedMs := nowMs }, ?_, ⟨rfl, by simp, fun _ => hnone, fun _ hnot => absurd (hcovers.mpr hone) hnot⟩⟩
    rw [show (fragmentOf payload identifier number timestamp reply).body = payload from
      (congrArg (Chunks.piece maxFragmentBodyBytes payload) hzero).trans (piece_of_single hone)]
  · have hnot : ¬Covers payload [number.val] := fun hall => hone (hcovers.mp hall)
    rw [if_neg (mt hsingle.mp hone), if_neg hnot]
    refine ⟨_, rfl, ⟨rfl, by simp, ?_, fun _ _ => ⟨_, rfl, ⟨rfl, rfl, ?_, ?_, ?_⟩⟩⟩⟩
    · rintro (hnil | hall)
      · cases hnil
      · exact absurd hall hnot
    · exact (partial_new payload identifier nowMs).insert number.isLt rfl
    · exact (consistent_new identifier nowMs).insert (joins_new _ _ _) hnumber
        ((Nat.zero_add _).trans_le (piece_length_le hlen number)) (isComplete_first _ _ (mt hsingle.mp hone))
    · intro n
      refine OrderedMap.mem_keys_insert.trans ?_
      rw [List.mem_singleton]
      exact or_iff_left List.not_mem_nil

/-- A further number that comes, while one is missing. -/
theorem Progress.fragment_next (hlen : payload.length ≤ maxCompressedInstructionBytes)
    (h : Progress payload identifier seen first clock r) (hclock : clock ≤ nowMs) (hlive : Live nowMs r)
    (hne : seen ≠ []) (hmissing : ¬Covers payload seen) (number : Fin (fragmentCount payload)) :
    ∃ t, push nowMs (fragmentOf payload identifier number timestamp reply) r =
        .ok (if number.val ∈ seen then .duplicate
          else if Covers payload (number.val :: seen) then .complete payload else .pending) t ∧
      Progress payload identifier (seen ++ [number.val]) first nowMs t := by
  obtain ⟨i, hi, hcollected⟩ := h.held hne hmissing
  have hpush : push nowMs (fragmentOf payload identifier number timestamp reply) r = _ :=
    (push_of_live _ (h.observed ▸ hclock) hlive).trans
      (pushDue_next hlen number.isLt hi hcollected.identifier hcollected.stored)
  have hnotNil : seen ++ [number.val] ≠ [] := by simp
  rw [hpush]
  by_cases hmem : number.val ∈ seen
  · rw [if_pos ((hcollected.keys _).mpr hmem), if_pos hmem]
    refine ⟨_, rfl, ⟨rfl, fun hnil => absurd hnil hnotNil, ?_, fun _ _ => ⟨i, hi, ?_⟩⟩⟩
    · rintro (hnil | hall)
      · exact absurd hnil hnotNil
      · exact absurd ((covers_of_mem hmem).mp hall) hmissing
    · refine ⟨hcollected.identifier, hcollected.created, hcollected.stored, hcollected.consistent, fun n => ?_⟩
      rw [hcollected.keys, List.mem_append, List.mem_singleton, or_iff_left_of_imp]
      rintro rfl
      exact hmem
  · have hget : i.fragments.get? number.val = none := by
      cases hget : i.fragments.get? number.val with
      | none => rfl
      | some f => exact absurd ((hcollected.keys _).mp (OrderedMap.mem_keys.mpr ⟨f, hget⟩)) hmem
    have hjoins : Joins i (fragmentOf payload identifier number timestamp reply) :=
      joins_of_classify (hcollected.stored.classify_new number.isLt hget)
    have hinserted : Partial payload (i.insert (fragmentOf payload identifier number timestamp reply)) :=
      hcollected.stored.insert number.isLt hget
    have hkeys : ∀ n, n ∈ (i.insert (fragmentOf payload identifier number timestamp reply)).fragments.keys ↔
        n ∈ seen ++ [number.val] := fun n => by
      refine OrderedMap.mem_keys_insert.trans ?_
      rw [hcollected.keys, List.mem_append, List.mem_singleton, or_comm]
      rfl
    have hcomplete : (i.insert (fragmentOf payload identifier number timestamp reply)).isComplete = true ↔
        Covers payload (seen ++ [number.val]) := by
      refine (hinserted.isComplete_iff (Nat.zero_lt_of_lt number.isLt) fun n f hf hfinal =>
        (hcollected.consistent.final_iff_insert hjoins n).mpr ⟨f, hf, hfinal⟩).trans ?_
      exact forall₂_congr fun n _ => hkeys n
    rw [if_neg (mt (hcollected.keys _).mp hmem), if_neg hmem]
    by_cases hall : Covers payload (seen ++ [number.val])
    · simp only [hcomplete.mpr hall, if_true, if_pos (covers_append.mp hall)]
      exact ⟨_, rfl, ⟨rfl, fun hnil => absurd hnil hnotNil, fun _ => rfl, fun _ hnot => absurd hall hnot⟩⟩
    · simp only [mt hcomplete.mp hall, Bool.false_eq_true, if_false, if_neg (mt covers_append.mpr hall)]
      refine ⟨_, rfl, ⟨rfl, fun hnil => absurd hnil hnotNil, ?_, fun _ _ => ⟨_, rfl, ?_⟩⟩⟩
      · rintro (hnil | hcovers)
        · exact absurd hnil hnotNil
        · exact absurd hcovers hall
      · refine ⟨hcollected.identifier, hcollected.created, hinserted, ?_, hkeys⟩
        refine hcollected.consistent.insert hjoins (number_lt_max hlen number.isLt) ?_ (by simpa using mt hcomplete.mp hall)
        exact Nat.le_trans (hcollected.stored.bytes_le number.isLt hget) hlen

/-- Every arrival is answered as expected, if it does not come after the last new number. -/
theorem Progress.step (hlen : payload.length ≤ maxCompressedInstructionBytes) (a : Incoming payload identifier)
    (h : Progress payload identifier seen first clock r) (hclock : clock ≤ a.nowMs) (hlive : Live a.nowMs r)
    (hmissing : ∀ number, a.number? = some number → ¬Covers payload seen) :
    ∃ t, push a.nowMs a.toFragment r = .ok (a.expected seen) t ∧
      Progress payload identifier (seen ++ a.number?.toList) (first.or a.time?) a.nowMs t := by
  cases a with
  | single other hother body hbody nowMs timestamp reply =>
    simp only [number?, time?, Option.toList_none, List.append_nil, Option.or_none]
    exact h.single hclock hlive hother hbody
  | fragment number nowMs timestamp reply =>
    simp only [number?, time?, Option.toList_some]
    by_cases hnil : seen = []
    · subst hnil
      rw [h.fresh rfl, Option.none_or]
      exact h.fragment_first hlen hclock hlive number
    · have hnotCovers := hmissing number.val rfl
      obtain ⟨i, -, hcollected⟩ := h.held hnil hnotCovers
      rw [show first.or (some nowMs) = first by rw [hcollected.created, Option.some_or]]
      exact h.fragment_next hlen hclock hlive hnil hnotCovers number

end Incoming

/-! ### Every order of arrival -/

open Incoming FragmentReassembler

/-- The fragments of a payload arrive in any order and any number of times, none of them again after the
    last new one, and whole instructions of other identifiers at any place; no time is before an earlier
    one, and all are within the lifetime of the first fragment, whose end is on the clock. -/
structure ArrivalOrder where
  payload : CompressedInstruction
  identifier : Nat
  startedAtMs : Nat
  arrivals : List (Incoming payload.bytes identifier)
  nondecreasing : (startedAtMs :: arrivals.map Incoming.nowMs).Pairwise (· ≤ ·)
  all : Covers payload.bytes (numbers arrivals)
  last_new : ∃ before last, numbers arrivals = before ++ [last] ∧ last ∉ before
  within : ∀ first, firstMs arrivals = some first → ∀ a ∈ arrivals, a.nowMs < first + incompleteInstructionLifetimeMs
  fits : 1 < fragmentCount payload.bytes → ∀ first, firstMs arrivals = some first →
    first + incompleteInstructionLifetimeMs < 2 ^ 64

namespace ArrivalOrder
variable (d : ArrivalOrder)

/-- The reassembler after the first arrivals. -/
def state (before : List (Incoming d.payload.bytes d.identifier)) : FragmentReassembler := Incoming.after d.startedAtMs before

/-- The time of the last of some arrivals. -/
def clock (before : List (Incoming d.payload.bytes d.identifier)) : Nat :=
  (before.getLast?.map Incoming.nowMs).getD d.startedAtMs

theorem clock_le {before rest : List (Incoming d.payload.bytes d.identifier)} {a : Incoming d.payload.bytes d.identifier}
    (h : d.arrivals = before ++ a :: rest) : d.clock before ≤ a.nowMs := by
  have hsorted := d.nondecreasing
  rw [h, List.map_append, List.map_cons, ← List.cons_append, List.pairwise_append] at hsorted
  refine hsorted.2.2 _ ?_ _ List.mem_cons_self
  unfold clock
  cases hlast : before.getLast? with
  | none => exact List.mem_cons_self
  | some b => exact List.mem_cons_of_mem _ (List.mem_map_of_mem (List.mem_of_getLast? hlast))

/-- A number that comes finds one missing before it. -/
theorem not_covers {before rest : List (Incoming d.payload.bytes d.identifier)} {a : Incoming d.payload.bytes d.identifier}
    (h : d.arrivals = before ++ a :: rest) {number : Nat} (hnumber : a.number? = some number) :
    ¬Covers d.payload.bytes (numbers before) := by
  intro hcovers
  obtain ⟨older, last, hlast, hnew⟩ := d.last_new
  have hmem : last ∈ numbers d.arrivals := hlast ▸ List.mem_append_right older (List.mem_singleton_self last)
  have hsplit : numbers d.arrivals = numbers before ++ number :: numbers rest := by
    rw [h, numbers, List.filterMap_append, List.filterMap_cons_some hnumber]
    rfl
  have holder : older = numbers before ++ (number :: numbers rest).dropLast := by
    have := congrArg List.dropLast (hlast.symm.trans hsplit)
    rwa [List.dropLast_concat, List.dropLast_append_cons] at this
  refine hnew (holder ▸ List.mem_append_left _ (hcovers last (lt_of_mem_numbers hmem)))

theorem live {before rest : List (Incoming d.payload.bytes d.identifier)} {a : Incoming d.payload.bytes d.identifier}
    (h : d.arrivals = before ++ a :: rest) {r : FragmentReassembler}
    (hprogress : Progress d.payload.bytes d.identifier (numbers before) (firstMs before) (d.clock before) r) :
    Live a.nowMs r := by
  intro i hi
  obtain ⟨hne, hmissing, hcollected⟩ := hprogress.of_some hi
  have hfirst : firstMs d.arrivals = some i.createdAtMs := by
    rw [h, firstMs, List.filterMap_append, List.head?_append]
    exact (congrArg (Option.or · _) hcollected.created).trans rfl
  refine ⟨d.within _ hfirst a (h ▸ List.mem_append_right before List.mem_cons_self), d.fits ?_ _ hfirst⟩
  -- One number came and another one is missing.
  obtain ⟨number, hnumber⟩ := List.exists_mem_of_ne_nil _ hne
  have hlt := lt_of_mem_numbers hnumber
  by_contra hone
  refine hmissing fun n hn => ?_
  rwa [show n = number by omega]

theorem progress (before rest : List (Incoming d.payload.bytes d.identifier)) (h : d.arrivals = before ++ rest) :
    Progress d.payload.bytes d.identifier (numbers before) (firstMs before) (d.clock before) (d.state before) := by
  induction before using List.reverseRecOn generalizing rest with
  | nil => exact ⟨rfl, fun _ => rfl, fun _ => rfl, fun hne => absurd rfl hne⟩
  | append_singleton before a ih =>
    rw [List.append_assoc, List.singleton_append] at h
    have hbefore := ih (a :: rest) h
    obtain ⟨t, hpush, ht⟩ := hbefore.step d.payload.length_le a (d.clock_le h) (d.live h hbefore) fun number => d.not_covers h
    have hstate : d.state (before ++ [a]) = t := by
      rw [state, Incoming.after, List.foldl_append, List.foldl_cons, List.foldl_nil]
      change exec (push a.nowMs a.toFragment) (d.state before) = t
      rw [exec, hpush]
    have hnumbers : numbers (before ++ [a]) = numbers before ++ a.number?.toList := by
      rw [numbers, List.filterMap_append]
      cases ha : a.number? <;> simp [numbers, ha]
    have hfirst : firstMs (before ++ [a]) = (firstMs before).or a.time? := by
      rw [firstMs, List.filterMap_append, List.head?_append]
      cases ha : a.time? <;> simp [firstMs, ha]
    have hclock : d.clock (before ++ [a]) = a.nowMs := by
      rw [clock, List.getLast?_concat]
      rfl
    rw [hstate, hnumbers, hfirst, hclock]
    exact ht

/-- Each push of an order of arrival answers what the numbers before it call for: a whole instruction of
    another identifier is complete at once, a number that came before is a duplicate, a new one is pending,
    and the last new one completes the payload; after all of them the slot is empty. -/
theorem reassembled_in_any_order :
    (∀ before a rest, d.arrivals = before ++ a :: rest →
      ∃ t, push a.nowMs a.toFragment (d.state before) = .ok (a.expected (numbers before)) t) ∧
    (d.state d.arrivals).incomplete = none := by
  constructor
  · intro before a rest h
    have hbefore := d.progress before (a :: rest) h
    obtain ⟨t, hpush, -⟩ := hbefore.step d.payload.length_le a (d.clock_le h) (d.live h hbefore) fun number => d.not_covers h
    exact ⟨t, hpush⟩
  · exact (d.progress d.arrivals [] (List.append_nil _).symm).free (Or.inr d.all)

theorem fragmentCount_twoFragments : fragmentCount twoFragments.bytes = 2 := by
  unfold fragmentCount twoFragments
  rw [List.length_replicate]
  rfl

/-- Fragment `number` of the two arrives at `nowMs`. -/
def arrives (number : Fin 2) (nowMs : Nat) : Incoming twoFragments.bytes 7 :=
  .fragment (number.cast fragmentCount_twoFragments.symm) nowMs 0 none

theorem covers_two {seen : List Nat} (h₀ : 0 ∈ seen) (h₁ : 1 ∈ seen) : Covers twoFragments.bytes seen := by
  intro n hn
  rw [fragmentCount_twoFragments] at hn
  obtain rfl | rfl : n = 0 ∨ n = 1 := by omega
  · exact h₀
  · exact h₁

/-- Two fragments that arrive in the wrong order, the second of them twice, around a whole instruction of
    another identifier. -/
def swapped : ArrivalOrder where
  payload := twoFragments
  identifier := 7
  startedAtMs := 0
  arrivals := [arrives 1 5, .single 8 (by decide) [1] (by decide) 6 0 none, arrives 1 6, arrives 0 10004]
  nondecreasing := by decide
  all := covers_two (by decide) (by decide)
  last_new := ⟨[1, 1], 0, rfl, by decide⟩
  within := by
    intro first hfirst
    cases hfirst
    intro a ha
    simp only [List.mem_cons, List.not_mem_nil, or_false] at ha
    rcases ha with rfl | rfl | rfl | rfl <;> decide
  fits := by
    intro _ first hfirst
    cases hfirst
    decide

theorem swapped_completes : ∃ t, push 10004 (arrives 0 10004).toFragment (swapped.state (swapped.arrivals.take 3)) =
    .ok (.complete twoFragments.bytes) t := by
  obtain ⟨t, ht⟩ := swapped.reassembled_in_any_order.1 (swapped.arrivals.take 3) (arrives 0 10004) [] rfl
  have hexpected : (arrives 0 10004).expected (numbers (swapped.arrivals.take 3)) = .complete twoFragments.bytes := by
    have hseen : numbers (swapped.arrivals.take 3) = [1, 1] := rfl
    rw [hseen, arrives, expected, if_neg (by decide), if_pos (covers_two (by decide) (by decide))]
  exact ⟨t, hexpected ▸ ht⟩

end ArrivalOrder

/-- At the end of the clock the lifetime of the first fragment has no end, and the second fragment is
    refused. -/
theorem FragmentReassembler.second_fragment_exhausts_timer :
    let payload := twoFragments.bytes
    let first := fragmentOf payload 0 0 0 none
    let second := fragmentOf payload 0 1 0 none
    failure (push (2 ^ 64 - 1) first) (new 0) = none ∧
      failure (push (2 ^ 64 - 1) second) (exec (push (2 ^ 64 - 1) first) (new 0)) = some .timerExhausted := by
  decide +kernel

end MoshClient
