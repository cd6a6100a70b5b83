import MoshClient.Fragment
import MoshClient.Lib.Chunks

/-! Reassembly of the fragments of an honest peer. Each identifier stands for one payload, cut into
    consecutive bodies of 1400 bytes; the network delivers the fragments in any order, and any number of
    times. What the slot retains is then always a part of the payload of its identifier. -/

namespace MoshClient
open Effect Limits Machine

/-! ### Honest fragments -/

/-- The number of fragments of a payload. -/
def fragmentCount (payload : Bytes) : Nat := Chunks.count maxFragmentBodyBytes payload.length

/-- The fragment `number` of a payload, as `sendFragments` sends it. -/
def fragmentOf (payload : Bytes) (identifier number timestamp : Nat) (timestampReply : Option Nat) : Fragment where
  timestamp := timestamp
  timestampReply := timestampReply
  identifier := identifier
  number := number
  isFinal := number + 1 == fragmentCount payload
  body := Chunks.piece maxFragmentBodyBytes payload number

/-- What is stored of fragment `number` of a payload. -/
def storedOf (payload : Bytes) (number : Nat) : StoredFragment :=
  ⟨Chunks.piece maxFragmentBodyBytes payload number, number + 1 == fragmentCount payload⟩

theorem bodyBytes_pos : 0 < maxFragmentBodyBytes := by decide

/-- A payload in one fragment is the body of that fragment. -/
theorem piece_of_single {payload : Bytes} (h : fragmentCount payload = 1) :
    Chunks.piece maxFragmentBodyBytes payload 0 = payload := by
  have hflat := Chunks.flatten_chunks bodyBytes_pos payload
  rw [Chunks.chunks, show Chunks.count maxFragmentBodyBytes payload.length = 1 from h] at hflat
  simpa using hflat

/-! ### The retained part of a payload -/

namespace IncompleteInstruction

/-- The instruction holds some of the fragments of `payload`. -/
structure Partial (payload : Bytes) (i : IncompleteInstruction) : Prop where
  stored : ∀ number f, i.fragments.get? number = some f → number < fragmentCount payload ∧ f = storedOf payload number
  final : ∀ number, i.finalNumber = some number →
    number + 1 = fragmentCount payload ∧ i.fragments.get? number ≠ none
  bytes : i.storedBytes = (i.fragments.keys.map (Chunks.piece maxFragmentBodyBytes payload)).flatten.length

variable {payload : Bytes} {i : IncompleteInstruction} {identifier number timestamp : Nat} {reply : Option Nat}

theorem partial_new (payload : Bytes) (identifier createdAtMs : Nat) : Partial payload (new identifier createdAtMs) :=
  ⟨fun _ _ h => (by cases h), fun _ h => (by cases h), rfl⟩

theorem Partial.key_lt (h : Partial payload i) {n : Nat} (hn : n ∈ i.fragments.keys) : n < fragmentCount payload := by
  obtain ⟨f, hf⟩ := OrderedMap.mem_keys.mp hn
  exact (h.stored n f hf).1

theorem Partial.insert (h : Partial payload i) (hlt : number < fragmentCount payload)
    (hnew : i.fragments.get? number = none) :
    Partial payload (i.insert (fragmentOf payload identifier number timestamp reply)) := by
  constructor
  · intro n f hf
    simp only [IncompleteInstruction.insert, OrderedMap.get?_insert] at hf
    split at hf
    · rename_i heq
      cases heq
      cases hf
      exact ⟨hlt, rfl⟩
    · exact h.stored n f hf
  · intro n hn
    simp only [IncompleteInstruction.insert, OrderedMap.get?_insert] at hn ⊢
    split at hn
    · rename_i hfinal
      cases hn
      exact ⟨beq_iff_eq.mp hfinal, by simp⟩
    · obtain ⟨hcount, hmem⟩ := h.final n hn
      refine ⟨hcount, ?_⟩
      split
      · simp
      · exact hmem
  · have hperm := OrderedMap.keys_insert_perm hnew (storedOf payload number)
    have hlen := (hperm.map (Chunks.piece maxFragmentBodyBytes payload)).flatten.length_eq
    simp only [List.map_cons, List.flatten_cons, List.length_append] at hlen
    simp only [IncompleteInstruction.insert, fragmentOf]
    rw [h.bytes]
    exact (Nat.add_comm _ _).trans hlen.symm

/-- A complete instruction is its whole payload. -/
theorem Partial.assemble_eq (h : Partial payload i) (hc : i.isComplete = true) : i.assemble = payload := by
  unfold isComplete at hc
  split at hc
  · cases hc
  · rename_i final hfinal
    simp only [Bool.and_eq_true, beq_iff_eq] at hc
    have hkeys : i.fragments.keys = List.range (fragmentCount payload) := by
      rw [hc.2, (h.final final hfinal).1]
    have hvalues : i.fragments.values = i.fragments.keys.map (storedOf payload) :=
      OrderedMap.values_eq_map_keys fun n f hf => (h.stored n f hf).2
    unfold assemble
    rw [hvalues, hkeys, List.map_map]
    exact Chunks.flatten_chunks bodyBytes_pos payload

theorem Partial.classify_stored (h : Partial payload i) {f : StoredFragment}
    (hf : i.fragments.get? number = some f) :
    i.classify (fragmentOf payload identifier number timestamp reply) = .ok .duplicate := by
  unfold classify
  rw [show (fragmentOf payload identifier number timestamp reply).number = number from rfl, hf,
    (h.stored number f hf).2]
  simp [storedOf, fragmentOf]

theorem Partial.classify_new (h : Partial payload i) (hlt : number < fragmentCount payload)
    (hnew : i.fragments.get? number = none) :
    i.classify (fragmentOf payload identifier number timestamp reply) = .ok .new := by
  unfold classify
  rw [show (fragmentOf payload identifier number timestamp reply).number = number from rfl, hnew]
  -- Fragment `final` is stored when it is known, so a new fragment is another one, and an earlier one.
  have hconflict : i.conflicts (fragmentOf payload identifier number timestamp reply) = false := by
    unfold conflicts
    rw [Bool.or_eq_false_iff, Bool.and_eq_false_iff]
    constructor
    · cases hf : i.finalNumber with
      | none => rfl
      | some final =>
        have hcount := (h.final final hf).1
        exact decide_eq_false (show ¬number > final by omega)
    · by_cases hfinal : number + 1 = fragmentCount payload
      · refine Or.inr (Bool.or_eq_false_iff.mpr ⟨?_, ?_⟩)
        · cases hf : i.finalNumber with
          | none => rfl
          | some final =>
            obtain ⟨hcount, hmem⟩ := h.final final hf
            have heq : final = number := by omega
            exact absurd hnew (heq ▸ hmem)
        · cases hl : i.fragments.keys.getLast? with
          | none => rfl
          | some last =>
            have hlast := h.key_lt (List.mem_of_getLast? hl)
            exact decide_eq_false (show ¬last > number by omega)
      · exact Or.inl (by simpa [fragmentOf] using hfinal)
  simp [hconflict]

/-- A new fragment of the payload fits. -/
theorem Partial.bytes_le (h : Partial payload i) (hlt : number < fragmentCount payload)
    (hnew : i.fragments.get? number = none) :
    i.storedBytes + (Chunks.piece maxFragmentBodyBytes payload number).length ≤ payload.length := by
  have hnodup : (number :: i.fragments.keys).Nodup := by
    refine List.nodup_cons.mpr ⟨fun hmem => ?_, OrderedMap.keys_nodup _⟩
    obtain ⟨f, hf⟩ := OrderedMap.mem_keys.mp hmem
    rw [hnew] at hf
    cases hf
  have hle := Chunks.length_flatten_pieces_le bodyBytes_pos payload hnodup fun n hn => by
    rcases List.mem_cons.mp hn with rfl | hn
    · exact hlt
    · exact h.key_lt hn
  simp only [List.map_cons, List.flatten_cons, List.length_append] at hle
  rw [h.bytes]
  omega

end IncompleteInstruction

/-! ### One call -/

namespace FragmentReassembler
open IncompleteInstruction

/-- The slot holds a part of the payload of its identifier, or nothing. -/
def Faithful (payload : Nat → Bytes) (r : FragmentReassembler) : Prop :=
  ∀ i, r.incomplete = some i → Partial (payload i.identifier) i

variable {payload : Nat → Bytes} {r : FragmentReassembler} {nowMs identifier number timestamp : Nat}
  {reply : Option Nat}

theorem wp_observeTime (nowMs : Nat) (r : FragmentReassembler) :
    wp (observeTime nowMs) (fun _ t => t = { r with lastObservedMs := nowMs })
      (fun e t => t = r ∧ e = .timeMovedBackwards ∧ nowMs < r.lastObservedMs) r := by
  unfold wp observeTime
  by_cases h : nowMs < r.lastObservedMs
  · rw [if_pos h]
    exact ⟨rfl, rfl, h⟩
  · rw [if_neg h]

/-- The retained instruction is due at `nowMs`. -/
def Expired (nowMs : Nat) (i : IncompleteInstruction) : Prop :=
  i.createdAtMs + incompleteInstructionLifetimeMs ≤ nowMs

/-- The deadline of the retained instruction is past the end of the clock. -/
def Endless (i : IncompleteInstruction) : Prop := 2 ^ 64 ≤ i.createdAtMs + incompleteInstructionLifetimeMs

theorem wp_expireDue (nowMs : Nat) (r : FragmentReassembler) :
    wp (expireDue nowMs)
      (fun _ t => (∀ i, r.incomplete = some i → ¬Endless i) ∧
        (t = r ∧ (∀ i, r.incomplete = some i → ¬Expired nowMs i) ∨
          t = { r with incomplete := none } ∧ ∃ i, r.incomplete = some i ∧ Expired nowMs i))
      (fun e t => t = r ∧ e = .timerExhausted ∧ ∃ i, r.incomplete = some i ∧ Endless i) r := by
  unfold wp
  fun_cases expireDue nowMs r with
  | case1 hi =>
    exact ⟨fun i h => (by rw [hi] at h; cases h), Or.inl ⟨rfl, fun i h => (by rw [hi] at h; cases h)⟩⟩
  | case2 i hi hd => exact ⟨rfl, rfl, i, hi, checkedAdd_eq_none.mp hd⟩
  | case3 i hi deadline hd hle =>
    obtain ⟨rfl, hlt⟩ := checkedAdd_eq_some.mp hd
    refine ⟨fun j hj => ?_, Or.inr ⟨rfl, i, hi, hle⟩⟩
    rw [hi] at hj
    exact Option.some.inj hj ▸ Nat.not_le.mpr hlt
  | case4 i hi deadline hd hle =>
    obtain ⟨rfl, hlt⟩ := checkedAdd_eq_some.mp hd
    refine ⟨fun j hj => ?_, Or.inl ⟨rfl, fun j hj => ?_⟩⟩
    · rw [hi] at hj
      exact Option.some.inj hj ▸ Nat.not_le.mpr hlt
    · rw [hi] at hj
      exact Option.some.inj hj ▸ hle

/-- What becomes of an honest fragment whose identifier is not that of the slot. -/
theorem wp_pushUnmatched (hr : Faithful payload r) (hlt : number < fragmentCount (payload identifier)) :
    wp (pushUnmatched nowMs (fragmentOf (payload identifier) identifier number timestamp reply))
      (fun outcome t => Faithful payload t ∧ (∀ bytes, outcome = .complete bytes → bytes = payload identifier) ∧
        (r.incomplete = none ∨ fragmentCount (payload identifier) = 1))
      (fun e t => t = r ∧ (e = .instructionTooLarge ∧ maxCompressedInstructionBytes < (payload identifier).length ∨
        e = .tooManyIncompleteInstructions ∧ r.incomplete ≠ none ∧ 1 < fragmentCount (payload identifier))) r := by
  have hbody : (Chunks.piece maxFragmentBodyBytes (payload identifier) number).length ≤ (payload identifier).length := by
    have := (partial_new (payload identifier) identifier nowMs).bytes_le hlt rfl
    omega
  have hsingle_count : number = 0 ∧ (number + 1 == fragmentCount (payload identifier)) = true →
      fragmentCount (payload identifier) = 1 := fun h => by
    have := beq_iff_eq.mp h.2
    omega
  have hmulti_count : ¬(number = 0 ∧ (number + 1 == fragmentCount (payload identifier)) = true) →
      1 < fragmentCount (payload identifier) := fun h => by
    rw [beq_iff_eq] at h
    omega
  unfold wp
  fun_cases pushUnmatched nowMs (fragmentOf (payload identifier) identifier number timestamp reply) r with
  | case1 hsingle hle =>
    have hcount := hsingle_count hsingle
    refine ⟨hr, fun bytes hb => ?_, Or.inr hcount⟩
    rw [← ReassemblyOutcome.complete.inj hb]
    exact (congrArg (Chunks.piece _ _) hsingle.1).trans (piece_of_single hcount)
  | case2 hsingle hgt => exact ⟨rfl, Or.inl ⟨rfl, Nat.lt_of_lt_of_le (Nat.lt_of_not_le hgt) hbody⟩⟩
  | case3 hmulti hsome =>
    exact ⟨rfl, Or.inr ⟨rfl, fun hnone => (by rw [hnone] at hsome; cases hsome), hmulti_count hmulti⟩⟩
  | case4 hmulti hnone hgt => exact ⟨rfl, Or.inl ⟨rfl, Nat.lt_of_lt_of_le hgt hbody⟩⟩
  | case5 hmulti hnone hle =>
    refine ⟨fun i hi => ?_, fun bytes hb => (by cases hb), Or.inl (by simpa using hnone)⟩
    rw [← Option.some.inj hi]
    exact (partial_new (payload identifier) identifier nowMs).insert hlt rfl

/-- What becomes of an honest fragment of the retained instruction. -/
theorem wp_pushMatched {i : IncompleteInstruction} (hr : Faithful payload r) (hi : r.incomplete = some i)
    (hid : i.identifier = identifier) (hlt : number < fragmentCount (payload identifier)) :
    wp (pushMatched i (fragmentOf (payload identifier) identifier number timestamp reply))
      (fun outcome t => Faithful payload t ∧ ∀ bytes, outcome = .complete bytes → bytes = payload identifier)
      (fun e t => t = r ∧ e = .instructionTooLarge ∧ maxCompressedInstructionBytes < (payload identifier).length) r := by
  subst hid
  have hp := hr i hi
  have hnew : i.classify (fragmentOf (payload i.identifier) i.identifier number timestamp reply) = .ok .new →
      i.fragments.get? number = none := fun he => by
    cases hf : i.fragments.get? number with
    | none => rfl
    | some f => rw [hp.classify_stored hf] at he; cases he
  unfold wp
  fun_cases pushMatched i (fragmentOf (payload i.identifier) i.identifier number timestamp reply) r with
  | case1 e he =>
    cases hf : i.fragments.get? number with
    | none => rw [hp.classify_new hlt hf] at he; cases he
    | some f => rw [hp.classify_stored hf] at he; cases he
  | case2 he => exact ⟨hr, fun bytes hb => by cases hb⟩
  | case3 he hgt =>
    have hle := hp.bytes_le hlt (hnew he)
    exact ⟨rfl, rfl, Nat.lt_of_lt_of_le hgt hle⟩
  | case4 he hle inserted hc =>
    have hinserted : Partial (payload i.identifier) inserted := hp.insert hlt (hnew he)
    refine ⟨fun j hj => (by cases hj), fun bytes hb => ?_⟩
    rw [← ReassemblyOutcome.complete.inj hb]
    exact hinserted.assemble_eq hc
  | case5 he hle inserted hc =>
    refine ⟨fun j hj => ?_, fun bytes hb => (by cases hb)⟩
    rw [← Option.some.inj hj]
    exact hp.insert hlt (hnew he)

/-- What becomes of an honest fragment, once the slot has been expired. -/
theorem wp_pushDue (hr : Faithful payload r) (hlt : number < fragmentCount (payload identifier)) :
    wp (pushDue nowMs (fragmentOf (payload identifier) identifier number timestamp reply))
      (fun outcome t => Faithful payload t ∧ (∀ bytes, outcome = .complete bytes → bytes = payload identifier) ∧
        ∀ i, r.incomplete = some i → i.identifier = identifier ∨ fragmentCount (payload identifier) = 1)
      (fun e t => t = r ∧ (maxCompressedInstructionBytes < (payload identifier).length ∨
        e = .tooManyIncompleteInstructions ∧
          ∃ i, r.incomplete = some i ∧ i.identifier ≠ identifier ∧ 1 < fragmentCount (payload identifier))) r := by
  unfold wp
  fun_cases pushDue nowMs (fragmentOf (payload identifier) identifier number timestamp reply) r with
  | case1 hge =>
    -- 749 fragments hold the longest payload.
    refine ⟨rfl, Or.inl (Nat.lt_of_not_le fun hlen => ?_)⟩
    have hmax : fragmentCount (payload identifier) ≤ maxFragmentsPerInstruction :=
      Chunks.count_le bodyBytes_pos (Nat.le_trans hlen (by decide))
    exact absurd (Nat.lt_of_lt_of_le hlt hmax) (Nat.not_lt.mpr hge)
  | case2 hlt' hnone =>
    refine (wp_pushUnmatched hr hlt).mono ?_ ?_
    · rintro outcome t ⟨ht, hb, -⟩
      exact ⟨ht, hb, fun i hi => by rw [hnone] at hi; cases hi⟩
    · rintro e t ⟨rfl, ⟨-, hlen⟩ | ⟨-, hsome, -⟩⟩
      · exact ⟨rfl, Or.inl hlen⟩
      · exact absurd hnone hsome
  | case3 hlt' i hi hid =>
    refine (wp_pushMatched hr hi hid hlt).mono ?_ ?_
    · rintro outcome t ⟨ht, hb⟩
      refine ⟨ht, hb, fun j hj => Or.inl ?_⟩
      rw [hi] at hj
      exact Option.some.inj hj ▸ hid
    · rintro e t ⟨rfl, -, hlen⟩
      exact ⟨rfl, Or.inl hlen⟩
  | case4 hlt' i hi hid =>
    refine (wp_pushUnmatched hr hlt).mono ?_ ?_
    · rintro outcome t ⟨ht, hb, hnone | hcount⟩
      · rw [hi] at hnone
        cases hnone
      · exact ⟨ht, hb, fun _ _ => Or.inr hcount⟩
    · rintro e t ⟨rfl, ⟨-, hlen⟩ | ⟨he, -, hcount⟩⟩
      · exact ⟨rfl, Or.inl hlen⟩
      · exact ⟨rfl, Or.inr ⟨he, i, hi, hid, hcount⟩⟩

theorem Faithful.of_incomplete {t : FragmentReassembler} (hr : Faithful payload r)
    (h : t.incomplete = r.incomplete ∨ t.incomplete = none) : Faithful payload t := by
  intro i hi
  rcases h with h | h
  · exact hr i (h ▸ hi)
  · rw [h] at hi
    cases hi

/-- The errors of an honest fragment, and the state they leave. -/
inductive PushFailed (r : FragmentReassembler) (nowMs identifier : Nat) (payload : Bytes) :
    ReassemblyError → FragmentReassembler → Prop where
  | backwards (h : nowMs < r.lastObservedMs) : PushFailed r nowMs identifier payload .timeMovedBackwards r
  | endless (i : IncompleteInstruction) (hi : r.incomplete = some i) (h : Endless i) :
      PushFailed r nowMs identifier payload .timerExhausted { r with lastObservedMs := nowMs }
  | tooLarge (e : ReassemblyError) (t : FragmentReassembler) (h : maxCompressedInstructionBytes < payload.length) :
      PushFailed r nowMs identifier payload e t
  | occupied (i : IncompleteInstruction) (hi : r.incomplete = some i) (hid : i.identifier ≠ identifier)
      (hcount : 1 < fragmentCount payload) (hlive : ¬Expired nowMs i) (hend : ¬Endless i) :
      PushFailed r nowMs identifier payload .tooManyIncompleteInstructions { r with lastObservedMs := nowMs }

/-- What becomes of an honest fragment. -/
theorem wp_push (nowMs timestamp : Nat) (reply : Option Nat) (hr : Faithful payload r)
    (hlt : number < fragmentCount (payload identifier)) :
    wp (push nowMs (fragmentOf (payload identifier) identifier number timestamp reply))
      (fun outcome t => Faithful payload t ∧ (∀ bytes, outcome = .complete bytes → bytes = payload identifier) ∧
        ∀ i, r.incomplete = some i →
          ¬Endless i ∧ (Expired nowMs i ∨ i.identifier = identifier ∨ fragmentCount (payload identifier) = 1))
      (fun e t => Faithful payload t ∧ PushFailed r nowMs identifier (payload identifier) e t) r := by
  unfold push
  simp only [wp_bind]
  refine (wp_observeTime nowMs r).mono ?_ ?_
  · rintro _ _ rfl
    have hr' : Faithful payload { r with lastObservedMs := nowMs } := hr
    refine (wp_expireDue nowMs _).mono ?_ ?_
    · rintro _ _ ⟨hend, ⟨rfl, hlive⟩ | ⟨rfl, i, hi, hexp⟩⟩
      · refine (wp_pushDue hr' hlt).mono ?_ ?_
        · rintro outcome t ⟨ht, hb, hslot⟩
          exact ⟨ht, hb, fun i hi => ⟨hend i hi, Or.inr (hslot i hi)⟩⟩
        · rintro e t ⟨rfl, hlen | ⟨rfl, i, hi, hid, hcount⟩⟩
          · exact ⟨hr', .tooLarge _ _ hlen⟩
          · exact ⟨hr', .occupied i hi hid hcount (hlive i hi) (hend i hi)⟩
      · -- The slot was expired, so the fragment finds it free.
        have hfree : Faithful payload { r with lastObservedMs := nowMs, incomplete := none } :=
          hr.of_incomplete (Or.inr rfl)
        refine (wp_pushDue hfree hlt).mono ?_ ?_
        · rintro outcome t ⟨ht, hb, -⟩
          refine ⟨ht, hb, fun j hj => ⟨hend j hj, Or.inl ?_⟩⟩
          have hji : i = j := Option.some.inj (hi.symm.trans hj)
          exact hji ▸ hexp
        · rintro e t ⟨rfl, hlen | ⟨-, j, hj, -⟩⟩
          · exact ⟨hfree, .tooLarge _ _ hlen⟩
          · cases hj
    · rintro _ _ ⟨rfl, rfl, i, hi, hend⟩
      exact ⟨hr', .endless i hi hend⟩
  · rintro _ _ ⟨rfl, rfl, hback⟩
    exact ⟨hr, .backwards hback⟩

theorem faithful_exec_expire (hr : Faithful payload r) (nowMs : Nat) : Faithful payload (exec (expire nowMs) r) := by
  apply exec_of_wp
  unfold expire
  rw [wp_bind]
  refine (wp_observeTime nowMs r).mono ?_ ?_
  · rintro _ _ rfl
    refine (wp_expireDue nowMs _).mono ?_ ?_
    · rintro _ _ ⟨-, ⟨rfl, -⟩ | ⟨rfl, -⟩⟩
      · exact hr
      · exact hr.of_incomplete (Or.inr rfl)
    · rintro _ _ ⟨rfl, -⟩
      exact hr
  · rintro _ _ ⟨rfl, -⟩
    exact hr

end FragmentReassembler

/-! ### Runs -/

/-- A call of the reassembler while it receives the fragments of an honest peer. -/
inductive ReassemblyCall where
  | push (nowMs identifier number timestamp : Nat) (timestampReply : Option Nat)
  | expire (nowMs : Nat)
  | clear
  deriving DecidableEq, Repr

namespace FragmentReassembler

/-- The state after a call; a number past the payload's last fragment is no fragment of the peer. -/
def call (payload : Nat → Bytes) (r : FragmentReassembler) : ReassemblyCall → FragmentReassembler
  | .push nowMs identifier number timestamp reply =>
    if number < fragmentCount (payload identifier) then
      exec (push nowMs (fragmentOf (payload identifier) identifier number timestamp reply)) r
    else r
  | .expire nowMs => exec (expire nowMs) r
  | .clear => exec clear r

def after (payload : Nat → Bytes) (startedAtMs : Nat) (calls : List ReassemblyCall) : FragmentReassembler :=
  calls.foldl (call payload) (new startedAtMs)

theorem faithful_call {payload : Nat → Bytes} {r : FragmentReassembler} (hr : Faithful payload r)
    (c : ReassemblyCall) : Faithful payload (r.call payload c) := by
  cases c with
  | push nowMs identifier number timestamp reply =>
    simp only [call]
    split
    · rename_i hlt
      exact exec_of_wp ((wp_push nowMs timestamp reply hr hlt).mono (fun _ _ h => h.1) (fun _ _ h => h.1))
    · exact hr
  | expire nowMs => exact faithful_exec_expire hr nowMs
  | clear => exact hr.of_incomplete (Or.inr rfl)

theorem faithful_after (payload : Nat → Bytes) (startedAtMs : Nat) (calls : List ReassemblyCall) :
    Faithful payload (after payload startedAtMs calls) := by
  have hfold : ∀ (calls : List ReassemblyCall) (r : FragmentReassembler), Faithful payload r →
      Faithful payload (calls.foldl (call payload) r) := by
    intro calls
    induction calls with
    | nil => exact fun r hr => hr
    | cons c rest ih => exact fun r hr => ih _ (faithful_call hr c)
  exact hfold calls _ fun i hi => by cases hi

/-- After any calls that deliver fragments of an honest peer in any order, a fragment that completes an
    instruction completes exactly the payload of its own identifier. -/
theorem push_complete_payload (payload : Nat → Bytes) (startedAtMs : Nat) (calls : List ReassemblyCall)
    (nowMs identifier timestamp : Nat) (reply : Option Nat) (number : Fin (fragmentCount (payload identifier))) :
    wp (push nowMs (fragmentOf (payload identifier) identifier number timestamp reply))
      (fun outcome _ => ∀ bytes, outcome = .complete bytes → bytes = payload identifier)
      (fun _ _ => True) (after payload startedAtMs calls) :=
  (wp_push nowMs timestamp reply (faithful_after payload startedAtMs calls) number.isLt).mono (fun _ _ h => h.2.1)
    (fun _ _ _ => trivial)

/-! ### Loss -/

/-- A compressed instruction that a peer may send. -/
structure CompressedInstruction where
  bytes : Bytes
  nonempty : 0 < bytes.length
  length_le : bytes.length ≤ maxCompressedInstructionBytes

/-- An instruction of 1401 bytes, which needs two fragments. -/
def twoFragments : CompressedInstruction where
  bytes := List.replicate 1401 0
  nonempty := by rw [List.length_replicate]; decide
  length_le := by rw [List.length_replicate]; decide

end FragmentReassembler
end MoshClient
