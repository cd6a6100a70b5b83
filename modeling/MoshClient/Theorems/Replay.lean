import MoshClient.Packet

/-! The replay window is exact: its 64 bits stand for the set of all numbers accepted so far, as far as
    the window reaches below the highest of them. -/

namespace MoshClient
open Effect

namespace ReplayWindow

/-- The window knows the highest accepted number, and bit `d` tells whether the number `d` below it was
    accepted. -/
structure Tracks (w : ReplayWindow) (accepted : List Nat) : Prop where
  highest : w.highest = accepted.max?
  seen : ∀ d, d < 64 → (w.seen.getLsbD d = true ↔ ∃ n ∈ accepted, w.highest = some (n + d))

theorem tracks_default : Tracks default [] where
  highest := rfl
  seen d _ := by simp [default]

theorem le_of_max? {l : List Nat} {highest n : Nat} (h : l.max? = some highest) (hn : n ∈ l) : n ≤ highest :=
  (List.max?_eq_some_iff.mp h).2 n hn

/-! ### One call -/

section Accept
variable {w : ReplayWindow} {accepted : List Nat} {sequence highest : Nat}

theorem tracks_first (sequence : Nat) : Tracks ⟨some sequence, 1⟩ [sequence] where
  highest := rfl
  seen d _ := by simp

/-- A number above the highest shifts the window. -/
theorem Tracks.shift (h : Tracks w accepted) (hw : w.highest = some highest) (hlt : highest < sequence) :
    Tracks ⟨some sequence, if sequence - highest ≥ replayWindowBits then 1 else
      (w.seen <<< (sequence - highest)) ||| 1⟩ (sequence :: accepted) := by
  have hmax : accepted.max? = some highest := h.highest ▸ hw
  constructor
  · simp only [List.max?_cons, hmax, Option.elim_some, Option.some.injEq]
    omega
  · intro d hd
    -- Bit `d` is the new number, or it stands for one at distance `d - (sequence - highest)` before.
    have hold : (∃ n ∈ accepted, sequence = n + d) ↔
        sequence - highest ≤ d ∧ w.seen.getLsbD (d - (sequence - highest)) = true := by
      rw [h.seen _ (by omega), hw]
      constructor
      · rintro ⟨n, hn, heq⟩
        have := le_of_max? hmax hn
        exact ⟨by omega, n, hn, by congr 1; omega⟩
      · rintro ⟨hle, n, hn, heq⟩
        have := Option.some.inj heq
        exact ⟨n, hn, by omega⟩
    have hnew : sequence = sequence + d ↔ d = 0 := by omega
    simp only [List.mem_cons, exists_eq_or_imp, Option.some.injEq, hold, hnew]
    split
    · rename_i hfar
      have hnot : ¬sequence - highest ≤ d := fun hle => absurd hfar (show ¬64 ≤ _ by omega)
      simp [hnot]
    · by_cases hle : sequence - highest ≤ d
      · have : ¬d < sequence - highest := by omega
        simp [hle, this, hd, or_comm, BitVec.getLsbD_eq_getElem (show d - (sequence - highest) < 64 by omega)]
      · have : d < sequence - highest := by omega
        simp [hle, this]

theorem bit_and_ne_zero (seen : BitVec 64) (distance : Nat) (h : distance < 64) :
    seen &&& (1#64 <<< distance) ≠ 0 ↔ seen.getLsbD distance = true := by
  rw [← BitVec.twoPow_eq, BitVec.and_twoPow]
  split
  · rename_i hset
    simp only [hset, iff_true]
    intro hzero
    have := congrArg (BitVec.getLsbD · distance) hzero
    simp [h] at this
  · rename_i hset
    simp [hset]

/-- A number inside the window that was not seen sets its bit. -/
theorem Tracks.mark (h : Tracks w accepted) (hw : w.highest = some highest) (hle : sequence ≤ highest)
    (hnear : highest - sequence < 64) :
    Tracks ⟨some highest, w.seen ||| (1#64 <<< (highest - sequence))⟩ (sequence :: accepted) := by
  have hmax : accepted.max? = some highest := h.highest ▸ hw
  constructor
  · simp only [List.max?_cons, hmax, Option.elim_some, Option.some.injEq]
    omega
  · intro d hd
    have hnew : highest = sequence + d ↔ highest - sequence = d := by omega
    have hbit : (1#64 <<< (highest - sequence)).getLsbD d = true ↔ highest - sequence = d := by
      rw [← BitVec.twoPow_eq, BitVec.getLsbD_twoPow]
      simp [hnear]
    rw [BitVec.getLsbD_or, Bool.or_eq_true, h.seen d hd, hbit, hw]
    simp only [List.mem_cons, exists_eq_or_imp, Option.some.injEq, hnew]
    exact or_comm

/-- The distance of `sequence` below the highest accepted number is within the window. -/
def Within (accepted : List Nat) (sequence : Nat) : Prop :=
  ∀ highest, accepted.max? = some highest → highest < sequence + 64

theorem within_iff : Within accepted sequence ↔
    accepted = [] ∨ ∃ highest, accepted.max? = some highest ∧ sequence + 64 > highest := by
  unfold Within
  cases h : accepted.max? with
  | none => simp [List.max?_eq_none_iff.mp h]
  | some m =>
    have hne : accepted ≠ [] := by rintro rfl; cases h
    simp [hne]

theorem not_within_iff : ¬Within accepted sequence ↔
    ∃ highest, accepted.max? = some highest ∧ sequence + 64 ≤ highest := by
  unfold Within
  push Not
  rfl

/-- What one call does: it accepts exactly a number that is within the window and new. -/
theorem wp_accept (h : Tracks w accepted) (sequence : Nat) :
    wp (accept sequence)
      (fun _ w' => sequence ∉ accepted ∧ Within accepted sequence ∧ Tracks w' (sequence :: accepted))
      (fun e w' => w' = w ∧ (e = .tooOld ∧ ¬Within accepted sequence ∨
        e = .replay ∧ sequence ∈ accepted ∧ Within accepted sequence)) w := by
  unfold wp accept
  cases hw : w.highest with
  | none =>
    have hnil : accepted = [] := List.max?_eq_none_iff.mp (h.highest ▸ hw)
    subst hnil
    exact ⟨List.not_mem_nil, fun _ hm => (by cases hm), tracks_first sequence⟩
  | some highest =>
    have hmax : accepted.max? = some highest := h.highest ▸ hw
    have hwithin : Within accepted sequence ↔ highest < sequence + 64 :=
      ⟨fun hwi => hwi highest hmax, fun hlt m hm => by rw [hmax] at hm; cases hm; exact hlt⟩
    simp only
    split
    · rename_i a w' hok
      split at hok
      · rename_i hlt
        cases hok
        exact ⟨fun hmem => absurd (le_of_max? hmax hmem) (by omega), hwithin.mpr (by omega), h.shift hw hlt⟩
      · rename_i hge
        split at hok
        · cases hok
        · rename_i hnear
          have hnear' : highest - sequence < 64 := Nat.lt_of_not_le hnear
          split at hok
          · cases hok
          · rename_i hbit
            cases hok
            rw [ne_eq, not_not, ← not_ne_iff, bit_and_ne_zero _ _ hnear', h.seen _ hnear', hw] at hbit
            refine ⟨fun hmem => hbit ⟨sequence, hmem, by congr 1; omega⟩, hwithin.mpr (by omega),
              h.mark hw (by omega) hnear'⟩
    · rename_i e w' herr
      split at herr
      · cases herr
      · rename_i hge
        split at herr
        · rename_i hfar
          cases herr
          have hfar' : 64 ≤ highest - sequence := hfar
          exact ⟨rfl, Or.inl ⟨rfl, fun hwi => absurd (hwithin.mp hwi) (by omega)⟩⟩
        · rename_i hnear
          have hnear' : highest - sequence < 64 := Nat.lt_of_not_le hnear
          split at herr
          · rename_i hbit
            cases herr
            rw [bit_and_ne_zero _ _ hnear', h.seen _ hnear', hw] at hbit
            obtain ⟨n, hn, heq⟩ := hbit
            have := Option.some.inj heq
            have hns : n = sequence := by omega
            exact ⟨rfl, Or.inr ⟨rfl, hns ▸ hn, hwithin.mpr (by omega)⟩⟩
          · cases herr

end Accept

/-! ### Runs -/

/-- The window after a number of calls, with the numbers accepted by them, the newest first. -/
structure Receipt where
  window : ReplayWindow
  accepted : List Nat

def Receipt.call (r : Receipt) (sequence : Nat) : Receipt :=
  match accept sequence r.window with
  | .ok _ window => ⟨window, sequence :: r.accepted⟩
  | .error _ window => ⟨window, r.accepted⟩

def receiptOf (calls : List Nat) : Receipt := calls.foldl Receipt.call ⟨default, []⟩

theorem Receipt.call_tracks {r : Receipt} (h : Tracks r.window r.accepted) (hn : r.accepted.Nodup) (sequence : Nat) :
    Tracks (r.call sequence).window (r.call sequence).accepted ∧ (r.call sequence).accepted.Nodup := by
  have hacc := wp_accept h sequence
  unfold call
  split
  · rename_i w hok
    obtain ⟨hnew, -, htracks⟩ := hacc.ok hok
    exact ⟨htracks, List.nodup_cons.mpr ⟨hnew, hn⟩⟩
  · rename_i e w herr
    obtain ⟨rfl, -⟩ := hacc.error herr
    exact ⟨h, hn⟩

theorem receiptOf_tracks (calls : List Nat) :
    Tracks (receiptOf calls).window (receiptOf calls).accepted ∧ (receiptOf calls).accepted.Nodup := by
  have hfold : ∀ (calls : List Nat) (r : Receipt), Tracks r.window r.accepted → r.accepted.Nodup →
      Tracks (calls.foldl Receipt.call r).window (calls.foldl Receipt.call r).accepted ∧
        (calls.foldl Receipt.call r).accepted.Nodup := by
    intro calls
    induction calls with
    | nil => exact fun r h hn => ⟨h, hn⟩
    | cons sequence rest ih =>
      intro r h hn
      obtain ⟨h', hn'⟩ := Receipt.call_tracks h hn sequence
      exact ih _ h' hn'
  exact hfold calls _ tracks_default List.nodup_nil

/-- After any calls, `accept` returns as if it kept the set of all accepted numbers: it accepts a number
    exactly when it is new and less than 64 below the highest, and a rejection leaves the window. No
    number is accepted twice. -/
theorem accept_exact (calls : List Nat) (sequence : Nat) :
    ((∃ w, accept sequence (receiptOf calls).window = .ok () w) ↔ sequence ∉ (receiptOf calls).accepted ∧
        ((receiptOf calls).accepted = [] ∨
          ∃ highest, (receiptOf calls).accepted.max? = some highest ∧ sequence + 64 > highest)) ∧
      ((∃ w, accept sequence (receiptOf calls).window = .error .tooOld w) ↔
        ∃ highest, (receiptOf calls).accepted.max? = some highest ∧ sequence + 64 ≤ highest) ∧
      ((∃ w, accept sequence (receiptOf calls).window = .error .replay w) ↔
        sequence ∈ (receiptOf calls).accepted ∧
          ∃ highest, (receiptOf calls).accepted.max? = some highest ∧ sequence + 64 > highest) ∧
      (∀ e w, accept sequence (receiptOf calls).window = .error e w → w = (receiptOf calls).window) ∧
      (receiptOf calls).accepted.Nodup := by
  obtain ⟨htracks, hnodup⟩ := receiptOf_tracks calls
  generalize receiptOf calls = r at htracks hnodup ⊢
  have hacc := wp_accept htracks sequence
  have hnonempty : ∀ n ∈ r.accepted, r.accepted ≠ [] := fun n hn hnil => by rw [hnil] at hn; cases hn
  rw [← within_iff, ← not_within_iff]
  cases h : accept sequence r.window with
  | ok u w =>
    obtain ⟨hnew, hwithin, -⟩ := hacc.ok h
    simp [hnew, hwithin, hnodup]
  | error e w =>
    obtain ⟨rfl, ⟨rfl, hold⟩ | ⟨rfl, hmem, hwithin⟩⟩ := hacc.error h
    · have hfar : ¬∃ highest, r.accepted.max? = some highest ∧ sequence + 64 > highest :=
        fun hex => hold (within_iff.mpr (Or.inr hex))
      simp [hold, hfar, hnodup]
    · have hnear := (within_iff.mp hwithin).resolve_left (hnonempty sequence hmem)
      simp [hmem, hwithin, hnear, hnodup]

end ReplayWindow
end MoshClient
