import Mathlib.Algebra.GroupWithZero.Nat
import MoshClient.Decompression

/-! Bounded decompression. Each round of the loop consumes input or writes output, and what is written stays within the
    limit, so that the loop ends whatever inflate does; and it ends well only at the end of the stream, with all of
    the input consumed and all that was written in the output. -/

namespace MoshClient.DecompressionLoop
open Limits Checked

variable {z : Inflate} {compressed : Bytes} {s : DecompressionLoop z}

/-! ### One round -/

/-- What holds before every round. -/
structure Sound (compressed : Bytes) (s : DecompressionLoop z) : Prop where
  output_le : s.output.length ≤ maxDecompressedInstructionBytes
  chunk_length : s.chunk.length = decompressionChunkBytes
  consumed_le : s.consumed ≤ compressed.length

theorem sound_start (compressed : Bytes) : Sound compressed (start z) :=
  ⟨Nat.zero_le _, List.length_replicate, Nat.zero_le _⟩

/-- What is left to consume and to write. -/
def left (compressed : Bytes) (s : DecompressionLoop z) : Nat :=
  (compressed.length - s.consumed) + (maxDecompressedInstructionBytes - s.output.length)

theorem call_consumed_le (compressed : Bytes) (s : DecompressionLoop z) :
    (s.call compressed).bytesConsumed ≤ compressed.length - s.consumed := by
  have h : (s.call compressed).bytesConsumed ≤ (compressed.drop s.consumed).length := z.consumed_le _ _ _
  rwa [List.length_drop] at h

theorem call_written_le (hs : s.Sound compressed) : (s.call compressed).written.length ≤ s.chunk.length := by
  have hwritten : (s.call compressed).written.length ≤ _ := z.written_le _ _ _
  have hchunk : 1 ≤ s.chunk.length := by
    rw [hs.chunk_length]
    decide
  exact hwritten.trans (Nat.max_le.mpr ⟨hchunk, Nat.min_le_right _ _⟩)

/-- A round does not panic: it refuses what is too large, and otherwise looks at the result of its call. -/
theorem round_eq (hs : s.Sound compressed) :
    s.round compressed =
      if (s.call compressed).written.length > maxDecompressedInstructionBytes - s.output.length then
        .ok (.inr (.error .decodedTooLarge))
      else s.advance compressed (s.call compressed) := by
  have hchunk : 1 ≤ s.chunk.length := by
    rw [hs.chunk_length]
    decide
  have hwindow : max 1 (min (maxDecompressedInstructionBytes - s.output.length) s.chunk.length) ≤ s.chunk.length :=
    Nat.max_le.mpr ⟨hchunk, Nat.min_le_right _ _⟩
  have hlength := Nat.min_eq_left hwindow
  simp only [round, sub, if_pos hs.output_le, clamp, if_pos hchunk, sliceFrom, if_pos hs.consumed_le, sliceTo,
    if_pos hwindow, bind, Except.bind, List.length_take, hlength]
  rfl

/-- The ways in which a round ends, each with what it means for the whole loop. -/
inductive Rounds (compressed : Bytes) (s : DecompressionLoop z) : Prop where
  | fails (e : InstructionError) (hround : s.round compressed = .ok (.inr (.error e)))
      (hfrom : decompressFrom z compressed s.state s.consumed s.output = .error e)
      (hlarge : e = .decodedTooLarge →
        maxDecompressedInstructionBytes < s.output.length + (s.call compressed).written.length)
  | ends (hround : s.round compressed = .ok (.inr (.ok (s.output ++ (s.call compressed).written))))
      (hfrom : decompressFrom z compressed s.state s.consumed s.output = .ok (s.output ++ (s.call compressed).written))
      (hstatus : (s.call compressed).status = .streamEnd)
      (hconsumed : s.consumed + (s.call compressed).bytesConsumed = compressed.length)
      (hlength : (s.output ++ (s.call compressed).written).length ≤ maxDecompressedInstructionBytes)
  | again (next : DecompressionLoop z) (hround : s.round compressed = .ok (.inl next))
      (hfrom : decompressFrom z compressed s.state s.consumed s.output =
        decompressFrom z compressed next.state next.consumed next.output)
      (hsound : next.Sound compressed) (houtput : next.output = s.output ++ (s.call compressed).written)
      (hconsumed : next.consumed = s.consumed + (s.call compressed).bytesConsumed)
      (hless : next.left compressed < s.left compressed)

/-- The written part of the buffer is what was written. -/
theorem sliceTo_written (written chunk : Bytes) :
    sliceTo (written ++ chunk.drop written.length) written.length = .ok written := by
  rw [sliceTo, if_pos (by rw [List.length_append]; omega), List.take_left]

theorem rounds (hs : s.Sound compressed) : s.Rounds compressed := by
  have hround := round_eq hs
  have hfrom := decompressFrom.eq_1 z compressed s.state s.consumed s.output
  have hcall : z.inflate s.state (compressed.drop s.consumed)
      (max 1 (min (maxDecompressedInstructionBytes - s.output.length) s.chunk.length)) = s.call compressed := rfl
  have hconsumed := call_consumed_le compressed s
  have hwritten := call_written_le hs
  have houtput := hs.output_le
  have hinput := hs.consumed_le
  simp only [← hs.chunk_length, hcall] at hfrom
  simp only [advance, sliceTo_written, bind, Except.bind] at hround
  by_cases hlarge : (s.call compressed).written.length > maxDecompressedInstructionBytes - s.output.length
  · rw [if_pos hlarge] at hround hfrom
    exact .fails _ hround hfrom fun _ => by omega
  · rw [if_neg hlarge] at hround hfrom
    have hlength : (s.output ++ (s.call compressed).written).length ≤ maxDecompressedInstructionBytes := by
      rw [List.length_append]
      omega
    cases hstatus : (s.call compressed).status with
    | streamEnd =>
      simp only [hstatus] at hround hfrom
      by_cases hall : s.consumed + (s.call compressed).bytesConsumed = compressed.length
      · rw [if_neg (not_not.mpr hall)] at hround hfrom
        exact .ends hround hfrom hstatus hall hlength
      · rw [if_pos hall] at hround hfrom
        exact .fails _ hround hfrom fun he => by cases he
    | ok =>
      simp only [hstatus] at hround hfrom
      by_cases hprogress : (s.call compressed).bytesConsumed ≠ 0 ∨ (s.call compressed).written.length ≠ 0
      · rw [if_pos hprogress] at hround hfrom
        refine .again _ hround hfrom ⟨hlength, ?_, by simp only; omega⟩ rfl rfl ?_
        · rw [List.length_append, List.length_drop, Nat.add_sub_cancel' hwritten, hs.chunk_length]
        · simp only [left, List.length_append]
          omega
      · rw [if_neg hprogress] at hround hfrom
        exact .fails _ hround hfrom fun he => by cases he
    | needDict =>
      simp only [hstatus] at hround hfrom
      exact .fails _ hround hfrom fun he => by cases he
    | failed =>
      simp only [hstatus] at hround hfrom
      exact .fails _ hround hfrom fun he => by cases he

/-! ### The whole loop -/

/-- The loop returns, after one round more than there is left to consume and to write. -/
theorem exists_runs (hs : s.Sound compressed) :
    ∃ calls result, Runs compressed s calls result ∧ calls.length ≤ s.left compressed + 1 := by
  induction hleft : s.left compressed using Nat.strong_induction_on generalizing s with
  | _ n ih =>
    subst hleft
    cases rounds hs with
    | fails e hround => exact ⟨_, _, .returns hround, by simp⟩
    | ends hround => exact ⟨_, _, .returns hround, by simp⟩
    | again next hround _ hsound _ _ hless =>
      obtain ⟨calls, result, hrest, hlength⟩ := ih _ hless hsound rfl
      refine ⟨_, _, .again hround hrest, ?_⟩
      rw [List.length_cons]
      omega

/-- What the calls of a loop mean for the result that it returns. -/
structure Outcome (compressed : Bytes) (s : DecompressionLoop z) (calls : List (InflateResult z.State))
    (result : Except InstructionError Bytes) : Prop where
  from_eq : decompressFrom z compressed s.state s.consumed s.output = result
  length_le : ∀ out, result = .ok out → out.length ≤ maxDecompressedInstructionBytes
  streamEnd : ∀ out, result = .ok out → ∃ last, calls.getLast? = some last ∧ last.status = .streamEnd
  consumed : ∀ out, result = .ok out → s.consumed + (calls.map (·.bytesConsumed)).sum = compressed.length
  output : ∀ out, result = .ok out → out = s.output ++ calls.flatMap (·.written)
  large : result = .error .decodedTooLarge →
    maxDecompressedInstructionBytes < (s.output ++ calls.flatMap (·.written)).length

theorem Runs.outcome {calls : List (InflateResult z.State)} {result : Except InstructionError Bytes}
    (h : Runs compressed s calls result) (hs : s.Sound compressed) : Outcome compressed s calls result := by
  induction h with
  | returns hround =>
    cases rounds hs with
    | fails e hfails hfrom hlarge =>
      cases hfails.symm.trans hround
      refine ⟨hfrom, nofun, nofun, nofun, nofun, fun he => ?_⟩
      have := hlarge (Except.error.inj he)
      simpa using this
    | ends hends hfrom hstatus hconsumed hlength =>
      cases hends.symm.trans hround
      refine ⟨hfrom, fun out hout => ?_, fun out _ => ⟨_, rfl, hstatus⟩, fun out _ => by simpa using hconsumed,
        fun out hout => ?_, nofun⟩
      · cases hout
        exact hlength
      · cases hout
        simp
    | again next hagain => cases hagain.symm.trans hround
  | @again s next calls result hround hrest ih =>
    cases rounds hs with
    | fails e hfails => cases hfails.symm.trans hround
    | ends hends => cases hends.symm.trans hround
    | again next hagain hfrom hsound houtput hconsumed =>
      cases hagain.symm.trans hround
      obtain ⟨hfromNext, hlength, hend, hinput, hwritten, hlarge⟩ := ih hsound
      refine ⟨hfrom.trans hfromNext, hlength, fun out hout => ?_, fun out hout => ?_, fun out hout => ?_, fun he => ?_⟩
      · obtain ⟨last, hlast, hstatus⟩ := hend out hout
        exact ⟨last, by simp [List.getLast?_cons, hlast], hstatus⟩
      · have := hinput out hout
        rw [hconsumed] at this
        rw [List.map_cons, List.sum_cons]
        omega
      · rw [hwritten out hout, houtput, List.flatMap_cons, List.append_assoc]
      · have := hlarge he
        rwa [houtput, List.append_assoc] at this

/-- The variables of the loop before each of its rounds. -/
inductive Reached (compressed : Bytes) : DecompressionLoop z → Prop where
  | start : Reached compressed (start z)
  | again {s next : DecompressionLoop z} (h : Reached compressed s) (hround : s.round compressed = .ok (.inl next)) :
      Reached compressed next

theorem Reached.sound (h : Reached compressed s) : s.Sound compressed := by
  induction h with
  | start => exact sound_start compressed
  | again _ hround ih =>
    cases rounds ih with
    | fails e hfails => cases hfails.symm.trans hround
    | ends hends => cases hends.symm.trans hround
    | again next hagain _ hsound =>
      cases hagain.symm.trans hround
      exact hsound

theorem Sound.round_ok (hs : s.Sound compressed) : ∃ outcome, s.round compressed = .ok outcome := by
  cases rounds hs with
  | fails e hround => exact ⟨_, hround⟩
  | ends hround => exact ⟨_, hround⟩
  | again next hround => exact ⟨_, hround⟩

/-- Whatever inflate does within its contract, the loop of `decompress_exact_zlib` returns; no round panics, and the
    output stays within the limit. An output is returned only at the end of the stream, with all of the input
    consumed, and is all that was written; and it is called too large only when more than the limit was written. -/
theorem decompression_bounded_exact (z : Inflate) (compressed : Bytes) :
    ∃ calls result, Runs compressed (start z) calls result ∧ decompressExactZlib z compressed = result ∧
      calls.length ≤ compressed.length + maxDecompressedInstructionBytes + 1 ∧
      (∀ s : DecompressionLoop z, Reached compressed s →
        s.output.length ≤ maxDecompressedInstructionBytes ∧ ∃ outcome, s.round compressed = .ok outcome) ∧
      (∀ out, result = .ok out → out.length ≤ maxDecompressedInstructionBytes ∧
        (∃ last, calls.getLast? = some last ∧ last.status = .streamEnd) ∧
        (calls.map (·.bytesConsumed)).sum = compressed.length ∧ out = calls.flatMap (·.written)) ∧
      (result = .error .decodedTooLarge → maxDecompressedInstructionBytes < (calls.flatMap (·.written)).length) := by
  have hstart : (start z).Sound compressed := sound_start compressed
  obtain ⟨calls, result, hruns, hlength⟩ := exists_runs hstart
  obtain ⟨hfrom, hbound, hend, hconsumed, houtput, hlarge⟩ := hruns.outcome hstart
  refine ⟨calls, result, hruns, hfrom, ?_, ?_, ?_, ?_⟩
  · simpa [left, start] using hlength
  · intro s hs
    exact ⟨hs.sound.output_le, hs.sound.round_ok⟩
  · intro out hout
    refine ⟨hbound out hout, hend out hout, ?_, houtput out hout⟩
    simpa [start] using hconsumed out hout
  · intro he
    simpa [start] using hlarge he

end MoshClient.DecompressionLoop
