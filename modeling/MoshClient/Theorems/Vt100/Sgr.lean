import Mathlib.Tactic.IntervalCases
import MoshClient.Theorems.Vt100.Cells
import MoshClient.Theorems.Vt100.Paint

/-! Attributes that are written and read back. The bytes for a change of attributes are a control sequence whose
    parameters make the change, part by part. No attributes are bold and dim at once, on any screen. -/

namespace MoshClient.Vt100
open Checked

/-! ### Control sequences -/

namespace Vte

/-- The number that digits are read as. -/
def number (digits : Bytes) : Nat := digits.foldl (fun n digit => n * 10 + (digit.toNat - 0x30)) 0

/-- What `vte` holds of a control sequence: up to 32 numbers of 16 bits, where a number without digits is zero. -/
structure ReadsSequences (vte : Vte) : Prop where
  nil : (vte.advance vte.new []).1 = []
  csi : ∀ (numbers : List Bytes) (final : UInt8), numbers ≠ [] → numbers.length ≤ 32 →
    (∀ digits ∈ numbers, number digits ≤ 65535 ∧ ∀ digit ∈ digits, 0x30 ≤ digit ∧ digit ≤ 0x39) →
    0x40 ≤ final ∧ final ≤ 0x7e →
    (vte.advance vte.new ([0x1b, 0x5b] ++ [0x3b].intercalate numbers ++ [final])).1 =
      [.csiDispatch (numbers.map fun digits => [number digits]) [] (Char.ofNat final.toNat)]

theorem number_append (digits : Bytes) (digit : UInt8) :
    number (digits ++ [digit]) = number digits * 10 + (digit.toNat - 0x30) := by
  unfold number
  rw [List.foldl_append]
  rfl

end Vte

namespace SketchState

theorem advance_digits {digits : Bytes} (hdigits : ∀ digit ∈ digits, 0x30 ≤ digit ∧ digit ≤ 0x39)
    (params : List (List Nat)) (param : Nat) (rest : Bytes) :
    advance (.csi [] params param) (digits ++ rest) =
      advance (.csi [] params (digits.foldl (fun n digit => n * 10 + (digit.toNat - 0x30)) param)) rest := by
  induction digits generalizing param with
  | nil => rfl
  | cons digit digits ih =>
    have hstep : step digit (.csi [] params param) = ([], .csi [] params (param * 10 + (digit.toNat - 0x30))) :=
      if_pos (hdigits digit List.mem_cons_self)
    rw [List.cons_append, advance, hstep, ih fun d hd => hdigits d (List.mem_cons_of_mem _ hd)]
    rfl

theorem advance_sequence {numbers : List Bytes} {final : UInt8} (hne : numbers ≠ [])
    (hnumbers : ∀ digits ∈ numbers, ∀ digit ∈ digits, 0x30 ≤ digit ∧ digit ≤ 0x39) (hfinal : 0x40 ≤ final)
    (params : List (List Nat)) :
    (advance (.csi [] params 0) ([0x3b].intercalate numbers ++ [final])).1 =
      [.csiDispatch (params ++ numbers.map fun digits => [Vte.number digits]) [] (Char.ofNat final.toNat)] := by
  have hstep (params : List (List Nat)) (param : Nat) : step final (.csi [] params param) =
      ([.csiDispatch (params ++ [[param]]) [] (Char.ofNat final.toNat)], .ground) := by
    have hdigit : ¬(0x30 ≤ final ∧ final ≤ 0x39) := by
      intro h
      exact absurd (UInt8.le_trans hfinal h.2) (by decide)
    have hseparator : final ≠ 0x3b := by
      rintro rfl
      exact absurd hfinal (by decide)
    have hlow : ¬final < 0x40 := UInt8.not_lt.mpr hfinal
    simp only [step, if_neg hdigit, if_neg hseparator, if_neg hlow]
  induction numbers generalizing params with
  | nil => exact absurd rfl hne
  | cons digits numbers ih =>
    have hdigits := hnumbers digits List.mem_cons_self
    cases numbers with
    | nil =>
      rw [show [0x3b].intercalate [digits] = digits by simp [List.intercalate], advance_digits hdigits, advance, hstep]
      rfl
    | cons more numbers =>
      have hjoin : [0x3b].intercalate (digits :: more :: numbers) ++ [final] =
          digits ++ 0x3b :: ([0x3b].intercalate (more :: numbers) ++ [final]) := by
        simp [List.intercalate]
      have hrest := ih (by simp) (fun d hd => hnumbers d (List.mem_cons_of_mem _ hd)) (params ++ [[Vte.number digits]])
      rw [hjoin, advance_digits hdigits, advance]
      show (advance (.csi [] (params ++ [[Vte.number digits]]) 0) _).1 = _
      rw [hrest, List.append_assoc]
      rfl

end SketchState

theorem sketch_readsSequences : sketch.vte.ReadsSequences where
  nil := rfl
  csi := by
    intro numbers final hne _ hnumbers hfinal
    exact SketchState.advance_sequence hne (fun digits hdigits => (hnumbers digits hdigits).2) hfinal.1 []

namespace Term

theorem itoa_eq (n : Nat) : itoa n = (if n < 10 then [] else itoa (n / 10)) ++ [UInt8.ofNat (0x30 + n % 10)] := by
  have hdigit {d : Nat} (hd : d < 10) : d.digitChar.toNat.toUInt8 = UInt8.ofNat (0x30 + d) := by
    rw [Nat.toNat_digitChar_of_lt_ten hd]
  unfold itoa
  rw [Nat.toDigits_eq_if (by decide)]
  split
  · rw [Nat.mod_eq_of_lt ‹_›, List.map_singleton, hdigit ‹_›]
    rfl
  · rw [List.map_append, List.map_singleton, hdigit (Nat.mod_lt n (by decide))]

theorem toNat_digit {d : Nat} (hd : d < 10) : (UInt8.ofNat (0x30 + d)).toNat = 0x30 + d := by
  rw [UInt8.toNat_ofNat']
  omega

theorem number_itoa (n : Nat) : Vte.number (itoa n) = n := by
  induction n using Nat.strongRecOn with
  | _ n ih =>
    rw [itoa_eq, Vte.number_append, toNat_digit (Nat.mod_lt n (by decide))]
    split
    · show 0 * 10 + _ = n
      omega
    · rw [ih (n / 10) (by omega)]
      omega

theorem mem_itoa {n : Nat} {digit : UInt8} (h : digit ∈ itoa n) : 0x30 ≤ digit ∧ digit ≤ 0x39 := by
  induction n using Nat.strongRecOn with
  | _ n ih =>
    rw [itoa_eq] at h
    rcases List.mem_append.mp h with h | h
    · split at h
      · exact absurd h List.not_mem_nil
      · exact ih (n / 10) (by omega) h
    · have hd := toNat_digit (Nat.mod_lt n (show 0 < 10 by decide))
      rw [List.mem_singleton.mp h, UInt8.le_iff_toNat_le, UInt8.le_iff_toNat_le, hd]
      exact ⟨Nat.le_add_right _ _, by show 0x30 + n % 10 ≤ 57; omega⟩

end Term

namespace Attrs

variable {prev next attrs : Attrs}

theorem sgrBytes_eq (param : Nat) (params : List Nat) :
    sgrBytes (param :: params) =
      [0x1b, 0x5b] ++ [0x3b].intercalate ((param :: params).map Term.itoa) ++ [0x6d] := by
  have hjoin : ∀ (param : Nat) (params : List Nat), [0x3b].intercalate ((param :: params).map Term.itoa) =
      Term.itoa param ++ params.flatMap fun param => 0x3b :: Term.itoa param := by
    intro param params
    induction params generalizing param with
    | nil => simp [List.intercalate]
    | cons next params ih =>
      have hnext := ih next
      simp only [List.intercalate, List.map_cons, List.intersperse_cons_cons, List.flatten_cons, List.flatMap_cons] at hnext ⊢
      rw [hnext]
      simp
  rw [hjoin, sgrBytes, List.append_assoc [0x1b, 0x5b], List.append_assoc [0x1b, 0x5b]]

/-- The parser delivers the parameters that were written, and what has no digits as a zero. -/
theorem events_sgrBytes {vte : Vte} (hvte : vte.ReadsSequences) {params : List Nat} (hne : params ≠ [])
    (hlength : params.length ≤ 32) (hparams : ∀ param ∈ params, param ≤ 65535) :
    (vte.advance vte.new (sgrBytes params)).1 = [.csiDispatch (params.map ([·])) [] 'm'] := by
  obtain ⟨param, params, rfl⟩ := List.exists_cons_of_ne_nil hne
  rw [sgrBytes_eq, hvte.csi _ 0x6d (by simp) (by simpa using hlength) ?_ (by decide)]
  · simp [Function.comp_def, Term.number_itoa]
  · intro digits hdigits
    obtain ⟨n, hn, rfl⟩ := List.mem_map.mp hdigits
    rw [Term.number_itoa]
    exact ⟨hparams n hn, fun _ => Term.mem_itoa⟩

theorem events_clearAttrs {vte : Vte} (hvte : vte.ReadsSequences) :
    (vte.advance vte.new Term.clearAttrs).1 = [.csiDispatch [[0]] [] 'm'] :=
  hvte.csi [[]] 0x6d (by decide) (by decide) (by simp [Vte.number]) (by decide)

/-! ### Reading parameters -/

/-- The parameters change some attributes into others, and whatever follows them goes on from there. -/
def Steps (params : List Nat) (attrs next : Attrs) : Prop :=
  ∀ rest unhandled, sgrLoop (params.map ([·]) ++ rest) 0 (attrs, unhandled) = sgrLoop rest 0 (next, unhandled)

theorem Steps.nil (attrs : Attrs) : Steps [] attrs attrs := fun _ _ => rfl

theorem Steps.append {params more : List Nat} {last : Attrs} (h : Steps params attrs next) (hmore : Steps more next last) :
    Steps (params ++ more) attrs last := by
  intro rest unhandled
  rw [List.map_append, List.append_assoc, h, hmore]

theorem Steps.number {n : Nat} (hn : n ≠ 38 ∧ n ≠ 48) (h : attrs.sgrNumber n = .attrs next) : Steps [n] attrs next := by
  intro rest unhandled
  simp [sgrLoop, hn.1, hn.2, sgrParam, h]

/-- Parameters that make a change: up to `count` of them, of a byte each. -/
structure Changes (count : Nat) (params : List Nat) (attrs next : Attrs) : Prop where
  length : params.length ≤ count
  byte : ∀ param ∈ params, param ≤ 255
  steps : Steps params attrs next

theorem Changes.nil (count : Nat) (attrs : Attrs) : Changes count [] attrs attrs :=
  ⟨Nat.zero_le _, fun _ h => absurd h List.not_mem_nil, .nil attrs⟩

theorem Changes.append {m n : Nat} {params more : List Nat} {last : Attrs} (h : Changes m params attrs next)
    (hmore : Changes n more next last) : Changes (m + n) (params ++ more) attrs last where
  length := by
    rw [List.length_append]
    exact Nat.add_le_add h.length hmore.length
  byte := fun param hparam => (List.mem_append.mp hparam).elim (h.byte param) (hmore.byte param)
  steps := h.steps.append hmore.steps

theorem Changes.number {n : Nat} (hbyte : n ≤ 255) (hn : n ≠ 38 ∧ n ≠ 48) (h : attrs.sgrNumber n = .attrs next) :
    Changes 1 [n] attrs next :=
  ⟨Nat.le_refl 1, fun _ hparam => List.mem_singleton.mp hparam ▸ hbyte, .number hn h⟩

theorem u16ToU8_toNat (i : UInt8) : u16ToU8 i.toNat = some i := by
  have := i.toNat_lt
  unfold u16ToU8
  rw [if_neg (by omega), UInt8.ofNat_toNat]

/-- How the parameters around `base` and `bright` select a colour of the text or of the background. -/
structure Selects (base bright : Nat) (attrs : Attrs) (select : Color → Attrs) : Prop where
  default : Steps [base + 9] attrs (select .default)
  idx : ∀ k < 8, Steps [k + base] attrs (select (.idx (UInt8.ofNat k)))
  bright : ∀ k < 8, Steps [k + 8 + bright] attrs (select (.idx (UInt8.ofNat (k + 8))))
  extended : ∀ {params color taken} (unhandled : Bool), nextColor params = .ok (color, taken) →
    sgrLoop ([base + 8] :: params) 0 (attrs, unhandled) = sgrLoop params taken (select color, unhandled)

theorem selects_fgcolor (attrs : Attrs) : Selects 30 82 attrs fun color => { attrs with fgcolor := color } where
  default := .number (by decide) rfl
  idx := by
    intro k hk
    interval_cases k <;> exact .number (by decide) rfl
  bright := by
    intro k hk
    interval_cases k <;> exact .number (by decide) rfl
  extended := by
    intro params color taken unhandled h
    simp [sgrLoop, h]

theorem selects_bgcolor (attrs : Attrs) : Selects 40 92 attrs fun color => { attrs with bgcolor := color } where
  default := .number (by decide) rfl
  idx := by
    intro k hk
    interval_cases k <;> exact .number (by decide) rfl
  bright := by
    intro k hk
    interval_cases k <;> exact .number (by decide) rfl
  extended := by
    intro params color taken unhandled h
    simp [sgrLoop, h]

theorem Selects.steps {base bright : Nat} {select : Color → Attrs} (h : Selects base bright attrs select) (color : Color) :
    Steps (colorParams base bright color) attrs (select color) := by
  cases color with
  | default => exact h.default
  | idx i =>
    show Steps (if _ then _ else if _ then _ else _) _ _
    split_ifs with hlow hhigh
    · have := h.idx i.toNat hlow
      rwa [UInt8.ofNat_toNat] at this
    · obtain ⟨k, hk⟩ := Nat.exists_eq_add_of_le' (Nat.le_of_not_lt hlow)
      have := h.bright k (by omega)
      rwa [← hk, UInt8.ofNat_toNat] at this
    · intro rest unhandled
      have hnext : nextColor ([5] :: [i.toNat] :: rest) = .ok (.idx i, 2) := by
        simp [nextColor, Attrs.idx, u16ToU8_toNat]
      exact h.extended unhandled hnext
  | rgb r g b =>
    intro rest unhandled
    have hnext : nextColor ([2] :: [r.toNat] :: [g.toNat] :: [b.toNat] :: rest) = .ok (.rgb r g b, 4) := by
      simp [nextColor, Attrs.rgb, u16ToU8_toNat]
    exact h.extended unhandled hnext

/-! ### Parts of the mode -/

/-- The bits of a mask from one mode, and the others from another. -/
def blend (mask : BitVec 8) (old new : BitVec 8) : BitVec 8 := old &&& ~~~mask ||| new &&& mask

theorem getElem_blend (mask old new : BitVec 8) (i : Nat) (hi : i < 8) :
    (blend mask old new)[i] = if mask[i] then new[i] else old[i] := by
  simp only [blend, BitVec.getElem_or, BitVec.getElem_and, BitVec.getElem_not]
  cases mask[i] <;> simp

theorem blend_zero (old new : BitVec 8) : blend 0 old new = old := by
  show old &&& ~~~0#8 ||| new &&& 0#8 = old
  rw [BitVec.not_zero, BitVec.and_allOnes, BitVec.and_zero, BitVec.or_zero]

theorem blend_blend (mask more old new : BitVec 8) : blend more (blend mask old new) new = blend (mask ||| more) old new := by
  refine BitVec.eq_of_getElem_eq fun i hi => ?_
  simp only [getElem_blend, BitVec.getElem_or]
  cases mask[i] <;> cases more[i] <;> rfl

/-- Bits that are the same in both modes are taken from either. -/
theorem blend_of_eq {mask more old new : BitVec 8} (h : new &&& more = old &&& more) :
    blend mask old new = blend (mask ||| more) old new := by
  refine BitVec.eq_of_getElem_eq fun i hi => ?_
  have hat : (new[i] && more[i]) = (old[i] && more[i]) := by simpa using congrArg (·[i]) h
  simp only [getElem_blend, BitVec.getElem_or]
  cases hmore : more[i] <;> cases mask[i] <;> simp_all

/-- The bit that stands for no attribute. -/
def textModeSpare : BitVec 8 := 0b10000000

theorem blend_all {old new : BitVec 8} (h : new &&& textModeSpare = old &&& textModeSpare) :
    blend (~~~textModeSpare) old new = new := by
  refine BitVec.eq_of_getElem_eq fun i hi => ?_
  have hat : (new[i] && textModeSpare[i]) = (old[i] && textModeSpare[i]) := by simpa using congrArg (·[i]) h
  rw [getElem_blend, BitVec.getElem_not]
  cases hspare : textModeSpare[i] <;> simp_all

/-- The colours of the next attributes, with its mode under a mask. -/
def mixed (prev next : Attrs) (mask : BitVec 8) : Attrs := ⟨next.fgcolor, next.bgcolor, blend mask prev.mode next.mode⟩

theorem mixed_of_eq {mask more : BitVec 8} (h : next.mode &&& more = prev.mode &&& more) :
    mixed prev next mask = mixed prev next (mask ||| more) := by
  unfold mixed
  rw [← blend_of_eq h]

/-- A parameter that takes one more part from the next mode. -/
theorem Changes.part {mask more : BitVec 8} {n : Nat} (hbyte : n ≤ 255) (hn : n ≠ 38 ∧ n ≠ 48)
    (h : ∀ attrs : Attrs, attrs.sgrNumber n = .attrs { attrs with mode := blend more attrs.mode next.mode }) :
    Changes 1 [n] (mixed prev next mask) (mixed prev next (mask ||| more)) := by
  refine .number hbyte hn ?_
  rw [h]
  unfold mixed
  rw [blend_blend]

theorem changes_intensityParams (h : next.Sound) (prev : Attrs) (mask : BitVec 8) :
    Returns (next.intensityParams prev) fun params =>
      Changes 1 params (mixed prev next mask) (mixed prev next (mask ||| textModeIntensity)) := by
  have hblend (mode : BitVec 8) : blend textModeIntensity mode next.mode = mode &&& ~~~textModeIntensity ||| next.intensity :=
    rfl
  unfold intensityParams
  refine returns_ite.mpr ⟨fun hsame => returns_pure.mpr ?_, fun _ => ?_⟩
  · rw [← mixed_of_eq hsame]
    exact .nil 1 _
  · rcases intensity_cases h with hnext | hnext | hnext
    · rw [if_pos hnext]
      refine returns_pure.mpr (.part (by decide) (by decide) fun attrs => ?_)
      rw [hblend, hnext, show attrs.mode &&& ~~~textModeIntensity ||| 0 = attrs.mode &&& ~~~textModeIntensity from
        BitVec.or_zero]
      rfl
    · rw [if_neg (by rw [hnext]; decide), if_pos hnext]
      refine returns_pure.mpr (.part (by decide) (by decide) fun attrs => ?_)
      rw [hblend, hnext]
      rfl
    · rw [if_neg (by rw [hnext]; decide), if_neg (by rw [hnext]; decide), if_pos hnext]
      refine returns_pure.mpr (.part (by decide) (by decide) fun attrs => ?_)
      rw [hblend, hnext]
      rfl

/-- A flag is one bit, which a number sets and another clears. -/
structure Switches (bit : BitVec 8) (on off : Nat) : Prop where
  single : ∀ mode : BitVec 8, mode &&& bit = if mode &&& bit != 0 then bit else 0
  numbers : (on ≤ 255 ∧ on ≠ 38 ∧ on ≠ 48) ∧ off ≤ 255 ∧ off ≠ 38 ∧ off ≠ 48
  sets : ∀ attrs : Attrs, attrs.sgrNumber on = .attrs (attrs.setFlag bit true)
  clears : ∀ attrs : Attrs, attrs.sgrNumber off = .attrs (attrs.setFlag bit false)

theorem setFlag_eq (attrs : Attrs) (bit : BitVec 8) (on : Bool) :
    attrs.setFlag bit on = { attrs with mode := attrs.mode &&& ~~~bit ||| (if on then bit else 0) } := by
  have hmode : (attrs.setFlag bit on).mode = attrs.mode &&& ~~~bit ||| (if on then bit else 0) := by
    refine BitVec.eq_of_getElem_eq fun i hi => ?_
    cases on
    · simp [setFlag]
    · simp only [setFlag, if_true, BitVec.getElem_or, BitVec.getElem_and, BitVec.getElem_not]
      cases attrs.mode[i] <;> cases bit[i] <;> rfl
  rw [← hmode]
  rfl

theorem Switches.changes {bit : BitVec 8} {on off : Nat} (h : Switches bit on off) (prev next : Attrs) (mask : BitVec 8) :
    Changes 1 (flagParams (flag · bit) on off next prev) (mixed prev next mask) (mixed prev next (mask ||| bit)) := by
  obtain ⟨⟨hon, hon'⟩, hoff, hoff'⟩ := h.numbers
  have hsingle (attrs : Attrs) : attrs.mode &&& bit = if attrs.flag bit then bit else 0 := h.single attrs.mode
  have hblend (attrs : Attrs) : attrs.setFlag bit (next.flag bit) = { attrs with mode := blend bit attrs.mode next.mode } := by
    rw [setFlag_eq, ← hsingle]
    rfl
  unfold flagParams
  by_cases hsame : next.flag bit = prev.flag bit
  · rw [if_pos hsame, ← mixed_of_eq (by rw [hsingle, hsingle, hsame])]
    exact .nil 1 _
  · rw [if_neg hsame]
    by_cases hnext : next.flag bit = true
    · rw [if_pos hnext]
      refine .part hon hon' fun attrs => ?_
      rw [h.sets, ← hnext, hblend]
    · rw [if_neg hnext]
      refine .part hoff hoff' fun attrs => ?_
      rw [h.clears, ← Bool.eq_false_iff.mpr hnext, hblend]

theorem switches_italic : Switches textModeItalic 3 23 := ⟨by decide, by decide, fun _ => rfl, fun _ => rfl⟩

theorem switches_underline : Switches textModeUnderline 4 24 := ⟨by decide, by decide, fun _ => rfl, fun _ => rfl⟩

theorem switches_inverse : Switches textModeInverse 7 27 := ⟨by decide, by decide, fun _ => rfl, fun _ => rfl⟩

theorem switches_blink : Switches textModeBlink 5 25 := ⟨by decide, by decide, fun _ => rfl, fun _ => rfl⟩

theorem switches_hidden : Switches textModeHidden 8 28 := ⟨by decide, by decide, fun _ => rfl, fun _ => rfl⟩

/-! ### The difference -/

theorem length_colorParams (base bright : Nat) (color : Color) : (colorParams base bright color).length ≤ 5 := by
  cases color with
  | default => exact show 1 ≤ 5 by decide
  | idx i =>
    show (if _ then _ else if _ then _ else _ : List Nat).length ≤ 5
    split_ifs <;> simp
  | rgb r g b => exact Nat.le_refl 5

theorem colorParams_le {base bright : Nat} (hbase : base ≤ 40) (hbright : bright ≤ 92) (color : Color) :
    ∀ param ∈ colorParams base bright color, param ≤ 255 := by
  intro param hparam
  cases color with
  | default =>
    rw [List.mem_singleton.mp hparam]
    omega
  | idx i =>
    have := i.toNat_lt
    simp only [colorParams] at hparam
    split_ifs at hparam <;> simp at hparam <;> omega
  | rgb r g b =>
    have := r.toNat_lt
    have := g.toNat_lt
    have := b.toNat_lt
    simp only [colorParams, List.mem_cons, List.not_mem_nil, or_false] at hparam
    omega

/-- The parameters of a difference change the one into the other. -/
theorem changes_diffParams (h : next.Sound) (hspare : next.mode &&& textModeSpare = prev.mode &&& textModeSpare) :
    Returns (next.diffParams prev) fun params => Changes 16 params prev next := by
  have hfg : Changes 5 (if next.fgcolor = prev.fgcolor then [] else colorParams 30 82 next.fgcolor) prev
      { prev with fgcolor := next.fgcolor } := by
    split_ifs with hsame
    · rw [hsame]
      exact .nil 5 prev
    · exact ⟨length_colorParams _ _ _, colorParams_le (by decide) (by decide) _, (selects_fgcolor prev).steps _⟩
  have hbg : Changes 5 (if next.bgcolor = prev.bgcolor then [] else colorParams 40 92 next.bgcolor)
      { prev with fgcolor := next.fgcolor } (mixed prev next 0) := by
    unfold mixed
    rw [blend_zero]
    split_ifs with hsame
    · rw [hsame]
      exact .nil 5 _
    · exact ⟨length_colorParams _ _ _, colorParams_le (by decide) (by decide) _, (selects_bgcolor _).steps _⟩
  refine returns_bind.mpr ((changes_intensityParams h prev 0).mono fun intensity hintensity => returns_pure.mpr ?_)
  have hall := ((((((hfg.append hbg).append hintensity).append (switches_italic.changes prev next _)).append
    (switches_underline.changes prev next _)).append (switches_inverse.changes prev next _)).append
    (switches_blink.changes prev next _)).append (switches_hidden.changes prev next _)
  have hnext : mixed prev next (0 ||| textModeIntensity ||| textModeItalic ||| textModeUnderline ||| textModeInverse |||
      textModeBlink ||| textModeHidden) = next := by
    unfold mixed
    rw [show 0 ||| textModeIntensity ||| textModeItalic ||| textModeUnderline ||| textModeInverse ||| textModeBlink |||
      textModeHidden = ~~~textModeSpare from by decide, blend_all hspare]
  rw [hnext] at hall
  exact hall

theorem diffParams_self (attrs : Attrs) : attrs.diffParams attrs = .ok [] := by
  simp [diffParams, intensityParams, flagParams, pure, Except.pure, bind, Except.bind]

theorem writeEscapeCodeDiff_self (attrs : Attrs) : attrs.writeEscapeCodeDiff attrs = .ok [] := by
  unfold writeEscapeCodeDiff
  rw [if_neg fun h => h.1 rfl, diffParams_self]
  rfl

/-! ### Attributes on a screen -/

/-- Not bold and dim at once, and nothing else than what the flags stand for. -/
structure Proper (attrs : Attrs) : Prop where
  sound : attrs.Sound
  spare : attrs.mode &&& textModeSpare = 0

theorem proper_default : Attrs.default.Proper := ⟨sound_default, by decide⟩

theorem rendition_proper : Rendition Proper where
  default := proper_default
  colors := by
    intro attrs next h hmode
    exact ⟨h.sound.of_mode hmode, hmode ▸ h.spare⟩
  intensity := by
    intro attrs h
    obtain ⟨hbold, hdim, hnormal⟩ := sound_setIntensity attrs
    have hspare : ∀ mode : BitVec 8, mode &&& textModeSpare = 0 →
        (mode &&& ~~~textModeIntensity ||| textModeBold) &&& textModeSpare = 0 ∧
        (mode &&& ~~~textModeIntensity ||| textModeDim) &&& textModeSpare = 0 ∧
        (mode &&& ~~~textModeIntensity) &&& textModeSpare = 0 := by decide
    obtain ⟨hbold', hdim', hnormal'⟩ := hspare attrs.mode h.spare
    exact ⟨⟨hbold, hbold'⟩, ⟨hdim, hdim'⟩, hnormal, hnormal'⟩
  flags := by
    intro attrs on bit h hbit
    refine ⟨rendition_sound.flags attrs on h.sound hbit, ?_⟩
    have hspare : ∀ bit ∈ [textModeItalic, textModeUnderline, textModeInverse, textModeBlink, textModeHidden],
        ∀ (on : Bool) (mode : BitVec 8), mode &&& textModeSpare = 0 →
          (if on then mode ||| bit else mode &&& ~~~bit) &&& textModeSpare = 0 := by decide +kernel
    exact hspare bit hbit on attrs.mode h.spare

theorem kind_proper : Kind (·.attrs.Proper) Proper where
  new := proper_default
  clear := fun _ _ ha => ha
  clearOwn := fun _ h => h
  continuation := fun _ _ h => h
  set := fun _ _ _ _ ha => allows_bind.mpr (.of_forall fun _ => allows_pure.mpr ha)
  rendition := rendition_proper

theorem allows_append_proper (c : Char) (cell : Cell) (h : cell.attrs.Proper) : Allows (cell.append c) (·.attrs.Proper) :=
  allows_ite.mpr ⟨fun _ => allows_ok.mpr h, fun _ => allows_ite.mpr ⟨fun _ => allows_ok.mpr h, fun _ => allows_error⟩⟩

theorem invariant_proper (crates : Crates) :
    TerminalState.Invariant crates (Screen.MadeOf (fun _ => True) (·.attrs.Proper) Proper) :=
  TerminalState.invariant_madeOf kind_proper allows_append_proper fun _ _ _ => trivial

end Attrs

/-- The attributes that the screen draws with, or has drawn with. -/
def Screen.Bears (s : Screen) (attrs : Attrs) : Prop :=
  attrs = s.attrs ∨ attrs = s.savedAttrs ∨ ∃ row ∈ s.grid.rows ++ s.alternateGrid.rows, ∃ cell ∈ row.cells, attrs = cell.attrs

theorem Screen.MadeOf.bears {S : Size → Prop} {Q : Attrs → Prop} {s : Screen} (h : s.MadeOf S (fun cell => Q cell.attrs) Q)
    {attrs : Attrs} (hbears : s.Bears attrs) : Q attrs := by
  rcases hbears with rfl | rfl | ⟨row, hrow, cell, hcell, rfl⟩
  · exact h.attrs
  · exact h.savedAttrs
  · rcases List.mem_append.mp hrow with hrow | hrow
    · exact h.grid.rows row hrow cell hcell
    · exact h.alternate.rows row hrow cell hcell

namespace WrappedScreen

variable {w : WrappedScreen} {unicode : UnicodeWidth}

/-- The parser has delivered one `CSI m`, all of whose parameters the screen handles. -/
theorem process_sgr {params : List (List Nat)} {attrs : Attrs} (hne : params ≠ [])
    (h : Attrs.sgrLoop params 0 (w.screen.attrs, false) = (attrs, false)) :
    w.process unicode [.csiDispatch params [] 'm'] = .ok { w with screen.attrs := attrs } := by
  have hsgr : w.screen.sgr params = ({ w.screen with attrs }, false) := by
    unfold Screen.sgr
    rw [if_neg hne, h]
  show w.orUnhandled params none 'm' (fun screen => pure (screen.sgr params)) >>= pure = _
  simp only [orUnhandled, hsgr]
  rfl

/-- The bytes of a difference, read by a screen that has the other attributes. -/
theorem exists_difference {crates : Crates} (hvte : crates.vte.ReadsSequences) {prev next : Attrs} (hprev : prev.Proper)
    (hnext : next.Proper) :
    ∃ bytes, next.writeEscapeCodeDiff prev = .ok bytes ∧
      ∀ w : WrappedScreen, w.screen.attrs = prev →
        w.process crates.unicode (crates.vte.advance crates.vte.new bytes).1 = .ok { w with screen.attrs := next } := by
  by_cases hreset : next ≠ prev ∧ next = .default
  · refine ⟨Term.clearAttrs, if_pos hreset, fun w hw => ?_⟩
    rw [Attrs.events_clearAttrs hvte]
    refine process_sgr (by decide) ?_
    rw [hreset.2]
    rfl
  · obtain ⟨params, hparams, hchanges⟩ := Attrs.changes_diffParams hnext.sound (hnext.spare.trans hprev.spare.symm)
    refine ⟨Attrs.sgrBytes params, ?_, fun w hw => ?_⟩
    · unfold Attrs.writeEscapeCodeDiff
      rw [if_neg hreset, hparams]
      rfl
    · have hloop := hchanges.steps [] false
      rw [List.append_nil] at hloop
      by_cases hne : params = []
      · subst hne
        have hsame : prev = next := congrArg Prod.fst hloop
        rw [show Attrs.sgrBytes [] = [] from rfl, hvte.nil, ← hsame, ← hw]
        rfl
      · rw [Attrs.events_sgrBytes hvte hne (Nat.le_trans hchanges.length (by decide))
          fun param hparam => Nat.le_trans (hchanges.byte param hparam) (by decide)]
        refine process_sgr (by simpa using hne) ?_
        rw [hw, hloop]
        rfl

end WrappedScreen

/-- The bytes for a change of attributes make the change, and there are none for no change. No sequence of parameters
    makes text bold and dim at once, and no screen has such text, so that the bytes are always written. -/
theorem attrs_difference_round_trip {crates : Crates} (hvte : crates.vte.ReadsSequences) :
    (∀ prev next : Attrs, prev.Proper → next.Proper →
      ∃ bytes, next.writeEscapeCodeDiff prev = .ok bytes ∧ (next = prev → bytes = []) ∧
        ∀ w : WrappedScreen, w.screen.attrs = prev →
          w.process crates.unicode (crates.vte.advance crates.vte.new bytes).1 = .ok { w with screen.attrs := next }) ∧
    (∀ (screen : Screen) (sequences : List (List (List Nat))), screen.attrs.Sound →
      (sequences.foldl (fun screen params => (screen.sgr params).1) screen).attrs.Sound) ∧
    ∀ s : TerminalState, s.Built crates → ∀ attrs, s.screen.Bears attrs →
      attrs.Proper ∧ ∀ other, ∃ bytes, attrs.writeEscapeCodeDiff other = .ok bytes := by
  refine ⟨fun prev next hprev hnext => ?_, fun screen sequences h => ?_, fun s hs attrs hbears => ?_⟩
  · obtain ⟨bytes, hbytes, hread⟩ := WrappedScreen.exists_difference hvte hprev hnext
    refine ⟨bytes, hbytes, fun hsame => ?_, hread⟩
    rw [hsame, Attrs.writeEscapeCodeDiff_self] at hbytes
    cases hbytes
    rfl
  · induction sequences generalizing screen with
    | nil => exact h
    | cons params sequences ih =>
      refine ih (screen.sgr params).1 ?_
      unfold Screen.sgr
      split
      · exact Attrs.sound_default
      · exact Attrs.rendition_sound.sgrLoop h params 0 false
  · have hproper : attrs.Proper := ((Attrs.invariant_proper crates).of_built hs).bears hbears
    refine ⟨hproper, fun other => ?_⟩
    obtain ⟨bytes, hbytes, -⟩ := Attrs.returns_writeEscapeCodeDiff hproper.sound other
    exact ⟨bytes, hbytes⟩

theorem attrs_difference_round_trip_bold :
    ∃ bytes, (Attrs.setBold .default).writeEscapeCodeDiff .default = .ok bytes ∧
      ∀ w : WrappedScreen, w.screen.attrs = .default →
        w.process sketch.unicode (sketch.vte.advance sketch.vte.new bytes).1 =
          .ok { w with screen.attrs := Attrs.setBold .default } := by
  have hproper : (Attrs.setBold .default).Proper := (Attrs.rendition_proper.intensity _ Attrs.proper_default).1
  obtain ⟨bytes, hbytes, -, hread⟩ := (attrs_difference_round_trip sketch_readsSequences).1 _ _ Attrs.proper_default hproper
  exact ⟨bytes, hbytes, hread⟩

end MoshClient.Vt100
