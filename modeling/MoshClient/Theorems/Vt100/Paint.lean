import Mathlib.Data.Nat.Digits.Defs
import MoshClient.Theorems.Vt100.State
import MoshClient.Vt100.Paint

/-! How many bytes the contents of a screen take: the writers return, and a cell takes at most 86 bytes. -/

namespace MoshClient.Vt100
open Checked

/-! ### Numbers -/

namespace Term

theorem length_itoa {n digits : Nat} (hdigits : 0 < digits) (h : n < 10 ^ digits) : (itoa n).length ≤ digits := by
  unfold itoa
  rw [List.length_map]
  exact Nat.toDigits_length 10 n digits hdigits h

theorem length_itoa_two {n : Nat} (h : n < 100) : (itoa n).length ≤ 2 := length_itoa (by decide) h

theorem length_itoa_three {n : Nat} (h : n < 1000) : (itoa n).length ≤ 3 := length_itoa (by decide) h

theorem length_counted {n : Nat} (h : n < 1000) (final : UInt8) : (counted n final).length ≤ 6 := by
  have := length_itoa_three h
  unfold counted
  split
  · decide
  · exact show 3 ≤ 6 by decide
  · simp only [List.length_append, List.length_cons, List.length_nil]
    omega

theorem length_moveTo {pos : Pos} (hrow : pos.row < 999) (hcol : pos.col < 999) : (moveTo pos).length ≤ 10 := by
  have hrow := length_itoa_three (n := pos.row + 1) (by omega)
  have hcol := length_itoa_three (n := pos.col + 1) (by omega)
  unfold moveTo
  split
  · decide
  · simp only [List.length_append, List.length_cons, List.length_nil]
    omega

theorem length_moveFromTo {source target : Pos} (hrow : target.row < 999) (hcol : target.col < 999) :
    (moveFromTo source target).length ≤ 10 := by
  have hright := length_counted (n := target.col - source.col) (by omega) 0x43
  have hto := length_moveTo hrow hcol
  unfold moveFromTo
  split
  · decide
  · split
    · exact hright.trans (by decide)
    · split
      · exact hto
      · decide

end Term

/-! ### Attributes -/

namespace Attrs

variable {attrs other : Attrs}

/-- The bytes of parameters, each with a separator. -/
def paramsLength (params : List Nat) : Nat := (params.map fun param => (Term.itoa param).length + 1).sum

theorem length_sgrBytes (params : List Nat) : (sgrBytes params).length ≤ paramsLength params + 2 := by
  cases params with
  | nil => decide
  | cons param params =>
    simp only [sgrBytes, paramsLength, List.length_append, List.length_flatMap, List.length_cons, List.length_nil,
      List.map_cons, List.sum_cons]
    omega

@[simp] theorem paramsLength_nil : paramsLength [] = 0 := rfl

@[simp] theorem paramsLength_cons (n : Nat) (params : List Nat) :
    paramsLength (n :: params) = (Term.itoa n).length + 1 + paramsLength params := by simp [paramsLength]

theorem paramsLength_append (params more : List Nat) :
    paramsLength (params ++ more) = paramsLength params + paramsLength more := by
  simp [paramsLength]

/-- A colour in full takes the most. -/
theorem paramsLength_colorParams {base bright : Nat} (hbase : base < 90) (hbright : bright < 100) (color : Color) :
    paramsLength (colorParams base bright color) ≤ 17 := by
  have hbyte (b : UInt8) : (Term.itoa b.toNat).length ≤ 3 := Term.length_itoa_three (by have := b.toNat_lt; omega)
  have hselect := Term.length_itoa_two (n := base + 8) (by omega)
  cases color with
  | default =>
    have := Term.length_itoa_two (n := base + 9) (by omega)
    simp only [colorParams, paramsLength_cons, paramsLength_nil]
    omega
  | idx i =>
    have := hbyte i
    have hfive : (Term.itoa 5).length = 1 := rfl
    simp only [colorParams]
    split
    · have := Term.length_itoa_three (n := i.toNat + base) (by omega)
      simp only [paramsLength_cons, paramsLength_nil]
      omega
    · split
      · have := Term.length_itoa_three (n := i.toNat + bright) (by omega)
        simp only [paramsLength_cons, paramsLength_nil]
        omega
      · simp only [paramsLength_cons, paramsLength_nil]
        omega
  | rgb r g b =>
    have := hbyte r
    have := hbyte g
    have := hbyte b
    have htwo : (Term.itoa 2).length = 1 := rfl
    simp only [colorParams, paramsLength_cons, paramsLength_nil]
    omega

theorem paramsLength_flagParams (flag : Attrs → Bool) {m n : Nat} (hm : m < 100) (hn : n < 100) (attrs other : Attrs) :
    paramsLength (flagParams flag m n attrs other) ≤ 3 := by
  have := Term.length_itoa_two hm
  have := Term.length_itoa_two hn
  unfold flagParams
  split
  · decide
  · split <;> simp only [paramsLength_cons, paramsLength_nil] <;> omega

theorem intensity_cases (h : attrs.Sound) :
    attrs.intensity = 0 ∨ attrs.intensity = textModeBold ∨ attrs.intensity = textModeDim := by
  have hmode : ∀ mode : BitVec 8, mode &&& textModeIntensity ≠ textModeIntensity →
      mode &&& textModeIntensity = 0 ∨ mode &&& textModeIntensity = textModeBold ∨
        mode &&& textModeIntensity = textModeDim := by decide
  exact hmode attrs.mode h

theorem returns_intensityParams (h : attrs.Sound) (other : Attrs) :
    Returns (attrs.intensityParams other) fun params => paramsLength params ≤ 3 := by
  unfold intensityParams
  refine returns_ite.mpr ⟨fun _ => returns_pure.mpr (by decide), fun _ => ?_⟩
  rcases intensity_cases h with hintensity | hintensity | hintensity <;> rw [hintensity] <;>
    exact ⟨_, rfl, by decide⟩

theorem returns_diffParams (h : attrs.Sound) (other : Attrs) :
    Returns (attrs.diffParams other) fun params => paramsLength params ≤ 52 := by
  have hcolor {m n : Nat} (hm : m < 90) (hn : n < 100) (color color' : Color) :
      paramsLength (if color = color' then [] else colorParams m n color) ≤ 17 := by
    split
    · decide
    · exact paramsLength_colorParams hm hn color
  have hfg := hcolor (m := 30) (n := 82) (by decide) (by decide) attrs.fgcolor other.fgcolor
  have hbg := hcolor (m := 40) (n := 92) (by decide) (by decide) attrs.bgcolor other.bgcolor
  have hitalic := paramsLength_flagParams italic (m := 3) (n := 23) (by decide) (by decide) attrs other
  have hunderline := paramsLength_flagParams underline (m := 4) (n := 24) (by decide) (by decide) attrs other
  have hinverse := paramsLength_flagParams inverse (m := 7) (n := 27) (by decide) (by decide) attrs other
  have hblink := paramsLength_flagParams blink (m := 5) (n := 25) (by decide) (by decide) attrs other
  have hhidden := paramsLength_flagParams hidden (m := 8) (n := 28) (by decide) (by decide) attrs other
  refine returns_bind.mpr ((returns_intensityParams h other).mono fun intensity hlength => returns_pure.mpr ?_)
  simp only [paramsLength_append]
  omega

/-- The most that a change of attributes takes. -/
theorem returns_writeEscapeCodeDiff (h : attrs.Sound) (other : Attrs) :
    Returns (attrs.writeEscapeCodeDiff other) fun bytes => bytes.length ≤ 54 := by
  refine returns_ite.mpr ⟨fun _ => returns_pure.mpr (by decide), fun _ => ?_⟩
  refine returns_bind.mpr ((returns_diffParams h other).mono fun params hlength => returns_pure.mpr ?_)
  have := length_sgrBytes params
  omega

end Attrs

theorem Cell.Sound.length_contents {cell : Cell} (h : cell.Sound) :
    (cell.contents.flatMap String.utf8EncodeChar).length ≤ 21 := by
  have hlen := h.len_lt
  unfold Cell.len contentBytes at hlen
  rw [List.length_flatMap]
  simp only [String.length_utf8EncodeChar]
  exact Nat.le_of_lt_succ hlen

/-! ### Rows -/

namespace RowWriter

variable {w : RowWriter} {attrs : Attrs} {cols row col : Nat} {wrapping : Bool} {cell : Cell}

theorem returns_setAttrs (w : RowWriter) (ha : attrs.Sound) :
    Returns (w.setAttrs attrs) fun t =>
      ∃ bytes : Bytes, bytes.length ≤ 54 ∧ t = { w.write bytes with prevAttrs := attrs } := by
  refine returns_ite.mpr ⟨fun _ => ?_, fun heq => ?_⟩
  · refine returns_bind.mpr ((Attrs.returns_writeEscapeCodeDiff ha w.prevAttrs).mono fun bytes hlength => returns_pure.mpr ?_)
    exact ⟨bytes, hlength, rfl⟩
  · refine returns_pure.mpr ⟨[], by decide, ?_⟩
    rw [← Classical.not_not.mp heq, write, List.append_nil]

/-- What the row is charged for: its bytes, the cells that are still to be erased, and the way to the row. -/
def charge (cols row : Nat) (w : RowWriter) : Nat :=
  w.contents.length + (if w.erase.isSome then 70 else 0) + if w.prevPos.row = row then 0 else cols

/-- The attributes are sound, and what is to be erased is before `col`. -/
structure Sound (col : Nat) (w : RowWriter) : Prop where
  attrs : w.prevAttrs.Sound
  erase : ∀ start attrs, w.erase = some (start, attrs) → start ≤ col ∧ attrs.Sound

theorem Sound.mono {next : Nat} (h : w.Sound col) (hle : col ≤ next) : w.Sound next := by
  refine ⟨h.attrs, fun start attrs herase => ?_⟩
  obtain ⟨hstart, ha⟩ := h.erase start attrs herase
  exact ⟨Nat.le_trans hstart hle, ha⟩

theorem returns_startErase (w : RowWriter) (ha : attrs.Sound) (hrow : row < 999) {start : Nat} (hstart : start ≤ cols)
    (hcols : cols < 999) :
    Returns (w.startErase cols row wrapping start attrs) fun t =>
      ∃ bytes : Bytes, bytes.length ≤ 64 + (if w.prevPos.row = row then 0 else cols) ∧
        t = { w.write bytes with prevPos := ⟨row, start⟩, prevAttrs := attrs } := by
  have hmove : (Term.moveFromTo w.prevPos ⟨row, start⟩).length ≤ 10 :=
    Term.length_moveFromTo hrow (Nat.lt_of_le_of_lt hstart hcols)
  refine (returns_setAttrs _ ha).mono ?_
  rintro t ⟨bytes, hbytes, rfl⟩
  refine ⟨_ ++ bytes, ?_, by simp only [write, List.append_assoc]; rfl⟩
  rw [List.length_append]
  split
  · rename_i hwraps
    -- The spaces lead on from the row above.
    rw [if_neg (show w.prevPos.row ≠ row by omega)]
    split
    · rw [List.length_replicate]
      omega
    · show 2 + _ ≤ _
      omega
  · omega

theorem returns_flushErase (h : w.Sound col) (hrow : row < 999) (hcol : col ≤ cols) (hcols : cols < 999) :
    Returns (w.flushErase cols row wrapping col cell) fun t =>
      t.Sound col ∧ t.charge cols row ≤ w.charge cols row := by
  unfold flushErase
  cases herase : w.erase with
  | none => exact returns_pure.mpr ⟨h, Nat.le_refl _⟩
  | some range =>
    obtain ⟨start, attrs⟩ := range
    obtain ⟨hstart, ha⟩ := h.erase start attrs herase
    refine returns_ite.mpr ⟨fun _ => ?_, fun _ => returns_pure.mpr ⟨h, Nat.le_refl _⟩⟩
    refine returns_bind.mpr ((returns_startErase w ha hrow (Nat.le_trans hstart hcol) hcols).mono ?_)
    rintro t ⟨bytes, hbytes, rfl⟩
    refine returns_bind.mpr (returns_sub.mpr ⟨hstart, returns_pure.mpr ⟨⟨ha, by simp⟩, ?_⟩⟩)
    have hcount : (Term.eraseChar (col - start)).length ≤ 6 := Term.length_counted (by omega) 0x58
    simp [charge, write, herase]
    omega

theorem startContents_eq (w : RowWriter) (last : Nat) (wrapping : Bool) (hrow : row < 999) (hcol : col < 999) :
    ∃ bytes : Bytes, bytes.length ≤ 10 ∧
      w.startContents last row wrapping col = { w.write bytes with prevPos := ⟨row, col⟩ } := by
  have hmove : (Term.moveFromTo w.prevPos ⟨row, col⟩).length ≤ 10 := Term.length_moveFromTo hrow hcol
  by_cases hpos : (⟨row, col⟩ : Pos) = w.prevPos
  · refine ⟨[], by decide, ?_⟩
    rw [startContents, if_neg (Classical.not_not.mpr hpos), hpos, write, List.append_nil]
  · refine ⟨_, ?_, if_pos hpos⟩
    split
    · decide
    · exact hmove

theorem returns_writeContents (h : w.Sound col) (hcell : cell.Sound) (hrow : row < 999) (hcol : col < cols)
    (hcols : cols < 999) :
    Returns (w.writeContents cols row wrapping col cell) fun t =>
      t.Sound (col + 1) ∧ t.charge cols row ≤ w.charge cols row + 85 := by
  have hcontents := hcell.length_contents
  refine returns_bind.mpr (returns_sub.mpr ⟨?_, ?_⟩)
  · split <;> omega
  obtain ⟨move, hmove, hstart⟩ :=
    w.startContents_eq (cols - if cell.isWide then 1 else 0) wrapping hrow (Nat.lt_trans hcol hcols)
  rw [hstart]
  refine returns_bind.mpr ((returns_setAttrs _ hcell.attrs).mono ?_)
  rintro t ⟨bytes, hbytes, rfl⟩
  refine returns_pure.mpr ⟨⟨hcell.attrs, (h.mono (Nat.le_succ col)).erase⟩, ?_⟩
  show (w.contents ++ move ++ bytes ++ cell.contents.flatMap String.utf8EncodeChar).length +
    (if w.erase.isSome then 70 else 0) + (if row = row then 0 else cols) ≤ _
  unfold charge
  simp only [List.length_append, if_true]
  omega

/-- A cell takes at most 85 bytes. -/
theorem returns_cell (h : w.Sound col) (hcell : cell.Sound) (hrow : row < 999) (hcol : col < cols) (hcols : cols < 999) :
    Returns (w.cell cols row wrapping col cell) fun t =>
      t.Sound (col + 1) ∧ t.charge cols row ≤ w.charge cols row + 85 := by
  have hnext := h.mono (Nat.le_succ col)
  refine returns_ite.mpr ⟨fun _ => returns_pure.mpr ⟨⟨hnext.attrs, hnext.erase⟩, Nat.le_add_right _ _⟩, fun _ => ?_⟩
  have hflush : Returns ({ w with prevWasWide := cell.isWide }.flushErase cols row wrapping col cell) fun t =>
      t.Sound col ∧ t.charge cols row ≤ w.charge cols row :=
    returns_flushErase ⟨h.attrs, h.erase⟩ hrow (Nat.le_of_lt hcol) hcols
  refine returns_bind.mpr (hflush.mono ?_)
  rintro t ⟨ht, hcharge⟩
  have hkept := ht.mono (Nat.le_succ col)
  refine returns_ite.mpr ⟨fun _ => returns_pure.mpr ⟨hkept, by omega⟩, fun _ => ?_⟩
  refine returns_ite.mpr ⟨fun _ => ?_, fun _ => ?_⟩
  · exact (returns_writeContents ht hcell hrow hcol hcols).mono fun u hu => ⟨hu.1, by omega⟩
  · refine returns_ite.mpr ⟨fun hnone => returns_pure.mpr ⟨⟨ht.attrs, ?_⟩, ?_⟩, fun _ => returns_pure.mpr ⟨hkept, by omega⟩⟩
    · rintro start attrs ⟨⟩
      exact ⟨Nat.le_succ col, hcell.attrs⟩
    · simp only [charge, Option.isNone_iff_eq_none.mp hnone, Option.isSome_none, Option.isSome_some, if_true] at hcharge ⊢
      simp only [Bool.false_eq_true, if_false] at hcharge
      omega

theorem returns_cells {cells : List Cell} (h : w.Sound col) (hcells : ∀ cell ∈ cells, cell.Sound) (hrow : row < 999)
    (hlength : col + cells.length ≤ cols) (hcols : cols < 999) :
    Returns (RowWriter.cells cols row wrapping col cells w) fun t =>
      t.Sound cols ∧ t.charge cols row ≤ w.charge cols row + 85 * cells.length := by
  induction cells generalizing col w with
  | nil => exact returns_pure.mpr ⟨h.mono hlength, Nat.le_refl _⟩
  | cons cell cells ih =>
    rw [List.length_cons] at hlength
    refine returns_bind.mpr ((returns_cell h (hcells cell List.mem_cons_self) hrow (by omega) hcols).mono ?_)
    rintro t ⟨ht, hcharge⟩
    refine (ih ht (fun cell hcell => hcells cell (List.mem_cons_of_mem _ hcell)) (by omega)).mono ?_
    rintro u ⟨hu, hcharge'⟩
    refine ⟨hu, ?_⟩
    rw [List.length_cons]
    omega

theorem returns_finish (h : w.Sound cols) (hrow : row < 999) (hcols : cols < 999) :
    Returns (w.finish cols row wrapping) fun t => t.prevAttrs.Sound ∧ t.contents.length ≤ w.charge cols row := by
  unfold finish charge
  cases herase : w.erase with
  | none => exact returns_pure.mpr ⟨h.attrs, by omega⟩
  | some range =>
    obtain ⟨start, attrs⟩ := range
    obtain ⟨hstart, ha⟩ := h.erase start attrs herase
    refine returns_bind.mpr ((returns_startErase w ha hrow hstart hcols).mono ?_)
    rintro t ⟨bytes, hbytes, rfl⟩
    refine returns_pure.mpr ⟨ha, ?_⟩
    simp only [write, List.length_append, Option.isSome_some, if_true]
    show _ + 3 ≤ _
    omega

/-- The row is written from its first column on. -/
structure Starts (w t : RowWriter) : Prop where
  sound : t.Sound 0
  erase : t.erase = none
  length : t.contents.length ≤ w.contents.length + 59

theorem returns_startRow (hw : w.prevAttrs.Sound) : Returns (w.startRow row wrapping cell) (Starts w) := by
  refine returns_ite.mpr ⟨fun _ => ?_, fun _ => returns_pure.mpr ⟨⟨hw, by simp⟩, rfl, Nat.le_add_right _ _⟩⟩
  refine returns_bind.mpr ((returns_setAttrs _ Attrs.sound_default).mono ?_)
  rintro t ⟨bytes, hbytes, rfl⟩
  refine returns_pure.mpr ⟨⟨Attrs.sound_default, by simp [write]⟩, rfl, ?_⟩
  simp only [write, List.length_append]
  show _ + 5 ≤ _
  omega

end RowWriter

theorem Row.returns_writeContentsFormatted {line : Row} {w : RowWriter} {cols row : Nat} (wrapping : Bool)
    (hline : line.Sound cols) (hw : w.prevAttrs.Sound) (hrow : row < 999) (hpos : 1 ≤ cols) (hcols : cols < 999) :
    Returns (line.writeContentsFormatted cols row wrapping w) fun t =>
      t.prevAttrs.Sound ∧ t.contents.length ≤ w.contents.length + (86 * cols + 59) := by
  have hlength := hline.length
  obtain ⟨first, hfirst⟩ := hline.exists_cell hpos
  have htake : line.cells.take cols = line.cells := List.take_of_length_le (Nat.le_of_eq hlength)
  refine returns_bind.mpr ((Row.returns_cols (by rw [hlength]; unfold u16Max; omega)).mpr ?_)
  refine returns_bind.mpr (returns_index.mpr ⟨first, hfirst, ?_⟩)
  refine returns_bind.mpr ((RowWriter.returns_startRow hw).mono fun t ht => ?_)
  rw [htake, hlength]
  refine returns_bind.mpr ((RowWriter.returns_cells ht.sound hline.cells hrow (by omega) hcols).mono ?_)
  rintro u ⟨hu, hcharge⟩
  refine (RowWriter.returns_finish hu hrow hcols).mono ?_
  rintro v ⟨hv, hlength'⟩
  refine ⟨hv, ?_⟩
  have hstart := ht.length
  have hcharge' : t.charge cols row ≤ t.contents.length + cols := by
    unfold RowWriter.charge
    rw [ht.erase]
    simp only [Option.isSome_none, Bool.false_eq_true, if_false]
    split <;> omega
  rw [hlength] at hcharge
  omega

/-! ### Grids -/

namespace Grid

variable {g : Grid}

theorem returns_writeRows {w : RowWriter} {cols i : Nat} {wrapping : Bool} {rows : List Row}
    (hrows : ∀ line ∈ rows, line.Sound cols) (hw : w.prevAttrs.Sound) (hi : i + rows.length < 999) (hpos : 1 ≤ cols)
    (hcols : cols < 999) :
    Returns (writeRows cols i wrapping rows w) fun t =>
      t.prevAttrs.Sound ∧ t.contents.length ≤ w.contents.length + rows.length * (86 * cols + 59) := by
  induction rows generalizing i wrapping w with
  | nil => exact returns_pure.mpr ⟨hw, by simp⟩
  | cons line rows ih =>
    rw [List.length_cons] at hi
    have hline := hrows line List.mem_cons_self
    refine returns_bind.mpr ((Row.returns_writeContentsFormatted wrapping hline hw (by omega) hpos hcols).mono ?_)
    rintro t ⟨ht, hlength⟩
    refine (ih (fun line hline => hrows line (List.mem_cons_of_mem _ hline)) ht (by omega)).mono ?_
    rintro u ⟨hu, hlength'⟩
    refine ⟨hu, ?_⟩
    rw [List.length_cons, Nat.succ_mul]
    omega

theorem Ready.returns_endCell (h : g.Ready) {r : Nat} (hr : r < g.size.rows) :
    Returns (g.endCell r) fun result => result.1.row = r ∧ result.1.col < g.size.cols ∧ result.2.Sound := by
  obtain ⟨line, hrow, hline⟩ := h.exists_row hr
  have hcols := h.cols_pos
  have hcell {col : Nat} (hcol : col < g.size.cols) :
      Returns (g.drawingCell ⟨r, col⟩ >>= fun cell => pure ((⟨r, col⟩ : Pos), cell)) fun result =>
        result.1.row = r ∧ result.1.col < g.size.cols ∧ result.2.Sound := by
    obtain ⟨cell, hcell⟩ := hline.exists_cell hcol
    refine returns_bind.mpr ((returns_drawingCell hrow).mpr ⟨cell, hcell, returns_pure.mpr ⟨rfl, hcol, ?_⟩⟩)
    exact hline.cells cell (List.mem_of_getElem? hcell)
  obtain ⟨last, hlast⟩ := hline.exists_cell (i := g.size.cols - 1) (by omega)
  refine returns_bind.mpr (returns_sub.mpr ⟨hcols, ?_⟩)
  refine returns_bind.mpr ((returns_drawingCell hrow).mpr ⟨last, hlast, ?_⟩)
  refine returns_ite.mpr ⟨fun hcontinuation => ?_, fun _ => hcell (by omega)⟩
  -- A second half is not the first cell of a row.
  have htwo : 2 ≤ g.size.cols := by
    by_contra hone
    have hfirst : g.size.cols - 1 = 0 := by omega
    rw [hfirst] at hlast
    exact Bool.noConfusion (hline.paired.head.symm.trans ((flagAt_of_getElem? hlast).trans hcontinuation))
  exact returns_bind.mpr (returns_sub.mpr ⟨htwo, hcell (by omega)⟩)

theorem returns_redraw {prevPos pos : Pos} {prevAttrs : Attrs} {cell : Cell} (ha : prevAttrs.Sound) (hcell : cell.Sound)
    (hrow : pos.row < 999) (hcol : pos.col < 999) :
    Returns (redraw prevPos pos prevAttrs cell) fun bytes => bytes.length ≤ 139 := by
  have hmove : (Term.moveFromTo prevPos pos).length ≤ 10 := Term.length_moveFromTo hrow hcol
  have hcontents := hcell.length_contents
  refine returns_bind.mpr ((Attrs.returns_writeEscapeCodeDiff hcell.attrs prevAttrs).mono fun before hbefore => ?_)
  refine returns_bind.mpr ((Attrs.returns_writeEscapeCodeDiff ha cell.attrs).mono fun after hafter => returns_pure.mpr ?_)
  simp only [List.length_append]
  omega

variable {prevPos : Pos} {prevAttrs : Attrs}

theorem Ready.returns_writeFromAbove (h : g.Ready) (ha : prevAttrs.Sound) (hrows : g.size.rows < 999)
    (hcols : g.size.cols < 999) {i : Nat} (hi : i ≤ g.pos.row) :
    Returns (g.writeFromAbove prevPos prevAttrs i) fun result => ∀ bytes ∈ result, bytes.length ≤ 139 + g.size.rows := by
  have hrow := h.row_lt
  induction i with
  | zero => exact returns_pure.mpr (by simp)
  | succ i ih =>
    refine returns_bind.mpr ((h.returns_endCell (r := i) (by omega)).mono ?_)
    rintro ⟨pos, cell⟩ ⟨hpos, hcol, hcell⟩
    dsimp only at hpos hcol
    refine returns_ite.mpr ⟨fun _ => ?_, fun _ => ih (by omega)⟩
    have hlines {drawn : Bytes} (hdrawn : drawn.length ≤ 139) :
        Returns (sub g.pos.row i >>= fun lines => pure (some (drawn ++ List.replicate lines 0x0a)))
          fun result => ∀ bytes ∈ result, bytes.length ≤ 139 + g.size.rows := by
      refine returns_bind.mpr (returns_sub.mpr ⟨by omega, returns_pure.mpr ?_⟩)
      rintro bytes ⟨⟩
      rw [List.length_append, List.length_replicate]
      omega
    refine returns_ite.mpr ⟨fun _ => ?_, fun _ => hlines (by decide)⟩
    exact returns_bind.mpr ((returns_redraw ha hcell (by omega) (by omega)).mono fun drawn hdrawn => hlines hdrawn)

theorem Ready.returns_writeCursorPositionFormatted (h : g.Ready) (ha : prevAttrs.Sound) (hrows : g.size.rows < 999)
    (hcols : g.size.cols < 999) :
    Returns (g.writeCursorPositionFormatted prevPos prevAttrs) fun bytes => bytes.length ≤ 139 + g.size.rows := by
  have hrow := h.row_lt
  refine returns_ite.mpr ⟨fun _ => ?_, fun _ => returns_pure.mpr ?_⟩
  · refine returns_bind.mpr ((h.returns_endCell hrow).mono ?_)
    rintro ⟨pos, cell⟩ ⟨hpos, hcol, hcell⟩
    dsimp only at hpos hcol
    refine returns_ite.mpr ⟨fun _ => ?_, fun _ => ?_⟩
    · exact (returns_redraw ha hcell (by omega) (by omega)).mono fun bytes hbytes => Nat.le_add_right_of_le hbytes
    refine returns_bind.mpr ((h.returns_writeFromAbove ha hrows hcols (Nat.le_refl _)).mono fun result hresult => ?_)
    cases result with
    | some bytes => exact returns_pure.mpr (hresult bytes rfl)
    | none =>
      obtain ⟨line, hline, hsound⟩ := h.exists_row hrow
      have hcols' := h.cols_pos
      obtain ⟨last, hlast⟩ := hsound.exists_cell (i := g.size.cols - 1) (by omega)
      have hlast' := (hsound.cells last (List.mem_of_getElem? hlast)).attrs
      have hmove : (Term.moveFromTo prevPos ⟨g.pos.row, g.size.cols - 1⟩).length ≤ 10 :=
        Term.length_moveFromTo (Nat.lt_trans hrow hrows) (by show g.size.cols - 1 < 999; omega)
      refine returns_bind.mpr (returns_sub.mpr ⟨hcols', ?_⟩)
      refine returns_bind.mpr ((returns_drawingCell hline).mpr ⟨last, hlast, ?_⟩)
      refine returns_bind.mpr ((Attrs.returns_writeEscapeCodeDiff hlast' prevAttrs).mono fun before hbefore => ?_)
      refine returns_bind.mpr ((Attrs.returns_writeEscapeCodeDiff ha last.attrs).mono fun after hafter => returns_pure.mpr ?_)
      simp only [List.length_append]
      show _ + 1 + _ + 2 + 1 + 3 + 2 + _ ≤ _
      omega
  · have hmove : (Term.moveFromTo prevPos g.pos).length ≤ 10 :=
      Term.length_moveFromTo (Nat.lt_trans hrow hrows) (Nat.lt_of_le_of_lt h.col_le hcols)
    omega

theorem Ready.returns_writeContentsFormatted (h : g.Ready) (hrows : g.size.rows < 999) (hcols : g.size.cols < 999) :
    Returns g.writeContentsFormatted fun result =>
      result.2.Sound ∧ result.1.length ≤ 148 + g.size.rows + g.size.rows * (86 * g.size.cols + 59) := by
  have hlength := h.length
  refine returns_bind.mpr ((returns_writeRows h.rows Attrs.sound_default (by omega) h.cols_pos hcols).mono ?_)
  rintro writer ⟨hattrs, hwriter⟩
  refine returns_bind.mpr ((h.returns_writeCursorPositionFormatted hattrs hrows hcols).mono fun position hposition => ?_)
  refine returns_pure.mpr ⟨hattrs, ?_⟩
  rw [hlength] at hwriter
  rw [List.length_append]
  have hstart : (Term.clearAttrs ++ Term.clearScreen).length = 9 := rfl
  rw [hstart] at hwriter
  omega

end Grid

/-! ### Screens -/

namespace Screen

variable {s : Screen}

theorem length_writeInputModeFormatted (s : Screen) : s.writeInputModeFormatted.length ≤ 31 := by
  have hlength : ∀ (keypad cursor paste : Bool) (mouse : MouseProtocolMode) (encoding : MouseProtocolEncoding),
      (MoshClient.Term.applicationKeypad keypad ++ MoshClient.Term.applicationCursor cursor ++
        MoshClient.Term.bracketedPaste paste ++ MoshClient.Term.mouseProtocolMode mouse .none ++
        MoshClient.Term.mouseProtocolEncoding encoding .default).length ≤ 31 := by
    rintro (_ | _) (_ | _) (_ | _) (_ | _ | _ | _ | _) (_ | _ | _) <;> decide
  exact hlength _ _ _ _ _

theorem returns_stateFormatted (h : s.Sound) (hrows : s.size.rows < 999) (hcols : s.size.cols < 999) :
    Returns s.stateFormatted fun bytes =>
      bytes.length ≤ 244 + s.size.rows + s.size.rows * (86 * s.size.cols + 59) := by
  have hmodes : ∀ video cursor : Bool,
      (MoshClient.Term.reverseVideo video ++ MoshClient.Term.hideCursor cursor).length = 11 := by decide
  have hinput := s.length_writeInputModeFormatted
  have hcontents : Returns s.writeContentsFormatted fun bytes =>
      bytes.length ≤ 213 + s.size.rows + s.size.rows * (86 * s.size.cols + 59) := by
    refine returns_bind.mpr ((h.active.returns_writeContentsFormatted hrows hcols).mono ?_)
    rintro ⟨contents, prevAttrs⟩ ⟨hattrs, hlength⟩
    dsimp only at hlength
    refine returns_bind.mpr ((Attrs.returns_writeEscapeCodeDiff h.attrs prevAttrs).mono fun attrs hlength' => returns_pure.mpr ?_)
    rw [List.length_append, List.length_append, hmodes]
    unfold Screen.size
    omega
  refine returns_bind.mpr (hcontents.mono fun contents hlength => returns_pure.mpr ?_)
  rw [List.length_append]
  omega

end Screen

end MoshClient.Vt100
