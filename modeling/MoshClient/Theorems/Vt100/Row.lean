import MoshClient.Vt100.Grid

/-! Rows. The first half of a wide character is followed by its second half, which is nowhere else. An operation on a
    row of this kind finds the other half of each character that it cuts, and leaves a row of this kind. -/

namespace MoshClient.Vt100
open Checked

/-! ### Cells -/

/-- Text is not bold and dim at once. -/
def Attrs.Sound (attrs : Attrs) : Prop := attrs.intensity ≠ textModeIntensity

theorem Attrs.sound_default : Attrs.default.Sound := by
  unfold Attrs.Sound
  decide

/-- The contents fit in the cell, with a byte to spare. -/
structure Cell.Sound (cell : Cell) : Prop where
  len_lt : cell.len < contentBytes
  attrs : cell.attrs.Sound

/-- No half of a wide character. -/
def Cell.Narrow (cell : Cell) : Prop := cell.isWide = false ∧ cell.isWideContinuation = false

namespace Cell

theorem sound_new : Cell.new.Sound := ⟨by decide, Attrs.sound_default⟩

theorem sound_clear (cell : Cell) {attrs : Attrs} (ha : attrs.Sound) : (cell.clear attrs).Sound :=
  ⟨show 0 < contentBytes by decide, ha⟩

theorem narrow_new : Cell.new.Narrow := ⟨rfl, rfl⟩

theorem narrow_clear (cell : Cell) (attrs : Attrs) : (cell.clear attrs).Narrow := ⟨rfl, rfl⟩

theorem Sound.setWideContinuation {cell : Cell} (h : cell.Sound) (wide : Bool) :
    (cell.setWideContinuation wide).Sound := ⟨h.len_lt, h.attrs⟩

theorem returns_appendChar {cell : Cell} {c : Char} {Q : Cell → Prop} :
    Returns (cell.appendChar c) Q ↔
      cell.len + c.utf8Size ≤ contentBytes ∧ Q { cell with contents := cell.contents ++ [c] } := by
  by_cases h : cell.len + c.utf8Size ≤ contentBytes <;> simp [appendChar, h]

/-- A cell that is set holds the character alone. -/
theorem returns_set (unicode : UnicodeWidth) (cell : Cell) (c : Char) {attrs : Attrs} (ha : attrs.Sound) :
    Returns (cell.set unicode c attrs) fun next =>
      next.Sound ∧ next.isWideContinuation = false ∧ next.isWide = decide ((unicode.terminalWidth c).getD 1 > 1) := by
  have hc := c.utf8Size_le_four
  unfold set
  rw [returns_bind, returns_appendChar]
  refine ⟨?_, returns_pure.mpr ⟨⟨?_, ha⟩, rfl, rfl⟩⟩
  · show 0 + c.utf8Size ≤ 22
    omega
  · show c.utf8Size + 0 < 22
    omega

/-- A scalar is appended when there is room for the longest one, and dropped otherwise. -/
theorem returns_append {cell : Cell} (h : cell.Sound) (c : Char) :
    Returns (cell.append c) fun next =>
      next.Sound ∧ next.isWide = cell.isWide ∧ next.isWideContinuation = cell.isWideContinuation := by
  have hc := c.utf8Size_le_four
  unfold append
  rw [returns_ite]
  refine ⟨fun _ => returns_ok.mpr ⟨h, rfl, rfl⟩, fun hroom => ?_⟩
  generalize hcontents : (if cell.len = 0 then [' '] else cell.contents) = contents
  have hlen : (contents.map Char.utf8Size).sum < 18 := by
    rw [← hcontents]
    split
    · decide
    · exact Nat.lt_of_not_le hroom
  rw [returns_appendChar]
  refine ⟨?_, ⟨?_, h.attrs⟩, rfl, rfl⟩
  · show (contents.map Char.utf8Size).sum + c.utf8Size ≤ 22
    omega
  · show ((contents ++ [c]).map Char.utf8Size).sum < 22
    rw [List.map_append, List.sum_append]
    show (contents.map Char.utf8Size).sum + (c.utf8Size + 0) < 22
    omega

end Cell

/-! ### Halves -/

/-- Whether there is a cell at `i`, with the flag. -/
def flagAt (flag : Cell → Bool) (cells : List Cell) (i : Nat) : Bool := cells[i]?.any flag

abbrev wideAt : List Cell → Nat → Bool := flagAt Cell.isWide

abbrev continuationAt : List Cell → Nat → Bool := flagAt Cell.isWideContinuation

/-- A cell is the second half of a wide character when the cell before it is the first. -/
structure Paired (cells : List Cell) : Prop where
  head : continuationAt cells 0 = false
  next : ∀ i, continuationAt cells (i + 1) = wideAt cells i
  once : ∀ i, wideAt cells i = true → continuationAt cells i = false

/-- The cells are paired, whatever paired cells take the place of the `n` cells at `i`. -/
structure Loose (cells : List Cell) (i n : Nat) : Prop where
  before : ∀ k, k + 1 = i → wideAt cells k = false
  after : continuationAt cells (i + n) = false
  head : 0 < i → continuationAt cells 0 = false
  next : ∀ j, j + 1 < i ∨ i + n ≤ j → continuationAt cells (j + 1) = wideAt cells j
  once : ∀ j, j < i ∨ i + n ≤ j → wideAt cells j = true → continuationAt cells j = false

section Halves
variable {flag : Cell → Bool} {cells : List Cell} {i j : Nat} {cell : Cell}

theorem flagAt_of_getElem? (h : cells[i]? = some cell) : flagAt flag cells i = flag cell := by simp [flagAt, h]

theorem lt_length_of_flagAt (h : flagAt flag cells i = true) : i < cells.length := by
  simp only [flagAt, Option.any_eq_true] at h
  obtain ⟨x, hx, -⟩ := h
  exact (List.getElem?_eq_some_iff.mp hx).1

theorem flagAt_set (hi : i < cells.length) :
    flagAt flag (cells.set i cell) j = if i = j then flag cell else flagAt flag cells j := by
  unfold flagAt
  rw [List.getElem?_set]
  split <;> simp

theorem flagAt_eraseIdx :
    flagAt flag (cells.eraseIdx i) j = if j < i then flagAt flag cells j else flagAt flag cells (j + 1) := by
  unfold flagAt
  rw [List.getElem?_eraseIdx]
  split <;> rfl

theorem flagAt_insertIdx (hi : i ≤ cells.length) :
    flagAt flag (cells.insertIdx i cell) j =
      if j < i then flagAt flag cells j else if j = i then flag cell else flagAt flag cells (j - 1) := by
  unfold flagAt
  rw [List.getElem?_insertIdx]
  split
  · rfl
  · split
    · rw [if_pos (by omega)]
      rfl
    · rfl

theorem flagAt_take : flagAt flag (cells.take i) j = if j < i then flagAt flag cells j else false := by
  unfold flagAt
  rw [List.getElem?_take]
  split <;> rfl

theorem flagAt_append_replicate (hcell : flag cell = false) :
    flagAt flag (cells ++ List.replicate i cell) j = flagAt flag cells j := by
  unfold flagAt
  rw [List.getElem?_append]
  split
  · rfl
  · rw [List.getElem?_replicate, List.getElem?_eq_none (by omega)]
    split
    · exact hcell
    · rfl

theorem flagAt_of_forall (h : ∀ cell ∈ cells, flag cell = false) (i : Nat) : flagAt flag cells i = false := by
  simp only [flagAt, Option.any_eq_false]
  intro x hx
  exact h x (List.mem_of_getElem? hx)

theorem paired_of_narrow (h : ∀ cell ∈ cells, cell.Narrow) : Paired cells := by
  have hwide := flagAt_of_forall fun cell hcell => (h cell hcell).1
  have hcont := flagAt_of_forall fun cell hcell => (h cell hcell).2
  exact ⟨hcont 0, fun i => (hcont (i + 1)).trans (hwide i).symm, fun i _ => hcont i⟩

namespace Paired

/-- A cell is replaced by one that is the same half of a character. -/
theorem set (h : Paired cells) {old : Cell} (hold : cells[i]? = some old) (hwide : cell.isWide = old.isWide)
    (hcont : cell.isWideContinuation = old.isWideContinuation) : Paired (cells.set i cell) := by
  have hi := (List.getElem?_eq_some_iff.mp hold).1
  have hwide' : wideAt cells i = cell.isWide := (flagAt_of_getElem? hold).trans hwide.symm
  have hcont' : continuationAt cells i = cell.isWideContinuation := (flagAt_of_getElem? hold).trans hcont.symm
  obtain ⟨hhead, hnext, honce⟩ := h
  constructor <;> intros <;> simp only [flagAt_set hi] at * <;> grind

theorem lt_length (h : Paired cells) (hwide : wideAt cells i = true) : i + 1 < cells.length :=
  lt_length_of_flagAt ((h.next i).trans hwide)

theorem prev (h : Paired cells) (i : Nat) (hi : 0 < i) : continuationAt cells i = wideAt cells (i - 1) := by
  obtain ⟨k, rfl⟩ := Nat.exists_eq_succ_of_ne_zero (Nat.ne_of_gt hi)
  exact h.next k

theorem wideAt_last (h : Paired cells) {n : Nat} (hn : cells.length ≤ n) : ∀ k, k + 1 = n → wideAt cells k = false := by
  intro k hk
  by_contra hwide
  have := h.lt_length (eq_true_of_ne_false hwide)
  omega

theorem append_new (h : Paired cells) (n : Nat) : Paired (cells ++ List.replicate n .new) := by
  obtain ⟨hhead, hnext, honce⟩ := h
  constructor <;> intros <;>
    simp only [flagAt_append_replicate Cell.narrow_new.1, flagAt_append_replicate Cell.narrow_new.2] at * <;> grind

/-- A row is cut behind a cell that is no first half. -/
theorem take (h : Paired cells) {n : Nat} (hcut : ∀ k, k + 1 = n → wideAt cells k = false) :
    Paired (cells.take n) := by
  obtain ⟨hhead, hnext, honce⟩ := h
  constructor <;> intros <;> simp only [flagAt_take] at * <;> grind

/-- A row is cut behind a first half, which is overwritten. -/
theorem take_set (h : Paired cells) (hi : i < cells.length) (hwide : wideAt cells i = true) (hcell : cell.Narrow) :
    Paired ((cells.take (i + 1)).set i cell) := by
  have hlt : i < (cells.take (i + 1)).length := by
    rw [List.length_take]
    omega
  obtain ⟨hhead, hnext, honce⟩ := h
  obtain ⟨hnarrow, hplain⟩ := hcell
  constructor <;> intros <;> simp only [flagAt_set hlt, flagAt_take] at * <;> grind

/-! ### Taking a wide character apart -/

/-- The second half of a wide character is overwritten. -/
theorem loosen_wide (h : Paired cells) (hwide : wideAt cells i = true) (hcell : cell.Narrow) :
    Loose (cells.set (i + 1) cell) i 1 := by
  have hlt := h.lt_length hwide
  obtain ⟨hhead, hnext, honce⟩ := h
  obtain ⟨hnarrow, hplain⟩ := hcell
  constructor <;> intros <;> simp only [flagAt_set hlt] at * <;> grind

/-- The first half of a wide character is overwritten. -/
theorem loosen_continuation (h : Paired cells) (hcont : continuationAt cells (i + 1) = true) (hcell : cell.Narrow) :
    Loose (cells.set i cell) (i + 1) 1 := by
  have hlt : i < cells.length := Nat.lt_of_succ_lt (lt_length_of_flagAt hcont)
  obtain ⟨hhead, hnext, honce⟩ := h
  obtain ⟨hnarrow, hplain⟩ := hcell
  constructor <;> intros <;> simp only [flagAt_set hlt] at * <;> grind

theorem loose (h : Paired cells) (hwide : wideAt cells i = false) (hcont : continuationAt cells i = false) :
    Loose cells i 1 := by
  refine ⟨?_, ?_, fun _ => h.head, fun j _ => h.next j, fun j _ => h.once j⟩
  · rintro k rfl
    rw [← h.next, hcont]
  · rw [h.next, hwide]

/-- A cell is inserted where no wide character is cut. -/
theorem insertIdx (h : Paired cells) (hi : i ≤ cells.length) (hcont : continuationAt cells i = false)
    (hcell : cell.Narrow) : Paired (cells.insertIdx i cell) := by
  have hprev := h.prev
  obtain ⟨hhead, hnext, honce⟩ := h
  obtain ⟨hnarrow, hplain⟩ := hcell
  constructor <;> intros <;> simp only [flagAt_insertIdx hi] at * <;> grind

/-- A cell is inserted between the halves of a wide character, and becomes its second half. -/
theorem insertIdx_continuation (h : Paired cells) (hcont : continuationAt cells i = true) {second : Cell}
    (hcell : cell.Narrow) (hsecond : second.isWide = false ∧ second.isWideContinuation = true) (new : Cell) :
    Paired (((cells.set i cell).insertIdx i new).set i second) := by
  have hi := lt_length_of_flagAt hcont
  have hinsert : i ≤ (cells.set i cell).length := by simpa using Nat.le_of_lt hi
  have hset : i < ((cells.set i cell).insertIdx i new).length := by
    rw [List.length_insertIdx_of_le_length hinsert, List.length_set]
    omega
  have hprev := h.prev
  obtain ⟨hhead, hnext, honce⟩ := h
  obtain ⟨hnarrow, hplain⟩ := hcell
  obtain ⟨hsecond, hsecond'⟩ := hsecond
  constructor <;> intros <;> simp only [flagAt_set hi, flagAt_insertIdx hinsert, flagAt_set hset] at * <;> grind

end Paired

/-! ### Putting cells together -/

namespace Loose

theorem set (h : Loose cells i 1) (hi : i < cells.length) (hcell : cell.Narrow) : Paired (cells.set i cell) := by
  obtain ⟨hbefore, hafter, hhead, hnext, honce⟩ := h
  obtain ⟨hnarrow, hplain⟩ := hcell
  constructor <;> intros <;> simp only [flagAt_set hi] at * <;> grind

theorem eraseIdx (h : Loose cells i 1) : Paired (cells.eraseIdx i) := by
  obtain ⟨hbefore, hafter, hhead, hnext, honce⟩ := h
  constructor <;> intros <;> simp only [flagAt_eraseIdx] at * <;> grind

/-- The next cell is no first half. -/
theorem extend (h : Loose cells i 1) (hwide : wideAt cells (i + 1) = false) : Loose cells i 2 := by
  obtain ⟨hbefore, hafter, hhead, hnext, honce⟩ := h
  constructor <;> intros <;> grind

/-- The next cell is a first half, and its second half is overwritten. -/
theorem extend_wide (h : Loose cells i 1) (hwide : wideAt cells (i + 1) = true) (hcell : cell.Narrow) :
    Loose (cells.set (i + 2) cell) i 2 := by
  have hlt : i + 2 < cells.length := lt_length_of_flagAt ((h.next (i + 1) (Or.inr (Nat.le_refl _))).trans hwide)
  obtain ⟨hbefore, hafter, hhead, hnext, honce⟩ := h
  obtain ⟨hnarrow, hplain⟩ := hcell
  constructor <;> intros <;> simp only [flagAt_set hlt] at * <;> grind

theorem set_pair (h : Loose cells i 2) (hlt : i + 1 < cells.length) {first second : Cell}
    (hfirst : first.isWide = true ∧ first.isWideContinuation = false)
    (hsecond : second.isWide = false ∧ second.isWideContinuation = true) :
    Paired ((cells.set i first).set (i + 1) second) := by
  have hi : i < cells.length := by omega
  have hi' : i + 1 < (cells.set i first).length := by simpa using hlt
  obtain ⟨hbefore, hafter, hhead, hrest, honce⟩ := h
  obtain ⟨hfirst, hfirst'⟩ := hfirst
  obtain ⟨hsecond, hsecond'⟩ := hsecond
  constructor <;> intros <;> simp only [flagAt_set hi, flagAt_set hi'] at * <;> grind

end Loose

end Halves

/-! ### Rows -/

structure Row.Whole (row : Row) : Prop where
  paired : Paired row.cells
  cells : ∀ cell ∈ row.cells, cell.Sound

structure Row.Sound (cols : Nat) (row : Row) : Prop extends row.Whole where
  length : row.cells.length = cols

namespace Row

variable {row : Row} {cols i : Nat} {attrs : Attrs}

theorem sound_new (cols : Nat) : (Row.new cols).Sound cols where
  paired := paired_of_narrow fun _ hcell => List.eq_of_mem_replicate hcell ▸ Cell.narrow_new
  cells := fun _ hcell => List.eq_of_mem_replicate hcell ▸ Cell.sound_new
  length := List.length_replicate

theorem Sound.clear (h : row.Sound cols) (ha : attrs.Sound) : (row.clear attrs).Sound cols where
  paired := paired_of_narrow fun cell hcell => by
    obtain ⟨x, -, rfl⟩ := List.mem_map.mp hcell
    exact x.narrow_clear attrs
  cells := fun cell hcell => by
    obtain ⟨x, -, rfl⟩ := List.mem_map.mp hcell
    exact x.sound_clear ha
  length := by simpa [Row.clear] using h.length

theorem Sound.wrap (h : row.Sound cols) (wrap : Bool) : (row.wrap wrap).Sound cols := ⟨⟨h.paired, h.cells⟩, h.length⟩

theorem Whole.getElem? (h : row.Whole) {cell : Cell} (hcell : row.cells[i]? = some cell) : cell.Sound :=
  h.cells cell (List.mem_of_getElem? hcell)

theorem exists_cell (hi : i < row.cells.length) : ∃ cell, row.cells[i]? = some cell :=
  ⟨row.cells[i], List.getElem?_eq_getElem hi⟩

theorem Sound.exists_cell (h : row.Sound cols) (hi : i < cols) : ∃ cell, row.cells[i]? = some cell :=
  Row.exists_cell (h.length.symm ▸ hi)

theorem returns_clearWide (h : row.Whole) (hi : i < row.cells.length) :
    Returns (row.clearWide i) fun next =>
      Loose next.cells i 1 ∧ next.cells.length = row.cells.length ∧ ∀ cell ∈ next.cells, cell.Sound := by
  obtain ⟨cell, hcell⟩ := exists_cell hi
  have hwide : wideAt row.cells i = cell.isWide := flagAt_of_getElem? hcell
  have hcont : continuationAt row.cells i = cell.isWideContinuation := flagAt_of_getElem? hcell
  have hclear {k : Nat} {other : Cell} (hother : row.cells[k]? = some other) :
      ∀ x ∈ row.cells.set k (other.clear other.attrs), x.Sound :=
    forall_mem_set h.cells (other.sound_clear (h.getElem? hother).attrs)
  simp only [clearWide, returns_bind, returns_index, returns_ite, returns_update, returns_sub, returns_pure]
  refine ⟨cell, hcell, fun hw => ?_, fun hw => ⟨fun hc => ?_, fun hc => ?_⟩⟩
  · obtain ⟨other, hother⟩ := exists_cell (h.paired.lt_length (hwide.trans hw))
    exact ⟨other, hother, h.paired.loosen_wide (hwide.trans hw) (other.narrow_clear _), List.length_set, hclear hother⟩
  · obtain ⟨k, rfl⟩ : ∃ k, i = k + 1 := by
      refine Nat.exists_eq_succ_of_ne_zero ?_
      rintro rfl
      rw [h.paired.head, hc] at hcont
      cases hcont
    obtain ⟨other, hother⟩ := exists_cell (Nat.lt_of_succ_lt hi)
    exact ⟨Nat.succ_pos k, other, hother, h.paired.loosen_continuation (hcont.trans hc) (other.narrow_clear _),
      List.length_set, hclear hother⟩
  · rw [Bool.not_eq_true] at hw hc
    exact ⟨h.paired.loose (hwide.trans hw) (hcont.trans hc), trivial, h.cells⟩

theorem returns_cols (h : row.cells.length ≤ u16Max) {Q : Nat → Prop} : Returns row.cols Q ↔ Q row.cells.length := by
  simp [Row.cols, h]

theorem returns_erase (h : row.Sound cols) (hi : i < cols) (hcols : cols ≤ u16Max) (ha : attrs.Sound) :
    Returns (row.erase i attrs) (Row.Sound cols) := by
  have hlt : i < row.cells.length := h.length.symm ▸ hi
  obtain ⟨cell, hcell⟩ := exists_cell hlt
  have hwidth : cell.isWide = true → 2 ≤ cols := by
    intro hw
    have := h.paired.lt_length ((flagAt_of_getElem? hcell).trans hw)
    rw [h.length] at this
    omega
  unfold erase
  rw [returns_bind, returns_index]
  refine ⟨cell, hcell, ?_⟩
  rw [returns_bind]
  refine (returns_clearWide h.toWhole hlt).mono ?_
  rintro next ⟨hloose, hlength, hsound⟩
  have hnext : i < next.cells.length := hlength.symm ▸ hlt
  obtain ⟨x, hx⟩ := exists_cell hnext
  rw [returns_bind, returns_update]
  refine ⟨x, hx, ?_⟩
  rw [returns_bind, returns_cols (by rw [hlength, h.length]; exact hcols), returns_bind, returns_sub]
  refine ⟨?_, returns_pure.mpr ⟨⟨hloose.set hnext (x.narrow_clear attrs), forall_mem_set hsound (x.sound_clear ha)⟩, ?_⟩⟩
  · rw [hlength, h.length]
    split
    · exact hwidth ‹_›
    · omega
  · rw [List.length_set, hlength, h.length]

theorem returns_remove (h : row.Whole) (hi : i < row.cells.length) :
    Returns (row.remove i) fun next => next.Whole ∧ next.cells.length + 1 = row.cells.length := by
  unfold remove
  rw [returns_bind]
  refine (returns_clearWide h hi).mono ?_
  rintro next ⟨hloose, hlength, hsound⟩
  have hnext : i < next.cells.length := hlength.symm ▸ hi
  rw [returns_bind, Checked.returns_remove, returns_pure]
  refine ⟨hnext, ⟨hloose.eraseIdx, forall_mem_eraseIdx hsound⟩, ?_⟩
  rw [List.length_eraseIdx_of_lt hnext, hlength]
  omega

/-- A row is cut behind a cell that is no first half, or filled up. -/
theorem Whole.resize (h : row.Whole) (hcut : ∀ k, k + 1 = cols → wideAt row.cells k = false) :
    (row.resize cols .new).Sound cols where
  paired := (h.paired.take hcut).append_new _
  cells := by
    intro cell hcell
    rcases List.mem_append.mp hcell with hold | hnew
    · exact h.cells cell (List.mem_of_mem_take hold)
    · exact List.eq_of_mem_replicate hnew ▸ Cell.sound_new
  length := by
    simp only [Row.resize, List.length_append, List.length_take, List.length_replicate]
    omega

theorem returns_truncate (h : row.Whole) (hcols : 1 ≤ cols) (hle : cols ≤ row.cells.length) :
    Returns (row.truncate cols) (Row.Sound cols) := by
  obtain ⟨k, rfl⟩ := Nat.exists_eq_succ_of_ne_zero (Nat.ne_of_gt hcols)
  have hlength : (row.cells.take (k + 1)).length = k + 1 := by
    rw [List.length_take]
    omega
  obtain ⟨last, hlast⟩ : ∃ last, row.cells[k]? = some last := exists_cell hle
  have hget : (row.cells.take (k + 1))[k]? = some last := by
    rw [List.getElem?_take, if_pos (by omega), hlast]
  have hsound : ∀ cell ∈ row.cells.take (k + 1), cell.Sound := fun cell hcell => h.cells cell (List.mem_of_mem_take hcell)
  have hwide : wideAt row.cells k = last.isWide := flagAt_of_getElem? hlast
  unfold truncate
  simp only [returns_bind, returns_sub, returns_update, returns_pure]
  refine ⟨hcols, last, hget, ⟨?_, ?_⟩, List.length_set.trans hlength⟩
  · show Paired ((row.cells.take (k + 1)).set k _)
    split
    · exact h.paired.take_set hle (hwide.trans ‹_›) (last.narrow_clear _)
    · obtain ⟨hlt, hlast⟩ := List.getElem?_eq_some_iff.mp hget
      rw [← hlast, List.set_getElem_self hlt]
      refine h.paired.take fun j hj => ?_
      obtain rfl : j = k := by omega
      exact hwide.trans (Bool.eq_false_iff.mpr ‹_›)
  · refine forall_mem_set hsound ?_
    split
    · exact last.sound_clear (h.getElem? hlast).attrs
    · exact h.getElem? hlast

/-- A round of `insert_cells` keeps the cursor between the same halves. -/
theorem returns_insertCell {col : Nat} {wide : Bool} (h : row.Whole) (hcol : col ≤ row.cells.length)
    (hwide : continuationAt row.cells col = wide) :
    Returns (Grid.insertCell col wide row) fun next =>
      next.Whole ∧ next.cells.length = row.cells.length + 1 ∧ continuationAt next.cells col = wide := by
  cases wide with
  | false =>
    have hnew : continuationAt (row.cells.insertIdx col .new) col = false :=
      (flagAt_insertIdx hcol).trans ((if_neg (Nat.lt_irrefl col)).trans (if_pos rfl))
    unfold Grid.insertCell Row.insert
    simp only [Bool.false_eq_true, if_false, pure_bind, bind_assoc, returns_bind, returns_insert, returns_pure]
    exact ⟨hcol, ⟨h.paired.insertIdx hcol hwide Cell.narrow_new, forall_mem_insertIdx h.cells Cell.sound_new hcol⟩,
      List.length_insertIdx_of_le_length hcol .., hnew⟩
  | true =>
    have hlt := lt_length_of_flagAt hwide
    obtain ⟨cell, hcell⟩ := exists_cell hlt
    have hcell' : (cell.setWideContinuation false).Narrow := by
      refine ⟨?_, rfl⟩
      by_contra hw
      have := h.paired.once col ((flagAt_of_getElem? hcell).trans (eq_true_of_ne_false hw))
      rw [hwide] at this
      cases this
    have hle : col ≤ (row.cells.set col (cell.setWideContinuation false)).length := by
      rw [List.length_set]
      exact hcol
    have hget : ((row.cells.set col (cell.setWideContinuation false)).insertIdx col .new)[col]? = some .new := by
      rw [List.getElem?_insertIdx_self, if_pos hle]
    unfold Grid.insertCell Row.insert
    simp only [if_true, bind_assoc, pure_bind, returns_bind, returns_update, returns_insert, returns_pure]
    refine ⟨cell, hcell, hle, .new, hget, ⟨?_, ?_⟩, ?_, ?_⟩
    · exact h.paired.insertIdx_continuation hwide hcell' ⟨rfl, rfl⟩ _
    · refine forall_mem_set (forall_mem_insertIdx (forall_mem_set h.cells ?_) Cell.sound_new hle)
        (Cell.sound_new.setWideContinuation true)
      exact (h.getElem? hcell).setWideContinuation false
    · rw [List.length_set, List.length_insertIdx_of_le_length hle, List.length_set]
    · exact (flagAt_set (List.getElem?_eq_some_iff.mp hget).1).trans (if_pos rfl)

end Row

end MoshClient.Vt100
