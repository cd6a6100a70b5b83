import Mathlib.Data.Nat.Digits.Defs
import MoshClient.Bootstrap

/-! The parser of the bootstrap exchange accepts exactly its grammar. Lines are counted, split and searched by three
    functions, and a record is recognised more loosely than it is read; the grammar says what they accept together. -/

namespace MoshClient
open Limits Effect

namespace Bootstrap

/-! ### Lines -/

/-- A line that is terminated, without the carriage return before its line feed. -/
def withoutReturn (line : Bytes) : Bytes :=
  if line.getLast? = some carriageReturn then line.dropLast else line

/-- The lines of the output: what ends with a line feed, and what is left behind the last one, if anything is. -/
def lines (output : Bytes) : List Bytes :=
  (output.splitOn lineFeed).dropLast.map withoutReturn ++ (output.splitOn lineFeed).getLast?.toList.filter (· ≠ [])

theorem splitOn_cons (b : UInt8) (rest : Bytes) :
    (b :: rest).splitOn lineFeed =
      if b = lineFeed then [] :: rest.splitOn lineFeed else (rest.splitOn lineFeed).modifyHead (b :: ·) := by
  rw [List.splitOn_cons_eq_if_modifyHead]
  simp

theorem exists_splitOn (output : Bytes) : ∃ front last, output.splitOn lineFeed = front ++ [last] := by
  obtain h | ⟨front, last, h⟩ := List.eq_nil_or_concat (output.splitOn lineFeed)
  · exact absurd h (List.splitOn_ne_nil _ _)
  · exact ⟨front, last, by rw [h, List.concat_eq_append]⟩

/-- What the pieces of the output are: nothing but the last is left without its line feed, and it only if not empty. -/
theorem splitOn_induction {P : Bytes → List Bytes → Bytes → Prop} (hnil : P [] [] [])
    (hfeed : ∀ rest front last, P rest front last → P (lineFeed :: rest) ([] :: front) last)
    (hlast : ∀ b rest last, b ≠ lineFeed → P rest [] last → P (b :: rest) [] (b :: last))
    (hfront : ∀ b rest piece front last, b ≠ lineFeed → P rest (piece :: front) last →
      P (b :: rest) ((b :: piece) :: front) last)
    (output : Bytes) {front : List Bytes} {last : Bytes} (h : output.splitOn lineFeed = front ++ [last]) :
    P output front last := by
  induction output generalizing front last with
  | nil =>
    rw [List.splitOn_nil] at h
    obtain ⟨rfl, rfl⟩ : front = [] ∧ last = [] := by
      cases front with
      | nil => simpa using h.symm
      | cons piece front => simp at h
    exact hnil
  | cons b rest ih =>
    obtain ⟨front', last', hrest⟩ := exists_splitOn rest
    rw [splitOn_cons, hrest] at h
    have hP := ih hrest
    by_cases hb : b = lineFeed
    · rw [if_pos hb, ← List.cons_append] at h
      obtain ⟨rfl, hlast'⟩ := List.append_inj' h rfl
      cases hlast'
      subst hb
      exact hfeed rest front' last hP
    · rw [if_neg hb] at h
      cases front' with
      | nil =>
        obtain ⟨rfl, hlast'⟩ : front = [] ∧ last = b :: last' := by
          cases front with
          | nil => simpa using h.symm
          | cons piece front => simp at h
        subst hlast'
        exact hlast b rest last' hb hP
      | cons piece front' =>
        rw [List.cons_append, List.modifyHead_cons, ← List.cons_append] at h
        obtain ⟨rfl, hlast'⟩ := List.append_inj' h rfl
        cases hlast'
        exact hfront b rest piece front' last hb hP

theorem splitInclusive_eq (output : Bytes) {front : List Bytes} {last : Bytes}
    (h : output.splitOn lineFeed = front ++ [last]) :
    splitInclusive lineFeed output = front.map (· ++ [lineFeed]) ++ [last].filter (· ≠ []) := by
  refine splitOn_induction (P := fun output front last => splitInclusive lineFeed output =
    front.map (· ++ [lineFeed]) ++ [last].filter (· ≠ [])) rfl ?_ ?_ ?_ output h
  · intro rest front last ih
    simp [splitInclusive, ih]
  · intro b rest last hb ih
    by_cases hempty : last = [] <;> simp [splitInclusive, hb, ih, hempty]
  · intro b rest piece front last hb ih
    simp [splitInclusive, hb, ih]

theorem lineFeed_not_mem_last (output : Bytes) {front : List Bytes} {last : Bytes}
    (h : output.splitOn lineFeed = front ++ [last]) : lineFeed ∉ last := by
  refine splitOn_induction (P := fun _ _ last => lineFeed ∉ last) (by simp) ?_ ?_ ?_ output h
  · exact fun _ _ _ ih => ih
  · intro b rest last hb ih
    simp [ih, Ne.symm hb]
  · exact fun _ _ _ _ _ _ ih => ih

theorem line_terminated (piece : Bytes) : line (piece ++ [lineFeed]) = withoutReturn piece := by
  simp only [line, stripSuffix, List.getLast?_concat, if_true, List.dropLast_concat, withoutReturn]
  split <;> rfl

theorem line_unterminated {last : Bytes} (h : lineFeed ∉ last) : line last = last := by
  have hend : last.getLast? ≠ some lineFeed := fun hlast => h (List.mem_of_getLast? hlast)
  simp only [line, stripSuffix, if_neg hend]

/-- The loop sees the lines of the output. -/
theorem map_line_splitInclusive (output : Bytes) : (splitInclusive lineFeed output).map line = lines output := by
  obtain ⟨front, last, h⟩ := exists_splitOn output
  rw [lines, splitInclusive_eq output h, h, List.map_append, List.map_map, List.dropLast_concat, List.getLast?_concat]
  congr 1
  · exact List.map_congr_left fun piece _ => line_terminated piece
  · by_cases hempty : last = []
    · simp [hempty]
    · simp [hempty, line_unterminated (lineFeed_not_mem_last output h)]

/-- There are as many pieces before the last as line feeds, and the last is empty where the output ends with one. -/
theorem count_lineFeed (output : Bytes) {front : List Bytes} {last : Bytes}
    (h : output.splitOn lineFeed = front ++ [last]) :
    output.count lineFeed = front.length ∧ (last = [] ↔ output = [] ∨ output.getLast? = some lineFeed) := by
  refine splitOn_induction (P := fun output front last => output.count lineFeed = front.length ∧
    (last = [] ↔ output = [] ∨ output.getLast? = some lineFeed)) (by simp) ?_ ?_ ?_ output h
  · intro rest front last ih
    obtain ⟨hcount, hlast⟩ := ih
    refine ⟨by simp [hcount], ?_⟩
    rw [hlast]
    cases rest <;> simp
  · intro b rest last hb ih
    obtain ⟨hcount, -⟩ := ih
    have hnone : lineFeed ∉ rest := List.count_eq_zero.mp hcount
    have hend : (b :: rest).getLast? ≠ some lineFeed := by
      intro hend
      obtain heq | hmem := List.mem_cons.mp (List.mem_of_getLast? hend)
      · exact hb heq.symm
      · exact hnone hmem
    exact ⟨by simp [hcount, hb], by simp [hend]⟩
  · intro b rest piece front last hb ih
    obtain ⟨hcount, hlast⟩ := ih
    refine ⟨by simpa [hb] using hcount, ?_⟩
    cases rest with
    | nil => simp at hcount
    | cons c rest => simpa using hlast

/-- Counting the lines gives as many as there are. -/
theorem physicalLineCount_eq (output : Bytes) : physicalLineCount output = (lines output).length := by
  obtain ⟨front, last, h⟩ := exists_splitOn output
  obtain ⟨hcount, hlast⟩ := count_lineFeed output h
  rw [lines, h, List.dropLast_concat, List.getLast?_concat, physicalLineCount, hcount]
  by_cases hempty : output = []
  · subst hempty
    have : front = [] := List.length_eq_zero_iff.mp (by simpa using hcount.symm)
    simp [this, hlast]
  · by_cases hend : output.getLast? = some lineFeed
    · simp [hempty, hend, hlast]
    · have hrest : last ≠ [] := by simp [hlast, hempty, hend]
      simp [hempty, hend, hrest]

/-! ### The candidate -/

/-- The words of a line. -/
def words (line : Bytes) : List Bytes := (line.splitOnP isAsciiWhitespace).filter (· ≠ [])

/-- The first two words of the line are those of a record. -/
def LooksLikeRecord (line : Bytes) : Prop := [moshWord, connectWord] <+: words line

theorem looksLikeConnectRecord_iff (line : Bytes) : looksLikeConnectRecord line = true ↔ LooksLikeRecord line := by
  have hwords : (line.splitOnP isAsciiWhitespace).filter (fun word => !word.isEmpty) = words line := by
    refine List.filter_congr fun word _ => ?_
    cases word <;> simp
  unfold looksLikeConnectRecord LooksLikeRecord
  rw [hwords]
  split
  · rename_i hsplit
    rw [hsplit]
    simp only [Bool.and_eq_true, beq_iff_eq, List.cons_prefix_cons, List.nil_prefix, and_true]
    exact and_congr eq_comm eq_comm
  · rename_i hshort
    simp only [Bool.false_eq_true, false_iff]
    rintro ⟨rest, hrest⟩
    exact hshort _ _ rest hrest.symm

/-- What the search makes of the lines that look like a record. -/
def single : List Bytes → Except BootstrapError (Option Bytes)
  | [] => .ok none
  | [record] => .ok (some record)
  | _ => .error .ambiguousConnectRecord

theorem findCandidate_eq (candidate : Option Bytes) (rawLines : List Bytes) :
    findCandidate candidate rawLines = single (candidate.toList ++ (rawLines.map line).filter looksLikeConnectRecord) := by
  induction rawLines generalizing candidate with
  | nil => cases candidate <;> rfl
  | cons rawLine rest ih =>
    rw [findCandidate, List.map_cons]
    by_cases hlooks : looksLikeConnectRecord (line rawLine) = true
    · rw [if_pos hlooks, List.filter_cons_of_pos hlooks]
      cases candidate with
      | none => simp [ih]
      | some record => rfl
    · rw [if_neg hlooks, List.filter_cons_of_neg hlooks, ih]

/-- The record is the only line of the output that looks like one. -/
def OnlyRecord (output record : Bytes) : Prop :=
  ∃ before after, lines output = before ++ record :: after ∧ LooksLikeRecord record ∧
    ∀ line ∈ before ++ after, ¬LooksLikeRecord line

theorem findCandidate_some_iff {output record : Bytes} :
    findCandidate none (splitInclusive lineFeed output) = .ok (some record) ↔ OnlyRecord output record := by
  rw [findCandidate_eq, map_line_splitInclusive]
  have hsingle : ∀ records, single records = .ok (some record) ↔ records = [record] := by
    intro records
    unfold single
    split <;> simp_all
  simp only [Option.toList_none, List.nil_append, hsingle, OnlyRecord, ← looksLikeConnectRecord_iff,
    List.filter_eq_cons_iff, List.filter_eq_nil_iff, List.mem_append]
  constructor
  · rintro ⟨before, after, hlines, hbefore, hrecord, hafter⟩
    exact ⟨before, after, hlines, hrecord, fun line hline => hline.elim (hbefore line) (hafter line)⟩
  · rintro ⟨before, after, hlines, hrecord, hothers⟩
    exact ⟨before, after, hlines, fun line hline => hothers line (.inl hline), hrecord,
      fun line hline => hothers line (.inr hline)⟩

/-! ### The record -/

/-- A decimal number of one to five digits, in the range of a port. -/
structure IsPort (text : Bytes) (port : Nat) : Prop where
  length : 1 ≤ text.length ∧ text.length ≤ 5
  digits : ∀ b ∈ text, 48 ≤ b.toNat ∧ b.toNat ≤ 57
  value : Nat.ofDigits 10 (text.reverse.map fun b => b.toNat - 48) = port
  range : 1 ≤ port ∧ port ≤ 65535

/-- The unpadded Base64 form of a key. -/
structure IsKey (text key : Bytes) : Prop where
  length : text.length = 22
  decoded : Base64.decode text = some key
  bytes : key.length = 16

/-- A connect record: its two words, the port and the key, with one space between each two. -/
def record (port key : Bytes) : Bytes := moshWord ++ [space] ++ connectWord ++ [space] ++ port ++ [space] ++ key

theorem record_eq (port key : Bytes) : record port key = [space].intercalate [moshWord, connectWord, port, key] := by
  simp [record, List.intercalate, List.intersperse, List.append_assoc]

theorem foldl_eq_ofDigits (text : Bytes) :
    text.foldl (fun port byte => port * 10 + (byte.toNat - 48)) 0 =
      Nat.ofDigits 10 (text.reverse.map fun b => b.toNat - 48) := by
  induction text using List.reverseRecOn with
  | nil => rfl
  | append_singleton text byte ih =>
    rw [List.foldl_append, ih]
    simp [Nat.ofDigits_cons]
    omega

theorem isAsciiDigit_iff (b : UInt8) : isAsciiDigit b = true ↔ 48 ≤ b.toNat ∧ b.toNat ≤ 57 := by
  simp [isAsciiDigit]

theorem parsePort_ok_iff {text : Bytes} {port : Nat} (hne : text ≠ []) : parsePort text = .ok port ↔ IsPort text port := by
  have hpos : 1 ≤ text.length := List.length_pos_iff.mpr hne
  unfold parsePort
  constructor
  · intro h
    split at h
    · cases h
    · rename_i hform
      simp only [foldl_eq_ofDigits] at h
      split at h
      · rename_i hrange
        cases h
        simp only [Bool.or_eq_true, decide_eq_true_eq, Bool.not_eq_true', not_or, Bool.not_eq_false, List.all_eq_true,
          isAsciiDigit_iff] at hform
        exact ⟨⟨hpos, by omega⟩, hform.2, rfl, by omega⟩
      · cases h
  · intro h
    obtain ⟨⟨-, hlength⟩, hdigits, rfl, hrange⟩ := h
    have hall : text.all isAsciiDigit = true := by simpa [isAsciiDigit_iff] using hdigits
    rw [if_neg (by simp [hall]; omega)]
    simp only [foldl_eq_ofDigits]
    rw [if_pos (by omega)]

theorem isAsciiWhitespace_of_lt {b : UInt8} (h : 32 < b.toNat) : isAsciiWhitespace b = false := by
  have hne : ∀ c : UInt8, c.toNat ≤ 32 → b ≠ c := by
    intro c hc heq
    subst heq
    omega
  simp [isAsciiWhitespace, hne 9 (by decide), hne 10 (by decide), hne 12 (by decide), hne 13 (by decide), hne 32 (by decide)]

theorem lt_of_sextet {b : UInt8} {n : Nat} (h : Base64.sextet b = some n) : 32 < b.toNat := by
  unfold Base64.sextet at h
  split at h
  · omega
  · split at h
    · omega
    · split at h
      · omega
      · split at h
        · omega
        · split at h
          · omega
          · cases h

/-- None of the four fields of a record has whitespace in it. -/
theorem lt_of_mem_field {portText keyText : Bytes} {port : Nat} {key : Bytes} (hport : IsPort portText port)
    (hkey : IsKey keyText key) :
    ∀ field ∈ [moshWord, connectWord, portText, keyText], ∀ b ∈ field, 32 < b.toNat := by
  have hmosh : ∀ b ∈ moshWord, 32 < b.toNat := by simp [moshWord]
  have hconnect : ∀ b ∈ connectWord, 32 < b.toNat := by simp [connectWord]
  intro field hfield b hb
  simp only [List.mem_cons, List.not_mem_nil, or_false] at hfield
  obtain rfl | rfl | rfl | rfl := hfield
  · exact hmosh b hb
  · exact hconnect b hb
  · have hdigit := hport.digits b hb
    omega
  · obtain ⟨n, hn⟩ := Base64.sextet_of_decode hkey.decoded b hb
    exact lt_of_sextet hn

theorem parseConnectRecord_ok {bytes : Bytes} {port : Nat} {key : Bytes} (h : parseConnectRecord bytes = .ok (port, key)) :
    ∃ portText keyText, bytes = record portText keyText ∧ IsPort portText port ∧ IsKey keyText key := by
  unfold parseConnectRecord at h
  split at h
  · cases h
  · split at h
    · rename_i first second portText keyText hfields
      split at h
      · cases h
      · rename_i hwords
        split at h
        · cases h
        · rename_i hempty
          obtain ⟨port', hport, h⟩ := exists_of_bind_ok h
          split at h
          · cases h
          · rename_i hlength
            split at h
            · cases h
            · rename_i decoded hdecoded
              split at h
              · cases h
              · rename_i hbytes
                cases h
                push Not at hwords hlength hbytes
                obtain ⟨rfl, rfl⟩ := hwords
                simp only [Bool.or_eq_true, List.isEmpty_iff, not_or] at hempty
                obtain ⟨hdecode, -⟩ := Option.filter_eq_some_iff.mp hdecoded
                have hbytes' : bytes = record portText keyText := by
                  rw [record_eq, ← hfields, List.intercalate_splitOn]
                exact ⟨portText, keyText, hbytes', (parsePort_ok_iff hempty.1).mp hport, hlength, hdecode, hbytes⟩
    · cases h

theorem parseConnectRecord_record {portText keyText : Bytes} {port : Nat} {key : Bytes} (hport : IsPort portText port)
    (hkey : IsKey keyText key) : parseConnectRecord (record portText keyText) = .ok (port, key) := by
  have hfield := lt_of_mem_field hport hkey
  have hsplit : (record portText keyText).splitOn space = [moshWord, connectWord, portText, keyText] := by
    rw [record_eq]
    refine List.splitOn_intercalate space (fun field hmem hspace => ?_) (List.cons_ne_nil _ _)
    exact absurd (hfield field hmem space hspace) (by decide)
  have hwhitespace : ¬(record portText keyText).any (fun byte => isAsciiWhitespace byte && byte != space) = true := by
    simp only [List.any_eq_true, Bool.and_eq_true, bne_iff_ne, not_exists, not_and, not_not]
    intro b hb hwhite
    by_contra hspace
    have hmem : ∃ field ∈ [moshWord, connectWord, portText, keyText], b ∈ field := by
      simp only [record, List.mem_append, List.mem_singleton, hspace, or_false] at hb
      simpa [or_assoc] using hb
    obtain ⟨field, hmem, hbfield⟩ := hmem
    rw [isAsciiWhitespace_of_lt (hfield field hmem b hbfield)] at hwhite
    cases hwhite
  have hportText : portText ≠ [] := List.length_pos_iff.mp hport.length.1
  have hkeyText : keyText ≠ [] := List.length_pos_iff.mp (by rw [hkey.length]; decide)
  have hdecoded : Base64.decodeSlice keyText decodedKeyBytes = some key :=
    Option.filter_eq_some_iff.mpr ⟨hkey.decoded, by simp [hkey.bytes, decodedKeyBytes]⟩
  unfold parseConnectRecord
  rw [if_neg hwhitespace, hsplit]
  have hlength : ¬keyText.length ≠ encodedKeyBytes := not_not.mpr hkey.length
  have hbytes : ¬key.length ≠ decodedKeyBytes := not_not.mpr hkey.bytes
  have hpresent : ¬(portText.isEmpty || keyText.isEmpty) = true := by simp [hportText, hkeyText]
  simp only [ne_eq, not_true_eq_false, or_self, if_false, if_neg hpresent, (parsePort_ok_iff hportText).mpr hport, hdecoded,
    if_neg hbytes, bind, Except.bind, if_neg hlength]

/-! ### The grammar -/

/-- What the server may print for a session at a port with a key. -/
structure Grammar (output : Bytes) (port : Nat) (key : Bytes) : Prop where
  bytes : output.length ≤ 4096
  lines : (lines output).length ≤ 64
  record : ∃ portText keyText, OnlyRecord output (record portText keyText) ∧ IsPort portText port ∧ IsKey keyText key

theorem parse_ok_iff {serverAddress : Nat} {output : Bytes} {bootstrap : Bootstrap} :
    parse serverAddress output = .ok bootstrap ↔
      bootstrap.serverAddr.ip = serverAddress ∧ Grammar output bootstrap.serverAddr.port bootstrap.sessionKey := by
  constructor
  · intro h
    unfold parse at h
    split at h
    · cases h
    · rename_i hbytes
      split at h
      · cases h
      · rename_i hlines
        obtain ⟨candidate, hcandidate, h⟩ := exists_of_bind_ok h
        cases candidate with
        | none => cases h
        | some bytes =>
          obtain ⟨⟨port, key⟩, hrecord, h⟩ := exists_of_bind_ok h
          cases h
          obtain ⟨portText, keyText, rfl, hport, hkey⟩ := parseConnectRecord_ok hrecord
          rw [physicalLineCount_eq] at hlines
          exact ⟨rfl, Nat.le_of_not_lt hbytes, Nat.le_of_not_lt hlines, portText, keyText,
            findCandidate_some_iff.mp hcandidate, hport, hkey⟩
  · rintro ⟨rfl, hbytes, hlines, portText, keyText, honly, hport, hkey⟩
    have hbytes' : ¬output.length > maxBootstrapBytes := Nat.not_lt.mpr hbytes
    have hlines' : ¬(Bootstrap.lines output).length > maxBootstrapLines := Nat.not_lt.mpr hlines
    unfold parse
    rw [if_neg hbytes', physicalLineCount_eq, if_neg hlines', findCandidate_some_iff.mpr honly]
    simp only [bind, Except.bind, parseConnectRecord_record hport hkey]
    rfl

-- The record of the unit tests, with the bytes of its key.
example : parse 0 (record [54, 48, 48, 53, 52]
    [52, 78, 101, 67, 67, 103, 118, 90, 70, 101, 50, 82, 110, 80, 103, 114, 99, 85, 49, 80, 81, 119]) =
    .ok ⟨⟨0, 60054⟩, [224, 215, 130, 10, 11, 217, 21, 237, 145, 156, 248, 43, 113, 77, 79, 67]⟩ := by decide

/-- A second line that looks like a record is not overlooked, whatever the two lines are. -/
theorem not_onlyRecord_of_two {output : Bytes} {i j : Nat} {first second record : Bytes} (hij : i < j)
    (hfirst : (lines output)[i]? = some first) (hsecond : (lines output)[j]? = some second)
    (hlooks : LooksLikeRecord first) (hlooks' : LooksLikeRecord second) : ¬OnlyRecord output record := by
  rintro ⟨before, after, hlines, -, hothers⟩
  rw [hlines] at hfirst hsecond
  have hplace : ∀ {k : Nat} {line : Bytes}, (before ++ record :: after)[k]? = some line → LooksLikeRecord line →
      k = before.length := by
    intro k line hline hlooks
    by_contra hk
    refine hothers line (List.mem_append.mpr ?_) hlooks
    obtain hbefore | hafter : k < before.length ∨ before.length < k := by omega
    · rw [List.getElem?_append_left hbefore] at hline
      exact .inl (List.mem_of_getElem? hline)
    · obtain ⟨n, rfl⟩ := Nat.exists_eq_add_of_lt hafter
      rw [List.getElem?_append_right (by omega), show before.length + n + 1 - before.length = n + 1 by omega,
        List.getElem?_cons_succ] at hline
      exact .inr (List.mem_of_getElem? hline)
  have hi := hplace hfirst hlooks
  have hj := hplace hsecond hlooks'
  omega

/-- The parser accepts exactly the grammar of the exchange. An endpoint and a key are returned just where the output has
    one line that looks like a record, within the limits, and that line is a record with them; everything else is an
    error, a second line that merely looks like a record among it. -/
theorem parse_accepts_exactly (serverAddress : Nat) (output : Bytes) :
    (∀ port key, parse serverAddress output = .ok ⟨⟨serverAddress, port⟩, key⟩ ↔ Grammar output port key) ∧
    ((∀ port key, ¬Grammar output port key) → ∃ e, parse serverAddress output = .error e) ∧
    ∀ (i j : Nat) (first second : Bytes), i < j → (lines output)[i]? = some first → (lines output)[j]? = some second →
      LooksLikeRecord first → LooksLikeRecord second → ∃ e, parse serverAddress output = .error e := by
  have hothers : (∀ port key, ¬Grammar output port key) → ∃ e, parse serverAddress output = .error e := by
    intro hnone
    cases hparse : parse serverAddress output with
    | error e => exact ⟨e, rfl⟩
    | ok bootstrap => exact absurd (parse_ok_iff.mp hparse).2 (hnone _ _)
  refine ⟨?_, hothers, ?_⟩
  · intro port key
    rw [parse_ok_iff]
    exact ⟨fun h => h.2, fun h => ⟨rfl, h⟩⟩
  · intro i j first second hij hfirst hsecond hlooks hlooks'
    refine hothers fun port key hgrammar => ?_
    obtain ⟨portText, keyText, honly, -⟩ := hgrammar.record
    exact not_onlyRecord_of_two hij hfirst hsecond hlooks hlooks' honly

end Bootstrap
end MoshClient
