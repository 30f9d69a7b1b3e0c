import Mathlib.Data.List.DropRight
import TagColoring.Line
import TagColoring.Proofs.Window

/-!
# Offsets and positions

An offset cuts a text in two.  The line of its position counts the line feeds in front
of the cut, and the column measures what stands between the last of them and the cut
(`positionAt_length`).  So both are read off the front alone, and the table of line
starts is only a way to find them.

*Left inverse.*  The table leads from the line back to the start of the line
(`getElem?_starts`).  Every character has a column of its own, so the walk from there
ends where the column was measured (`charactersTo_textWidth`).

*Order.*  A cut further on has more line feeds in front of it or a longer last line
(`positionAt_append`, `before_positionAt`).

*Leaving a line.*  The walk does not stop at the end of a line.  A column past the end
of its line leads to a later line, unless the line is the last one
(`offsetAt_keeps_line`).
-/

namespace TagColoring

/-! ## Columns -/

/-- The columns of a piece of a line: one for each character, and in UTF-16 one more for
each character outside the basic plane. -/
def ColumnUnit.columns (unit : ColumnUnit) (cs : List Char) : Nat :=
  match unit with
  | .codePoint => cs.length
  | .utf16 => cs.length + cs.countP fun c => 0xffff < c.toNat

namespace ColumnUnit

variable (unit : ColumnUnit)

@[simp] theorem textWidth_nil : unit.textWidth [] = 0 := rfl

@[simp] theorem textWidth_cons (c : Char) (cs : List Char) :
    unit.textWidth (c :: cs) = unit.width c + unit.textWidth cs := rfl

@[simp] theorem textWidth_append (as bs : List Char) :
    unit.textWidth (as ++ bs) = unit.textWidth as + unit.textWidth bs := by
  rw [textWidth, List.map_append, total_append]
  rfl

theorem textWidth_eq_columns (cs : List Char) : unit.textWidth cs = unit.columns cs := by
  induction cs with
  | nil => cases unit <;> rfl
  | cons c cs ih =>
      rw [textWidth_cons, ih]
      cases unit with
      | codePoint => exact Nat.add_comm 1 cs.length
      | utf16 =>
          simp only [columns, width, List.length_cons, List.countP_cons, decide_eq_true_eq]
          split <;> omega

/-- Every character takes a column. -/
theorem width_pos (c : Char) : 0 < unit.width c := by
  cases unit with
  | codePoint => exact Nat.one_pos
  | utf16 =>
      simp only [width]
      split <;> decide

theorem length_le_textWidth (cs : List Char) : cs.length ≤ unit.textWidth cs := by
  induction cs with
  | nil => exact Nat.le_refl 0
  | cons c cs ih =>
      have hc := unit.width_pos c
      rw [textWidth_cons, List.length_cons]
      omega

/-- Characters of one column each take as many columns as there are of them. -/
theorem textWidth_of_width_one {cs : List Char} (h : ∀ c ∈ cs, unit.width c = 1) :
    unit.textWidth cs = cs.length := by
  induction cs with
  | nil => rfl
  | cons c cs ih =>
      rw [textWidth_cons, h c List.mem_cons_self,
        ih fun d hd => h d (List.mem_cons_of_mem c hd), List.length_cons, Nat.add_comm]

end ColumnUnit

/-! ## The last line of a text -/

/-- What stands behind the last line feed of a text, or all of it. -/
def lastLine (cs : List Char) : List Char := cs.rtakeWhile (· ≠ '\n')

/-- No line goes on at the end of a text: the text is empty, or it ends with a line
feed. -/
def EndsLine (cs : List Char) : Prop := cs = [] ∨ ['\n'] <:+ cs

theorem lastLine_append {piece : List Char} (h : '\n' ∉ piece) (front : List Char) :
    lastLine (front ++ piece) = lastLine front ++ piece := by
  have hpiece : ∀ c ∈ piece.reverse, decide (c ≠ '\n') = true := by
    intro c hc
    refine decide_eq_true fun heq => h ?_
    exact heq ▸ List.mem_reverse.mp hc
  rw [lastLine, List.rtakeWhile, List.reverse_append, List.takeWhile_append_of_pos hpiece,
    List.reverse_append, List.reverse_reverse]
  rfl

/-- A text is made of whole lines and its last line. -/
theorem exists_lastLine (cs : List Char) :
    ∃ before, cs = before ++ lastLine cs ∧ EndsLine before ∧ '\n' ∉ lastLine cs := by
  refine ⟨cs.rdropWhile (· ≠ '\n'), List.rdropWhile_append_rtakeWhile.symm, ?_, fun hmem => ?_⟩
  · by_cases hnil : cs.rdropWhile (· ≠ '\n') = []
    · exact .inl hnil
    · have hlast := List.rdropWhile_last_not _ cs hnil
      rw [decide_eq_true_eq, not_not] at hlast
      have hsplit := List.dropLast_append_getLast hnil
      rw [hlast] at hsplit
      exact .inr ⟨_, hsplit⟩
  · have hne := List.mem_rtakeWhile_imp hmem
    simp at hne

/-! ## The table of line starts -/


theorem startsAfterNewlines_append (as bs : List Char) (i : Nat) :
    startsAfterNewlines i (as ++ bs)
      = startsAfterNewlines i as ++ startsAfterNewlines (i + as.length) bs := by
  induction as generalizing i with
  | nil => rfl
  | cons c as ih =>
      rw [List.cons_append, startsAfterNewlines, startsAfterNewlines, ih, List.length_cons,
        Nat.add_assoc, Nat.add_comm 1]
      split <;> rfl

/-- Each line feed starts a line. -/
theorem length_startsAfterNewlines (cs : List Char) (i : Nat) :
    (startsAfterNewlines i cs).length = cs.count '\n' := by
  induction cs generalizing i with
  | nil => rfl
  | cons c cs ih =>
      rw [startsAfterNewlines]
      split
      · next hc => rw [List.length_cons, ih, hc, List.count_cons_self]
      · next hc => rw [ih, List.count_cons_of_ne hc]

theorem mem_startsAfterNewlines {cs : List Char} {i s : Nat} (h : s ∈ startsAfterNewlines i cs) :
    i < s ∧ s ≤ i + cs.length := by
  induction cs generalizing i with
  | nil => cases h
  | cons c cs ih =>
      rw [List.length_cons]
      rw [startsAfterNewlines] at h
      split at h
      · rcases List.mem_cons.mp h with rfl | h
        · omega
        · have := ih h
          omega
      · have := ih h
        omega

/-- The starts up to the end of a front are those of the front. -/
theorem takeWhile_starts (front back : List Char) :
    (0 :: startsAfterNewlines 0 (front ++ back)).takeWhile (· ≤ front.length)
      = 0 :: startsAfterNewlines 0 front := by
  have hfront : ∀ s ∈ 0 :: startsAfterNewlines 0 front, decide (s ≤ front.length) = true := by
    intro s hs
    rcases List.mem_cons.mp hs with rfl | hs
    · exact decide_eq_true (Nat.zero_le _)
    · have := mem_startsAfterNewlines hs
      exact decide_eq_true (by omega)
  have hback : (startsAfterNewlines front.length back).takeWhile (· ≤ front.length) = [] := by
    cases hstarts : startsAfterNewlines front.length back with
    | nil => rfl
    | cons s ss =>
        have hs : s ∈ startsAfterNewlines front.length back := by
          rw [hstarts]
          exact List.mem_cons_self
        have := mem_startsAfterNewlines hs
        exact List.takeWhile_cons_of_neg (by rw [decide_eq_true_eq]; omega)
  rw [startsAfterNewlines_append, ← List.cons_append, List.takeWhile_append_of_pos hfront,
    Nat.zero_add, hback, List.append_nil]

/-- Behind whole lines, the next line starts. -/
theorem getLast?_starts {before : List Char} (h : EndsLine before) :
    (0 :: startsAfterNewlines 0 before).getLast? = some before.length := by
  rcases h with rfl | ⟨init, rfl⟩
  · rfl
  · have hfeed : startsAfterNewlines (0 + init.length) ['\n'] = [(init ++ ['\n']).length] := by
      rw [startsAfterNewlines, if_pos rfl, List.length_append, Nat.zero_add]
      rfl
    rw [startsAfterNewlines_append, hfeed, ← List.cons_append, List.getLast?_concat]

/-- The table leads from the number of a line to its start. -/
theorem getElem?_starts {before : List Char} (h : EndsLine before) (rest : List Char) :
    (0 :: startsAfterNewlines 0 (before ++ rest))[before.count '\n']? = some before.length := by
  have hlast := getLast?_starts h
  rw [List.getLast?_eq_getElem?, List.length_cons, length_startsAfterNewlines,
    Nat.add_sub_cancel] at hlast
  rw [startsAfterNewlines_append, ← List.cons_append, List.getElem?_append_left ?_, hlast]
  rw [List.length_cons, length_startsAfterNewlines]
  exact Nat.lt_succ_self _

/-- A position stands in front of another one: on an earlier line, or on the same line in
an earlier column. -/
def Position.Before (p q : Position) : Prop :=
  p.line < q.line ∨ p.line = q.line ∧ p.column < q.column

namespace LineIndex

variable (unit : ColumnUnit)

@[simp] theorem ofText_text (text : List Char) : (ofText text unit).text = text := rfl

@[simp] theorem ofText_unit (text : List Char) : (ofText text unit).unit = unit := rfl

@[simp] theorem ofText_starts (text : List Char) :
    (ofText text unit).starts = 0 :: startsAfterNewlines 0 text := rfl

theorem lineCount_ofText (text : List Char) :
    (ofText text unit).lineCount = text.count '\n' + 1 := by
  rw [← length_startsAfterNewlines text 0]
  rfl

/-! ## From an offset to its position -/

theorem clamp_eq (index : LineIndex) (offset : Int) :
    (index.clamp offset : Int) = max 0 (min offset index.text.length) := by
  rw [clamp]
  omega

theorem clamp_of_le {index : LineIndex} {o : Nat} (h : o ≤ index.text.length) :
    index.clamp o = o := by
  rw [clamp, Int.toNat_natCast, Nat.min_eq_left h]

/-- An offset outside the text has the position of the nearer end. -/
theorem positionAt_clamp (index : LineIndex) (offset : Int) :
    index.positionAt (index.clamp offset) = index.positionAt offset := by
  have hclamp : index.clamp (index.clamp offset) = index.clamp offset :=
    clamp_of_le (Nat.min_le_right _ _)
  simp only [positionAt, hclamp]

/-- The position of a cut in a line: the number of lines before it, and the columns of
the line in front of the cut. -/
theorem positionAt_line {before line : List Char} (hbefore : EndsLine before)
    (hline : '\n' ∉ line) (rest : List Char) :
    (ofText (before ++ (line ++ rest)) unit).positionAt (before ++ line).length
      = ⟨before.count '\n', unit.textWidth line⟩ := by
  have hclamp : (ofText (before ++ (line ++ rest)) unit).clamp (before ++ line).length
      = (before ++ line).length := by
    refine clamp_of_le ?_
    rw [ofText_text, ← List.append_assoc]
    exact (List.prefix_append (before ++ line) rest).length_le
  have hstarts : (0 :: startsAfterNewlines 0 (before ++ (line ++ rest))).takeWhile
      (· ≤ (before ++ line).length) = 0 :: startsAfterNewlines 0 before := by
    have hnone : startsAfterNewlines (0 + before.length) line = [] := by
      rw [← List.length_eq_zero_iff, length_startsAfterNewlines]
      exact List.count_eq_zero.mpr hline
    rw [← List.append_assoc, takeWhile_starts, startsAfterNewlines_append, hnone, List.append_nil]
  have hslice : slice (before ++ (line ++ rest)) before.length (before ++ line).length = line := by
    rw [slice, List.length_append, Nat.add_sub_cancel_left, List.drop_left, List.take_left]
  have hlast : (0 :: startsAfterNewlines 0 before).getLastD 0 = before.length := by
    rw [List.getLastD_eq_getLast?, getLast?_starts hbefore]
    rfl
  simp only [positionAt, hclamp, ofText_starts, ofText_text, ofText_unit, hstarts, hlast, hslice,
    List.length_cons, length_startsAfterNewlines, Int.natCast_add, Int.natCast_one,
    Int.add_sub_cancel]

/-- The position of a cut: the line feeds in front of it, and the columns between the
last of them and the cut. -/
theorem positionAt_length (front back : List Char) :
    (ofText (front ++ back) unit).positionAt front.length
      = ⟨front.count '\n', unit.textWidth (lastLine front)⟩ := by
  obtain ⟨before, hfront, hbefore, hline⟩ := exists_lastLine front
  have hposition := positionAt_line unit hbefore hline back
  have hcount : front.count '\n' = before.count '\n' := by
    rw [hfront, List.count_append, List.count_eq_zero.mpr hline, Nat.add_zero]
  rw [← List.append_assoc, ← hfront] at hposition
  rw [hposition, hcount]

/-- A piece without a line feed stays on the line and moves the column by its width. -/
theorem positionAt_append (front back : List Char) {piece : List Char} (h : '\n' ∉ piece) :
    (ofText (front ++ (piece ++ back)) unit).positionAt (front.length + piece.length : Nat)
      = ⟨((ofText (front ++ (piece ++ back)) unit).positionAt front.length).line,
        ((ofText (front ++ (piece ++ back)) unit).positionAt front.length).column
          + unit.textWidth piece⟩ := by
  have hafter := positionAt_length unit (front ++ piece) back
  rw [List.length_append, List.append_assoc, List.count_append, List.count_eq_zero.mpr h,
    lastLine_append h, unit.textWidth_append] at hafter
  rw [hafter, positionAt_length]
  rfl

theorem line_positionAt (text : List Char) {o : Nat} (ho : o ≤ text.length) :
    ((ofText text unit).positionAt o).line = (text.take o).count '\n' := by
  have hposition := positionAt_length unit (text.take o) (text.drop o)
  rw [List.take_append_drop, List.length_take_of_le ho] at hposition
  rw [hposition]

/-! ## From a position to its offset -/

theorem charactersTo_le_length (column : Int) (cs : List Char) :
    charactersTo unit column cs ≤ cs.length := by
  induction cs generalizing column with
  | nil => exact Nat.le_refl 0
  | cons c cs ih =>
      rw [charactersTo, List.length_cons, Nat.add_comm]
      split
      · have := ih (column - unit.width c)
        omega
      · exact Nat.zero_le _

/-- The walk to the columns of a piece ends behind the piece. -/
theorem charactersTo_textWidth (piece back : List Char) :
    charactersTo unit (unit.textWidth piece) (piece ++ back) = piece.length := by
  induction piece with
  | nil => cases back <;> rfl
  | cons c piece ih =>
      have hc := unit.width_pos c
      have hpos : (0 : Int) < unit.textWidth (c :: piece) := by
        rw [unit.textWidth_cons]
        omega
      have hrest : (unit.textWidth (c :: piece) : Int) - unit.width c = unit.textWidth piece := by
        rw [unit.textWidth_cons]
        omega
      rw [List.cons_append, charactersTo, if_pos hpos, hrest, ih, List.length_cons, Nat.add_comm]

/-- The walk goes past a piece if the column does and something stands behind it. -/
theorem charactersTo_le_iff (piece back : List Char) (column : Int) :
    charactersTo unit column (piece ++ back) ≤ piece.length ↔
      column ≤ unit.textWidth piece ∨ back = [] := by
  induction piece generalizing column with
  | nil =>
      cases back with
      | nil => simp [charactersTo]
      | cons d back => simp [charactersTo]
  | cons c piece ih =>
      have hstep := ih (column - unit.width c)
      rw [List.cons_append, charactersTo, unit.textWidth_cons, List.length_cons]
      split
      · rw [Nat.add_comm 1, Nat.add_le_add_iff_right, hstep]
        refine or_congr_left ?_
        omega
      · exact iff_of_true (Nat.zero_le _) (.inl (by omega))

/-- The offset of a position on a line: the start of the line, and the walk from there. -/
theorem offsetAt_line {before : List Char} (hbefore : EndsLine before) (rest : List Char)
    (column : Int) :
    (ofText (before ++ rest) unit).offsetAt ⟨before.count '\n', column⟩
      = before.length + charactersTo unit column rest := by
  have hstart := getElem?_starts hbefore rest
  simp only [offsetAt, Int.toNat_natCast, ofText_starts, hstart, ofText_text, ofText_unit,
    List.drop_left]
  exact if_neg (Int.not_lt.mpr (Int.natCast_nonneg _))

/-- The offset of the position of a cut is the place of the cut. -/
theorem offsetAt_positionAt_length (front back : List Char) :
    (ofText (front ++ back) unit).offsetAt ((ofText (front ++ back) unit).positionAt front.length)
      = front.length := by
  obtain ⟨before, hfront, hbefore, hline⟩ := exists_lastLine front
  have hposition := positionAt_line unit hbefore hline back
  have hoffset := offsetAt_line unit hbefore (lastLine front ++ back)
    (unit.textWidth (lastLine front))
  rw [← hposition, charactersTo_textWidth, ← List.length_append, ← List.append_assoc,
    ← hfront] at hoffset
  exact hoffset

/-! ## Order -/

/-- A cut further on has a later position. -/
theorem before_positionAt (front back : List Char) {piece : List Char} (hpiece : piece ≠ []) :
    ((ofText (front ++ (piece ++ back)) unit).positionAt front.length).Before
      ((ofText (front ++ (piece ++ back)) unit).positionAt
        (front.length + piece.length : Nat)) := by
  by_cases hfeed : '\n' ∈ piece
  · have hafter := positionAt_length unit (front ++ piece) back
    rw [List.length_append, List.append_assoc, List.count_append] at hafter
    have hcount := List.count_pos_iff.mpr hfeed
    rw [hafter, positionAt_length]
    exact .inl (Int.ofNat_lt.mpr (Nat.lt_add_of_pos_right hcount))
  · have hwidth := Nat.lt_of_lt_of_le (List.length_pos_iff.mpr hpiece)
      (unit.length_le_textWidth piece)
    rw [positionAt_append unit front back hfeed]
    exact .inr ⟨rfl, Int.lt_add_of_pos_right _ (Int.natCast_pos.mpr hwidth)⟩

/-- The position of an offset, with the offset moved into the text: its line counts the
line feeds before it, and its column measures what stands between the last of them and
the offset.  The offset of the position is the offset.  Offsets in the text have
positions in the same order. -/
theorem positions_embed_offsets (text : List Char) (unit : ColumnUnit) :
    (∀ offset : Int, ∃ o : Nat, (o : Int) = max 0 (min offset text.length) ∧
      (ofText text unit).positionAt offset
        = ⟨(text.take o).count '\n', unit.columns (lastLine (text.take o))⟩ ∧
      (ofText text unit).offsetAt ((ofText text unit).positionAt offset) = o) ∧
    ∀ o₁ o₂ : Nat, o₁ < o₂ → o₂ ≤ text.length →
      ((ofText text unit).positionAt o₁).Before ((ofText text unit).positionAt o₂) := by
  constructor
  · intro offset
    let o := (ofText text unit).clamp offset
    have ho : (text.take o).length = o := List.length_take_of_le (Nat.min_le_right _ _)
    have hposition := positionAt_length unit (text.take o) (text.drop o)
    have hoffset := offsetAt_positionAt_length unit (text.take o) (text.drop o)
    rw [List.take_append_drop, ho, positionAt_clamp] at hposition hoffset
    refine ⟨o, clamp_eq (ofText text unit) offset, ?_, hoffset⟩
    rw [hposition, unit.textWidth_eq_columns]
  · intro o₁ o₂ hlt hle
    have hlen : (text.take o₁).length = o₁ := List.length_take_of_le (by omega)
    have hpiece : (slice text o₁ o₂).length = o₂ - o₁ := by
      rw [length_slice]
      omega
    have hbefore := before_positionAt unit (text.take o₁) (text.drop o₂)
      (List.ne_nil_of_length_pos (l := slice text o₁ o₂) (by omega))
    rw [take_append_slice text (Nat.le_of_lt hlt), hlen, hpiece,
      Nat.add_sub_cancel' (Nat.le_of_lt hlt)] at hbefore
    exact hbefore

/-- A face on the second line takes two columns, and an offset far behind the text has the
position of its end. -/
theorem positions_embed_face :
    let index := ofText ['a', '\n', '😀', 'b'] .utf16
    2 < 3 ∧ 3 ≤ index.text.length ∧ (index.positionAt 2).Before (index.positionAt 3) ∧
      index.positionAt 3 = ⟨1, 2⟩ ∧
      index.offsetAt (index.positionAt 9000000000000000000000) = 4 := by
  intro index
  obtain ⟨hpositions, horder⟩ := positions_embed_offsets ['a', '\n', '😀', 'b'] .utf16
  obtain ⟨o, ho, _, hoffset⟩ := hpositions 9000000000000000000000
  have ho : o = 4 := by
    simp only [List.length_cons, List.length_nil] at ho
    omega
  exact ⟨by decide, by decide, horder 2 3 (by decide) (by decide), by decide +kernel,
    hoffset.trans ho⟩

/-! ## Columns past the end of a line -/

/-- The line of a number, as a part of the text. -/
theorem exists_line (k : Nat) (text : List Char) (hk : k ≤ text.count '\n') :
    ∃ before line rest, text = before ++ (line ++ rest) ∧ EndsLine before ∧ '\n' ∉ line ∧
      before.count '\n' = k ∧ (rest = [] ∨ ['\n'] <+: rest) ∧
      (text.splitOn '\n')[k]? = some line := by
  induction k generalizing text with
  | zero =>
      by_cases hfeed : '\n' ∈ text
      · obtain ⟨line, rest, rfl, hline⟩ := List.eq_append_cons_of_mem hfeed
        refine ⟨[], line, '\n' :: rest, rfl, .inl rfl, hline, rfl,
          .inr (List.prefix_append _ _), ?_⟩
        rw [List.splitOn_append_cons_self_of_not_mem hline]
        rfl
      · refine ⟨[], text, [], (List.append_nil text).symm, .inl rfl, hfeed, rfl, .inl rfl, ?_⟩
        rw [List.splitOn_eq_singleton hfeed]
        rfl
  | succ k ih =>
      have hfeed : '\n' ∈ text := List.count_pos_iff.mp (by omega)
      obtain ⟨first, more, rfl, hfirst⟩ := List.eq_append_cons_of_mem hfeed
      rw [List.count_append, List.count_eq_zero.mpr hfirst, List.count_cons_self] at hk
      obtain ⟨before, line, rest, rfl, hbefore, hline, hcount, hrest, hsplit⟩ :=
        ih more (by omega)
      refine ⟨first ++ '\n' :: before, line, rest, by simp, .inr ?_, hline, ?_, hrest, ?_⟩
      · rcases hbefore with rfl | ⟨init, rfl⟩
        · exact ⟨first, rfl⟩
        · exact ⟨first ++ '\n' :: init, by simp⟩
      · rw [List.count_append, List.count_eq_zero.mpr hfirst, List.count_cons_self, hcount,
          Nat.zero_add]
      · rw [List.splitOn_append_cons_self_of_not_mem hfirst]
        exact hsplit

/-- A walk from a line start goes on to a later line with each line feed it passes. -/
theorem line_positionAt_add (before rest : List Char) {n : Nat} (hn : n ≤ rest.length) :
    ((ofText (before ++ rest) unit).positionAt (before.length + n : Nat)).line
      = before.count '\n' + (rest.take n).count '\n' := by
  have hlen : before.length + n ≤ (before ++ rest).length := by
    rw [List.length_append]
    exact Nat.add_le_add_left hn _
  rw [line_positionAt unit _ hlen, List.take_length_add_append, List.count_append]
  rfl

/-- Where the walk from the start of a line ends: on the line, unless the column is past
the end of the line and a line feed follows. -/
theorem line_offsetAt {before line rest : List Char} (hbefore : EndsLine before)
    (hline : '\n' ∉ line) (hrest : rest = [] ∨ ['\n'] <+: rest) (column : Int) :
    (column ≤ unit.textWidth line ∨ rest = [] →
      ((ofText (before ++ (line ++ rest)) unit).positionAt
        ((ofText (before ++ (line ++ rest)) unit).offsetAt ⟨before.count '\n', column⟩)).line
          = before.count '\n') ∧
    (¬ (column ≤ unit.textWidth line ∨ rest = []) →
      before.count '\n' < ((ofText (before ++ (line ++ rest)) unit).positionAt
        ((ofText (before ++ (line ++ rest)) unit).offsetAt ⟨before.count '\n', column⟩)).line) := by
  have hwalk := charactersTo_le_iff unit line rest column
  have hle := charactersTo_le_length unit column (line ++ rest)
  rw [offsetAt_line unit hbefore, line_positionAt_add unit before (line ++ rest) hle, ← hwalk]
  generalize charactersTo unit column (line ++ rest) = n at hwalk hle
  constructor
  · intro hn
    have hnone : '\n' ∉ (line ++ rest).take n := by
      rw [List.take_append_of_le_length hn]
      exact fun hmem => hline (List.mem_of_mem_take hmem)
    rw [List.count_eq_zero.mpr hnone]
    exact Int.add_zero _
  · intro hn
    -- The walk has passed the whole line, so it has passed the line feed behind it.
    obtain ⟨more, rfl⟩ := hrest.resolve_left fun hnil => hn (hwalk.mpr (.inr hnil))
    obtain ⟨m, rfl⟩ := Nat.exists_eq_add_of_lt (Nat.not_le.mp hn)
    have hfeed : '\n' ∈ (line ++ (['\n'] ++ more)).take (line.length + m + 1) := by
      rw [Nat.add_assoc, List.take_length_add_append, List.singleton_append, List.take_succ_cons]
      exact List.mem_append_right line List.mem_cons_self
    have hcount := List.count_pos_iff.mpr hfeed
    exact Int.lt_add_of_pos_right _ (Int.natCast_pos.mpr hcount)

theorem line_offsetAt_of_neg (text : List Char) {number : Int} (h : number < 0) (column : Int) :
    ((ofText text unit).positionAt ((ofText text unit).offsetAt ⟨number, column⟩)).line = 0 := by
  have hoffset : (ofText text unit).offsetAt ⟨number, column⟩ = 0 := if_pos h
  rw [hoffset, line_positionAt unit text (Nat.zero_le _)]
  rfl

theorem line_offsetAt_of_le (text : List Char) {number : Int}
    (h : (text.count '\n' : Int) < number) (column : Int) :
    ((ofText text unit).positionAt ((ofText text unit).offsetAt ⟨number, column⟩)).line
      = text.count '\n' := by
  have hnone : (ofText text unit).starts[number.toNat]? = none := by
    rw [ofText_starts, List.getElem?_eq_none_iff, List.length_cons, length_startsAfterNewlines]
    omega
  have hoffset : (ofText text unit).offsetAt ⟨number, column⟩ = text.length := by
    rw [offsetAt, if_neg (show ¬ number < 0 by omega), hnone]
    rfl
  rw [hoffset, line_positionAt unit text (Nat.le_refl _), List.take_length]

/-- A column is past the end of its line, and another line follows. -/
def PastLineEnd (index : LineIndex) (p : Position) : Prop :=
  ∃ (k : Nat) (line : List Char), p.line = k ∧ k + 1 < index.lineCount ∧
    (index.text.splitOn '\n')[k]? = some line ∧ index.unit.columns line < p.column

/-- On a line of the text, what is past the end has a line feed behind the line. -/
theorem pastLineEnd_iff {before line rest : List Char} (hline : '\n' ∉ line)
    (hrest : rest = [] ∨ ['\n'] <+: rest)
    (hsplit : ((before ++ (line ++ rest)).splitOn '\n')[before.count '\n']? = some line)
    (column : Int) :
    (ofText (before ++ (line ++ rest)) unit).PastLineEnd ⟨before.count '\n', column⟩ ↔
      ¬ (column ≤ unit.textWidth line ∨ rest = []) := by
  have hlines : (ofText (before ++ (line ++ rest)) unit).lineCount
      = before.count '\n' + rest.count '\n' + 1 := by
    rw [lineCount_ofText, List.count_append, List.count_append, List.count_eq_zero.mpr hline,
      Nat.zero_add]
  rw [not_or, Int.not_le, unit.textWidth_eq_columns]
  constructor
  · rintro ⟨k, chars, hk, hlast, hchars, hpast⟩
    cases Int.ofNat_inj.mp hk
    cases hchars.symm.trans hsplit
    refine ⟨hpast, ?_⟩
    rintro rfl
    rw [hlines, List.count_nil] at hlast
    exact Nat.lt_irrefl _ hlast
  · rintro ⟨hpast, hne⟩
    refine ⟨before.count '\n', line, rfl, ?_, hsplit, hpast⟩
    obtain ⟨more, rfl⟩ := hrest.resolve_left hne
    rw [hlines, List.singleton_append, List.count_cons_self]
    omega

/-- The offset of a position lies on the line of the position, or on the nearest line if
the text has no such line.  A column past the end of its line is the exception: its
offset lies on a later line, unless there is none. -/
theorem offsetAt_keeps_line (text : List Char) (unit : ColumnUnit) (number column : Int) :
    let index := ofText text unit
    let nearest : Int := max 0 (min number (index.lineCount - 1))
    let reached := (index.positionAt (index.offsetAt ⟨number, column⟩)).line
    (¬ index.PastLineEnd ⟨number, column⟩ → reached = nearest) ∧
      (index.PastLineEnd ⟨number, column⟩ → nearest < reached) := by
  intro index nearest reached
  have hlines : index.lineCount = text.count '\n' + 1 := lineCount_ofText unit text
  by_cases hneg : number < 0
  · have hpast : ¬ index.PastLineEnd ⟨number, column⟩ := by
      rintro ⟨k, _, rfl, _⟩
      omega
    have hreached : reached = 0 := line_offsetAt_of_neg unit text hneg column
    exact ⟨fun _ => by omega, fun h => absurd h hpast⟩
  by_cases hlast : (text.count '\n' : Int) < number
  · have hpast : ¬ index.PastLineEnd ⟨number, column⟩ := by
      rintro ⟨k, _, rfl, hlt, _⟩
      omega
    have hreached : reached = text.count '\n' := line_offsetAt_of_le unit text hlast column
    exact ⟨fun _ => by omega, fun h => absurd h hpast⟩
  obtain ⟨k, rfl⟩ := Int.eq_ofNat_of_zero_le (Int.not_lt.mp hneg)
  obtain ⟨before, line, rest, rfl, hbefore, hline, rfl, hrest, hsplit⟩ :=
    exists_line k text (by omega)
  have hnearest : nearest = before.count '\n' := by omega
  have hpast := pastLineEnd_iff unit hline hrest hsplit column
  have hkept := line_offsetAt unit hbefore hline hrest column
  rw [hnearest]
  exact ⟨fun h => hkept.1 (not_not.mp (mt hpast.mpr h)), fun h => hkept.2 (hpast.mp h)⟩

/-- A column inside a face at the end of a line is not past the end. -/
theorem offsetAt_keeps_line_of_face :
    let index := ofText ['😀', '\n', 'b'] .utf16
    ¬ index.PastLineEnd ⟨0, 1⟩ ∧ (index.positionAt (index.offsetAt ⟨0, 1⟩)).line = 0 := by
  intro index
  have hpast : ¬ index.PastLineEnd ⟨0, 1⟩ := by
    rintro ⟨k, line, hk, _, hline, hcolumn⟩
    cases Int.ofNat_inj.mp hk
    cases hline
    exact absurd hcolumn (by decide)
  exact ⟨hpast, (offsetAt_keeps_line ['😀', '\n', 'b'] .utf16 0 1).1 hpast⟩

/-- The first line has one column.  The third column is not moved back to its end: the
offset lies on the second line. -/
theorem offsetAt_leaves_line :
    let index := ofText ['a', '\n', 'b'] .codePoint
    index.lineCount = 2 ∧ index.offsetAt ⟨0, 3⟩ = 3 ∧
      (index.positionAt (index.offsetAt ⟨0, 3⟩)).line ≠ max 0 (min 0 (index.lineCount - 1)) := by
  decide +kernel

end LineIndex

end TagColoring
