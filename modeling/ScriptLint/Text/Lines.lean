/-!
# Lines of a text

A text is cut at each newline; what follows the last newline is a line too, so a text has one
line more than it has newlines.

* `pieces`: a text cut at a character.
* `pieces_append`: the first piece, and the others.
* `lines`: the pieces between newlines.
* `not_mem_of_mem_lines`: a line has no newline in it.
* `length_lines`: the number of lines.
* `joinLines_lines`: joined by newlines they give the text back.
-/

namespace ScriptLint.Text

/-- Puts a character in front of pieces that follow it. -/
def prepend (sep c : Char) (ps : List (List Char)) : List (List Char) :=
  if c = sep then [] :: ps
  else match ps with
    | [] => [[c]]
    | p :: ps => (c :: p) :: ps

/-- The pieces of a text between the characters `sep`. -/
def pieces (sep : Char) (cs : List Char) : List (List Char) :=
  cs.foldr (prepend sep) [[]]

/-- The pieces of a text between its newlines. -/
def lines (cs : List Char) : List (List Char) :=
  pieces '\n' cs

/-- `lines` on strings. -/
def linesOf (s : String) : List String :=
  (lines s.toList).map String.ofList

/-- The lines of a text put together again. -/
def joinLines : List (List Char) → List Char
  | [] => []
  | [l] => l
  | l :: ls => l ++ '\n' :: joinLines ls

theorem pieces_of_not_mem {sep : Char} {a : List Char} (h : sep ∉ a) : pieces sep a = [a] := by
  induction a with
  | nil => rfl
  | cons c a ih =>
    simp only [List.mem_cons, not_or] at h
    have hcons : pieces sep (c :: a) = prepend sep c (pieces sep a) := rfl
    rw [hcons, ih h.2, prepend, if_neg (Ne.symm h.1)]

theorem pieces_append {sep : Char} {a : List Char} (h : sep ∉ a) (b : List Char) :
    pieces sep (a ++ sep :: b) = a :: pieces sep b := by
  induction a with
  | nil => exact if_pos rfl
  | cons c a ih =>
    simp only [List.mem_cons, not_or] at h
    have hcons : pieces sep (c :: a ++ sep :: b) = prepend sep c (pieces sep (a ++ sep :: b)) := rfl
    rw [hcons, ih h.2, prepend, if_neg (Ne.symm h.1)]

@[simp] theorem lines_nil : lines [] = [[]] := rfl

@[simp]
theorem lines_cons (c : Char) (cs : List Char) : lines (c :: cs) = prepend '\n' c (lines cs) := rfl

theorem prepend_ne_nil (sep c : Char) (ps : List (List Char)) : prepend sep c ps ≠ [] := by
  unfold prepend
  split
  · simp
  · split <;> simp

theorem lines_ne_nil (cs : List Char) : lines cs ≠ [] := by
  cases cs with
  | nil => simp
  | cons c cs => exact prepend_ne_nil '\n' c _

theorem not_mem_of_mem_lines (cs : List Char) {l : List Char} (h : l ∈ lines cs) : '\n' ∉ l := by
  induction cs generalizing l with
  | nil => simp_all
  | cons c cs ih =>
    obtain ⟨p, ps, hp⟩ := List.exists_cons_of_ne_nil (lines_ne_nil cs)
    rw [hp] at ih
    by_cases hc : c = '\n'
    · simp only [lines_cons, prepend, hp, if_pos hc, List.mem_cons] at h
      rcases h with rfl | h
      · simp
      · exact ih (List.mem_cons.2 h)
    · simp only [lines_cons, prepend, hp, if_neg hc, List.mem_cons] at h
      rcases h with rfl | h
      · simpa [Ne.symm hc] using ih List.mem_cons_self
      · exact ih (List.mem_cons_of_mem p h)

theorem length_lines (cs : List Char) : (lines cs).length = cs.count '\n' + 1 := by
  induction cs with
  | nil => rfl
  | cons c cs ih =>
    obtain ⟨l, ls, hl⟩ := List.exists_cons_of_ne_nil (lines_ne_nil cs)
    rw [hl] at ih
    by_cases h : c = '\n' <;> simp [prepend, hl, h] at ih ⊢ <;> omega

theorem joinLines_lines (cs : List Char) : joinLines (lines cs) = cs := by
  induction cs with
  | nil => rfl
  | cons c cs ih =>
    obtain ⟨l, ls, hl⟩ := List.exists_cons_of_ne_nil (lines_ne_nil cs)
    rw [hl] at ih
    by_cases h : c = '\n'
    · simp [prepend, hl, h, joinLines, ih]
    · cases ls <;> simp_all [prepend, joinLines]

end ScriptLint.Text
