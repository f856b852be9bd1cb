import Mathlib.Data.List.DropRight
import Mathlib.Data.List.Infix
import Mathlib.Order.Bounds.Basic
import ScriptLint.Source.LineIndex

/-!
# Positions of byte offsets

The table of line starts gives an offset the line and the column that are counted by walking over
the characters before it.

* `Source.isGreatest_before`: the text before an offset ends at the last boundary not past it.
* `LineIndex.partitionPoint_append`: bisection finds where a table stops to satisfy a test.
* `LineIndex.position_eq`: **line and column are counts over the text before an offset.**
* `Source.positionAt_eq_walk`: the same by a walk over the characters.
-/

namespace ScriptLint

/-! ## Stretches of a text -/

namespace Source

/-- The other characters of the text. -/
def behind (text : List Char) (offset : ℕ) : List Char :=
  text.drop (before text offset).length

theorem byteLength_append (p q : List Char) :
    byteLength (p ++ q) = byteLength p + byteLength q := by
  induction p with
  | nil => simp [byteLength]
  | cons c p ih => simp [byteLength, ih, Nat.add_assoc]

theorem byteLength_pos {w : List Char} (h : w ≠ []) : 0 < byteLength w := by
  obtain ⟨c, w, rfl⟩ := List.exists_cons_of_ne_nil h
  have hc := c.utf8Size_pos
  simp only [byteLength]
  omega

theorem before_zero (q : List Char) : before q 0 = [] := by
  cases q with
  | nil => rfl
  | cons c q => simp [before, c.utf8Size_pos]

theorem before_append_add (p q : List Char) (offset : ℕ) :
    before (p ++ q) (byteLength p + offset) = p ++ before q offset := by
  induction p with
  | nil => simp [byteLength]
  | cons c p ih =>
    have hge : ¬ c.utf8Size + byteLength p + offset < c.utf8Size := by omega
    have hsub : c.utf8Size + byteLength p + offset - c.utf8Size = byteLength p + offset := by omega
    simp only [List.cons_append, byteLength, before, hge, if_false, hsub, ih]

theorem before_append (p q : List Char) : before (p ++ q) (byteLength p) = p := by
  have h := before_append_add p q 0
  rw [Nat.add_zero, before_zero, List.append_nil] at h
  exact h

theorem behind_append (p q : List Char) : behind (p ++ q) (byteLength p) = q := by
  rw [behind, before_append, List.drop_left]

theorem isBoundary_append (p q : List Char) : IsBoundary (p ++ q) (byteLength p) := by
  rw [IsBoundary, before_append]

theorem slice_append (p w q : List Char) :
    slice (p ++ (w ++ q)) ⟨byteLength p, byteLength p + byteLength w⟩ = w := by
  rw [slice]
  dsimp only
  rw [before_append, before_append_add, before_append, List.drop_left]

theorem before_isPrefix (text : List Char) (offset : ℕ) : before text offset <+: text := by
  induction text generalizing offset with
  | nil => exact List.nil_prefix
  | cons c cs ih =>
    rw [before]
    split
    · exact List.nil_prefix
    · exact List.cons_prefix_cons.2 ⟨rfl, ih _⟩

theorem before_append_behind (text : List Char) (offset : ℕ) :
    before text offset ++ behind text offset = text :=
  List.prefix_iff_eq_append.1 (before_isPrefix text offset)

theorem byteLength_before_le (text : List Char) (offset : ℕ) :
    byteLength (before text offset) ≤ offset := by
  induction text generalizing offset with
  | nil => exact Nat.zero_le _
  | cons c cs ih =>
    rw [before]
    split
    · exact Nat.zero_le _
    · have hle := ih (offset - c.utf8Size)
      rw [byteLength]
      omega

theorem before_mono (text : List Char) {offset offset' : ℕ} (h : offset ≤ offset') :
    before text offset <+: before text offset' := by
  induction text generalizing offset offset' with
  | nil => exact List.nil_prefix
  | cons c cs ih =>
    rw [before, before]
    by_cases hlt : offset < c.utf8Size
    · rw [if_pos hlt]
      exact List.nil_prefix
    · rw [if_neg hlt, if_neg (by omega), List.cons_prefix_cons]
      exact ⟨rfl, ih (by omega)⟩

/-- The characters of a text behind its last newline. -/
theorem not_mem_rtakeWhile (p : List Char) : '\n' ∉ p.rtakeWhile (· ≠ '\n') := fun hmem => by
  simpa using List.mem_rtakeWhile_imp hmem

theorem getLast?_rdropWhile (p : List Char) :
    ∀ c ∈ (p.rdropWhile (· ≠ '\n')).getLast?, c = '\n' := by
  intro c hc
  obtain ⟨hne, rfl⟩ := List.mem_getLast?_eq_getLast hc
  simpa using List.rdropWhile_last_not _ _ hne

/-- The text before an offset ends at the last boundary that is not past the offset and not past the
end of the text. -/
theorem isGreatest_before (text : List Char) (offset : ℕ) :
    IsGreatest {k | IsBoundary text k ∧ k ≤ min offset (byteLength text)}
      (byteLength (before text offset)) := by
  have hsplit := before_append_behind text offset
  refine ⟨⟨?_, le_min (byteLength_before_le text offset) ?_⟩, ?_⟩
  · have hboundary := isBoundary_append (before text offset) (behind text offset)
    rwa [hsplit] at hboundary
  · have hlength := byteLength_append (before text offset) (behind text offset)
    rw [hsplit] at hlength
    omega
  · rintro k ⟨hk, hle⟩
    obtain ⟨m, hm⟩ := before_mono text (le_trans hle (min_le_left _ _))
    have hlength := byteLength_append (before text k) m
    rw [hm, hk] at hlength
    omega

end Source

/-! ## The table of line starts -/

namespace LineIndex

open Source (byteLength before behind slice IsBoundary)

theorem startsBehind_append (offset : ℕ) (p q : List Char) :
    startsBehind offset (p ++ q) =
      startsBehind offset p ++ startsBehind (offset + byteLength p) q := by
  induction p generalizing offset with
  | nil => rfl
  | cons c p ih =>
    have hnext : offset + byteLength (c :: p) = offset + c.utf8Size + byteLength p := by
      rw [byteLength, Nat.add_assoc]
    rw [List.cons_append, startsBehind, startsBehind, ih, hnext]
    split <;> rfl

theorem length_startsBehind (offset : ℕ) (p : List Char) :
    (startsBehind offset p).length = p.count '\n' := by
  induction p generalizing offset with
  | nil => rfl
  | cons c p ih =>
    rw [startsBehind]
    split
    · next hc => rw [List.length_cons, ih, hc, List.count_cons_self]
    · next hc => rw [ih, List.count_cons_of_ne hc]

theorem bounds_of_mem_startsBehind {offset start : ℕ} {p : List Char}
    (h : start ∈ startsBehind offset p) : offset < start ∧ start ≤ offset + byteLength p := by
  induction p generalizing offset with
  | nil => cases h
  | cons c p ih =>
    have hc := c.utf8Size_pos
    have htail : start ∈ startsBehind (offset + c.utf8Size) p →
        offset < start ∧ start ≤ offset + byteLength (c :: p) := fun hmem => by
      have hbounds := ih hmem
      rw [byteLength]
      omega
    rw [startsBehind] at h
    split at h
    · rcases List.mem_cons.1 h with rfl | hmem
      · rw [byteLength]
        omega
      · exact htail hmem
    · exact htail h

/-- A line that begins behind `u` has its start in the table, behind as many others as there are
newlines above it. -/
theorem getElem?_starts {u : List Char} (hu : ∀ c ∈ u.getLast?, c = '\n') (q : List Char) :
    (0 :: startsBehind 0 (u ++ q))[u.count '\n']? = some (byteLength u) := by
  rcases List.eq_nil_or_concat' u with rfl | ⟨u', c, rfl⟩
  · rfl
  · obtain rfl : c = '\n' := hu c (by simp)
    have hcount : (u' ++ ['\n']).count '\n' = (startsBehind 0 u').length + 1 := by
      rw [length_startsBehind, List.count_append, List.count_singleton_self]
    have hstart : byteLength (u' ++ ['\n']) = 0 + byteLength u' + ('\n').utf8Size := by
      rw [Source.byteLength_append, Nat.zero_add]
      rfl
    rw [hcount, List.getElem?_cons_succ, List.append_assoc, startsBehind_append,
      List.getElem?_append_right (Nat.le_refl _), Nat.sub_self, List.singleton_append, startsBehind,
      if_pos rfl, hstart]
    rfl

theorem lineCount_eq (index : LineIndex) : index.lineCount = Source.lineCount index.text := by
  rw [lineCount, index.starts_eq, List.size_toArray, List.length_cons, length_startsBehind,
    Source.lineCount]

/-! ## Bisection -/

/-- The seam stays within the window, and each round makes the window smaller. -/
theorem bisect_eq {holds : ℕ → Bool} {seam : ℕ} (h : ∀ i, holds i = true ↔ i < seam)
    {rounds low high : ℕ} (hlow : low ≤ seam) (hhigh : seam ≤ high)
    (hrounds : high - low ≤ rounds) : bisect holds rounds low high = seam := by
  induction rounds generalizing low high with
  | zero =>
    rw [bisect]
    omega
  | succ rounds ih =>
    rw [bisect]
    split
    · next hlt =>
      dsimp only
      split
      · next hholds =>
        have hmiddle := (h _).1 hholds
        exact ih hmiddle hhigh (by omega)
      · next hholds =>
        have hmiddle := (h (low + (high - low) / 2)).not.1 hholds
        exact ih hlow (Nat.le_of_not_lt hmiddle) (by omega)
    · omega

theorem partitionPoint_append {a b : List ℕ} {holds : ℕ → Bool} (ha : ∀ x ∈ a, holds x = true)
    (hb : ∀ x ∈ b, holds x = false) : partitionPoint (a ++ b).toArray holds = a.length := by
  refine bisect_eq (fun i => ?_) (Nat.zero_le _) (by simp) (Nat.le_refl _)
  rw [List.getElem?_toArray]
  rcases Nat.lt_or_ge i a.length with hi | hi
  · rw [List.getElem?_append_left hi, List.getElem?_eq_getElem hi]
    simp only [Option.any_some, hi, ha _ (List.getElem_mem hi)]
  · rw [List.getElem?_append_right hi]
    refine iff_of_false ?_ (Nat.not_lt.2 hi)
    cases hx : b[i - a.length]? with
    | none => simp
    | some x => simp [hb x (List.mem_of_getElem? hx)]

/-- The lines that begin at an offset or before are those of the text before it. -/
theorem partitionPoint_starts (p q : List Char) :
    partitionPoint (0 :: startsBehind 0 (p ++ q)).toArray (· ≤ byteLength p) =
      p.count '\n' + 1 := by
  have hfront : ∀ x ∈ 0 :: startsBehind 0 p, decide (x ≤ byteLength p) = true := by
    intro x hx
    rw [decide_eq_true_eq]
    rcases List.mem_cons.1 hx with rfl | hmem
    · exact Nat.zero_le _
    · have hbounds := bounds_of_mem_startsBehind hmem
      omega
  have hback : ∀ x ∈ startsBehind (0 + byteLength p) q, decide (x ≤ byteLength p) = false := by
    intro x hx
    have hbounds := bounds_of_mem_startsBehind hx
    rw [decide_eq_false_iff_not]
    omega
  rw [startsBehind_append, ← List.cons_append, partitionPoint_append hfront hback, List.length_cons,
    length_startsBehind]

/-! ## Positions -/

theorem isGreatest_floorBoundary (text : List Char) (offset : ℕ) :
    IsGreatest {k | IsBoundary text k ∧ k ≤ offset} (floorBoundary text offset) := by
  induction offset with
  | zero =>
    have hboundary : IsBoundary text 0 := by
      rw [IsBoundary, Source.before_zero]
      rfl
    exact ⟨⟨hboundary, Nat.le_refl 0⟩, fun k hk => hk.2⟩
  | succ offset ih =>
    rw [floorBoundary]
    split
    · next hboundary => exact ⟨⟨hboundary, Nat.le_refl _⟩, fun k hk => hk.2⟩
    · next hboundary =>
      refine ⟨⟨ih.1.1, Nat.le_succ_of_le ih.1.2⟩, fun k hk => ih.2 ⟨hk.1, ?_⟩⟩
      rcases Nat.lt_or_eq_of_le hk.2 with hlt | rfl
      · exact Nat.le_of_lt_succ hlt
      · exact absurd hk.1 hboundary

theorem floorBoundary_eq (text : List Char) (offset : ℕ) :
    floorBoundary text (Nat.min offset (byteLength text)) = byteLength (before text offset) :=
  (isGreatest_floorBoundary text _).unique (Source.isGreatest_before text offset)

/-- **Line and column are counts over the text before an offset**: of its line breaks, and of its
characters behind the last of these. -/
theorem position_eq (index : LineIndex) (offset : ℕ) :
    index.position offset =
      ⟨UInt32.ofNatClamp (1 + (before index.text offset).count '\n'),
        UInt32.ofNatClamp (1 + ((before index.text offset).rtakeWhile (· ≠ '\n')).length)⟩ := by
  obtain ⟨text, starts, rfl⟩ := index
  rw [position]
  dsimp only
  rw [floorBoundary_eq]
  obtain ⟨q, hsplit⟩ := Source.before_isPrefix text offset
  generalize before text offset = p at hsplit ⊢
  subst hsplit
  -- the line that the offset is on begins behind the last newline of the text before it
  have hu := Source.getLast?_rdropWhile p
  have hv := Source.not_mem_rtakeWhile p
  have hp : p.rdropWhile (· ≠ '\n') ++ p.rtakeWhile (· ≠ '\n') = p :=
    List.rdropWhile_append_rtakeWhile
  generalize p.rdropWhile (· ≠ '\n') = u at hu hp ⊢
  generalize p.rtakeWhile (· ≠ '\n') = v at hv hp ⊢
  subst hp
  have hcount : (u ++ v).count '\n' = u.count '\n' := by
    rw [List.count_append, List.count_eq_zero.2 hv, Nat.add_zero]
  have hstart : (0 :: startsBehind 0 (u ++ v ++ q)).toArray.getD (u.count '\n') 0 =
      byteLength u := by
    rw [Array.getD_eq_getD_getElem?, List.getElem?_toArray, List.append_assoc, getElem?_starts hu,
      Option.getD_some]
  rw [partitionPoint_starts, Nat.add_sub_cancel, hcount, hstart, List.append_assoc,
    Source.byteLength_append, Source.slice_append, Nat.add_comm, Nat.add_comm v.length]

end LineIndex

theorem Source.positionAt_eq (text : List Char) (offset : ℕ) :
    positionAt text offset =
      ⟨UInt32.ofNatClamp (1 + (before text offset).count '\n'),
        UInt32.ofNatClamp (1 + ((before text offset).rtakeWhile (· ≠ '\n')).length)⟩ :=
  LineIndex.position_eq (LineIndex.ofText text) offset

/-! ## Walking over a text -/

namespace Source

/-- The line and column reached `offset` bytes after a place, without any bound. -/
def walk (line column : ℕ) : List Char → ℕ → ℕ × ℕ
  | [], _ => (line, column)
  | c :: cs, offset =>
    if offset < c.utf8Size then (line, column)
    else if c = '\n' then walk (line + 1) 1 cs (offset - c.utf8Size)
    else walk line (column + 1) cs (offset - c.utf8Size)

theorem walk_zero (line column : ℕ) (q : List Char) : walk line column q 0 = (line, column) := by
  cases q with
  | nil => rfl
  | cons c q => simp [walk, c.utf8Size_pos]

/-- The place of an offset depends on the text in front of it. -/
theorem walk_append (line column : ℕ) (p q : List Char) :
    walk line column (p ++ q) (byteLength p) = walk line column p (byteLength p) := by
  induction p generalizing line column with
  | nil => rw [byteLength, List.nil_append, walk_zero, walk_zero]
  | cons c p ih =>
    have hge : ¬ c.utf8Size + byteLength p < c.utf8Size := by omega
    have hsub : c.utf8Size + byteLength p - c.utf8Size = byteLength p := by omega
    simp only [List.cons_append, byteLength, walk, hge, if_false, hsub, ih]

theorem walk_append_add (line column : ℕ) (p q : List Char) (offset : ℕ) :
    walk line column (p ++ q) (byteLength p + offset) =
      walk (walk line column p (byteLength p)).1 (walk line column p (byteLength p)).2 q
        offset := by
  induction p generalizing line column with
  | nil => rw [byteLength, List.nil_append, walk_zero, Nat.zero_add]
  | cons c p ih =>
    have hge : ¬ c.utf8Size + byteLength p + offset < c.utf8Size := by omega
    have hge' : ¬ c.utf8Size + byteLength p < c.utf8Size := by omega
    have hsub : c.utf8Size + byteLength p + offset - c.utf8Size = byteLength p + offset := by omega
    have hsub' : c.utf8Size + byteLength p - c.utf8Size = byteLength p := by omega
    by_cases hc : c = '\n'
    · simp only [List.cons_append, byteLength, walk, hge, hge', if_false, hsub, hsub', ih,
        if_pos hc]
    · simp only [List.cons_append, byteLength, walk, hge, hge', if_false, hsub, hsub', ih,
        if_neg hc]

/-- One character further on. -/
theorem walk_concat (p : List Char) (c : Char) :
    walk 1 1 (p ++ [c]) (byteLength (p ++ [c])) =
      if c = '\n' then ((walk 1 1 p (byteLength p)).1 + 1, 1)
      else ((walk 1 1 p (byteLength p)).1, (walk 1 1 p (byteLength p)).2 + 1) := by
  have hsize : byteLength [c] = c.utf8Size := rfl
  rw [byteLength_append, walk_append_add, walk, hsize, if_neg (Nat.lt_irrefl _), Nat.sub_self]
  rfl

theorem walk_eq (p : List Char) :
    walk 1 1 p (byteLength p) =
      (1 + p.count '\n', 1 + (p.rtakeWhile (· ≠ '\n')).length) := by
  induction p using List.reverseRecOn with
  | nil => rfl
  | append_singleton p c ih =>
    rw [walk_concat, ih]
    by_cases hc : c = '\n'
    · subst hc
      have hline : (p ++ ['\n']).rtakeWhile (· ≠ '\n') = [] :=
        List.rtakeWhile_concat_neg _ _ _ (by simp)
      rw [if_pos rfl, hline, List.count_append, List.count_singleton_self]
      rfl
    · have hline : (p ++ [c]).rtakeWhile (· ≠ '\n') = p.rtakeWhile (· ≠ '\n') ++ [c] :=
        List.rtakeWhile_concat_pos _ _ _ (by simpa using hc)
      have hcount : (p ++ [c]).count '\n' = p.count '\n' := by
        rw [List.count_append, List.count_cons_of_ne hc, List.count_nil, Nat.add_zero]
      rw [if_neg hc, hline, hcount, List.length_append]
      rfl

theorem walk_before (line column : ℕ) (text : List Char) (offset : ℕ) :
    walk line column text offset =
      walk line column (before text offset) (byteLength (before text offset)) := by
  induction text generalizing line column offset with
  | nil => rfl
  | cons c cs ih =>
    by_cases hlt : offset < c.utf8Size
    · rw [walk, before, if_pos hlt, if_pos hlt]
      rfl
    · have hge (k : ℕ) : ¬c.utf8Size + k < c.utf8Size := by omega
      rw [before, if_neg hlt, byteLength, walk, walk, if_neg hlt, if_neg (hge _),
        Nat.add_sub_cancel_left, ih, ih]

/-- **Looking a position up is walking to it.** -/
theorem positionAt_eq_walk (text : List Char) (offset : ℕ) :
    positionAt text offset =
      ⟨UInt32.ofNatClamp (walk 1 1 text offset).1, UInt32.ofNatClamp (walk 1 1 text offset).2⟩ := by
  rw [positionAt_eq, walk_before, walk_eq]

theorem positionAt_append (p q q' : List Char) :
    positionAt (p ++ q) (byteLength p) = positionAt (p ++ q') (byteLength p) := by
  rw [positionAt_eq_walk, positionAt_eq_walk, walk_append, walk_append]

end Source

end ScriptLint
