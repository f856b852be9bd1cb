import ScriptLint.Proofs.TokenUses

/-!
# Texts one below the other

Reading two texts with a line break between them is reading the first, and then the second where it
stands now: its stretches lie behind the bytes of the first text and the break, its positions below
the lines of the first text, in the same columns.

* `Position.below`, `Span.behind`: a position some lines further down, a stretch some bytes further
  on.
* `Reads.behind`: what is read does not depend on where the text begins.
* `positionAt_below`: positions in the lower text.
* `tokenize_lines`: **reading turns line breaks into juxtaposition.**
-/

namespace ScriptLint

open Source (byteLength lineCount positionAt walk)

/-! ## Moving down a text -/

/-- The position some lines further down; a line number that does not fit is held at the largest
that does. -/
def Position.below (lines : ℕ) (p : Position) : Position :=
  ⟨UInt32.ofNatClamp (p.line.toNat + lines), p.column⟩

/-- The stretch some bytes further on. -/
def Span.behind (bytes : ℕ) (s : Span) : Span :=
  ⟨bytes + s.start, bytes + s.stop⟩

def Lexeme.behind (bytes : ℕ) (x : Lexeme) : Lexeme :=
  ⟨x.token, x.span.behind bytes⟩

def Place.below (bytes lines : ℕ) (p : Place) : Place :=
  ⟨p.span.behind bytes, p.position.below lines⟩

/-- The same fault, some bytes and lines further down. -/
def Fault.below (bytes lines : ℕ) (f : Fault) : Fault :=
  ⟨f.cause, f.place.map (Place.below bytes lines)⟩

/-- Holding a number at the largest before adding to it changes nothing. -/
theorem ofNatClamp_add (m n : ℕ) :
    UInt32.ofNatClamp (m + n) = UInt32.ofNatClamp ((UInt32.ofNatClamp m).toNat + n) := by
  rcases Nat.lt_or_ge m UInt32.size with hm | hm
  · rw [UInt32.toNat_ofNatClamp_of_lt hm]
  · apply UInt32.toNat_inj.1
    rw [UInt32.toNat_ofNatClamp_of_le hm, UInt32.toNat_ofNatClamp_of_le (by omega)]
    rcases Nat.eq_zero_or_pos n with rfl | hn
    · rw [UInt32.toNat_ofNatClamp_of_lt (by decide)]
      rfl
    · rw [UInt32.toNat_ofNatClamp_of_le]
      have : UInt32.size = 4294967296 := rfl
      omega

namespace Source

theorem walk_line_add (line column n : ℕ) (q : List Char) (offset : ℕ) :
    walk (line + n) column q offset =
      ((walk line column q offset).1 + n, (walk line column q offset).2) := by
  induction q generalizing line column offset with
  | nil => rfl
  | cons c q ih =>
    simp only [walk]
    split
    · rfl
    · split
      · rw [Nat.add_right_comm, ih]
      · rw [ih]

/-- A text and a line break lead to the first column, as many lines down as the text has. -/
theorem walk_through (line column : ℕ) (p : List Char) :
    walk line column (p ++ ['\n']) (byteLength p + 1) = (line + lineCount p, 1) := by
  induction p generalizing line column with
  | nil => rfl
  | cons c p ih =>
    have hge : ¬ c.utf8Size + byteLength p + 1 < c.utf8Size := by omega
    have hsub : c.utf8Size + byteLength p + 1 - c.utf8Size = byteLength p + 1 := by omega
    rw [List.cons_append, byteLength, walk, if_neg hge, hsub, ih, ih, lineCount, lineCount]
    split
    · rename_i hc
      rw [hc, List.count_cons_self]
      congr 1
      omega
    · rename_i hc
      rw [List.count_cons_of_ne hc]

/-- A position in the lower of two texts. -/
theorem positionAt_below (a b : List Char) (offset : ℕ) :
    positionAt (a ++ '\n' :: b) (byteLength a + 1 + offset) =
      (positionAt b offset).below (lineCount a) := by
  have hwalk : walk 1 1 (a ++ '\n' :: b) (byteLength a + 1 + offset) =
      ((walk 1 1 b offset).1 + lineCount a, (walk 1 1 b offset).2) := by
    have hbreak : byteLength (a ++ ['\n']) = byteLength a + 1 := byteLength_append a ['\n']
    have h := walk_append_add 1 1 (a ++ ['\n']) b offset
    rw [List.append_assoc, hbreak, walk_through, walk_line_add] at h
    exact h
  simp only [positionAt_eq_walk, hwalk, Position.below]
  rw [ofNatClamp_add]

theorem walk_append_of_le (line column : ℕ) (p q : List Char) {offset : ℕ}
    (h : offset ≤ byteLength p) : walk line column (p ++ q) offset = walk line column p offset := by
  induction p generalizing line column offset with
  | nil =>
    rw [Nat.le_zero.1 h, walk_zero, walk_zero]
  | cons c p ih =>
    simp only [List.cons_append, walk]
    have hle : offset - c.utf8Size ≤ byteLength p := by
      simp only [byteLength] at h
      omega
    rw [ih _ _ hle, ih _ _ hle]

/-- A position in the upper of two texts. -/
theorem positionAt_above (p q : List Char) {offset : ℕ} (h : offset ≤ byteLength p) :
    positionAt (p ++ q) offset = positionAt p offset := by
  simp only [positionAt_eq_walk, walk_append_of_le 1 1 p q h]

end Source

namespace Token

variable {offset bytes : ℕ} {pre rest : List Char} {xs : List Lexeme}

/-- What is read does not depend on where the text begins. -/
theorem Reads.behind (h : Reads offset pre rest xs) (bytes : ℕ) :
    Reads (bytes + offset) pre rest (xs.map (Lexeme.behind bytes)) := by
  induction h with
  | nil => exact .nil
  | gap hfirst _ ih =>
    rw [← Nat.add_assoc] at ih
    exact .gap hfirst ih
  | token hfirst _ ih =>
    rw [← Nat.add_assoc] at ih
    have h := Reads.token hfirst ih
    rw [Nat.add_assoc] at h
    exact h

/-- A text that begins elsewhere is read as one that begins at the start, further on. -/
theorem scan_behind (bytes : ℕ) (read : Array Lexeme) (text : List Char) :
    scan bytes read text =
      match scan 0 #[] text with
      | .ok out => .ok (read ++ out.map (Lexeme.behind bytes))
      | .error (cause, span) => .error (cause, span.behind bytes) := by
  obtain ⟨pre, rest, xs, rfl, hreads, hrest⟩ := exists_reads 0 text
  have hmoved : Reads bytes pre rest (xs.map (Lexeme.behind bytes)) := hreads.behind bytes
  rw [hreads.scan_eq, hmoved.scan_eq]
  rcases hrest with rfl | ⟨c, w, more, cause, rfl, hbad⟩
  · simp [scan_nil]
  · rw [scan_bad hbad, scan_bad hbad]
    simp [Span.behind, Nat.add_assoc]

/-- The lower of two texts is read behind the upper one, if that can be read. -/
theorem scan_below (a b : List Char) : scan 0 #[] (a ++ '\n' :: b) =
    match scan 0 #[] a with
    | .error e => .error e
    | .ok upper =>
      match scan 0 #[] b with
      | .ok lower => .ok (upper ++ lower.map (Lexeme.behind (byteLength a + 1)))
      | .error (cause, span) => .error (cause, span.behind (byteLength a + 1)) := by
  have hlines := scan_lines 0 #[] a b
  rw [Nat.zero_add] at hlines
  rw [hlines]
  cases scan 0 #[] a with
  | error e => rfl
  | ok upper => exact scan_behind (byteLength a + 1) upper b

theorem start_le_of_error {cause : Cause} {span : Span} {text : List Char}
    (h : scan 0 #[] text = .error (cause, span)) : span.start ≤ byteLength text := by
  obtain ⟨pre, c, w, more, xs, rfl, -, -, rfl⟩ := reads_of_scan_error h
  rw [Source.byteLength_append, Nat.zero_add]
  exact Nat.le_add_right _ _

end Token

open Token (scan scan_below)

theorem toList_lines (a b : String) : (a ++ "\n" ++ b).toList = a.toList ++ '\n' :: b.toList := by
  simp

/-- **Reading turns line breaks into juxtaposition.** A text is read as it is by itself, whatever
stands below it; if it can be read, so can the two together exactly if the lower one can, and then
the tokens follow each other. -/
theorem tokenize_lines (a b : String) :
    match tokenize a with
    | .error fault => tokenize (a ++ "\n" ++ b) = .error fault
    | .ok upper => tokenize (a ++ "\n" ++ b) =
      match tokenize b with
      | .ok lower => .ok (upper ++ lower.map (Lexeme.behind (byteLength a.toList + 1)))
      | .error fault => .error (fault.below (byteLength a.toList + 1) (lineCount a.toList)) := by
  simp only [tokenize, toList_lines, scan_below]
  cases ha : scan 0 #[] a.toList with
  | error e =>
    obtain ⟨cause, span⟩ := e
    -- the fault lies in the upper text
    have hstart : span.start ≤ byteLength a.toList := Token.start_le_of_error ha
    simp only [Fault.inText, Source.positionAt_above _ _ hstart]
  | ok upper =>
    cases hb : scan 0 #[] b.toList with
    | ok lower => rfl
    | error e =>
      obtain ⟨cause, span⟩ := e
      simp only [Fault.inText, Fault.below, Option.map_some, Place.below, Span.behind,
        Source.positionAt_below]

end ScriptLint
