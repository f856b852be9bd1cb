import ScriptLint.Proofs.LineIndex
import ScriptLint.Proofs.Spelling

/-!
# The tokens of a text

Reading a text leaves nothing out: tokens and what separates them cover it, each the longest match
where it stands. Reading that fails does so within a line, and what stands before is read.

* `Token.Reads`: a beginning of a text is read, with some tokens; `Reads.of_prefix`: what follows
  may be cut short.
* `scan_lines`: **lines are read one after the other.**
* `tokenize_lossless`: **the tokens of a text and the gaps between them are the text**, and a fault
  depends on nothing behind its line.
-/

namespace ScriptLint

namespace Token

open Source (byteLength)

/-! ## Reading a beginning of a text -/

/-- The text begins at byte `offset`; some of it is read with these tokens, and the rest is not. -/
inductive Reads : ℕ → List Char → List Char → List Lexeme → Prop
  | nil {offset : ℕ} {rest : List Char} : Reads offset [] rest []
  | gap {offset : ℕ} {c : Char} {w pre rest : List Char} {xs : List Lexeme}
      (h : first c (w ++ (pre ++ rest)) = (.gap, w.length))
      (hpre : Reads (offset + byteLength (c :: w)) pre rest xs) :
      Reads offset (c :: (w ++ pre)) rest xs
  | token {offset : ℕ} {c : Char} {w pre rest : List Char} {t : Token} {xs : List Lexeme}
      (h : first c (w ++ (pre ++ rest)) = (.token t, w.length))
      (hpre : Reads (offset + byteLength (c :: w)) pre rest xs) :
      Reads offset (c :: (w ++ pre)) rest
        (⟨t, ⟨offset, offset + byteLength (c :: w)⟩⟩ :: xs)

variable {offset : ℕ} {read : Array Lexeme} {c : Char} {w pre rest : List Char} {p : Piece}
  {xs : List Lexeme}

theorem scan_gap (h : first c (w ++ rest) = (.gap, w.length)) :
    scan offset read (c :: (w ++ rest)) = scan (offset + byteLength (c :: w)) read rest := by
  rw [scan]
  simp [h]

theorem scan_token {t : Token} (h : first c (w ++ rest) = (.token t, w.length)) :
    scan offset read (c :: (w ++ rest)) = scan (offset + byteLength (c :: w))
      (read.push ⟨t, ⟨offset, offset + byteLength (c :: w)⟩⟩) rest := by
  rw [scan]
  simp [h]

theorem scan_bad {cause : Cause} (h : first c (w ++ rest) = (.bad cause, w.length)) :
    scan offset read (c :: (w ++ rest)) =
      .error (cause, ⟨offset, offset + byteLength (c :: w)⟩) := by
  rw [scan]
  simp [h]

theorem Reads.scan_eq (h : Reads offset pre rest xs) (read : Array Lexeme) :
    scan offset read (pre ++ rest) = scan (offset + byteLength pre) (read ++ xs.toArray) rest := by
  induction h generalizing read with
  | nil => simp [byteLength]
  | gap h _ ih =>
    rw [List.cons_append, List.append_assoc, scan_gap h, ih, ← List.cons_append,
      Source.byteLength_append, Nat.add_assoc]
  | token h _ ih =>
    rw [List.cons_append, List.append_assoc, scan_token h, ih, ← List.cons_append,
      Source.byteLength_append, Nat.add_assoc]
    simp

theorem scan_nil : scan offset read [] = .ok read := by
  rw [scan]

/-- Every text is read to its end, or to a piece that is bad. -/
theorem exists_reads (offset : ℕ) (text : List Char) :
    ∃ pre rest xs, text = pre ++ rest ∧ Reads offset pre rest xs ∧
      (rest = [] ∨ ∃ c w more cause, rest = c :: (w ++ more) ∧
        first c (w ++ more) = (.bad cause, w.length)) := by
  induction hn : text.length using Nat.strong_induction_on generalizing offset text with
  | _ n ih =>
    cases text with
    | nil => exact ⟨[], [], [], rfl, .nil, .inl rfl⟩
    | cons c cs =>
      obtain ⟨w, more, p, rfl, hfirst⟩ := exists_first c cs
      have hlt : more.length < n := by
        rw [← hn, List.length_cons, List.length_append]
        omega
      obtain ⟨pre, rest, xs, rfl, hreads, hrest⟩ :=
        ih more.length hlt (offset + byteLength (c :: w)) more rfl
      have happend : c :: (w ++ (pre ++ rest)) = c :: (w ++ pre) ++ rest := by simp
      cases p with
      | gap => exact ⟨_, rest, xs, happend, .gap hfirst hreads, hrest⟩
      | token t => exact ⟨_, rest, _, happend, .token hfirst hreads, hrest⟩
      | bad cause => exact ⟨[], _, [], rfl, .nil, .inr ⟨c, w, _, cause, rfl, hfirst⟩⟩

/-- **What has been read stays so** when the text behind it is cut short. -/
theorem Reads.of_prefix {rest' : List Char} (h : Reads offset pre rest xs)
    (hrest : rest' <+: rest) : Reads offset pre rest' xs := by
  have hfirst : ∀ {c : Char} {w pre : List Char} {p : Piece},
      first c (w ++ (pre ++ rest)) = (p, w.length) →
        first c (w ++ (pre ++ rest')) = (p, w.length) := by
    intro c w pre p hp
    rw [first_eq_iff, ← List.cons_append] at hp ⊢
    exact hp.of_prefix ((List.prefix_append_right_inj pre).2 hrest)
  induction h with
  | nil => exact .nil
  | gap h _ ih => exact .gap (hfirst h) (ih hrest hfirst)
  | token h _ ih => exact .token (hfirst h) (ih hrest hfirst)

theorem reads_of_scan {out : Array Lexeme} {text : List Char}
    (h : scan offset read text = .ok out) :
    ∃ xs, out = read ++ xs.toArray ∧ Reads offset text [] xs := by
  obtain ⟨pre, rest, xs, rfl, hreads, rfl | ⟨c, w, more, cause, rfl, hbad⟩⟩ :=
    exists_reads offset text
  · rw [hreads.scan_eq, scan_nil] at h
    rw [List.append_nil]
    exact ⟨xs, (Except.ok.inj h).symm, hreads⟩
  · rw [hreads.scan_eq, scan_bad hbad] at h
    cases h

/-- A fault stands behind what has been read. -/
theorem reads_of_scan_error {cause : Cause} {span : Span} {text : List Char}
    (h : scan offset read text = .error (cause, span)) :
    ∃ pre c w more xs, text = pre ++ c :: (w ++ more) ∧ Reads offset pre (c :: (w ++ more)) xs ∧
      first c (w ++ more) = (.bad cause, w.length) ∧
      span = ⟨offset + byteLength pre, offset + byteLength pre + byteLength (c :: w)⟩ := by
  obtain ⟨pre, rest, xs, rfl, hreads, rfl | ⟨c, w, more, cause', rfl, hbad⟩⟩ :=
    exists_reads offset text
  · rw [hreads.scan_eq, scan_nil] at h
    cases h
  · rw [hreads.scan_eq, scan_bad hbad] at h
    cases h
    exact ⟨pre, c, w, more, xs, rfl, hreads, hbad, rfl⟩

/-! ## Reading line by line -/

theorem first_gap (hc : isGap c = true) (cs : List Char) :
    first c cs = (.gap, (cs.takeWhile isGap).length) := by
  simp [first, hc]

/-- Blanks are passed over one by one. -/
theorem scan_blank (hc : isGap c = true) (cs : List Char) :
    scan offset read (c :: cs) = scan (offset + c.utf8Size) read cs := by
  obtain ⟨w, rest, p, rfl, hfirst⟩ := exists_first c cs
  obtain ⟨rfl, hlen⟩ := Prod.mk.inj (hfirst.symm.trans (first_gap hc _))
  rw [scan_gap hfirst]
  cases w with
  | nil => rfl
  | cons d w =>
    -- the blanks that follow are a gap too, with the same rest
    have hblank : isGap d = true := by
      by_contra hd
      simp [hd] at hlen
    have hrest : first d (w ++ rest) = (.gap, w.length) := by
      rw [List.cons_append, List.takeWhile_cons_of_pos hblank] at hlen
      rw [first_gap hblank]
      simpa using hlen.symm
    rw [List.cons_append, scan_gap hrest]
    simp only [byteLength, Nat.add_assoc]

/-- **Lines are read one after the other.** A line break ends whatever stands before it. -/
theorem scan_lines (offset : ℕ) (read : Array Lexeme) (a b : List Char) :
    scan offset read (a ++ '\n' :: b) =
      scan offset read a >>= fun out => scan (offset + byteLength a + 1) out b := by
  have hbreak : LineEnd ('\n' :: b) := by
    rintro d ⟨⟩
    rfl
  induction hn : a.length using Nat.strong_induction_on generalizing offset read a with
  | _ n ih =>
    cases a with
    | nil =>
      rw [List.nil_append, scan_blank (by decide), scan_nil]
      rfl
    | cons c cs =>
      by_cases hc : isGap c = true
      · have hlt : cs.length < n := by rw [← hn, List.length_cons]; omega
        rw [List.cons_append, scan_blank hc, scan_blank hc, ih _ hlt _ _ _ rfl]
        simp only [byteLength, Nat.add_assoc]
      · obtain ⟨w, more, p, rfl, hfirst⟩ := exists_first c cs
        have hlt : more.length < n := by
          rw [← hn, List.length_cons, List.length_append]
          omega
        have hfirst' : first c (w ++ (more ++ '\n' :: b)) = (p, w.length) := by
          rw [first_eq_iff] at hfirst ⊢
          have h := hfirst.append_line (by simpa using hc) hbreak
          rw [List.cons_append, List.append_assoc] at h
          exact h
        rw [List.cons_append, List.append_assoc]
        cases p with
        | gap =>
          rw [scan_gap hfirst', scan_gap hfirst, ih _ hlt _ _ _ rfl, ← List.cons_append,
            Source.byteLength_append, Nat.add_assoc offset]
        | token t =>
          rw [scan_token hfirst', scan_token hfirst, ih _ hlt _ _ _ rfl, ← List.cons_append,
            Source.byteLength_append, Nat.add_assoc offset]
        | bad cause =>
          rw [scan_bad hfirst', scan_bad hfirst]
          rfl

theorem Reads.scan_ok (h : Reads offset pre [] xs) : scan offset #[] pre = .ok xs.toArray := by
  have hscan := h.scan_eq #[]
  rw [List.append_nil, scan_nil] at hscan
  simpa using hscan

/-- What is read of a text is read of its first line, and then of the others. -/
theorem Reads.split_line {a b : List Char} (h : Reads offset (a ++ '\n' :: b) [] xs) :
    ∃ ys zs, xs = ys ++ zs ∧ Reads offset a [] ys ∧ Reads (offset + byteLength a + 1) b [] zs := by
  have hscan := h.scan_ok
  rw [scan_lines] at hscan
  cases hline : scan offset #[] a with
  | error fault =>
    rw [hline] at hscan
    cases hscan
  | ok out =>
    rw [hline] at hscan
    obtain ⟨ys, rfl, hys⟩ := reads_of_scan hline
    obtain ⟨zs, hzs, hreads⟩ := reads_of_scan hscan
    refine ⟨ys, zs, ?_, hys, hreads⟩
    simpa using congrArg Array.toList hzs

theorem first_word (hc : isWordStart c = true) (cs : List Char) :
    first c cs = (.token (ofWord (String.ofList (c :: cs.takeWhile isWordChar))),
      (cs.takeWhile isWordChar).length) := by
  have hgap : ¬ isGap c = true := by
    intro hgap
    rcases isGap_iff.1 hgap with rfl | rfl | rfl | rfl | rfl <;> revert hc <;> decide
  have hslash : ¬(c = '/' ∧ cs.head? = some '/') := by
    rintro ⟨rfl, -⟩
    exact absurd hc (by decide)
  rw [first, if_neg hgap, if_neg hslash, if_pos hc]

/-- A letter begins an identifier or a keyword. -/
theorem Reads.word_head (h : Reads offset (c :: w) rest xs) (hc : isWordStart c = true) :
    ∃ name stop ys, xs = ⟨ofWord name, ⟨offset, stop⟩⟩ :: ys := by
  cases h with
  | gap h _ =>
    rw [first_word hc] at h
    cases h
  | token h _ =>
    rw [first_word hc] at h
    cases (Prod.mk.inj h).1
    exact ⟨_, _, _, rfl⟩

/-! ## Gaps and tokens -/

/-- What separates tokens, in front of the text `rest`: blanks, and comments that run up to the end
of their line. -/
inductive Skipped (rest : List Char) : List Char → Prop
  | nil : Skipped rest []
  | blank {c : Char} {cs : List Char} (hc : c ∈ [' ', '\t', '\r', '\n', '\x0c'])
      (h : Skipped rest cs) : Skipped rest (c :: cs)
  | comment {w cs : List Char} (hw : ∀ d ∈ w, d ≠ '\n') (hend : LineEnd (cs ++ rest))
      (h : Skipped rest cs) : Skipped rest ('/' :: '/' :: (w ++ cs))

theorem mem_blanks (hc : isGap c = true) : c ∈ [' ', '\t', '\r', '\n', '\x0c'] := by
  rcases isGap_iff.1 hc with rfl | rfl | rfl | rfl | rfl <;> decide

theorem Skipped.blanks {g : List Char} (hw : ∀ d ∈ w, isGap d = true) (h : Skipped rest g) :
    Skipped rest (w ++ g) := by
  induction w with
  | nil => exact h
  | cons d w ih =>
    exact .blank (mem_blanks (hw d List.mem_cons_self))
      (ih fun e he => hw e (List.mem_cons_of_mem _ he))

theorem integer_ne_gap (ds : List Char) : integer ds ≠ .gap := by
  unfold integer
  dsimp only
  split <;> simp

/-- A gap is a run of blanks or a comment. -/
theorem Spelled.gap_cases (h : Spelled .gap (c :: w)) :
    (∀ d ∈ c :: w, isGap d = true) ∨ ∃ v, c :: w = '/' :: '/' :: v ∧ ∀ d ∈ v, d ≠ '\n' := by
  generalize hp : Piece.gap = p at h
  cases h with
  | blanks hc hw => exact .inl (List.forall_mem_cons.2 ⟨hc, hw⟩)
  | comment hw => exact .inr ⟨_, rfl, hw⟩
  | digits _ _ => exact absurd hp.symm (integer_ne_gap _)
  | _ => cases hp

theorem Munch.spelled {text : List Char} (h : Munch text p w) (hp : ∀ cause, p ≠ .bad cause) :
    Spelled p w := by
  rcases h.piece with hw | ⟨c, -, hbad, -⟩
  · exact hw
  · exact absurd hbad (hp _)

theorem Munch.skipped {g : List Char} (h : Munch (c :: w ++ (g ++ rest)) .gap (c :: w))
    (hg : Skipped rest g) : Skipped rest (c :: w ++ g) := by
  rcases (h.spelled (by simp)).gap_cases with hblanks | ⟨v, hv, hbreak⟩
  · exact hg.blanks hblanks
  · rw [hv] at h ⊢
    refine .comment hbreak ?_ hg
    -- a longer comment would be a longer match
    intro d hd
    by_contra hne
    obtain ⟨more, hmore⟩ := List.head?_eq_some_iff.1 hd
    have hlonger : Spelled .gap ('/' :: '/' :: (v ++ [d])) := by
      refine .comment fun e he => ?_
      rcases List.mem_append.1 he with he | he
      · exact hbreak e he
      · rw [List.mem_singleton.1 he]
        exact hne
    have hle := h.longest _ _ hlonger (by rw [hmore]; exact ⟨more, by simp⟩)
    simp only [List.length_cons, List.length_append, List.length_nil] at hle
    omega

/-- What is read is a gap and then, unless there is no token, a token and what is read behind. -/
theorem Reads.layout (h : Reads offset pre rest xs) :
    (xs = [] ∧ Skipped rest pre) ∨
    ∃ g w pre' t xs', pre = g ++ (w ++ pre') ∧ Skipped (w ++ (pre' ++ rest)) g ∧
      Munch (w ++ (pre' ++ rest)) (.token t) w ∧
      xs = ⟨t, ⟨offset + byteLength g, offset + byteLength g + byteLength w⟩⟩ :: xs' ∧
      Reads (offset + byteLength g + byteLength w) pre' rest xs' := by
  induction h with
  | nil => exact .inl ⟨rfl, .nil⟩
  | @gap offset c w pre rest xs hfirst _ ih =>
    rw [first_eq_iff, ← List.cons_append] at hfirst
    rw [← List.cons_append]
    rcases ih with ⟨rfl, hpre⟩ | ⟨g, v, pre', t, xs', rfl, hg, hv, rfl, hreads⟩
    · exact .inl ⟨rfl, hfirst.skipped hpre⟩
    · refine .inr ⟨c :: w ++ g, v, pre', t, xs', by simp, ?_, hv, ?_, ?_⟩
      · rw [List.append_assoc, List.append_assoc] at hfirst
        exact hfirst.skipped hg
      · rw [Source.byteLength_append, Nat.add_assoc offset]
      · rw [Source.byteLength_append, ← Nat.add_assoc offset]
        exact hreads
  | @token offset c w pre rest t xs hfirst hreads _ =>
    rw [first_eq_iff, ← List.cons_append] at hfirst
    exact .inr ⟨[], c :: w, pre, t, xs, rfl, .nil, hfirst, rfl, hreads⟩

end Token

open Source Token

/-! ## Nothing is left out -/

/-- The stretches before, between and behind tokens, from an offset to the end of the text. -/
def gapsOf (offset stop : ℕ) : List Lexeme → List Span
  | [] => [⟨offset, stop⟩]
  | x :: xs => ⟨offset, x.span.start⟩ :: gapsOf x.span.stop stop xs

/-- The tokens stand in the text one behind the other, with nothing but blanks and comments around
them. Each is what its stretch reads as by itself, and no longer stretch from its start is a
spelling. -/
structure Lossless (text : List Char) (xs : List Lexeme) : Prop where
  nonempty : ∀ x ∈ xs, x.span.start < x.span.stop
  boundary : ∀ x ∈ xs, IsBoundary text x.span.start ∧ IsBoundary text x.span.stop
  ordered : xs.Pairwise fun x y => x.span.stop ≤ y.span.start
  bounded : ∀ x ∈ xs, x.span.stop ≤ byteLength text
  skipped : ∀ g ∈ gapsOf 0 (byteLength text) xs, Skipped (behind text g.stop) (slice text g)
  alone : ∀ x ∈ xs, tokenize (String.ofList (slice text x.span)) =
    .ok #[⟨x.token, ⟨0, x.span.stop - x.span.start⟩⟩]
  longest : ∀ x ∈ xs, ∀ p w, Spelled p w → w <+: behind text x.span.start →
    w.length ≤ (slice text x.span).length

/-- The text up to the end of the line that an offset is on. -/
def throughLine (text : List Char) (offset : ℕ) : List Char :=
  before text offset ++ (behind text offset).takeWhile (· ≠ '\n')

/-- The fault has a stretch of the text, and the text before it can be read. Whatever lines follow
the line of the fault, it is the same, and so are the tokens before it. -/
def Confined (text : List Char) (fault : Fault) : Prop :=
  ∃ place lexemes, fault.place = some place ∧
    place.span.start < place.span.stop ∧ place.span.stop ≤ byteLength text ∧
    IsBoundary text place.span.start ∧ IsBoundary text place.span.stop ∧
    tokenize (String.ofList (before text place.span.start)) = .ok lexemes ∧
    ∀ rest, LineEnd rest →
      tokenize (String.ofList (throughLine text place.span.start ++ rest)) = .error fault ∧
      before (throughLine text place.span.start ++ rest) place.span.start =
        before text place.span.start

/-- The token stands in the text and is the longest match there. -/
def Stands (text : List Char) (x : Lexeme) : Prop :=
  ∃ u w v, text = u ++ (w ++ v) ∧ x.span = ⟨byteLength u, byteLength u + byteLength w⟩ ∧
    Munch (w ++ v) (.token x.token) w

theorem layout_of_reads {p pre : List Char} {xs : List Lexeme}
    (h : Reads (byteLength p) pre [] xs) :
    (∀ x ∈ xs, Stands (p ++ pre) x ∧ byteLength p ≤ x.span.start) ∧
      (xs.Pairwise fun x y => x.span.stop ≤ y.span.start) ∧
      ∀ g ∈ gapsOf (byteLength p) (byteLength (p ++ pre)) xs,
        Skipped (behind (p ++ pre) g.stop) (slice (p ++ pre) g) := by
  induction xs generalizing p pre with
  | nil =>
    rcases h.layout with ⟨-, hpre⟩ | ⟨_, _, _, _, _, -, -, -, hxs, -⟩
    · refine ⟨by simp, .nil, ?_⟩
      intro g hg
      rw [gapsOf, List.mem_singleton] at hg
      have hslice := slice_append p pre []
      have hbehind := behind_append (p ++ pre) []
      rw [List.append_nil] at hslice hbehind
      rw [hg, byteLength_append, hslice, ← byteLength_append, hbehind]
      exact hpre
    · cases hxs
  | cons x xs ih =>
    rcases h.layout with ⟨hxs, -⟩ | ⟨g, w, pre', t, xs', rfl, hg, hw, hxs, hreads⟩
    · cases hxs
    · cases hxs
      rw [List.append_nil] at hg hw
      have hlen : byteLength p + byteLength g + byteLength w = byteLength (p ++ g ++ w) := by
        rw [byteLength_append, byteLength_append]
      rw [hlen] at hreads
      obtain ⟨hstands, hordered, hskipped⟩ := ih hreads
      have htext : p ++ g ++ w ++ pre' = p ++ (g ++ (w ++ pre')) := by simp
      rw [htext] at hstands hskipped
      refine ⟨?_, ?_, ?_⟩
      · rintro y hy
        rcases List.mem_cons.1 hy with rfl | hy
        · refine ⟨⟨p ++ g, w, pre', by simp, ?_, hw⟩, Nat.le_add_right _ _⟩
          rw [byteLength_append]
        · have hle := (hstands y hy).2
          rw [← hlen] at hle
          exact ⟨(hstands y hy).1, by omega⟩
      · refine List.pairwise_cons.2 ⟨fun y hy => ?_, hordered⟩
        rw [hlen]
        exact (hstands y hy).2
      · intro s hs
        rcases List.mem_cons.1 hs with rfl | hs
        · rw [slice_append, ← byteLength_append, ← List.append_assoc, behind_append]
          exact hg
        · dsimp only at hs
          rw [hlen] at hs
          exact hskipped s hs

theorem tokenize_of_ok {cs : List Char} {lexemes : Array Lexeme}
    (h : scan 0 #[] cs = .ok lexemes) : tokenize (String.ofList cs) = .ok lexemes := by
  simp only [tokenize, String.toList_ofList, h]

theorem tokenize_of_error {cs : List Char} {cause : Cause} {span : Span}
    (h : scan 0 #[] cs = .error (cause, span)) :
    tokenize (String.ofList cs) = .error (Fault.inText cs span cause) := by
  simp only [tokenize, String.toList_ofList, h]

theorem scan_of_tokenize {source : String} {lexemes : Array Lexeme}
    (h : tokenize source = .ok lexemes) : scan 0 #[] source.toList = .ok lexemes := by
  rw [tokenize] at h
  cases hscan : scan 0 #[] source.toList with
  | ok out =>
    rw [hscan] at h
    exact congrArg Except.ok (Except.ok.inj h)
  | error e =>
    rw [hscan] at h
    cases h

theorem tokenize_munch {w v : List Char} {t : Token} (h : Munch (w ++ v) (.token t) w) :
    tokenize (String.ofList w) = .ok #[⟨t, ⟨0, byteLength w⟩⟩] := by
  obtain ⟨c, w, rfl⟩ := List.exists_cons_of_ne_nil (h.spelled (by simp)).ne_nil
  have hfirst : first c (w ++ []) = (.token t, w.length) :=
    first_eq_iff.2 (h.of_prefix List.nil_prefix)
  have hscan : scan 0 #[] (c :: (w ++ [])) = _ := scan_token hfirst
  rw [List.append_nil, scan_nil, Nat.zero_add] at hscan
  exact tokenize_of_ok hscan

theorem lossless_of_reads {text : List Char} {xs : List Lexeme} (h : Reads 0 text [] xs) :
    Lossless text xs := by
  obtain ⟨hstands, hordered, hskipped⟩ := layout_of_reads (p := []) h
  rw [List.nil_append] at hstands hskipped
  refine ⟨?_, ?_, hordered, ?_, hskipped, ?_, ?_⟩
  all_goals intro x hx
  all_goals obtain ⟨⟨u, w, v, rfl, hspan, hmunch⟩, -⟩ := hstands x hx
  all_goals have hw := (hmunch.spelled (by simp)).ne_nil
  all_goals rw [hspan]
  · have hpos := byteLength_pos hw
    show byteLength u < byteLength u + byteLength w
    omega
  · refine ⟨isBoundary_append u (w ++ v), ?_⟩
    show IsBoundary _ (byteLength u + byteLength w)
    rw [← byteLength_append, ← List.append_assoc]
    exact isBoundary_append (u ++ w) v
  · show byteLength u + byteLength w ≤ _
    rw [byteLength_append, byteLength_append]
    omega
  · rw [slice_append, tokenize_munch hmunch, Nat.add_sub_cancel_left]
  · intro p w' hspelled hbegins
    rw [behind_append] at hbegins
    rw [slice_append]
    exact hmunch.longest p w' hspelled hbegins

/-- The line of a fault fails by itself. -/
theorem scan_line_of_error {a : List Char} {cause : Cause} {span : Span} {rest : List Char}
    (hrest : LineEnd rest) (hstart : span.start < byteLength a)
    (h : scan 0 #[] (a ++ rest) = .error (cause, span)) : scan 0 #[] a = .error (cause, span) := by
  cases rest with
  | nil =>
    rw [List.append_nil] at h
    exact h
  | cons d b =>
    rw [hrest d rfl, scan_lines] at h
    cases ha : scan 0 #[] a with
    | error e =>
      rw [ha] at h
      exact h
    | ok out =>
      -- a fault of a later line begins behind this one
      rw [ha] at h
      obtain ⟨_, _, _, _, _, -, -, -, rfl⟩ := reads_of_scan_error h
      simp only at hstart
      omega

theorem scan_append_of_error {a : List Char} {e : Cause × Span} (h : scan 0 #[] a = .error e)
    {rest : List Char} (hrest : LineEnd rest) : scan 0 #[] (a ++ rest) = .error e := by
  cases rest with
  | nil =>
    rw [List.append_nil]
    exact h
  | cons d b =>
    rw [hrest d rfl, scan_lines, h]
    rfl

theorem confined_of_scan {text : List Char} {cause : Cause} {span : Span}
    (h : scan 0 #[] text = .error (cause, span)) :
    Confined text (Fault.inText text span cause) := by
  obtain ⟨pre, c, w, more, xs, rfl, hreads, hbad, rfl⟩ := reads_of_scan_error h
  rw [Nat.zero_add] at h ⊢
  have hbefore := before_append pre (c :: (w ++ more))
  have hbehind := behind_append pre (c :: (w ++ more))
  -- the piece is bad, so it does not begin with a blank
  have hc : c ≠ '\n' := by
    rintro rfl
    rw [first_gap (by decide)] at hbad
    cases hbad
  have hline : (c :: (w ++ more)).takeWhile (· ≠ '\n') =
      c :: (w ++ more).takeWhile (· ≠ '\n') := by
    rw [List.takeWhile_cons_of_pos (by simpa using hc)]
  have hthrough : throughLine (pre ++ c :: (w ++ more)) (byteLength pre) =
      pre ++ c :: (w ++ more).takeWhile (· ≠ '\n') := by
    rw [throughLine, hbefore, hbehind, hline]
  have hend : LineEnd ((w ++ more).dropWhile (· ≠ '\n')) := by
    intro d hd
    have hnot := List.head?_dropWhile_not (· ≠ '\n') (w ++ more)
    rw [hd] at hnot
    simpa using hnot
  have halone : scan 0 #[] (pre ++ c :: (w ++ more).takeWhile (· ≠ '\n')) =
      .error (cause, ⟨byteLength pre, byteLength pre + byteLength (c :: w)⟩) := by
    refine scan_line_of_error hend ?_ ?_
    · have hpos := byteLength_pos (List.cons_ne_nil c ((w ++ more).takeWhile (· ≠ '\n')))
      rw [byteLength_append]
      show byteLength pre < _
      omega
    · rw [List.append_assoc, List.cons_append, List.takeWhile_append_dropWhile]
      exact h
  have hpre := (hreads.of_prefix List.nil_prefix).scan_eq #[]
  rw [List.append_nil, scan_nil] at hpre
  refine ⟨_, #[] ++ xs.toArray, rfl, ?_, ?_, ?_, ?_, ?_, ?_⟩
  · have hpos := byteLength_pos (List.cons_ne_nil c w)
    show byteLength pre < byteLength pre + byteLength (c :: w)
    omega
  · show byteLength pre + byteLength (c :: w) ≤ _
    rw [← List.cons_append, byteLength_append, byteLength_append]
    omega
  · exact isBoundary_append pre _
  · show IsBoundary _ (byteLength pre + byteLength (c :: w))
    rw [← byteLength_append, ← List.cons_append, ← List.append_assoc]
    exact isBoundary_append (pre ++ c :: w) more
  · show tokenize (String.ofList (before _ (byteLength pre))) = _
    rw [hbefore]
    exact tokenize_of_ok hpre
  · intro rest hrest
    show tokenize (String.ofList (throughLine _ (byteLength pre) ++ rest)) = _ ∧
      before (throughLine _ (byteLength pre) ++ rest) (byteLength pre) = before _ (byteLength pre)
    rw [hthrough, hbefore]
    have hfault := tokenize_of_error (scan_append_of_error halone hrest)
    rw [List.append_assoc] at hfault ⊢
    refine ⟨?_, before_append pre _⟩
    rw [hfault, Fault.inText, Fault.inText]
    dsimp only
    rw [positionAt_append pre _ (c :: (w ++ more))]

/-- **Tokens are the longest matches, and nothing of a text is left out.** A text that can be read
is its tokens with blanks and comments around them. A text that cannot be read is one up to its
fault, which depends on no later line. -/
theorem tokenize_lossless (source : String) :
    match tokenize source with
    | .ok lexemes => Lossless source.toList lexemes.toList
    | .error fault => Confined source.toList fault := by
  rw [tokenize]
  cases hscan : scan 0 #[] source.toList with
  | ok lexemes =>
    obtain ⟨xs, rfl, hreads⟩ := reads_of_scan hscan
    simpa using lossless_of_reads hreads
  | error e => exact confined_of_scan hscan

end ScriptLint
