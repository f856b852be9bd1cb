import Mathlib
import ScriptLint.Proofs.Reading

/-!
# What is no token

A text that cannot be read fails where tokens and gaps no longer cover it, and it fails in one of
three ways: a literal is not closed on its line, a whole number is too large, or a character is none
that anything begins with. The first character tells which, so the words of a fault can be chosen by
it alone.

* `Token.Covered`, `Token.Frontier`: what tokens and gaps cover, and the place where they end.
* `Token.Flawed`: the three flaws, each with the stretch it spoils.
* `exists_body_of_even`: **a quote behind an even number of backslashes closes a literal.**
* `first_bad_iff`: reading is stopped by a flaw and by nothing else.
* `tokenize_error_iff`: **which texts fail, where, and in what words.**
-/

namespace ScriptLint

open Source (byteLength)

namespace Token

/-! ## Flaws -/

/-- What can be wrong with a piece of text. -/
inductive Flaw
  | unclosed | tooLarge | stray
deriving DecidableEq, Repr

namespace Flaw

/-- How a flaw of the stretch `w` is told. -/
def wording (w : List Char) : Flaw → String
  | unclosed => "Unterminated string literal"
  | tooLarge => "Invalid number '" ++ String.ofList w ++ "'"
  | stray => "Unexpected character '" ++ String.ofList w ++ "'"

/-- The flaw of which a first character is the sign. -/
def ofFirst (c : Char) : Flaw :=
  if c = '"' ∨ c = '\'' then unclosed else if c.isDigit then tooLarge else stray

end Flaw

/-- The number of backslashes that a text ends with. -/
def backslashes (u : List Char) : ℕ :=
  (u.reverse.takeWhile (· = '\\')).length

/-- The value of decimal digits, most significant first. -/
def decimalValue (ds : List Char) : ℕ :=
  Nat.ofDigits 10 (ds.reverse.map fun d => d.toNat - '0'.toNat)

/-- A text begins with a flaw, which spoils the second text.

An unclosed literal has only escaped quotes of its kind on the line, each behind an odd number of
backslashes. It takes in all the characters and complete escapes that it can, up to the end of the
line or a backslash with nothing to escape. -/
inductive Flawed : Flaw → List Char → List Char → Prop
  | unclosed {q : Char} {v tail content : List Char} (hq : q = '"' ∨ q = '\'')
      (hescaped : ∀ u more, v ++ tail = u ++ q :: more → '\n' ∉ u → Odd (backslashes u))
      (hbody : Body q v content)
      (hlongest : ∀ v' content', Body q v' content' → v' <+: v ++ tail → v'.length ≤ v.length)
      (htail : LineEnd tail ∨ ∃ t, tail = '\\' :: t ∧ LineEnd t) :
      Flawed .unclosed (q :: (v ++ tail)) (q :: v)
  | tooLarge {ds more : List Char} (hne : ds ≠ []) (hdigits : ∀ d ∈ ds, d.isDigit = true)
      (hmaximal : ∀ d ∈ more.head?, d.isDigit = false)
      (hpoint : ∀ d more', more = '.' :: d :: more' → d.isDigit = false)
      (hvalue : 2 ^ 63 - 1 < decimalValue (ds.dropWhile (· = '0'))) :
      Flawed .tooLarge (ds ++ more) ds
  | stray {c : Char} {more : List Char} (hnone : ∀ p w, Spelled p w → ¬ w <+: c :: more) :
      Flawed .stray (c :: more) [c]

/-- Tokens and gaps, each the longest match where it stands, make up a text in front of `rest`. -/
inductive Covered (rest : List Char) : List Char → Prop
  | nil : Covered rest []
  | gap {w pre : List Char} (h : Munch (w ++ (pre ++ rest)) .gap w) (hpre : Covered rest pre) :
      Covered rest (w ++ pre)
  | token {t : Token} {w pre : List Char} (h : Munch (w ++ (pre ++ rest)) (.token t) w)
      (hpre : Covered rest pre) : Covered rest (w ++ pre)

/-- The first place of a text that tokens and gaps do not cover. -/
structure Frontier (text pre rest : List Char) : Prop where
  text_eq : text = pre ++ rest
  covered : Covered rest pre
  ne_nil : rest ≠ []
  uncovered : ∀ p w, Munch rest p w → p ≠ .gap ∧ ∀ t, p ≠ .token t

variable {c d q : Char} {cs w v tail content pre rest text : List Char} {k k' : Flaw}

/-! ## Escaped quotes -/

theorem backslashes_cons (hc : c ≠ '\\') (u : List Char) :
    backslashes (c :: u) = backslashes u := by
  rw [backslashes, backslashes, List.reverse_cons, List.takeWhile_append]
  split
  · next hall =>
    rw [List.takeWhile_cons_of_neg (by simpa using hc), List.append_nil, hall]
  · rfl

theorem even_backslashes_escape (d : Char) (u : List Char) :
    Even (backslashes ('\\' :: d :: u)) ↔ Even (backslashes u) := by
  simp only [backslashes, List.reverse_cons, List.append_assoc, List.cons_append, List.nil_append]
  rw [List.takeWhile_append]
  split
  · next hall =>
    rw [hall]
    by_cases hd : d = '\\'
    · -- a backslash that is escaped makes two more
      simp [hd, Nat.even_add]
    · simp [hd]
  · rfl

/-- **A quote behind an even number of backslashes closes a literal**, if no quote before it
does. -/
theorem exists_body_of_even (hq : isQuote q = true) (u more : List Char) (hline : '\n' ∉ u)
    (heven : Even (backslashes u)) :
    ∃ v content more', Body q v content ∧ u ++ q :: more = v ++ q :: more' := by
  have hslash : q ≠ '\\' := by
    rintro rfl
    exact absurd hq (by decide)
  induction hn : u.length using Nat.strong_induction_on generalizing u with
  | _ n ih =>
    cases u with
    | nil => exact ⟨[], [], more, .nil, rfl⟩
    | cons c u =>
      obtain ⟨hc, hu⟩ := not_or.1 (List.mem_cons.not.1 hline)
      rw [List.length_cons] at hn
      by_cases hquote : c = q
      · -- an earlier quote
        subst hquote
        exact ⟨[], [], u ++ c :: more, .nil, rfl⟩
      by_cases hback : c = '\\'
      · subst hback
        cases u with
        | nil => exact absurd heven (by decide)
        | cons d u =>
          obtain ⟨hd, hu⟩ := not_or.1 (List.mem_cons.not.1 hu)
          rw [List.length_cons] at hn
          obtain ⟨v, content, more', hbody, heq⟩ := ih u.length (by omega) u hu
            ((even_backslashes_escape d u).1 heven) rfl
          refine ⟨'\\' :: d :: v, _, more', .escape (Ne.symm hd) hbody, ?_⟩
          simp only [List.cons_append, heq]
      · rw [backslashes_cons hback] at heven
        obtain ⟨v, content, more', hbody, heq⟩ := ih u.length (by omega) u hu heven rfl
        refine ⟨c :: v, _, more', .plain hquote hback (Ne.symm hc) hbody, ?_⟩
        simp only [List.cons_append, heq]

/-! ## The value of digits -/

theorem foldl_digits (n : ℕ) (ds : List Char) :
    ds.foldl (fun v c => 10 * v + (c.toNat - '0'.toNat)) n =
      decimalValue ds + 10 ^ ds.length * n := by
  induction ds generalizing n with
  | nil => simp [decimalValue]
  | cons d ds ih =>
    rw [List.foldl_cons, ih]
    simp only [decimalValue, List.reverse_cons, List.map_append, List.map_cons, List.map_nil,
      Nat.ofDigits_append, Nat.ofDigits_singleton, List.length_map, List.length_reverse,
      List.length_cons]
    ring

theorem digitsValue_eq (ds : List Char) : digitsValue ds = decimalValue ds := by
  rw [digitsValue, foldl_digits, Nat.mul_zero, Nat.add_zero]

theorem decimalValue_dropZeros (ds : List Char) :
    decimalValue (ds.dropWhile (· = '0')) = decimalValue ds := by
  induction ds with
  | nil => rfl
  | cons d ds ih =>
    by_cases hd : d = '0'
    · subst hd
      rw [List.dropWhile_cons_of_pos (by decide), ih, ← digitsValue_eq, ← digitsValue_eq]
      rfl
    · rw [List.dropWhile_cons_of_neg (by simpa using hd)]

/-- Whole numbers up to `2 ^ 63 - 1` can be read. -/
theorem integer_bad_iff {ds : List Char} {cause : Cause} : integer ds = .bad cause ↔
    2 ^ 63 - 1 < decimalValue (ds.dropWhile (· = '0')) ∧
      cause = .invalidNumber (String.ofList ds) := by
  have hbound : intBound = 2 ^ 63 := rfl
  rw [decimalValue_dropZeros, ← digitsValue_eq, integer, hbound]
  split
  · next hlt =>
    refine ⟨nofun, fun h => ?_⟩
    omega
  · next hge =>
    rw [Piece.bad.injEq]
    exact ⟨fun h => ⟨by omega, h.symm⟩, fun h => h.2.symm⟩

/-! ## Reading stops at a flaw -/

/-- The inside of a literal has no quote in it that would close the literal. -/
theorem Body.not_closed {v' content' more : List Char} (hq : isQuote q = true)
    (h : Body q w content) (h' : Body q v' content') : w ≠ v' ++ q :: more := by
  intro heq
  have hopen := h.inside_append hq []
  rw [List.append_nil, inside_nil, heq, h'.inside_closed hq] at hopen
  exact absurd (congrArg Inside.closed hopen) (by simp)

theorem Body.append {v content' : List Char} (h : Body q w content) (h' : Body q v content') :
    Body q (w ++ v) (content ++ content') := by
  induction h with
  | nil => exact h'
  | plain hquote hslash hbreak _ ih => exact .plain hquote hslash hbreak ih
  | escape hbreak _ ih => exact .escape hbreak ih

/-- What stops the inside of a literal from going on. -/
theorem tail_of_longest (hbody : Body q v content)
    (hlongest : ∀ v' content', Body q v' content' → v' <+: v ++ tail → v'.length ≤ v.length)
    (hquote : ∀ more, tail ≠ q :: more) :
    LineEnd tail ∨ ∃ t, tail = '\\' :: t ∧ LineEnd t := by
  -- one more character or escape would make it longer
  have hmore : ∀ u content', u ≠ [] → u <+: tail → ¬ Body q u content' := by
    intro u content' hne hu hbody'
    have hle := hlongest (v ++ u) (content ++ content') (hbody.append hbody')
      ((List.prefix_append_right_inj v).2 hu)
    rw [List.length_append] at hle
    exact hne (List.length_eq_zero_iff.1 (by omega))
  cases tail with
  | nil => exact .inl (by simp [LineEnd])
  | cons d t =>
    by_cases hbreak : d = '\n'
    · exact .inl (by simp [LineEnd, hbreak])
    by_cases hslash : d = '\\'
    · subst hslash
      refine .inr ⟨t, rfl, fun e he => ?_⟩
      by_contra hne
      obtain ⟨t', rfl⟩ := List.head?_eq_some_iff.1 he
      exact hmore ['\\', e] _ (by simp) ⟨t', rfl⟩ (.escape hne .nil)
    · have hd : d ≠ q := by
        rintro rfl
        exact hquote t rfl
      exact absurd (.plain hd hslash hbreak .nil) (hmore [d] _ (by simp) ⟨t, rfl⟩)

theorem flawed_unclosed (hq : isQuote q = true) (hbody : Body q v content)
    (hlongest : ∀ p w, Spelled p w → w <+: q :: (v ++ tail) → w.length ≤ (q :: v).length) :
    Flawed .unclosed (q :: (v ++ tail)) (q :: v) := by
  have hopen : ∀ v' content', Body q v' content' → v' <+: v ++ tail → v'.length ≤ v.length := by
    intro v' content' hbody' hv'
    have hle := hlongest _ _ (.unclosed hq hbody') (List.cons_prefix_cons.2 ⟨rfl, hv'⟩)
    simpa using hle
  -- a closed literal would be longer than the open one
  have hclosed : ∀ v' content' more, Body q v' content' → v ++ tail ≠ v' ++ q :: more := by
    intro v' content' more hbody' heq
    have hv' : v' ++ [q] <+: v ++ tail := ⟨more, by simp [heq]⟩
    have hle := hlongest _ _ (.closed hq hbody') (List.cons_prefix_cons.2 ⟨rfl, hv'⟩)
    obtain ⟨x, hx⟩ := List.prefix_of_prefix_length_le hv' (List.prefix_append v tail)
      (by simpa using hle)
    rw [List.append_assoc, List.singleton_append] at hx
    exact hbody.not_closed hq hbody' hx.symm
  refine .unclosed (isQuote_iff.1 hq) ?_ hbody hopen (tail_of_longest hbody hopen ?_)
  · intro u more heq hline
    rw [← Nat.not_even_iff_odd]
    intro heven
    obtain ⟨v', content', more', hbody', heq'⟩ := exists_body_of_even hq u more hline heven
    exact hclosed v' content' more' hbody' (heq.trans heq')
  · rintro more rfl
    exact hclosed v content more hbody rfl

theorem flawed_tooLarge {more : List Char} {cause : Cause} (hc : c.isDigit = true)
    (hw : ∀ d ∈ w, d.isDigit = true) (hbad : integer (c :: w) = .bad cause)
    (hlongest : ∀ p v, Spelled p v → v <+: c :: (w ++ more) → v.length ≤ (c :: w).length) :
    Flawed .tooLarge (c :: w ++ more) (c :: w) := by
  have hdigits : ∀ d ∈ c :: w, d.isDigit = true := List.forall_mem_cons.2 ⟨hc, hw⟩
  refine .tooLarge (List.cons_ne_nil c w) hdigits ?_ ?_ (integer_bad_iff.1 hbad).1
  · intro d hd
    by_contra hdigit
    rw [Bool.not_eq_false] at hdigit
    obtain ⟨more', rfl⟩ := List.head?_eq_some_iff.1 hd
    have hrun : ∀ e ∈ w ++ [d], e.isDigit = true := by
      simpa [or_imp, forall_and] using ⟨hw, hdigit⟩
    have hle := hlongest _ _ (.digits hc hrun) ⟨more', by simp⟩
    simp at hle
  · rintro d more' rfl
    by_contra hdigit
    rw [Bool.not_eq_false] at hdigit
    have hle := hlongest _ _ (.decimal hc hw (List.cons_ne_nil d [])
      (by simpa using hdigit)) ⟨more', by simp⟩
    simp at hle

/-- The cause of a flaw. -/
def Flaw.cause (w : List Char) : Flaw → Cause
  | .unclosed => .unterminatedString
  | .tooLarge => .invalidNumber (String.ofList w)
  | .stray => .unexpectedCharacter (w.headD ' ')

theorem flawed_of_munch {more : List Char} {cause : Cause}
    (h : Munch (c :: (w ++ more)) (.bad cause) (c :: w)) :
    ∃ k, Flawed k (c :: (w ++ more)) (c :: w) ∧ cause = k.cause (c :: w) := by
  rcases h.piece with hspelled | ⟨d, hd, hcause, hnone⟩
  · generalize hp : Piece.bad cause = p at hspelled
    cases hspelled with
    | digits hc hw =>
      refine ⟨.tooLarge, flawed_tooLarge hc hw hp.symm h.longest, ?_⟩
      exact (integer_bad_iff.1 hp.symm).2
    | unclosed hq hw =>
      cases hp
      exact ⟨.unclosed, flawed_unclosed hq hw h.longest, rfl⟩
    | _ => cases hp
  · cases hd
    cases hcause
    refine ⟨.stray, .stray fun p v hv hbegins => ?_, rfl⟩
    -- a spelling is no longer than the character, and the character is none
    have hle := h.longest p v hv hbegins
    have hlen : 0 < v.length := List.length_pos_of_ne_nil hv.ne_nil
    have hchar : [c] <+: c :: more := ⟨more, rfl⟩
    have heq := (List.prefix_of_prefix_length_le hchar hbegins hlen).eq_of_length_le hle
    exact hnone p (heq ▸ hv)

theorem inside_tail (hq : isQuote q = true)
    (htail : LineEnd tail ∨ ∃ t, tail = '\\' :: t ∧ LineEnd t) :
    inside q tail = ⟨0, [], false⟩ := by
  have hbreak : q ≠ '\n' := by
    rintro rfl
    exact absurd hq (by decide)
  have hslash : q ≠ '\\' := by
    rintro rfl
    exact absurd hq (by decide)
  rcases htail with hend | ⟨t, rfl, hend⟩
  · cases tail with
    | nil => rfl
    | cons d t =>
      rw [hend d rfl]
      cases t <;> simp [inside, Ne.symm hbreak]
  · cases t with
    | nil => simp [inside, Ne.symm hslash]
    | cons d t =>
      rw [hend d rfl]
      simp [inside, Ne.symm hslash]

theorem first_quote (hq : isQuote q = true) (cs : List Char) : first q cs = literal q cs := by
  rcases isQuote_iff.1 hq with rfl | rfl <;> rfl

theorem first_digit (hc : c.isDigit = true) (cs : List Char) : first c cs = number c cs := by
  have hclass := classOf_digit hc
  unfold classOf at hclass
  have hslash : c ≠ '/' := by
    rintro rfl
    exact absurd hc (by decide)
  unfold first
  split at hclass
  · cases hclass
  split at hclass
  · cases hclass
  simp [*]

theorem number_run {more : List Char} (hw : ∀ d ∈ w, d.isDigit = true)
    (hmaximal : ∀ d ∈ more.head?, d.isDigit = false)
    (hpoint : ∀ d more', more = '.' :: d :: more' → d.isDigit = false) :
    number c (w ++ more) = (integer (c :: w), w.length) := by
  have hstop : ∀ l : List Char, (∀ d ∈ l.head?, d.isDigit = false) →
      l.takeWhile Char.isDigit = [] := by
    intro l hl
    cases l with
    | nil => rfl
    | cons d l => simp [hl d rfl]
  have hwhole : (w ++ more).takeWhile Char.isDigit = w := by
    rw [List.takeWhile_append_of_pos hw, hstop more hmaximal, List.append_nil]
  unfold number
  simp only [hwhole, List.drop_left]
  split
  · next rest =>
    have hplaces : rest.takeWhile Char.isDigit = [] := by
      refine hstop rest fun d hd => ?_
      obtain ⟨more', rfl⟩ := List.head?_eq_some_iff.1 hd
      exact hpoint d more' rfl
    simp [hplaces]
  · rfl

/-- A flaw stops the reading. -/
theorem Flawed.first_eq {more : List Char} (h : Flawed k (c :: (w ++ more)) (c :: w)) :
    first c (w ++ more) = (.bad (k.cause (c :: w)), w.length) := by
  generalize htext : c :: (w ++ more) = text at h
  generalize hword : c :: w = word at h
  cases h with
  | unclosed hq _ hbody _ htail =>
    cases hword
    obtain rfl := List.append_cancel_left (List.cons.inj htext).2
    have hq := isQuote_iff.2 hq
    rw [first_quote hq, literal, hbody.inside_append hq, inside_tail hq htail]
    rfl
  | tooLarge _ hdigits hmaximal hpoint hvalue =>
    subst hword
    obtain rfl := List.append_cancel_left (List.cons.inj htext).2
    obtain ⟨hc, hw⟩ := List.forall_mem_cons.1 hdigits
    have hbad : integer (c :: w) = .bad _ := integer_bad_iff.2 ⟨hvalue, rfl⟩
    rw [first_digit hc, number_run hw hmaximal hpoint, hbad]
    rfl
  | stray hnone =>
    cases hword
    cases htext
    refine first_eq_iff.2 ⟨⟨more, rfl⟩, .inr ⟨c, rfl, rfl, fun p hp => ?_⟩,
      fun p v hv hbegins => ?_⟩
    · exact hnone p [c] hp ⟨more, rfl⟩
    · exact absurd hbegins (hnone p v hv)

/-- **Reading is stopped by a flaw and by nothing else.** -/
theorem first_bad_iff {more : List Char} {cause : Cause} :
    first c (w ++ more) = (.bad cause, w.length) ↔
      ∃ k, Flawed k (c :: (w ++ more)) (c :: w) ∧ cause = k.cause (c :: w) := by
  refine ⟨fun h => flawed_of_munch (first_eq_iff.1 h), ?_⟩
  rintro ⟨k, hk, rfl⟩
  exact hk.first_eq

/-- The first character of a flawed text is spoiled, and tells the flaw. -/
theorem Flawed.exists_first (h : Flawed k rest w) :
    ∃ c v more, rest = c :: (v ++ more) ∧ w = c :: v ∧ k = Flaw.ofFirst c := by
  cases h with
  | unclosed hq _ _ _ _ => exact ⟨_, _, _, rfl, rfl, by rw [Flaw.ofFirst, if_pos hq]⟩
  | tooLarge hne hdigits _ _ _ =>
    obtain ⟨c, v, rfl⟩ := List.exists_cons_of_ne_nil hne
    have hc : c.isDigit = true := hdigits c List.mem_cons_self
    have hquote : ¬(c = '"' ∨ c = '\'') := by
      rintro (rfl | rfl) <;> exact absurd hc (by decide)
    exact ⟨c, v, _, rfl, rfl, by rw [Flaw.ofFirst, if_neg hquote, if_pos hc]⟩
  | @stray c more hnone =>
    have hquote : ¬(c = '"' ∨ c = '\'') := fun hq =>
      hnone _ [c] (.unclosed (isQuote_iff.2 hq) .nil) ⟨more, rfl⟩
    have hdigit : ¬ c.isDigit = true := fun hc =>
      hnone _ [c] (.digits hc (by simp)) ⟨more, rfl⟩
    exact ⟨c, [], more, rfl, rfl, by rw [Flaw.ofFirst, if_neg hquote, if_neg hdigit]⟩

/-- The flaws exclude each other, and each spoils a stretch of its own. -/
theorem Flawed.unique {w' : List Char} (h : Flawed k rest w) (h' : Flawed k' rest w') :
    k = k' ∧ w = w' := by
  obtain ⟨c, v, more, rfl, rfl, hk⟩ := h.exists_first
  obtain ⟨c', v', more', htext, rfl, hk'⟩ := h'.exists_first
  obtain ⟨rfl, heq⟩ := List.cons.inj htext
  refine ⟨hk.trans hk'.symm, ?_⟩
  rw [heq] at h h'
  have hfirst := h'.first_eq
  rw [← heq] at h hfirst
  have hlen := (Prod.mk.inj (h.first_eq.symm.trans hfirst)).2
  rw [(List.append_inj heq hlen).1]

theorem Flawed.message_cause (h : Flawed k rest w) : (k.cause w).message = k.wording w := by
  cases h <;> rfl

/-! ## Where reading stops -/

theorem covered_of_reads {offset : ℕ} {xs : List Lexeme} (h : Reads offset pre rest xs) :
    Covered rest pre := by
  induction h with
  | nil => exact .nil
  | gap hfirst _ ih =>
    rw [← List.cons_append]
    exact .gap (first_eq_iff.1 hfirst) ih
  | token hfirst _ ih =>
    rw [← List.cons_append]
    exact .token (first_eq_iff.1 hfirst) ih

theorem Covered.exists_reads (h : Covered rest pre) (offset : ℕ) :
    ∃ xs, Reads offset pre rest xs := by
  induction h generalizing offset with
  | nil => exact ⟨[], .nil⟩
  | gap hmunch _ ih =>
    obtain ⟨c, w, rfl⟩ := List.exists_cons_of_ne_nil (hmunch.spelled (by simp)).ne_nil
    obtain ⟨xs, hxs⟩ := ih (offset + byteLength (c :: w))
    exact ⟨xs, .gap (first_eq_iff.2 hmunch) hxs⟩
  | token hmunch _ ih =>
    obtain ⟨c, w, rfl⟩ := List.exists_cons_of_ne_nil (hmunch.spelled (by simp)).ne_nil
    obtain ⟨xs, hxs⟩ := ih (offset + byteLength (c :: w))
    exact ⟨_, .token (first_eq_iff.2 hmunch) hxs⟩

/-- Tokens and gaps end at a flaw. -/
theorem Flawed.frontier (h : Flawed k rest w) (hpre : Covered rest pre) :
    Frontier (pre ++ rest) pre rest := by
  obtain ⟨c, v, more, rfl, rfl, -⟩ := h.exists_first
  refine ⟨rfl, hpre, List.cons_ne_nil _ _, fun p u hmunch => ?_⟩
  obtain ⟨rfl, -⟩ := hmunch.unique (first_eq_iff.1 h.first_eq)
  exact ⟨nofun, fun t => nofun⟩

/-- What is not covered has a flaw. -/
theorem Frontier.exists_flawed (h : Frontier text pre rest) : ∃ k w, Flawed k rest w := by
  obtain ⟨c, cs, rfl⟩ := List.exists_cons_of_ne_nil h.ne_nil
  obtain ⟨w, more, p, rfl, hfirst⟩ := exists_first c cs
  obtain ⟨hgap, htoken⟩ := h.uncovered p _ (first_eq_iff.1 hfirst)
  cases p with
  | gap => exact absurd rfl hgap
  | token t => exact absurd rfl (htoken t)
  | bad cause =>
    obtain ⟨k, hk, -⟩ := first_bad_iff.1 hfirst
    exact ⟨k, c :: w, hk⟩

theorem ofFirst_symbol {s : Symbol} (hs : s.spelling.toList = c :: cs) :
    Flaw.ofFirst c = .stray := by
  have hclass := classOf_symbol hs
  have hquote : ¬(c = '"' ∨ c = '\'') := by
    intro hq
    rw [classOf_quote (isQuote_iff.2 hq)] at hclass
    cases hclass
  have hdigit : ¬ c.isDigit = true := by
    intro hc
    rw [classOf_digit hc] at hclass
    cases hclass
  rw [Flaw.ofFirst, if_neg hquote, if_neg hdigit]

theorem eq_of_ofPair? {s : Symbol} (hc : c = '&' ∨ c = '|') (h : Symbol.ofPair? c d = some s) :
    d = c := by
  unfold Symbol.ofPair? at h
  split at h <;> simp_all

/-- A symbol that is written as a pair of one character, where the character is none by itself, is
all that the character can begin. -/
theorem flawed_single {s : Symbol} (hs : s.spelling.toList = [c, c])
    (hchar : Symbol.ofChar? c = none) (hpair : ∀ d s', Symbol.ofPair? c d = some s' → d = c)
    {more : List Char} :
    Flawed k (c :: more) w ↔ k = .stray ∧ w = [c] ∧ more.head? ≠ some c := by
  have hstray : more.head? ≠ some c → Flawed .stray (c :: more) [c] := by
    intro hmore
    refine .stray fun p v hv hbegins => ?_
    obtain ⟨d, v, rfl⟩ := List.exists_cons_of_ne_nil hv.ne_nil
    obtain ⟨rfl, hv'⟩ := List.cons_prefix_cons.1 hbegins
    have hshape := hv.shape
    rw [classOf_symbol hs] at hshape
    rcases hshape with ⟨rfl, -⟩ | ⟨s', hs', -⟩
    · cases hchar
    · rcases symbol_cases hs' with ⟨-, hone⟩ | ⟨e, rfl, htwo⟩
      · rw [hchar] at hone
        cases hone
      · obtain rfl := hpair e s' htwo
        obtain ⟨more', rfl⟩ := hv'
        exact hmore rfl
  refine ⟨fun h => ?_, fun ⟨hk, hw, hmore⟩ => hk ▸ hw ▸ hstray hmore⟩
  have hmore : more.head? ≠ some c := by
    intro hmore
    obtain ⟨more', rfl⟩ := List.head?_eq_some_iff.1 hmore
    obtain ⟨c', v, more, htext, -, rfl⟩ := h.exists_first
    obtain ⟨rfl, -⟩ := List.cons.inj htext
    rw [ofFirst_symbol hs] at h
    cases h with
    | stray hnone => exact hnone _ [c, c] (.symbol hs) ⟨more', rfl⟩
  obtain ⟨rfl, rfl⟩ := h.unique (hstray hmore)
  exact ⟨rfl, rfl, hmore⟩

end Token

open Token

theorem scan_of_tokenize_error {source : String} {fault : Fault}
    (h : tokenize source = .error fault) : ∃ cause span,
      scan 0 #[] source.toList = .error (cause, span) ∧
        fault = Fault.inText source.toList span cause := by
  rw [tokenize] at h
  cases hscan : scan 0 #[] source.toList with
  | ok out =>
    rw [hscan] at h
    cases h
  | error e =>
    rw [hscan] at h
    exact ⟨e.1, e.2, rfl, (Except.error.inj h).symm⟩

/-- **Lexical faults are told apart exactly.** A text fails at the first place that tokens and gaps
do not cover, where it has one of three flaws; the fault tells the flaw and points at the stretch
that it spoils. The flaws exclude each other, and the first character of the stretch says which it
is. A single ampersand or bar is a stray character. -/
theorem tokenize_error_iff (source : String) :
    (∀ fault, tokenize source = .error fault ↔
      ∃ pre rest k w, Frontier source.toList pre rest ∧ Flawed k rest w ∧
        fault.cause = k.cause w ∧ fault.message = k.wording w ∧
        fault.place = some ⟨⟨byteLength pre, byteLength pre + byteLength w⟩,
          Source.positionAt source.toList (byteLength pre)⟩) ∧
    (∀ pre rest, Frontier source.toList pre rest → ∃ k w, Flawed k rest w) ∧
    (∀ rest k w, Flawed k rest w → ∃ c v more, rest = c :: (v ++ more) ∧ w = c :: v ∧
      k = Flaw.ofFirst c ∧ ∀ k' w', Flawed k' rest w' → k' = k ∧ w' = w) ∧
    ∀ more k w,
      (Flawed k ('&' :: more) w ↔ k = .stray ∧ w = ['&'] ∧ more.head? ≠ some '&') ∧
      (Flawed k ('|' :: more) w ↔ k = .stray ∧ w = ['|'] ∧ more.head? ≠ some '|') := by
  refine ⟨fun fault => ⟨fun herror => ?_, ?_⟩, fun pre rest h => h.exists_flawed,
    fun rest k w h => ?_, fun more k w => ⟨?_, ?_⟩⟩
  · obtain ⟨cause, span, hscan, rfl⟩ := scan_of_tokenize_error herror
    obtain ⟨pre, c, w, more, xs, htext, hreads, hbad, rfl⟩ := reads_of_scan_error hscan
    obtain ⟨k, hk, rfl⟩ := first_bad_iff.1 hbad
    have hfrontier : Frontier source.toList pre (c :: (w ++ more)) := by
      rw [htext]
      exact hk.frontier (covered_of_reads hreads)
    refine ⟨pre, _, k, c :: w, hfrontier, hk, rfl, hk.message_cause, ?_⟩
    simp only [Fault.inText, Nat.zero_add]
  · rintro ⟨pre, rest, k, w, hfrontier, hk, hcause, -, hplace⟩
    obtain ⟨c, v, more, rfl, rfl, -⟩ := hk.exists_first
    obtain ⟨xs, hreads⟩ := hfrontier.covered.exists_reads 0
    have hscan := hreads.scan_eq #[]
    rw [scan_bad hk.first_eq, Nat.zero_add, ← hfrontier.text_eq] at hscan
    have hfault : fault = Fault.inText source.toList
        ⟨byteLength pre, byteLength pre + byteLength (c :: v)⟩ (k.cause (c :: v)) := by
      rw [Fault.inText, ← hcause, ← hplace]
    simp only [tokenize, hscan, hfault]
  · obtain ⟨c, v, more, hrest, hw, hk⟩ := h.exists_first
    exact ⟨c, v, more, hrest, hw, hk, fun k' w' h' => h'.unique h⟩
  · have hspelling : Symbol.andAnd.spelling.toList = ['&', '&'] := rfl
    exact flawed_single hspelling rfl fun d s => eq_of_ofPair? (.inl rfl)
  · have hspelling : Symbol.orOr.spelling.toList = ['|', '|'] := rfl
    exact flawed_single hspelling rfl fun d s => eq_of_ofPair? (.inr rfl)

end ScriptLint
