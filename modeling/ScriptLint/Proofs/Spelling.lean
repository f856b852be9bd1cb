import Mathlib
import ScriptLint.Token.Scan

/-!
# The longest match

How each piece of a text is spelled is a matter of its own: a run of blanks, a comment, a word, a
number, a literal with or without its closing quote, a symbol. Reading takes the longest beginning
of the text that is a spelling, and a single character where no beginning is one.

* `Token.Spelled`: the spellings and what they stand for; `Spelled.unique`: a spelling stands for
  one piece.
* `Token.Munch`: a piece is the longest match of a text.
* `first_eq_iff`: **reading gives exactly the longest match.**
* `Munch.of_prefix`: the longest match stays if the text behind it is cut short;
  `Munch.append_line`: it stays if lines are added behind the text.
-/

namespace ScriptLint.Token

/-! ## Spellings -/

/-- The inside of a literal with this quote, and what it says. -/
inductive Body (quote : Char) : List Char → List Char → Prop
  | nil : Body quote [] []
  | plain {c : Char} {cs content : List Char} (hquote : c ≠ quote) (hslash : c ≠ '\\')
      (hbreak : c ≠ '\n') (h : Body quote cs content) : Body quote (c :: cs) (c :: content)
  | escape {c : Char} {cs content : List Char} (hbreak : c ≠ '\n') (h : Body quote cs content) :
      Body quote ('\\' :: c :: cs) (unescape c :: content)

def isQuote (c : Char) : Bool :=
  c = '"' || c = '\''

/-- The spellings, each with the piece it stands for. A number that is too large and a literal
without its closing quote are spellings of what is wrong with them. -/
inductive Spelled : Piece → List Char → Prop
  | blanks {c : Char} {w : List Char} (hc : isGap c = true) (hw : ∀ d ∈ w, isGap d = true) :
      Spelled .gap (c :: w)
  | comment {w : List Char} (hw : ∀ d ∈ w, d ≠ '\n') : Spelled .gap ('/' :: '/' :: w)
  | word {c : Char} {w : List Char} (hc : isWordStart c = true)
      (hw : ∀ d ∈ w, isWordChar d = true) :
      Spelled (.token (ofWord (String.ofList (c :: w)))) (c :: w)
  | digits {c : Char} {w : List Char} (hc : c.isDigit = true) (hw : ∀ d ∈ w, d.isDigit = true) :
      Spelled (integer (c :: w)) (c :: w)
  | decimal {c : Char} {w places : List Char} (hc : c.isDigit = true)
      (hw : ∀ d ∈ w, d.isDigit = true) (hne : places ≠ [])
      (hplaces : ∀ d ∈ places, d.isDigit = true) :
      Spelled (.token (.float (Binary64.ofDecimal (c :: w ++ places) places.length)))
        (c :: (w ++ '.' :: places))
  | closed {q : Char} {w content : List Char} (hq : isQuote q = true) (hw : Body q w content) :
      Spelled (.token (.str (String.ofList content))) (q :: (w ++ [q]))
  | unclosed {q : Char} {w content : List Char} (hq : isQuote q = true) (hw : Body q w content) :
      Spelled (.bad .unterminatedString) (q :: w)
  | symbol {s : Symbol} {c : Char} {w : List Char} (hs : s.spelling.toList = c :: w) :
      Spelled (.token (.symbol s)) (c :: w)

/-- A character that is no spelling. -/
def Stray (p : Piece) (w : List Char) : Prop :=
  ∃ c, w = [c] ∧ p = .bad (.unexpectedCharacter c) ∧ ∀ p', ¬ Spelled p' [c]

/-- The text begins with `w`, which stands for the piece, and no longer beginning is a spelling. -/
structure Munch (text : List Char) (p : Piece) (w : List Char) : Prop where
  isPrefix : w <+: text
  piece : Spelled p w ∨ Stray p w
  longest : ∀ p' w', Spelled p' w' → w' <+: text → w'.length ≤ w.length

variable {p p' : Piece} {c d q : Char} {cs w w' text : List Char}

/-! ## Classes of characters -/

/-- What the first character of a piece tells about it. -/
inductive Class
  | gap | word | digit | quote | mark
deriving DecidableEq, Repr

def classOf (c : Char) : Class :=
  if isGap c then .gap
  else if isWordStart c then .word
  else if c.isDigit then .digit
  else if isQuote c then .quote
  else .mark

theorem isGap_iff : isGap c = true ↔ c = ' ' ∨ c = '\t' ∨ c = '\r' ∨ c = '\n' ∨ c = '\x0c' := by
  simp only [isGap, Bool.or_eq_true, decide_eq_true_eq, or_assoc]

theorem isQuote_iff : isQuote c = true ↔ c = '"' ∨ c = '\'' := by
  simp only [isQuote, Bool.or_eq_true, decide_eq_true_eq]

theorem isWordChar_iff : isWordChar c = true ↔ isWordStart c = true ∨ c.isDigit = true := by
  simp only [isWordChar, isWordStart, Char.isAlphanum, Bool.or_eq_true]
  tauto

theorem isDigit_of_isWordStart (h : isWordStart c = true) : c.isDigit = false := by
  have hupper : 'A'.val.toNat = 65 := rfl
  have hlower : 'a'.val.toNat = 97 := rfl
  have hnine : '9'.val.toNat = 57 := rfl
  simp only [isWordStart, Char.isAlpha, Char.isUpper, Char.isLower, Bool.or_eq_true,
    Bool.and_eq_true, decide_eq_true_eq, ge_iff_le, UInt32.le_iff_toNat_le] at h
  simp only [Char.isDigit, Bool.and_eq_false_iff, decide_eq_false_iff_not, ge_iff_le,
    UInt32.le_iff_toNat_le]
  rcases h with (h | h) | rfl
  · omega
  · omega
  · decide

theorem classOf_gap (h : isGap c = true) : classOf c = .gap := by
  simp [classOf, h]

theorem classOf_word (h : isWordStart c = true) : classOf c = .word := by
  have hgap : isGap c = false := by
    by_contra hgap
    rcases isGap_iff.1 (by simpa using hgap) with rfl | rfl | rfl | rfl | rfl <;>
      revert h <;> decide
  simp [classOf, h, hgap]

theorem classOf_digit (h : c.isDigit = true) : classOf c = .digit := by
  have hgap : isGap c = false := by
    by_contra hgap
    rcases isGap_iff.1 (by simpa using hgap) with rfl | rfl | rfl | rfl | rfl <;>
      revert h <;> decide
  have hword : isWordStart c = false := by
    by_contra hword
    rw [isDigit_of_isWordStart (by simpa using hword)] at h
    cases h
  simp [classOf, h, hgap, hword]

theorem classOf_quote (h : isQuote c = true) : classOf c = .quote := by
  rcases isQuote_iff.1 h with rfl | rfl <;> decide

theorem isQuote_of_classOf (h : classOf c = .quote) : isQuote c = true := by
  unfold classOf at h
  split at h
  · cases h
  split at h
  · cases h
  split at h
  · cases h
  split at h
  · assumption
  · cases h

/-- A symbol has one character or two. -/
theorem symbol_cases {s : Symbol} (hs : s.spelling.toList = c :: w) :
    (w = [] ∧ Symbol.ofChar? c = some s) ∨ ∃ d, w = [d] ∧ Symbol.ofPair? c d = some s := by
  cases s <;> cases hs <;> first
    | exact .inl ⟨rfl, rfl⟩
    | exact .inr ⟨_, rfl, rfl⟩

theorem classOf_symbol {s : Symbol} (hs : s.spelling.toList = c :: w) : classOf c = .mark := by
  have hmark : s.spelling.toList.head?.map classOf = some .mark := by cases s <;> rfl
  rw [hs] at hmark
  exact Option.some.inj hmark

theorem spelling_ne_comment (s : Symbol) (v : List Char) : s.spelling.toList ≠ '/' :: '/' :: v := by
  intro hs
  rcases symbol_cases hs with ⟨hv, -⟩ | ⟨d, hv, hpair⟩
  · cases hv
  · cases hv
    cases hpair

theorem spelling_of_ofChar? {s : Symbol} (h : Symbol.ofChar? c = some s) :
    s.spelling.toList = [c] := by
  unfold Symbol.ofChar? at h
  split at h <;> cases h <;> rfl

theorem spelling_of_ofPair? {s : Symbol} (h : Symbol.ofPair? c d = some s) :
    s.spelling.toList = [c, d] := by
  unfold Symbol.ofPair? at h
  split at h <;> cases h <;> rfl

/-! ## Spellings by their first character -/

/-- What a spelling is made of behind a first character of a class. -/
def Shape (p : Piece) (c : Char) (w : List Char) : Class → Prop
  | .gap => p = .gap ∧ ∀ d ∈ w, isGap d = true
  | .word => p = .token (ofWord (String.ofList (c :: w))) ∧ ∀ d ∈ w, isWordChar d = true
  | .digit => (p = integer (c :: w) ∧ ∀ d ∈ w, d.isDigit = true) ∨
      ∃ v places, w = v ++ '.' :: places ∧ (∀ d ∈ v, d.isDigit = true) ∧ places ≠ [] ∧
        (∀ d ∈ places, d.isDigit = true) ∧
        p = .token (.float (Binary64.ofDecimal (c :: v ++ places) places.length))
  | .quote => ∃ v content, Body c v content ∧
      (w = v ++ [c] ∧ p = .token (.str (String.ofList content)) ∨
        w = v ∧ p = .bad .unterminatedString)
  | .mark => (c = '/' ∧ p = .gap ∧ ∃ v, w = '/' :: v ∧ ∀ d ∈ v, d ≠ '\n') ∨
      ∃ s : Symbol, s.spelling.toList = c :: w ∧ p = .token (.symbol s)

theorem Spelled.shape (h : Spelled p (c :: w)) : Shape p c w (classOf c) := by
  cases h with
  | blanks hc hw => rw [classOf_gap hc]; exact ⟨rfl, hw⟩
  | comment hw => exact .inl ⟨rfl, rfl, _, rfl, hw⟩
  | word hc hw => rw [classOf_word hc]; exact ⟨rfl, hw⟩
  | digits hc hw => rw [classOf_digit hc]; exact .inl ⟨rfl, hw⟩
  | decimal hc hw hne hplaces =>
    rw [classOf_digit hc]
    exact .inr ⟨_, _, rfl, hw, hne, hplaces, rfl⟩
  | closed hq hw => rw [classOf_quote hq]; exact ⟨_, _, hw, .inl ⟨rfl, rfl⟩⟩
  | unclosed hq hw => rw [classOf_quote hq]; exact ⟨_, _, hw, .inr ⟨rfl, rfl⟩⟩
  | symbol hs => rw [classOf_symbol hs]; exact .inr ⟨_, hs, rfl⟩

theorem Spelled.ne_nil (h : Spelled p w) : w ≠ [] := by
  cases h <;> simp

/-! ## The inside of a literal -/

theorem inside_quote (q : Char) (cs : List Char) : inside q (q :: cs) = ⟨0, [], true⟩ := by
  cases cs <;> simp [inside]

theorem inside_plain (hquote : c ≠ q) (hslash : c ≠ '\\') (hbreak : c ≠ '\n') (cs : List Char) :
    inside q (c :: cs) =
      ⟨(inside q cs).length + 1, c :: (inside q cs).content, (inside q cs).closed⟩ := by
  cases cs <;> simp [inside, hquote, hslash, hbreak]

theorem inside_escape (hq : isQuote q = true) (hbreak : d ≠ '\n') (cs : List Char) :
    inside q ('\\' :: d :: cs) = ⟨(inside q cs).length + 2, unescape d :: (inside q cs).content,
      (inside q cs).closed⟩ := by
  have hslash : '\\' ≠ q := by
    rintro rfl
    exact absurd hq (by decide)
  simp [inside, hslash, hbreak]

/-- A reader that has come through the inside of a literal goes on as if it began there. -/
theorem Body.inside_append {content : List Char} (hq : isQuote q = true) (h : Body q w content)
    (cs : List Char) :
    inside q (w ++ cs) = ⟨w.length + (inside q cs).length, content ++ (inside q cs).content,
      (inside q cs).closed⟩ := by
  induction h with
  | nil => simp
  | plain hquote hslash hbreak _ ih =>
    rw [List.cons_append, inside_plain hquote hslash hbreak, ih]
    simp [Nat.add_right_comm]
  | escape hbreak _ ih =>
    rw [List.cons_append, List.cons_append, inside_escape hq hbreak, ih]
    simp [Nat.add_right_comm]

theorem inside_nil (q : Char) : inside q [] = ⟨0, [], false⟩ := rfl

/-- What is read is the inside of a literal, with the closing quote behind it if there is one. -/
theorem body_inside (q : Char) (cs : List Char) :
    ∃ w rest, cs = w ++ rest ∧ w.length = (inside q cs).length ∧ Body q w (inside q cs).content ∧
      ((inside q cs).closed = true → ∃ rest', rest = q :: rest') := by
  fun_induction inside q cs with
  | case1 => exact ⟨[], [], rfl, rfl, .nil, by simp⟩
  | case2 => exact ⟨[], _, rfl, rfl, .nil, fun _ => ⟨_, rfl⟩⟩
  | case3 => exact ⟨[], _, rfl, rfl, .nil, by simp⟩
  | case4 c hquote hother =>
    rw [not_or] at hother
    exact ⟨[c], [], rfl, rfl, .plain hquote hother.2 hother.1 .nil, by simp⟩
  | case5 => exact ⟨[], _, rfl, rfl, .nil, fun _ => ⟨_, rfl⟩⟩
  | case6 => exact ⟨[], _, rfl, rfl, .nil, by simp⟩
  | case7 => exact ⟨[], _, rfl, rfl, .nil, by simp⟩
  | case8 d cs hbreak _ _ _ ih =>
    obtain ⟨w, rest, hcs, hlen, hbody, hclosed⟩ := ih
    refine ⟨'\\' :: d :: w, rest, ?_, ?_, .escape hbreak hbody, hclosed⟩
    · rw [hcs]; rfl
    · exact congrArg (· + 2) hlen
  | case9 c d cs hquote hbreak hslash _ ih =>
    obtain ⟨w, rest, hcs, hlen, hbody, hclosed⟩ := ih
    refine ⟨c :: w, rest, ?_, ?_, .plain hquote hslash hbreak hbody, hclosed⟩
    · rw [hcs]; rfl
    · exact congrArg (· + 1) hlen

/-- A literal that is spelled out is read to its end. -/
theorem Body.inside_closed {content : List Char} (hq : isQuote q = true) (h : Body q w content)
    (cs : List Char) : inside q (w ++ q :: cs) = ⟨w.length, content, true⟩ := by
  rw [h.inside_append hq, inside_quote]
  simp

/-! ## A spelling stands for one piece -/

theorem not_mem_dot {v : List Char} (h : ∀ d ∈ v, d.isDigit = true) : '.' ∉ v :=
  fun hmem => absurd (h '.' hmem) (by decide)

theorem split_dot {v v' places places' : List Char} (hv : ∀ d ∈ v, d.isDigit = true)
    (hv' : ∀ d ∈ v', d.isDigit = true) (h : v ++ '.' :: places = v' ++ '.' :: places') :
    v = v' ∧ places = places' := by
  obtain ⟨rfl, hrest⟩ := List.append_inj h (by
    have hlen : ∀ (u r : List Char), (∀ d ∈ u, d.isDigit = true) →
        ((u ++ '.' :: r).takeWhile Char.isDigit).length = u.length := by
      intro u r hu
      rw [List.takeWhile_append_of_pos hu]
      simp
    rw [← hlen v places hv, h, hlen v' places' hv'])
  exact ⟨rfl, (List.cons.inj hrest).2⟩

theorem Spelled.unique (h : Spelled p w) (h' : Spelled p' w) : p = p' := by
  obtain ⟨c, w, rfl⟩ := List.exists_cons_of_ne_nil h.ne_nil
  have hs := h.shape
  have hs' := h'.shape
  cases hclass : classOf c with
  | gap =>
    rw [hclass] at hs hs'
    rw [hs.1, hs'.1]
  | word =>
    rw [hclass] at hs hs'
    rw [hs.1, hs'.1]
  | digit =>
    rw [hclass] at hs hs'
    rcases hs with ⟨rfl, hw⟩ | ⟨v, places, rfl, hv, -, -, rfl⟩
    · rcases hs' with ⟨rfl, -⟩ | ⟨v, places, rfl, -⟩
      · rfl
      · exact absurd (List.mem_append_right v List.mem_cons_self) (not_mem_dot hw)
    · rcases hs' with ⟨-, hw⟩ | ⟨v', places', heq, hv', -, -, rfl⟩
      · exact absurd (List.mem_append_right v List.mem_cons_self) (not_mem_dot hw)
      · obtain ⟨rfl, rfl⟩ := split_dot hv hv' heq
        rfl
  | quote =>
    have hq := isQuote_of_classOf hclass
    rw [hclass] at hs hs'
    -- the piece can be told from what the reader makes of the spelling
    have hread : ∀ {p : Piece}, Shape p c w .quote →
        p = if (inside c w).closed then .token (.str (String.ofList (inside c w).content))
          else .bad .unterminatedString := by
      rintro p ⟨v, content, hbody, ⟨rfl, rfl⟩ | ⟨rfl, rfl⟩⟩
      · rw [hbody.inside_closed hq]
        rfl
      · have hopen := hbody.inside_append hq []
        rw [List.append_nil, inside_nil] at hopen
        rw [hopen]
        rfl
    rw [hread hs, hread hs']
  | mark =>
    rw [hclass] at hs hs'
    rcases hs with ⟨rfl, rfl, v, rfl, -⟩ | ⟨s, hs, rfl⟩
    · rcases hs' with ⟨-, rfl, -⟩ | ⟨s', hs', rfl⟩
      · rfl
      · exact absurd hs' (spelling_ne_comment s' v)
    · rcases hs' with ⟨rfl, rfl, v, rfl, -⟩ | ⟨s', hs', rfl⟩
      · exact absurd hs (spelling_ne_comment s v)
      · rcases symbol_cases hs with ⟨rfl, hc⟩ | ⟨d, rfl, hd⟩
        · rcases symbol_cases hs' with ⟨-, hc'⟩ | ⟨d, hw, -⟩
          · rw [Option.some.inj (hc.symm.trans hc')]
          · cases hw
        · rcases symbol_cases hs' with ⟨hw, -⟩ | ⟨d', hw, hd'⟩
          · cases hw
          · cases hw
            rw [Option.some.inj (hd.symm.trans hd')]

/-! ## Reading gives the longest match -/

theorem length_le_takeWhile {f : Char → Bool} {v : List Char} (hv : ∀ d ∈ v, f d = true)
    (h : v <+: cs) : v.length ≤ (cs.takeWhile f).length := by
  obtain ⟨rest, rfl⟩ := h
  rw [List.takeWhile_append_of_pos hv, List.length_append]
  exact Nat.le_add_right _ _

theorem Munch.of_shape (hpiece : Spelled p (c :: w) ∨ Stray p (c :: w)) (hw : w <+: cs)
    (hlongest : ∀ p' v, Shape p' c v (classOf c) → v <+: cs → v.length ≤ w.length) :
    Munch (c :: cs) p (c :: w) := by
  refine ⟨List.cons_prefix_cons.2 ⟨rfl, hw⟩, hpiece, fun p' w' hspelled hbegins => ?_⟩
  obtain ⟨d, v, rfl⟩ := List.exists_cons_of_ne_nil hspelled.ne_nil
  obtain ⟨rfl, hv⟩ := List.cons_prefix_cons.1 hbegins
  exact Nat.succ_le_succ (hlongest p' v hspelled.shape hv)

/-- The piece and the number of characters behind the first are those of the longest match. -/
def Cuts (c : Char) (cs : List Char) (r : Piece × ℕ) : Prop :=
  ∃ w, w <+: cs ∧ r.2 = w.length ∧ Munch (c :: cs) r.1 (c :: w)

theorem cuts_blanks (hc : isGap c = true) (cs : List Char) :
    Cuts c cs (.gap, (cs.takeWhile isGap).length) := by
  refine ⟨_, List.takeWhile_prefix _, rfl, .of_shape (.inl (.blanks hc ?_))
    (List.takeWhile_prefix _) ?_⟩
  · exact fun d hd => List.mem_takeWhile_imp hd
  · intro p' v hshape hv
    rw [classOf_gap hc] at hshape
    exact length_le_takeWhile hshape.2 hv

theorem cuts_word (hc : isWordStart c = true) (cs : List Char) :
    Cuts c cs (.token (ofWord (String.ofList (c :: cs.takeWhile isWordChar))),
      (cs.takeWhile isWordChar).length) := by
  refine ⟨_, List.takeWhile_prefix _, rfl, .of_shape (.inl (.word hc ?_))
    (List.takeWhile_prefix _) ?_⟩
  · exact fun d hd => List.mem_takeWhile_imp hd
  · intro p' v hshape hv
    rw [classOf_word hc] at hshape
    exact length_le_takeWhile hshape.2 hv

theorem cuts_comment (cs : List Char) :
    Cuts '/' ('/' :: cs) (.gap, (('/' :: cs).takeWhile (· ≠ '\n')).length) := by
  have htake : ('/' :: cs).takeWhile (· ≠ '\n') = '/' :: cs.takeWhile (· ≠ '\n') := rfl
  refine ⟨_, List.takeWhile_prefix _, rfl, .of_shape (.inl ?_) (List.takeWhile_prefix _) ?_⟩
  · rw [htake]
    exact .comment fun d hd => by simpa using List.mem_takeWhile_imp hd
  · intro p' v hshape hv
    rcases hshape with ⟨-, -, u, rfl, hu⟩ | ⟨s, hs, -⟩
    · refine length_le_takeWhile (fun d hd => ?_) hv
      rcases List.mem_cons.1 hd with rfl | hd
      · rfl
      · simpa using hu d hd
    · -- no symbol goes on with a second slash
      rcases symbol_cases hs with ⟨rfl, -⟩ | ⟨d, rfl, -⟩
      · exact Nat.zero_le _
      · obtain ⟨rfl, -⟩ := List.cons_prefix_cons.1 hv
        exact absurd hs (spelling_ne_comment s [])

theorem cuts_number (hc : c.isDigit = true) (cs : List Char) : Cuts c cs (number c cs) := by
  have hwhole : ∀ d ∈ cs.takeWhile Char.isDigit, d.isDigit = true :=
    fun d hd => List.mem_takeWhile_imp hd
  have hsplit : cs = cs.takeWhile Char.isDigit ++ cs.drop (cs.takeWhile Char.isDigit).length := by
    conv_lhs => rw [← List.take_append_drop (cs.takeWhile Char.isDigit).length cs]
    rw [← List.prefix_iff_eq_take.1 (List.takeWhile_prefix _)]
  -- a longer spelling has a point behind the same digits, and places behind the point
  have hlong : ∀ p' v, Shape p' c v (classOf c) → v <+: cs →
      v.length ≤ (cs.takeWhile Char.isDigit).length ∨ ∃ places, places ≠ [] ∧
        (∀ d ∈ places, d.isDigit = true) ∧ v = cs.takeWhile Char.isDigit ++ '.' :: places ∧
        '.' :: places <+: cs.drop (cs.takeWhile Char.isDigit).length := by
    intro p' v hshape hv
    rw [classOf_digit hc] at hshape
    rcases hshape with ⟨-, hdigits⟩ | ⟨u, places, rfl, hu, hne, hplaces, -⟩
    · exact .inl (length_le_takeWhile hdigits hv)
    · obtain ⟨rest, rfl⟩ := hv
      have htake : (u ++ '.' :: places ++ rest).takeWhile Char.isDigit = u := by
        rw [List.append_assoc, List.takeWhile_append_of_pos hu]
        simp
      rw [htake]
      refine .inr ⟨places, hne, hplaces, rfl, ?_⟩
      rw [List.append_assoc, List.drop_left]
      exact List.prefix_append _ _
  have hplain (hshort : ∀ places, places ≠ [] → (∀ d ∈ places, d.isDigit = true) →
      ¬ '.' :: places <+: cs.drop (cs.takeWhile Char.isDigit).length) :
      Cuts c cs (integer (c :: cs.takeWhile Char.isDigit),
        (cs.takeWhile Char.isDigit).length) := by
    refine ⟨_, List.takeWhile_prefix _, rfl, .of_shape (.inl (.digits hc hwhole))
      (List.takeWhile_prefix _) fun p' v hshape hv => ?_⟩
    rcases hlong p' v hshape hv with hle | ⟨places, hne, hplaces, -, hbegins⟩
    · exact hle
    · exact absurd hbegins (hshort places hne hplaces)
  unfold number
  dsimp only
  split
  · next rest hrest =>
    split
    · next hempty =>
      refine hplain fun places hne hplaces hbegins => hne ?_
      rw [hrest, List.cons_prefix_cons] at hbegins
      have hle := length_le_takeWhile hplaces hbegins.2
      rw [List.isEmpty_iff.1 hempty] at hle
      exact List.length_eq_zero_iff.1 (Nat.le_zero.1 hle)
    · next hempty =>
      have hbegins : cs.takeWhile Char.isDigit ++ '.' :: rest.takeWhile Char.isDigit <+: cs := by
        conv_rhs => rw [hsplit, hrest]
        rw [List.prefix_append_right_inj, List.cons_prefix_cons]
        exact ⟨rfl, List.takeWhile_prefix _⟩
      refine ⟨_, hbegins, by simp; omega, .of_shape (.inl (.decimal hc hwhole ?_ ?_)) hbegins ?_⟩
      · exact fun hnil => hempty (List.isEmpty_iff.2 hnil)
      · exact fun d hd => List.mem_takeWhile_imp hd
      · intro p' v hshape hv
        rcases hlong p' v hshape hv with hle | ⟨places, -, hplaces, rfl, hplaces'⟩
        · rw [List.length_append]
          omega
        · rw [hrest, List.cons_prefix_cons] at hplaces'
          have hle := length_le_takeWhile hplaces hplaces'.2
          simp only [List.length_append, List.length_cons]
          omega
  · next hdot =>
    refine hplain fun places _ _ hbegins => ?_
    obtain ⟨rest, hrest⟩ := hbegins
    exact hdot _ hrest.symm

theorem cuts_literal (hq : isQuote q = true) (cs : List Char) : Cuts q cs (literal q cs) := by
  obtain ⟨w, rest, hcs, hlen, hbody, hclosed⟩ := body_inside q cs
  -- whatever else is the inside of a literal, the reader comes through it
  have hread : ∀ p' v, Shape p' q v (classOf q) → v <+: cs →
      v.length ≤ (inside q cs).length ∨
        (inside q cs).closed = true ∧ v.length = (inside q cs).length + 1 := by
    intro p' v hshape hv
    rw [classOf_quote hq] at hshape
    obtain ⟨u, content, hu, ⟨rfl, -⟩ | ⟨rfl, -⟩⟩ := hshape
    · obtain ⟨more, rfl⟩ := hv
      rw [List.append_assoc, List.singleton_append, hu.inside_closed hq]
      exact .inr ⟨rfl, by simp⟩
    · obtain ⟨more, rfl⟩ := hv
      rw [hu.inside_append hq]
      exact .inl (Nat.le_add_right _ _)
  unfold literal
  dsimp only
  split
  · next hc =>
    obtain ⟨rest', rfl⟩ := hclosed hc
    have hbegins : w ++ [q] <+: cs := by
      rw [hcs, List.prefix_append_right_inj]
      exact ⟨rest', rfl⟩
    refine ⟨w ++ [q], hbegins, by simp [hlen], .of_shape (.inl (.closed hq hbody)) hbegins ?_⟩
    intro p' v hshape hv
    rw [List.length_append, List.length_singleton, hlen]
    rcases hread p' v hshape hv with hle | ⟨-, heq⟩ <;> omega
  · next hc =>
    have hbegins : w <+: cs := ⟨rest, hcs.symm⟩
    refine ⟨w, hbegins, hlen.symm, .of_shape (.inl (.unclosed hq hbody)) hbegins ?_⟩
    intro p' v hshape hv
    rw [hlen]
    rcases hread p' v hshape hv with hle | ⟨hclosed', -⟩
    · exact hle
    · exact absurd hclosed' hc

theorem cuts_mark (hc : classOf c = .mark) (hslash : ¬(c = '/' ∧ cs.head? = some '/')) :
    Cuts c cs (mark c cs) := by
  -- only symbols are left
  have hsymbol : ∀ p' v, Shape p' c v (classOf c) → v <+: cs →
      ∃ s : Symbol, s.spelling.toList = c :: v := by
    intro p' v hshape hv
    rw [hc] at hshape
    rcases hshape with ⟨rfl, -, u, rfl, -⟩ | ⟨s, hs, -⟩
    · obtain ⟨rest, rfl⟩ := hv
      exact absurd ⟨rfl, rfl⟩ hslash
    · exact ⟨s, hs⟩
  have hpair : ∀ d s, cs.head? = some d → Symbol.ofPair? c d = some s → [d] <+: cs := by
    intro d s hd _
    obtain ⟨rest, rfl⟩ := List.head?_eq_some_iff.1 hd
    exact ⟨rest, rfl⟩
  unfold mark
  split
  · next s hs =>
    obtain ⟨d, hd, hs⟩ := Option.bind_eq_some_iff.1 hs
    refine ⟨[d], hpair d s hd hs, rfl, .of_shape (.inl (.symbol (spelling_of_ofPair? hs)))
      (hpair d s hd hs) fun p' v hshape hv => ?_⟩
    obtain ⟨s', hs'⟩ := hsymbol p' v hshape hv
    rcases symbol_cases hs' with ⟨rfl, -⟩ | ⟨d', rfl, -⟩ <;> simp
  · next hnone =>
    have hsingle : ∀ p' v, Shape p' c v (classOf c) → v <+: cs → v = [] := by
      intro p' v hshape hv
      obtain ⟨s', hs'⟩ := hsymbol p' v hshape hv
      rcases symbol_cases hs' with ⟨rfl, -⟩ | ⟨d', rfl, hd'⟩
      · rfl
      · obtain ⟨rest, rfl⟩ := hv
        rw [List.singleton_append, List.head?_cons, Option.bind_some, hd'] at hnone
        cases hnone
    have hnil : ∀ p' v, Shape p' c v (classOf c) → v <+: cs → v.length ≤ 0 := by
      intro p' v hshape hv
      rw [hsingle p' v hshape hv, List.length_nil]
    split
    · next s hs =>
      exact ⟨[], List.nil_prefix, rfl, .of_shape (.inl (.symbol (spelling_of_ofChar? hs)))
        List.nil_prefix hnil⟩
    · next hs =>
      refine ⟨[], List.nil_prefix, rfl, .of_shape (.inr ⟨c, rfl, rfl, fun p' hspelled => ?_⟩)
        List.nil_prefix hnil⟩
      obtain ⟨s', hs'⟩ := hsymbol p' [] hspelled.shape List.nil_prefix
      rcases symbol_cases hs' with ⟨-, hc'⟩ | ⟨d', hd', -⟩
      · rw [hs] at hc'; cases hc'
      · cases hd'

theorem cuts_first (c : Char) (cs : List Char) : Cuts c cs (first c cs) := by
  unfold first
  split
  · next hc => exact cuts_blanks hc cs
  next hgap =>
  split
  · next hslash =>
    obtain ⟨rfl, hslash⟩ := hslash
    obtain ⟨rest, rfl⟩ := List.head?_eq_some_iff.1 hslash
    exact cuts_comment rest
  next hslash =>
  split
  · next hc => exact cuts_word hc cs
  next hword =>
  split
  · next hc => exact cuts_number hc cs
  next hdigit =>
  split
  · next hq => exact cuts_literal (isQuote_iff.2 hq) cs
  · next hq =>
    refine cuts_mark ?_ hslash
    simp only [← isQuote_iff] at hq
    simp [classOf, hgap, hword, hdigit, hq]

theorem Munch.unique (h : Munch text p w) (h' : Munch text p' w') : p = p' ∧ w = w' := by
  have heq : ∀ {p p' : Piece} {w w' : List Char}, Munch text p w → Munch text p' w' →
      Spelled p w → p = p' ∧ w = w' := by
    intro p p' w w' h h' hw
    have hle := h'.longest p w hw h.isPrefix
    have hsub := List.prefix_of_prefix_length_le h.isPrefix h'.isPrefix hle
    rcases h'.piece with hw' | ⟨c, rfl, -, hnone⟩
    · have hww := hsub.eq_of_length_le (h.longest p' w' hw' h'.isPrefix)
      subst hww
      exact ⟨hw.unique hw', rfl⟩
    · -- a stray character leaves no room for a spelling
      have hlen : 0 < w.length := List.length_pos_of_ne_nil hw.ne_nil
      have hww := hsub.eq_of_length_le hlen
      subst hww
      exact absurd hw (hnone p)
  rcases h.piece with hw | ⟨c, rfl, rfl, hnone⟩
  · exact heq h h' hw
  · rcases h'.piece with hw' | ⟨d, rfl, rfl, -⟩
    · obtain ⟨hp, hw⟩ := heq h' h hw'
      exact ⟨hp.symm, hw.symm⟩
    · obtain ⟨rest, rfl⟩ := h.isPrefix
      obtain ⟨rest', hrest'⟩ := h'.isPrefix
      cases hrest'
      exact ⟨rfl, rfl⟩

/-- **Reading gives exactly the longest match.** -/
theorem first_eq_iff {rest : List Char} :
    first c (w ++ rest) = (p, w.length) ↔ Munch (c :: (w ++ rest)) p (c :: w) := by
  obtain ⟨v, -, hlen, hm⟩ := cuts_first c (w ++ rest)
  constructor
  · intro h
    rw [h] at hlen hm
    have hvw : c :: v = c :: w := by
      have hv := List.prefix_iff_eq_take.1 hm.isPrefix
      rw [hv, List.length_cons, ← hlen, List.take_succ_cons, List.take_left]
    rw [hvw] at hm
    exact hm
  · intro h
    obtain ⟨hp, hw⟩ := hm.unique h
    refine Prod.ext hp ?_
    rw [hlen, (List.cons.inj hw).2]

theorem exists_first (c : Char) (cs : List Char) :
    ∃ w rest p, cs = w ++ rest ∧ first c cs = (p, w.length) := by
  obtain ⟨w, ⟨rest, rfl⟩, hlen, -⟩ := cuts_first c cs
  exact ⟨w, rest, _, rfl, Prod.ext rfl hlen⟩

/-! ## Cutting the text behind a match, and adding to it -/

theorem Munch.of_prefix {rest rest' : List Char} (h : Munch (w ++ rest) p w)
    (hrest : rest' <+: rest) : Munch (w ++ rest') p w :=
  ⟨List.prefix_append _ _, h.piece, fun p' w' hspelled hbegins => h.longest p' w' hspelled
    (hbegins.trans ((List.prefix_append_right_inj w).2 hrest))⟩

theorem Body.not_mem_newline {content : List Char} (h : Body q w content) : '\n' ∉ w := by
  induction h with
  | nil => simp
  | plain _ _ hbreak _ ih => simp [ih, Ne.symm hbreak]
  | escape hbreak _ ih => simp [ih, Ne.symm hbreak]

theorem not_mem_newline_of_forall {f : Char → Bool} (hf : f '\n' = false)
    (h : ∀ d ∈ w, f d = true) : '\n' ∉ w := by
  intro hmem
  rw [h '\n' hmem] at hf
  cases hf

/-- Only blanks go past the end of a line. -/
theorem Spelled.not_mem_newline (h : Spelled p (c :: w)) (hc : isGap c = false) :
    '\n' ∉ c :: w := by
  have hne : '\n' ≠ c := by
    rintro rfl
    exact absurd hc (by decide)
  rw [List.mem_cons, not_or]
  refine ⟨hne, ?_⟩
  cases h with
  | blanks hgap _ => rw [hc] at hgap; cases hgap
  | comment hw => simpa using fun hmem => hw '\n' hmem rfl
  | word _ hw => exact not_mem_newline_of_forall (by decide) hw
  | digits _ hw => exact not_mem_newline_of_forall (by decide) hw
  | decimal _ hw _ hplaces =>
    have hw := not_mem_newline_of_forall (by decide) hw
    have hplaces := not_mem_newline_of_forall (by decide) hplaces
    simp [hw, hplaces]
  | closed _ hw => simp [hw.not_mem_newline, hne]
  | unclosed _ hw => exact hw.not_mem_newline
  | symbol hs =>
    rcases symbol_cases hs with ⟨rfl, -⟩ | ⟨d, rfl, hpair⟩
    · simp
    · intro hmem
      rw [List.mem_singleton] at hmem
      subst hmem
      unfold Symbol.ofPair? at hpair
      split at hpair <;> simp_all

/-- Lines that are added behind a text, or nothing. -/
def LineEnd (r : List Char) : Prop :=
  ∀ d ∈ r.head?, d = '\n'

/-- A match stays the longest if no spelling goes on from the text into what is added. -/
theorem Munch.append {r : List Char} (h : Munch text p w)
    (hr : ∀ p' v, v ≠ [] → v <+: r → ¬Spelled p' (text ++ v)) : Munch (text ++ r) p w := by
  refine ⟨h.isPrefix.trans (List.prefix_append _ _), h.piece, fun p' w' hspelled hbegins => ?_⟩
  by_cases hle : w'.length ≤ text.length
  · exact h.longest p' w' hspelled (List.prefix_of_prefix_length_le hbegins
      (List.prefix_append _ _) hle)
  · obtain ⟨v, rfl⟩ : text <+: w' :=
      List.prefix_of_prefix_length_le (List.prefix_append _ _) hbegins (by omega)
    have hv : v ≠ [] := by
      rintro rfl
      simp at hle
    exact absurd hspelled (hr p' v hv ((List.prefix_append_right_inj text).1 hbegins))

theorem Munch.append_line {r : List Char} (h : Munch text p (c :: w)) (hc : isGap c = false)
    (hr : LineEnd r) : Munch (text ++ r) p (c :: w) := by
  refine h.append fun p' v hne hv hspelled => ?_
  -- a spelling that is longer than the text has the end of a line in it
  obtain ⟨rest, rfl⟩ := h.isPrefix
  have hmem : '\n' ∈ v := by
    obtain ⟨d, v, rfl⟩ := List.exists_cons_of_ne_nil hne
    obtain ⟨more, rfl⟩ := hv
    rw [hr d rfl]
    exact List.mem_cons_self
  exact absurd (List.mem_append_right (c :: w ++ rest) hmem) (hspelled.not_mem_newline hc)

end ScriptLint.Token
