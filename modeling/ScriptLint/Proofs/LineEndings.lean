import ScriptLint.Diagnose
import ScriptLint.Proofs.LineByLine

/-!
# Carriage returns at line ends

A carriage return at the end of a line is a blank to every part of a diagnosis: it separates tokens,
it does not close a literal, it is no part of a word, and it stands behind every column that is
reported. So line breaks may be written with or without it.

* `Text.withReturns`: a text with a carriage return before each line break.
* `Usage.inLine_return`, `Declared.inLine_return`: a line declares and uses the same names.
* `Token.scan_return`: a line has the same tokens, or the same first fault.
* `outcome`, `failure?_eq`: why a text cannot be read, told by lines and columns alone.
* `diagnose_withReturns`: **line endings do not matter.**
-/

namespace ScriptLint

namespace Text

/-- The text with a carriage return before each line break. -/
def withReturns (cs : List Char) : List Char :=
  cs.flatMap fun c => if c = '\n' then ['\r', '\n'] else [c]

theorem withReturns_append (a b : List Char) :
    withReturns (a ++ b) = withReturns a ++ withReturns b := by
  simp [withReturns]

theorem withReturns_of_not_mem {a : List Char} (h : '\n' ∉ a) : withReturns a = a := by
  induction a with
  | nil => rfl
  | cons c a ih =>
    obtain ⟨hc, ha⟩ := not_or.1 (List.mem_cons.not.1 h)
    have hrest := ih ha
    simp only [withReturns, List.flatMap_cons, if_neg (Ne.symm hc)] at hrest ⊢
    rw [hrest]
    rfl

theorem withReturns_line {a : List Char} (h : '\n' ∉ a) (b : List Char) :
    withReturns (a ++ '\n' :: b) = a ++ ['\r'] ++ '\n' :: withReturns b := by
  rw [withReturns_append, withReturns_of_not_mem h, List.append_assoc]
  rfl

/-- What holds of a last line, and of a line and a text below it if it holds of that text, holds of
every text. -/
theorem line_induction {P : List Char → Prop} (last : ∀ a, '\n' ∉ a → P a)
    (line : ∀ a b, '\n' ∉ a → P b → P (a ++ '\n' :: b)) (cs : List Char) : P cs := by
  induction hn : cs.count '\n' generalizing cs with
  | zero => exact last cs (List.count_eq_zero.1 hn)
  | succ n ih =>
    have hmem : '\n' ∈ cs := List.count_pos_iff.1 (by omega)
    obtain ⟨a, b, rfl, ha⟩ := List.eq_append_cons_of_mem hmem
    rw [List.count_append, List.count_cons_self, List.count_eq_zero.2 ha] at hn
    exact line a b ha (ih b (by omega))

/-- What is the same for a line with a carriage return and for one without is the same for the
whole text. -/
theorem withReturns_congr {β : Type} (f : List Char → β)
    (line : ∀ a b, '\n' ∉ a → f (withReturns b) = f b →
      f (a ++ ['\r'] ++ '\n' :: withReturns b) = f (a ++ '\n' :: b)) (cs : List Char) :
    f (withReturns cs) = f cs := by
  induction cs using line_induction with
  | last a ha => rw [withReturns_of_not_mem ha]
  | line a b ha ih =>
    rw [withReturns_line ha]
    exact line a b ha ih

/-- A blank at the end of a text goes with the blanks at its start, or stays at the end. -/
theorem trimStart_concat {c : Char} (hc : isBlank c = true) (l : List Char) :
    trimStart l = [] ∧ trimStart (l ++ [c]) = [] ∨
      trimStart l ≠ [] ∧ trimStart (l ++ [c]) = trimStart l ++ [c] := by
  rw [trimStart, trimStart, List.dropWhile_append]
  by_cases h : l.dropWhile isBlank = []
  · exact .inl ⟨h, by simp [h, hc]⟩
  · exact .inr ⟨h, by simp [h]⟩

theorem head_trimStart_concat {c : Char} (hc : isBlank c = true) (l : List Char) :
    (trimStart (l ++ [c])).head? = (trimStart l).head? := by
  rcases trimStart_concat hc l with ⟨h, h'⟩ | ⟨h, h'⟩
  · rw [h, h']
  · rw [h', List.head?_append_of_ne_nil _ h]

theorem takeWhile_concat {f : Char → Bool} {c : Char} (hc : f c = false) (l : List Char) :
    (l ++ [c]).takeWhile f = l.takeWhile f := by
  rw [List.takeWhile_append]
  split
  · rename_i h
    rw [List.takeWhile_cons_of_neg (by simp [hc]), List.append_nil]
    exact ((List.takeWhile_prefix f).eq_of_length h).symm
  · rfl

theorem takeWhile_append_of_mem {f : Char → Bool} {d : Char} {l : List Char} (hd : d ∈ l)
    (hf : f d = false) (r : List Char) : (l ++ r).takeWhile f = l.takeWhile f := by
  rw [List.takeWhile_append, if_neg]
  intro h
  have hall := List.all_takeWhile (p := f) (l := l)
  rw [(List.takeWhile_prefix f).eq_of_length h, List.all_eq_true] at hall
  rw [hall d hd] at hf
  cases hf

theorem dropWhile_append_of_mem {f : Char → Bool} {d : Char} {l : List Char} (hd : d ∈ l)
    (hf : f d = false) (r : List Char) : (l ++ r).dropWhile f = l.dropWhile f ++ r := by
  rw [List.dropWhile_append, if_neg]
  intro h
  have hall := List.dropWhile_eq_nil_iff.1 (List.isEmpty_iff.1 h) d hd
  rw [hall] at hf
  cases hf

theorem dropWhile_of_not_mem {c : Char} {l : List Char} (h : c ∉ l) :
    l.dropWhile (· ≠ c) = [] :=
  List.dropWhile_eq_nil_iff.2 fun _ hd => decide_eq_true fun heq => h (heq ▸ hd)

theorem drop_takeWhile_concat (f : Char → Bool) (l : List Char) (c : Char) :
    (l ++ [c]).drop (l.takeWhile f).length = l.drop (l.takeWhile f).length ++ [c] :=
  List.drop_append_of_le_length (List.takeWhile_prefix f).length_le

theorem isPrefixOf_concat {w : List Char} {c : Char} (hc : c ∉ w) (l : List Char) :
    w.isPrefixOf (l ++ [c]) = w.isPrefixOf l := by
  induction w generalizing l with
  | nil => cases l <;> rfl
  | cons d w ih =>
    obtain ⟨hd, hw⟩ := not_or.1 (List.mem_cons.not.1 hc)
    cases l with
    | nil => simp [List.isPrefixOf, Ne.symm hd]
    | cons e l => simp [List.isPrefixOf, ih hw l]

end Text

/-! ## Names used and declared -/

namespace Usage

open Token (isWordChar isWordStart)

/-- The same identifier with a character more at the end of its line. -/
def Site.extend (c : Char) (s : Site) : Site :=
  ⟨s.before, s.name, s.after ++ [c]⟩

theorem sites_concat {c : Char} (hc : isWordChar c = false) (before l : List Char) :
    sites before (l ++ [c]) = (sites before l).map (Site.extend c) := by
  fun_induction sites before l with
  | case1 before => rw [List.nil_append, sites_cons hc, sites_nil, List.map_nil]
  | case2 before d cs hd more others hs ih =>
    rw [List.cons_append, sites, if_pos hd, if_pos hs, Text.takeWhile_concat hc,
      Text.drop_takeWhile_concat, ih]
    rfl
  | case3 before d cs hd more others hs ih =>
    rw [List.cons_append, sites, if_pos hd, if_neg hs, Text.takeWhile_concat hc,
      Text.drop_takeWhile_concat, ih]
  | case4 before d cs hd ih =>
    rw [List.cons_append, sites, if_neg hd, ih]

theorem Site.isPlain_extend {c : Char} (hc : Text.isBlank c = true) (s : Site) :
    (s.extend c).isPlain = s.isPlain := by
  have hcalled : (s.extend c).isCalled = s.isCalled := by
    have hhead := Text.head_trimStart_concat hc s.after
    simp only [Text.trimStart] at hhead
    simp only [isCalled, extend, hhead]
  simp only [isPlain, hcalled]
  rfl

end Usage

namespace Scrub

/-- What becomes of a carriage return: it stays, or a literal or comment covers it. -/
def Blanked (c : Char) : Prop :=
  c = '\r' ∨ c = ' '

theorem Blanked.isBlank {c : Char} (h : Blanked c) : Text.isBlank c = true := by
  rcases h with rfl | rfl <;> decide

theorem Blanked.ne_slash {c : Char} (h : Blanked c) : c ≠ '/' := by
  rcases h with rfl | rfl <;> decide

theorem literals_return (inside : Option Char) (l : List Char) :
    ∃ c, Blanked c ∧ literals inside (l ++ ['\r']) = literals inside l ++ [c] := by
  induction l generalizing inside with
  | nil =>
    cases inside with
    | none => exact ⟨'\r', .inl rfl, rfl⟩
    | some quote => exact ⟨' ', .inr rfl, rfl⟩
  | cons d l ih =>
    cases inside with
    | some quote =>
      obtain ⟨c, hc, h⟩ := ih (if d = quote then none else some quote)
      exact ⟨c, hc, by rw [List.cons_append, literals, h, literals, List.cons_append]⟩
    | none =>
      by_cases hd : isQuote d = true
      · obtain ⟨c, hc, h⟩ := ih (some d)
        exact ⟨c, hc, by simp only [List.cons_append, literals, if_pos hd, h]⟩
      · obtain ⟨c, hc, h⟩ := ih none
        exact ⟨c, hc, by simp only [List.cons_append, literals, if_neg hd, h]⟩

theorem comment_blanked {c : Char} (hc : Blanked c) (l : List Char) :
    ∃ c', Blanked c' ∧ comment (l ++ [c]) = comment l ++ [c'] := by
  induction l with
  | nil => exact ⟨c, hc, by simp [comment, hc.ne_slash]⟩
  | cons d l ih =>
    have hhead : (l ++ [c]).head? = some '/' ↔ l.head? = some '/' := by
      cases l with
      | nil => simp [hc.ne_slash]
      | cons e l => simp
    by_cases hd : d = '/' ∧ l.head? = some '/'
    · refine ⟨' ', .inr rfl, ?_⟩
      rw [List.cons_append, comment, comment, if_pos hd, if_pos ⟨hd.1, hhead.2 hd.2⟩,
        ← List.replicate_succ', List.length_append]
      rfl
    · obtain ⟨c', hc', h⟩ := ih
      refine ⟨c', hc', ?_⟩
      rw [List.cons_append, comment, comment, if_neg hd, if_neg fun h => hd ⟨h.1, hhead.1 h.2⟩, h,
        List.cons_append]

end Scrub

theorem scrub_return (l : List Char) :
    ∃ c, Scrub.Blanked c ∧ scrub (l ++ ['\r']) = scrub l ++ [c] := by
  obtain ⟨c, hc, h⟩ := Scrub.literals_return none l
  rw [scrub, h]
  exact Scrub.comment_blanked hc (Scrub.literals none l)

theorem isBlank_return : Text.isBlank '\r' = true := by decide

theorem isCommentLine_return (l : List Char) : isCommentLine (l ++ ['\r']) = isCommentLine l := by
  unfold isCommentLine
  rcases Text.trimStart_concat isBlank_return l with ⟨h, h'⟩ | ⟨-, h⟩
  · rw [h, h']
  · rw [h, Text.isPrefixOf_concat (by decide)]

theorem Usage.inLine_return (number : ℕ) (l : List Char) :
    inLine number (l ++ ['\r']) = inLine number l := by
  obtain ⟨c, hc, hscrub⟩ := scrub_return l
  have hword : Token.isWordChar c = false := isWordChar_of_isBlank hc.isBlank
  unfold inLine
  rw [isCommentLine_return, hscrub, sites_concat hword]
  split
  · rfl
  · have hplain : Site.isPlain ∘ Site.extend c = Site.isPlain :=
      funext (Site.isPlain_extend hc.isBlank)
    rw [List.filter_map, List.map_map, hplain]
    rfl

namespace Declared

open Token (isWordChar isWordStart)

theorem occurrences_return (word : List Char) (hword : '\r' ∉ word) (hne : word ≠ [])
    (joined : Bool) (l : List Char) :
    occurrences word joined (l ++ ['\r']) = (occurrences word joined l).map (· ++ ['\r']) := by
  induction l generalizing joined with
  | nil =>
    obtain ⟨c, word, rfl⟩ := List.exists_cons_of_ne_nil hne
    have hc : c ≠ '\r' := fun h => hword (by simp [h])
    simp [occurrences, List.isPrefixOf, hc]
  | cons d l ih =>
    have hbegins : word.isPrefixOf (d :: (l ++ ['\r'])) = word.isPrefixOf (d :: l) :=
      Text.isPrefixOf_concat hword (d :: l)
    rw [List.cons_append, occurrences, occurrences, hbegins, ih]
    split
    · rename_i h
      have hle : word.length ≤ (d :: l).length :=
        (List.isPrefixOf_iff_prefix.1 (Bool.and_eq_true_iff.1 h).2).length_le
      rw [← List.cons_append, List.drop_append_of_le_length hle, List.map_cons]
    · rfl

theorem identifier?_return (l : List Char) : identifier? (l ++ ['\r']) = identifier? l := by
  cases l with
  | nil => rfl
  | cons c l => rw [List.cons_append, identifier?, identifier?, Text.takeWhile_concat (by decide)]

theorem length_le_of_identifier? {l name : List Char} (h : identifier? l = some name) :
    name.length ≤ l.length := by
  cases l with
  | nil => cases h
  | cons c l =>
    rw [identifier?] at h
    split at h
    · cases h
      exact Nat.succ_le_succ (List.takeWhile_prefix isWordChar).length_le
    · cases h

theorem letName?_return (l : List Char) : letName? (l ++ ['\r']) = letName? l := by
  unfold letName?
  rcases Text.trimStart_concat isBlank_return l with ⟨h, h'⟩ | ⟨-, h⟩
  · -- nothing but blanks, with no name behind them
    simp [h, h', identifier?]
  · dsimp only
    rw [h, identifier?_return]
    cases hname : identifier? (Text.trimStart l) with
    | none => simp
    | some name =>
      have hle := length_le_of_identifier? hname
      have hhead := Text.head_trimStart_concat isBlank_return
        ((Text.trimStart l).drop name.length)
      simp [List.drop_append_of_le_length hle, hhead]

theorem paramNames_return (l : List Char) : paramNames (l ++ ['\r']) = paramNames l := by
  unfold paramNames
  rcases Text.trimStart_concat isBlank_return l with ⟨h, h'⟩ | ⟨hne, h⟩
  · rw [h, h']
  · obtain ⟨c, rest, hrest⟩ := List.exists_cons_of_ne_nil hne
    rw [h, hrest, List.cons_append]
    by_cases hc : c = '('
    · subst hc
      by_cases hclose : ')' ∈ rest
      · have htake := Text.takeWhile_append_of_mem (f := (· ≠ ')')) hclose (by simp) ['\r']
        simp only [List.contains_iff_mem, List.mem_append, hclose, true_or, if_true, htake]
      · simp [hclose]
    · simp [hc]

theorem inLine_return (l : List Char) : inLine (l ++ ['\r']) = inLine l := by
  have hlet := occurrences_return ['l', 'e', 't'] (by decide) (by decide) false l
  have hfn := occurrences_return ['f', 'n'] (by decide) (by decide) false l
  simp only [inLine, hlet, hfn, List.filterMap_map, List.flatMap_map, Function.comp_def,
    letName?_return, paramNames_return]

end Declared

/-! ## Tokens of a line -/

namespace Token

open Source (byteLength)

variable {c q : Char}

theorem number_return (c : Char) (cs : List Char) : number c (cs ++ ['\r']) = number c cs := by
  unfold number
  rw [Text.takeWhile_concat (by decide)]
  dsimp only
  rw [Text.drop_takeWhile_concat]
  cases cs.drop (cs.takeWhile Char.isDigit).length with
  | nil => rfl
  | cons d rest =>
    by_cases hd : d = '.'
    · have hplaces := Text.takeWhile_concat (f := Char.isDigit) (c := '\r') (by decide) rest
      subst hd
      simp only [List.cons_append, hplaces]
    · simp [hd]

/-- A carriage return neither closes a literal nor keeps it from being closed before. -/
theorem inside_return (hq : q ≠ '\r') (cs : List Char) :
    inside q (cs ++ ['\r']) = inside q cs ∨
      (inside q (cs ++ ['\r'])).closed = false ∧ (inside q cs).closed = false := by
  fun_induction inside q cs with
  | case1 => right; simp [inside, Ne.symm hq]
  | case2 => left; simp [inside]
  | case3 c hc hend =>
    right
    rcases hend with rfl | rfl <;> simp [inside, hc]
  | case4 c hc hend =>
    right
    obtain ⟨hbreak, hslash⟩ := not_or.1 hend
    simp [inside, hc, hbreak, hslash, Ne.symm hq]
  | case5 => left; simp [inside]
  | case6 d cs hc => left; simp [inside, hc]
  | case7 cs hc hbreak => left; simp [inside, hc]
  | case8 d cs hd rest hc hbreak ih =>
    rcases ih with h | h
    · left; simp [inside, hc, hd, h, rest]
    · right; simp [inside, hc, hd, h, rest]
  | case9 c d cs hc hbreak hslash rest ih =>
    rw [List.cons_append] at ih
    rcases ih with h | h
    · left; simp [inside, hc, hbreak, hslash, h, rest]
    · right; simp [inside, hc, hbreak, hslash, h, rest]

theorem mark_return (c : Char) (cs : List Char) : mark c (cs ++ ['\r']) = mark c cs := by
  cases cs with
  | nil =>
    have hpair : Symbol.ofPair? c '\r' = none := by
      unfold Symbol.ofPair?
      split <;> simp_all
    simp [mark, hpair]
  | cons d cs => simp [mark]

/-- The pieces are the same, or the same bad piece, which may have become longer. -/
def SamePiece (r r' : Piece × ℕ) : Prop :=
  r' = r ∨ ∃ cause, r.1 = .bad cause ∧ r'.1 = .bad cause

theorem literal_return (hq : q ≠ '\r') (cs : List Char) :
    SamePiece (literal q cs) (literal q (cs ++ ['\r'])) := by
  rcases inside_return hq cs with h | ⟨h', h⟩
  · left
    simp only [literal, h]
  · right
    exact ⟨.unterminatedString, by simp [literal, h], by simp [literal, h']⟩

/-- Apart from blanks and comments, a carriage return at the end of a text is no part of a piece
that can be read. -/
theorem first_return (hgap : isGap c = false) {cs : List Char}
    (hcomment : ¬(c = '/' ∧ cs.head? = some '/')) :
    SamePiece (first c cs) (first c (cs ++ ['\r'])) := by
  have hcomment' : ¬(c = '/' ∧ (cs ++ ['\r']).head? = some '/') := by
    rintro ⟨hc, hhead⟩
    cases cs with
    | nil => cases hhead
    | cons d cs => exact hcomment ⟨hc, hhead⟩
  have hfirst {cs : List Char} (h : ¬(c = '/' ∧ cs.head? = some '/')) : first c cs =
      if isWordStart c then (.token (ofWord (String.ofList (c :: cs.takeWhile isWordChar))),
        (cs.takeWhile isWordChar).length)
      else if c.isDigit then number c cs
      else if c = '"' ∨ c = '\'' then literal c cs
      else mark c cs := by
    rw [first, if_neg (by simp [hgap]), if_neg h]
  rw [hfirst hcomment, hfirst hcomment', Text.takeWhile_concat (by decide), number_return,
    mark_return]
  split
  · exact .inl rfl
  split
  · exact .inl rfl
  split
  · rename_i hq
    exact literal_return (by rcases hq with rfl | rfl <;> decide) cs
  · exact .inl rfl

/-- The readings are the same up to where a bad piece ends. -/
def SameReading : Except (Cause × Span) (Array Lexeme) → Except (Cause × Span) (Array Lexeme) → Prop
  | .ok xs, .ok ys => ys = xs
  | .error (cause, span), .error (cause', span') => cause' = cause ∧ span'.start = span.start
  | _, _ => False

theorem SameReading.refl (r : Except (Cause × Span) (Array Lexeme)) : SameReading r r := by
  cases r with
  | ok xs => rfl
  | error e => exact ⟨rfl, rfl⟩

theorem scan_of_bad (offset : ℕ) (read : Array Lexeme) {cs : List Char} {cause : Cause}
    (h : (first c cs).1 = .bad cause) :
    ∃ stop, scan offset read (c :: cs) = .error (cause, ⟨offset, stop⟩) := by
  obtain ⟨w, more, p, rfl, hfirst⟩ := exists_first c cs
  rw [hfirst] at h
  dsimp only at h
  rw [h] at hfirst
  exact ⟨_, scan_bad hfirst⟩

/-- A comment is passed over up to the end of its line. -/
theorem scan_comment (offset : ℕ) (read : Array Lexeme) {cs : List Char}
    (h : cs.head? = some '/') :
    scan offset read ('/' :: cs) = scan (offset + byteLength ('/' :: cs.takeWhile (· ≠ '\n'))) read
      (cs.dropWhile (· ≠ '\n')) := by
  have hfirst : first '/' (cs.takeWhile (· ≠ '\n') ++ cs.dropWhile (· ≠ '\n')) =
      (.gap, (cs.takeWhile (· ≠ '\n')).length) := by
    rw [List.takeWhile_append_dropWhile, first, if_neg (by decide), if_pos ⟨rfl, h⟩]
  have hscan : scan offset read ('/' :: _) = _ := scan_gap hfirst
  rw [List.takeWhile_append_dropWhile] at hscan
  exact hscan

/-- **A carriage return at its end does not change how a text is read.** -/
theorem scan_return (offset : ℕ) (read : Array Lexeme) (cs : List Char) :
    SameReading (scan offset read cs) (scan offset read (cs ++ ['\r'])) := by
  induction hn : cs.length using Nat.strong_induction_on generalizing offset read cs with
  | _ n ih =>
    cases cs with
    | nil =>
      rw [List.nil_append, scan_blank (by decide), scan_nil, scan_nil]
      rfl
    | cons c cs =>
      by_cases hgap : isGap c = true
      · rw [List.cons_append, scan_blank hgap, scan_blank hgap]
        exact ih cs.length (by rw [← hn, List.length_cons]; omega) _ _ _ rfl
      by_cases hcomment : c = '/' ∧ cs.head? = some '/'
      · obtain ⟨rfl, hhead⟩ := hcomment
        have hhead' : (cs ++ ['\r']).head? = some '/' := by rw [List.head?_append, hhead]; rfl
        rw [List.cons_append, scan_comment offset read hhead, scan_comment offset read hhead']
        by_cases hbreak : '\n' ∈ cs
        · rw [Text.takeWhile_append_of_mem hbreak (by simp),
            Text.dropWhile_append_of_mem hbreak (by simp)]
          have hle := (List.dropWhile_suffix (l := cs) (· ≠ '\n')).length_le
          exact ih _ (by rw [← hn, List.length_cons]; omega) _ _ _ rfl
        · -- the comment is all that is left
          rw [Text.dropWhile_of_not_mem hbreak, Text.dropWhile_of_not_mem (by simp [hbreak]),
            scan_nil, scan_nil]
          rfl
      · obtain ⟨w, more, p, rfl, hfirst⟩ := exists_first c cs
        have hlt : more.length < n := by
          rw [← hn, List.length_cons, List.length_append]
          omega
        rcases first_return (by simpa using hgap) hcomment with hsame | ⟨cause, hbad, hbad'⟩
        · rw [hfirst, List.append_assoc] at hsame
          rw [List.cons_append, List.append_assoc]
          cases p with
          | gap =>
            rw [scan_gap hfirst, scan_gap hsame]
            exact ih _ hlt _ _ _ rfl
          | token t =>
            rw [scan_token hfirst, scan_token hsame]
            exact ih _ hlt _ _ _ rfl
          | bad cause =>
            rw [scan_bad hfirst, scan_bad hsame]
            exact SameReading.refl _
        · obtain ⟨stop, h⟩ := scan_of_bad offset read hbad
          obtain ⟨stop', h'⟩ := scan_of_bad offset read hbad'
          rw [h, List.cons_append, h']
          exact ⟨rfl, rfl⟩

end Token

/-! ## What a diagnosis depends on -/

open Source (byteLength lineCount positionAt)
open Token (scan scan_below scan_return)

/-- A text as tokens with their positions, or its first fault with its position. -/
abbrev Outcome : Type :=
  Except (Cause × Position) (List (Token × Position))

def outcomeOf (text : List Char) : Except (Cause × Span) (Array Lexeme) → Outcome
  | .ok xs => .ok (xs.toList.map fun x => (x.token, positionAt text x.span.start))
  | .error (cause, span) => .error (cause, positionAt text span.start)

/-- How a text is read, told by positions. -/
def outcome (text : List Char) : Outcome :=
  outcomeOf text (scan 0 #[] text)

/-- Where a text ends. -/
def endPosition (text : List Char) : Position :=
  positionAt text (byteLength text)

/-- The same outcome some lines further down, behind tokens that stand above. -/
def Outcome.below (lines : ℕ) (upper : List (Token × Position)) : Outcome → Outcome
  | .ok xs => .ok (upper ++ xs.map fun x => (x.1, x.2.below lines))
  | .error (cause, p) => .error (cause, p.below lines)

theorem start_le_of_ok {text : List Char} {xs : Array Lexeme} (h : scan 0 #[] text = .ok xs)
    {x : Lexeme} (hx : x ∈ xs.toList) : x.span.start ≤ byteLength text := by
  obtain ⟨ys, rfl, hreads⟩ := Token.reads_of_scan h
  have hlossless := lossless_of_reads hreads
  have hx' : x ∈ ys := by simpa using hx
  exact (Nat.le_of_lt (hlossless.nonempty x hx')).trans (hlossless.bounded x hx')

/-- What stands below a text does not move its positions. -/
theorem outcomeOf_above (a rest : List Char) :
    outcomeOf (a ++ rest) (scan 0 #[] a) = outcome a := by
  unfold outcome
  cases h : scan 0 #[] a with
  | error e => simp only [outcomeOf, Source.positionAt_above _ _ (Token.start_le_of_error h)]
  | ok xs =>
    refine congrArg Except.ok (List.map_congr_left fun x hx => ?_)
    rw [Source.positionAt_above _ _ (start_le_of_ok h hx)]

theorem outcomeOf_of_same {r r' : Except (Cause × Span) (Array Lexeme)} (text : List Char)
    (h : Token.SameReading r r') : outcomeOf text r' = outcomeOf text r := by
  cases r with
  | ok xs =>
    cases r' with
    | ok ys => exact congrArg (fun xs => outcomeOf text (.ok xs)) h
    | error e' => exact h.elim
  | error e =>
    cases r' with
    | ok ys => exact h.elim
    | error e' => simp only [outcomeOf, h.1, h.2]

theorem outcome_return (a : List Char) : outcome (a ++ ['\r']) = outcome a := by
  rw [outcome, outcomeOf_of_same _ (scan_return 0 #[] a), outcomeOf_above]

theorem outcome_lines (a b : List Char) : outcome (a ++ '\n' :: b) =
    match outcome a with
    | .error e => .error e
    | .ok upper => (outcome b).below (lineCount a) upper := by
  rw [← outcomeOf_above a ('\n' :: b)]
  simp only [outcome, scan_below]
  cases scan 0 #[] a with
  | error e => rfl
  | ok upper =>
    cases scan 0 #[] b with
    | error e => simp only [outcomeOf, Outcome.below, Span.behind, Source.positionAt_below]
    | ok lower =>
      simp only [outcomeOf, Outcome.below, Array.toList_append, Array.toList_map, List.map_append,
        List.map_map, Function.comp_def, Lexeme.behind, Span.behind, Source.positionAt_below]

theorem endPosition_lines (a b : List Char) :
    endPosition (a ++ '\n' :: b) = (endPosition b).below (lineCount a) := by
  have hlen : byteLength (a ++ '\n' :: b) = byteLength a + 1 + byteLength b := by
    rw [Source.byteLength_append, Nat.add_assoc]
    rfl
  rw [endPosition, hlen, Source.positionAt_below]
  rfl

theorem lineCount_return (a : List Char) : lineCount (a ++ ['\r']) = lineCount a := by
  simp [lineCount]

/-- Why a text cannot be read, if it cannot, given how it is read and where it ends. -/
def Outcome.failure? (stop : Position) : Outcome → Option String
  | .error (cause, p) => some (cause.message ++ Fault.suffix p)
  | .ok xs =>
    match parseTokens (xs.map Prod.fst).toArray with
    | .ok _ => none
    | .error k =>
      match xs[k]? with
      | some (t, p) => some ((Cause.unexpectedToken t.spelling).message ++ Fault.suffix p)
      | none => some (Cause.unexpectedEnd.message ++ Fault.suffix stop)

theorem failure?_eq (source : String) : Engine.builtin.failure? source =
    (outcome source.toList).failure? (endPosition source.toList) := by
  simp only [Engine.failure?, Engine.builtin, tokenize, outcome]
  cases hscan : scan 0 #[] source.toList with
  | error e => rfl
  | ok xs =>
    have htokens : ((xs.toList.map fun x => (x.token, positionAt source.toList x.span.start)).map
        Prod.fst).toArray = xs.map Lexeme.token := by
      rw [List.map_map, ← Array.toList_map]
      rfl
    simp only [Except.mapError, parse, outcomeOf, Outcome.failure?, htokens]
    cases parseTokens (xs.map Lexeme.token) with
    | ok program => rfl
    | error k =>
      simp only [blame, List.getElem?_map, Array.getElem?_toList]
      cases xs[k]? with
      | some x => rfl
      | none => rfl

theorem outcome_withReturns (cs : List Char) : outcome (Text.withReturns cs) = outcome cs := by
  refine Text.withReturns_congr outcome (fun a b _ ih => ?_) cs
  rw [outcome_lines, outcome_lines, outcome_return, lineCount_return, ih]

theorem endPosition_withReturns (cs : List Char) :
    endPosition (Text.withReturns cs) = endPosition cs := by
  refine Text.withReturns_congr endPosition (fun a b _ ih => ?_) cs
  rw [endPosition_lines, endPosition_lines, lineCount_return, ih]

theorem lines_return {a : List Char} (h : '\n' ∉ a) (b : List Char) :
    Text.lines (a ++ ['\r'] ++ '\n' :: b) = (a ++ ['\r']) :: Text.lines b :=
  TokenLint.lines_append_break (by simp [h]) b

theorem inLines_withReturns (number : ℕ) (cs : List Char) :
    Usage.inLines number (Text.lines (Text.withReturns cs)) =
      Usage.inLines number (Text.lines cs) := by
  -- the number of the first line differs from step to step
  refine congrFun (Text.withReturns_congr (fun cs number => Usage.inLines number (Text.lines cs))
    (fun a b ha ih => funext fun number => ?_) cs) number
  have hbelow : Usage.inLines (number + 1) (Text.lines (Text.withReturns b)) =
      Usage.inLines (number + 1) (Text.lines b) := congrFun ih (number + 1)
  rw [lines_return ha, TokenLint.lines_append_break ha, Usage.inLines, Usage.inLines,
    Usage.inLine_return, hbelow]

theorem declaredNames_withReturns (cs : List Char) :
    declaredNames (Text.lines (Text.withReturns cs)) = declaredNames (Text.lines cs) := by
  unfold declaredNames
  congr 1
  refine Text.withReturns_congr (fun cs => (Text.lines cs).flatMap Declared.inLine)
    (fun a b ha ih => ?_) cs
  rw [lines_return ha, TokenLint.lines_append_break ha, List.flatMap_cons, List.flatMap_cons,
    Declared.inLine_return, ih]

/-- **Line endings do not matter.** A script with a carriage return before each line break has the
diagnostics of the script without. -/
theorem diagnose_withReturns (settings : Settings) (source : String) :
    diagnose Engine.builtin settings (String.ofList (Text.withReturns source.toList)) =
      diagnose Engine.builtin settings source := by
  have hlint : lint settings (String.ofList (Text.withReturns source.toList)) =
      lint settings source := by
    simp only [lint, undefinedNames, String.toList_ofList, declaredNames_withReturns,
      inLines_withReturns]
  rw [diagnose, diagnose, hlint, failure?_eq, failure?_eq, String.toList_ofList,
    outcome_withReturns, endPosition_withReturns]

end ScriptLint
