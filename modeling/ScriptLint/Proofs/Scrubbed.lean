import Mathlib
import ScriptLint.Lint.Usage
import ScriptLint.Proofs.FaultText
import ScriptLint.Proofs.Spelling

/-!
# Scrubbed lines and their pieces

The lint looks at a line character by character, with spaces over literals and comments. What it
sees can be told piece by piece: a word is an identifier of the line, a number or a symbol is none,
and a literal or a comment is blank.

* `scrub_append`, `scrub_literal`, `scrub_comment`: scrubbing along the pieces of a line.
* `Usage.sites_word`, `Usage.sites_numeral`: the identifiers along the pieces of a line.
* `Usage.Follows`: what stands to the left of a place, by the nearest token there.
* `isDeclared_iff`, `isMember_iff`: **the characters to the left say what that token says.**
-/

namespace ScriptLint

open Locate (isBlank_of_isDigit)
open Token (isWordStart isWordChar Spelled Munch isQuote)

variable {c q : Char} {w cs u v left : List Char}

/-! ## Tokens by their spelling -/

/-- Digits, or digits on both sides of a point. -/
inductive Numeral : List Char → Prop
  | whole {c : Char} {w : List Char} (hc : c.isDigit = true) (hw : ∀ d ∈ w, d.isDigit = true) :
      Numeral (c :: w)
  | point {c : Char} {w places : List Char} (hc : c.isDigit = true)
      (hw : ∀ d ∈ w, d.isDigit = true) (hne : places ≠ [])
      (hplaces : ∀ d ∈ places, d.isDigit = true) : Numeral (c :: (w ++ '.' :: places))

/-- A token is an identifier or a keyword, a number, a string literal or a symbol. -/
inductive Kind : Token → List Char → Prop
  | word {c : Char} {w : List Char} (hc : isWordStart c = true)
      (hw : ∀ d ∈ w, isWordChar d = true) : Kind (Token.ofWord (String.ofList (c :: w))) (c :: w)
  | int {value : ℕ} {w : List Char} (h : Numeral w) : Kind (.int value) w
  | float {value : Binary64} {w : List Char} (h : Numeral w) : Kind (.float value) w
  | str {q : Char} {content v : List Char} (hq : isQuote q = true) (h : Token.Body q v content) :
      Kind (.str (String.ofList content)) (q :: (v ++ [q]))
  | symbol {s : Symbol} {c : Char} {w : List Char} (h : s.spelling.toList = c :: w) :
      Kind (.symbol s) (c :: w)

theorem integer_eq_token {ds : List Char} {t : Token} (h : Token.integer ds = .token t) :
    ∃ value, t = .int value := by
  unfold Token.integer at h
  dsimp only at h
  split at h
  · cases h
    exact ⟨_, rfl⟩
  · cases h

theorem Token.Spelled.kind {t : Token} (h : Spelled (.token t) w) : Kind t w := by
  generalize hp : Piece.token t = p at h
  cases h with
  | blanks _ _ => cases hp
  | comment _ => cases hp
  | word hc hw => cases hp; exact .word hc hw
  | digits hc hw =>
    obtain ⟨value, rfl⟩ := integer_eq_token hp.symm
    exact .int (.whole hc hw)
  | decimal hc hw hne hplaces => cases hp; exact .float (.point hc hw hne hplaces)
  | closed hq hw => cases hp; exact .str hq hw
  | unclosed _ _ => cases hp
  | symbol hs => cases hp; exact .symbol hs

/-! ## What follows a longest match -/

theorem Token.Munch.word_next {p : Piece} {rest : List Char} (h : Munch (c :: w ++ rest) p (c :: w))
    (hc : isWordStart c = true) (hw : ∀ d ∈ w, isWordChar d = true) :
    ∀ d ∈ rest.head?, isWordChar d = false := by
  intro d hd
  by_contra hne
  obtain ⟨more, rfl⟩ := List.head?_eq_some_iff.1 hd
  have hlonger : Spelled _ (c :: (w ++ [d])) := .word hc fun e he => by
    rcases List.mem_append.1 he with he | he
    · exact hw e he
    · rw [List.mem_singleton.1 he]
      simpa using hne
  have hle := h.longest _ _ hlonger ⟨more, by simp⟩
  simp only [List.length_cons, List.length_append, List.length_nil] at hle
  omega

theorem Token.Munch.numeral_next {p : Piece} {rest : List Char} (h : Munch (w ++ rest) p w)
    (hw : Numeral w) : ∀ d ∈ rest.head?, d.isDigit = false := by
  intro d hd
  by_contra hne
  have hdigit : d.isDigit = true := by simpa using hne
  obtain ⟨more, rfl⟩ := List.head?_eq_some_iff.1 hd
  -- one more digit makes the number longer
  obtain ⟨p', hlonger⟩ : ∃ p', Spelled p' (w ++ [d]) := by
    have hmore : ∀ {ds : List Char}, (∀ e ∈ ds, e.isDigit = true) →
        ∀ e ∈ ds ++ [d], e.isDigit = true := by
      intro ds hds e he
      rcases List.mem_append.1 he with he | he
      · exact hds e he
      · rw [List.mem_singleton.1 he]
        exact hdigit
    cases hw with
    | whole hc hw => exact ⟨_, .digits hc (hmore hw)⟩
    | @point c w places hc hw hne hplaces =>
      have hspelled := Spelled.decimal hc hw (List.append_ne_nil_of_right_ne_nil places
        (List.cons_ne_nil d [])) (hmore hplaces)
      have happend : c :: (w ++ '.' :: places) ++ [d] = c :: (w ++ '.' :: (places ++ [d])) := by
        simp
      rw [happend]
      exact ⟨_, hspelled⟩
  have hle := h.longest _ _ hlonger ⟨more, by simp⟩
  simp only [List.length_append, List.length_cons, List.length_nil] at hle
  omega

theorem Token.Munch.slash_next {p : Piece} {rest : List Char} (h : Munch ('/' :: rest) p ['/']) :
    rest.head? ≠ some '/' := by
  intro hd
  obtain ⟨more, rfl⟩ := List.head?_eq_some_iff.1 hd
  have hle := h.longest _ _ (.comment (w := []) (by simp)) ⟨more, rfl⟩
  simp at hle

/-! ## Scrubbing along the pieces of a line -/

theorem head_literals (cs : List Char) :
    ∀ d ∈ (Scrub.literals none cs).head?, d = ' ' ∨ cs.head? = some d := by
  cases cs with
  | nil => simp [Scrub.literals]
  | cons c cs =>
    simp only [Scrub.literals]
    split
    · intro d hd
      left
      simpa using hd.symm
    · intro d hd
      right
      simpa using hd

theorem literals_cons (hquote : isQuote c = false) (cs : List Char) :
    Scrub.literals none (c :: cs) = c :: Scrub.literals none cs := by
  have hq : Scrub.isQuote c = false := hquote
  simp [Scrub.literals, hq]

theorem scrub_cons (hquote : isQuote c = false) (hslash : ¬(c = '/' ∧ cs.head? = some '/')) :
    scrub (c :: cs) = c :: scrub cs := by
  have hslash' : ¬(c = '/' ∧ (Scrub.literals none cs).head? = some '/') := by
    rintro ⟨hc, hhead⟩
    rcases head_literals cs '/' hhead with h | h
    · cases h
    · exact hslash ⟨hc, h⟩
  rw [scrub, literals_cons hquote, Scrub.comment, if_neg hslash']
  rfl

/-- A character that scrubbing leaves alone wherever it stands. -/
def Kept (c : Char) : Prop :=
  isQuote c = false ∧ c ≠ '/'

instance (c : Char) : Decidable (Kept c) :=
  inferInstanceAs (Decidable (isQuote c = false ∧ c ≠ '/'))

/-- No character of a symbol is part of a word or a quote, and only one symbol has a slash. -/
theorem symbol_chars {s : Symbol} (hs : s.spelling.toList = c :: w) :
    ∀ d ∈ c :: w, isWordChar d = false ∧ isQuote d = false ∧ (d = '/' → s = .slash) := by
  rcases Token.symbol_cases hs with ⟨rfl, h⟩ | ⟨d, rfl, h⟩
  · refine List.forall_mem_singleton.2 ?_
    unfold Symbol.ofChar? at h
    split at h <;> cases h <;> decide
  · refine List.forall_mem_cons.2 ⟨?_, List.forall_mem_singleton.2 ?_⟩
    all_goals
      unfold Symbol.ofPair? at h
      split at h <;> cases h <;> decide

theorem scrub_append (h : ∀ d ∈ u, Kept d) (cs : List Char) : scrub (u ++ cs) = u ++ scrub cs := by
  induction u with
  | nil => rfl
  | cons d u ih =>
    obtain ⟨hquote, hslash⟩ := h d List.mem_cons_self
    rw [List.cons_append, scrub_cons hquote (fun hd => hslash hd.1),
      ih fun e he => h e (List.mem_cons_of_mem _ he), List.cons_append]

theorem comment_spaces (n : ℕ) (cs : List Char) :
    Scrub.comment (List.replicate n ' ' ++ cs) = List.replicate n ' ' ++ Scrub.comment cs := by
  induction n with
  | zero => rfl
  | succ n ih =>
    rw [List.replicate_succ, List.cons_append, Scrub.comment, if_neg (by simp), ih]
    rfl

theorem scrub_comment (cs : List Char) :
    scrub ('/' :: '/' :: cs) = List.replicate (cs.length + 2) ' ' := by
  rw [scrub, literals_cons (by decide), literals_cons (by decide), Scrub.comment,
    if_pos ⟨rfl, rfl⟩, List.length_cons, Scrub.length_literals]

theorem literals_quote (hq : isQuote q = true) (cs : List Char) :
    Scrub.literals none (q :: cs) = ' ' :: Scrub.literals (some q) cs := by
  have hq' : Scrub.isQuote q = true := hq
  rw [Scrub.literals, if_pos hq']

/-- A literal that is open covers what stands before its quote. -/
theorem literals_open (h : q ∉ v) (cs : List Char) :
    Scrub.literals (some q) (v ++ cs) =
      List.replicate v.length ' ' ++ Scrub.literals (some q) cs := by
  induction v with
  | nil => rfl
  | cons d v ih =>
    obtain ⟨hd, hv⟩ := not_or.1 (List.mem_cons.not.1 h)
    rw [List.cons_append, Scrub.literals, if_neg (Ne.symm hd), ih hv, List.length_cons,
      List.replicate_succ, List.cons_append]

theorem literals_literal (hq : isQuote q = true) (h : q ∉ v) (cs : List Char) :
    Scrub.literals none (q :: (v ++ q :: cs)) =
      List.replicate (v.length + 2) ' ' ++ Scrub.literals none cs := by
  have hclose : Scrub.literals (some q) (q :: cs) = ' ' :: Scrub.literals none cs := by
    rw [Scrub.literals, if_pos rfl]
  rw [literals_quote hq, literals_open h, hclose, List.replicate_succ, List.replicate_succ',
    List.cons_append, List.append_assoc, List.singleton_append]

theorem scrub_literal (hq : isQuote q = true) (h : q ∉ v) (cs : List Char) :
    scrub (q :: (v ++ q :: cs)) = List.replicate (v.length + 2) ' ' ++ scrub cs := by
  rw [scrub, literals_literal hq h, comment_spaces]
  rfl

theorem head_scrub (cs : List Char) : ∀ d ∈ (scrub cs).head?, d = ' ' ∨ cs.head? = some d := by
  intro d hd
  have hhead : ∀ e ∈ (Scrub.comment (Scrub.literals none cs)).head?,
      e = ' ' ∨ (Scrub.literals none cs).head? = some e := by
    cases Scrub.literals none cs with
    | nil => simp [Scrub.comment]
    | cons e es =>
      rw [Scrub.comment]
      split
      · intro f hf
        left
        simpa [List.replicate_succ] using hf.symm
      · intro f hf
        right
        simpa using hf
  rcases hhead d hd with h | h
  · exact .inl h
  · exact head_literals cs d h

namespace Usage

/-! ## Identifiers along the pieces of a line -/

theorem sites_nil (left : List Char) : sites left [] = [] := by
  rw [sites]

theorem sites_cons (h : isWordChar c = false) (left cs : List Char) :
    sites left (c :: cs) = sites (c :: left) cs := by
  rw [sites, if_neg (by simp [h])]

theorem sites_append (h : ∀ d ∈ u, isWordChar d = false) (left cs : List Char) :
    sites left (u ++ cs) = sites (u.reverse ++ left) cs := by
  induction u generalizing left with
  | nil => rfl
  | cons d u ih =>
    rw [List.cons_append, sites_cons (h d List.mem_cons_self),
      ih fun e he => h e (List.mem_cons_of_mem _ he)]
    simp

theorem takeWhile_run (hw : ∀ d ∈ w, isWordChar d = true)
    (hcs : ∀ d ∈ cs.head?, isWordChar d = false) : (w ++ cs).takeWhile isWordChar = w := by
  rw [List.takeWhile_append_of_pos hw]
  cases cs with
  | nil => simp
  | cons d cs => simp [hcs d rfl]

theorem sites_word (hc : isWordStart c = true) (hw : ∀ d ∈ w, isWordChar d = true)
    (hcs : ∀ d ∈ cs.head?, isWordChar d = false) (left : List Char) :
    sites left (c :: w ++ cs) = ⟨left, c :: w, cs⟩ :: sites ((c :: w).reverse ++ left) cs := by
  rw [List.cons_append, sites, if_pos (Token.isWordChar_iff.2 (.inl hc)), takeWhile_run hw hcs,
    if_pos hc, List.drop_left]
  simp

theorem sites_digits (hc : c.isDigit = true) (hw : ∀ d ∈ w, d.isDigit = true)
    (hcs : ∀ d ∈ cs.head?, isWordChar d = false) (left : List Char) :
    sites left (c :: w ++ cs) = sites ((c :: w).reverse ++ left) cs := by
  have hstart : ¬ isWordStart c = true := by
    intro hstart
    rw [Token.isDigit_of_isWordStart hstart] at hc
    cases hc
  have hrun : ∀ d ∈ w, isWordChar d = true := fun d hd => Token.isWordChar_iff.2 (.inr (hw d hd))
  rw [List.cons_append, sites, if_pos (Token.isWordChar_iff.2 (.inr hc)), takeWhile_run hrun hcs,
    if_neg hstart, List.drop_left]
  simp

theorem sites_numeral (hw : Numeral w) (hcs : ∀ d ∈ cs.head?, isWordChar d = false)
    (left : List Char) : sites left (w ++ cs) = sites (w.reverse ++ left) cs := by
  cases hw with
  | whole hc hw => exact sites_digits hc hw hcs left
  | @point c w places hc hw hne hplaces =>
    obtain ⟨e, es, rfl⟩ := List.exists_cons_of_ne_nil hne
    have hdot : ∀ d ∈ ('.' :: (e :: es ++ cs)).head?, isWordChar d = false := by
      rintro d ⟨⟩
      decide
    have happend : c :: (w ++ '.' :: e :: es) ++ cs = c :: w ++ '.' :: (e :: es ++ cs) := by simp
    rw [happend, sites_digits hc hw hdot, sites_cons (by decide),
      sites_digits (hplaces e List.mem_cons_self)
        (fun d hd => hplaces d (List.mem_cons_of_mem _ hd)) hcs]
    simp

theorem sites_eq_nil (h : ∀ d ∈ u, isWordChar d = false) (left : List Char) :
    sites left u = [] := by
  have happend := sites_append h left []
  rw [List.append_nil, sites_nil] at happend
  exact happend

theorem isWordChar_of_isBlank (h : Text.isBlank c = true) : isWordChar c = false := by
  by_contra hne
  rw [isBlank_of_isWordChar (by simpa using hne)] at h
  cases h

theorem kept_of_isBlank (h : Text.isBlank c = true) : Kept c := by
  refine ⟨?_, ?_⟩
  · by_contra hne
    rcases Token.isQuote_iff.1 (by simpa using hne) with rfl | rfl <;> revert h <;> decide
  · rintro rfl
    exact absurd h (by decide)

theorem kept_of_isWordChar (h : isWordChar c = true) : Kept c := by
  refine ⟨?_, ?_⟩
  · by_contra hne
    rcases Token.isQuote_iff.1 (by simpa using hne) with rfl | rfl <;> revert h <;> decide
  · rintro rfl
    exact absurd h (by decide)

/-- There are no identifiers on a line with nothing but a comment. -/
theorem sites_of_isCommentLine {l : List Char} (h : isCommentLine l = true) (left : List Char) :
    sites left (scrub l) = [] := by
  obtain ⟨rest, hrest⟩ := List.isPrefixOf_iff_prefix.1 h
  have hblanks : ∀ d ∈ l.takeWhile Text.isBlank, Text.isBlank d = true :=
    fun d hd => List.mem_takeWhile_imp hd
  have hl : l = l.takeWhile Text.isBlank ++ '/' :: '/' :: rest := by
    conv_lhs => rw [← List.takeWhile_append_dropWhile (p := Text.isBlank) (l := l)]
    rw [show l.dropWhile Text.isBlank = '/' :: '/' :: rest from hrest.symm]
  rw [hl, scrub_append fun d hd => kept_of_isBlank (hblanks d hd), scrub_comment,
    sites_append fun d hd => isWordChar_of_isBlank (hblanks d hd)]
  refine sites_eq_nil (fun d hd => ?_) _
  rw [List.eq_of_mem_replicate hd]
  decide

end Usage

/-! ## The first and the last character of a token -/

namespace Token

def isLiteral : Token → Bool
  | .str _ => true
  | _ => false

/-- Is the token an identifier or a keyword? -/
def isWord : Token → Bool
  | .ident _ => true
  | .keyword _ => true
  | _ => false

theorem isWord_ofWord (name : String) : isWord (ofWord name) = true := by
  unfold ofWord
  split <;> rfl

theorem not_isLiteral_ofWord (name : String) : isLiteral (ofWord name) = false := by
  unfold ofWord
  split <;> rfl

theorem ofWord_ne_symbol (name : String) (s : Symbol) : ofWord name ≠ .symbol s := by
  unfold ofWord
  split <;> simp

theorem ofWord_eq_keyword {name : String} {k : Keyword} (h : ofWord name = .keyword k) :
    k.spelling = name := by
  unfold ofWord at h
  split at h
  · next hk =>
    cases h
    simpa using List.find?_some hk
  · cases h

end Token

theorem Numeral.last (h : Numeral w) : ∃ e, w.getLast? = some e ∧ e.isDigit = true := by
  cases h with
  | @whole c w hc hw =>
    have hall : ∀ d ∈ c :: w, d.isDigit = true := List.forall_mem_cons.2 ⟨hc, hw⟩
    exact ⟨_, List.getLast?_eq_some_getLast (List.cons_ne_nil c w),
      hall _ (List.getLast_mem (List.cons_ne_nil c w))⟩
  | @point c w places _ _ hne hplaces =>
    refine ⟨places.getLast hne, ?_, hplaces _ (List.getLast_mem hne)⟩
    rw [← List.cons_append, List.getLast?_append_of_ne_nil _ (List.cons_ne_nil '.' places),
      List.getLast?_cons, List.getLast?_eq_some_getLast hne]
    rfl

/-- The last character of a token that is no literal tells whether it is a dot. -/
theorem Kind.last {t : Token} (h : Kind t u) (ht : t.isLiteral = false) :
    ∃ e, u.getLast? = some e ∧ Text.isBlank e = false ∧
      (e = '.' ↔ t = .symbol .dot ∨ t = .symbol .safeDot) ∧ (e = 't' → t.isWord = true) := by
  have hdigit : ∀ {e : Char}, e.isDigit = true → Text.isBlank e = false ∧ e ≠ '.' ∧ e ≠ 't' := by
    intro e he
    refine ⟨isBlank_of_isDigit he, ?_, ?_⟩ <;> rintro rfl <;> revert he <;> decide
  cases h with
  | @word c w hc hw =>
    have hall : ∀ d ∈ c :: w, isWordChar d = true :=
      List.forall_mem_cons.2 ⟨Token.isWordChar_iff.2 (.inl hc), hw⟩
    have hlast := hall _ (List.getLast_mem (List.cons_ne_nil c w))
    refine ⟨_, List.getLast?_eq_some_getLast (List.cons_ne_nil c w), isBlank_of_isWordChar hlast,
      ?_, fun _ => Token.isWord_ofWord _⟩
    refine iff_of_false ?_ ?_
    · intro hdot
      rw [hdot] at hlast
      exact absurd hlast (by decide)
    · rintro (h | h) <;> exact Token.ofWord_ne_symbol _ _ h
  | int h =>
    obtain ⟨e, he, hd⟩ := h.last
    obtain ⟨hblank, hdot, ht⟩ := hdigit hd
    exact ⟨e, he, hblank, iff_of_false hdot (by simp), fun h => absurd h ht⟩
  | float h =>
    obtain ⟨e, he, hd⟩ := h.last
    obtain ⟨hblank, hdot, ht⟩ := hdigit hd
    exact ⟨e, he, hblank, iff_of_false hdot (by simp), fun h => absurd h ht⟩
  | str _ _ => cases ht
  | @symbol s c w hs =>
    rw [← hs]
    cases s <;> exact ⟨_, rfl, by decide, by decide, by decide⟩

/-- The first character of a token that is no literal tells whether it is an opening parenthesis. -/
theorem Kind.head {t : Token} (h : Kind t u) (ht : t.isLiteral = false) :
    ∃ e, u.head? = some e ∧ Text.isBlank e = false ∧ (e = '(' ↔ t = .symbol .openParen) := by
  have hdigit : ∀ {e : Char}, e.isDigit = true → Text.isBlank e = false ∧ e ≠ '(' := by
    intro e he
    refine ⟨isBlank_of_isDigit he, ?_⟩
    rintro rfl
    exact absurd he (by decide)
  have hnumeral : ∀ {w : List Char}, Numeral w → ∃ e, w.head? = some e ∧ e.isDigit = true := by
    intro w hw
    cases hw with
    | whole hc _ => exact ⟨_, rfl, hc⟩
    | point hc _ _ _ => exact ⟨_, rfl, hc⟩
  cases h with
  | @word c w hc hw =>
    refine ⟨c, rfl, isBlank_of_isWordChar (Token.isWordChar_iff.2 (.inl hc)), iff_of_false ?_ ?_⟩
    · rintro rfl
      exact absurd hc (by decide)
    · exact Token.ofWord_ne_symbol _ _
  | int h =>
    obtain ⟨e, he, hd⟩ := hnumeral h
    exact ⟨e, he, (hdigit hd).1, iff_of_false (hdigit hd).2 (by simp)⟩
  | float h =>
    obtain ⟨e, he, hd⟩ := hnumeral h
    exact ⟨e, he, (hdigit hd).1, iff_of_false (hdigit hd).2 (by simp)⟩
  | str _ _ => cases ht
  | @symbol s c w hs =>
    rw [← hs]
    cases s <;> exact ⟨_, rfl, by decide, by decide⟩

theorem Kind.exists_word {t : Token} (h : Kind t u) (ht : t.isWord = true) :
    ∃ c w, u = c :: w ∧ t = Token.ofWord (String.ofList u) ∧ isWordStart c = true ∧
      ∀ d ∈ u, isWordChar d = true := by
  cases h with
  | @word c w hc hw =>
    exact ⟨c, w, rfl, rfl, hc, List.forall_mem_cons.2 ⟨Token.isWordChar_iff.2 (.inl hc), hw⟩⟩
  | int _ => cases ht
  | float _ => cases ht
  | str _ _ => cases ht
  | symbol _ => cases ht

/-- Scrubbing leaves a token alone that is no literal. -/
theorem scrub_token {t : Token} (h : Munch (u ++ cs) (.token t) u) (hkind : Kind t u)
    (ht : t.isLiteral = false) : scrub (u ++ cs) = u ++ scrub cs := by
  have hnumeral : ∀ {w : List Char}, Numeral w → ∀ d ∈ w, Kept d := by
    have hdigit : ∀ {d : Char}, d.isDigit = true → Kept d := fun hd =>
      Usage.kept_of_isWordChar (Token.isWordChar_iff.2 (.inr hd))
    have hdot : Kept '.' := ⟨by decide, by decide⟩
    intro w hw
    cases hw with
    | whole hc hw => exact List.forall_mem_cons.2 ⟨hdigit hc, fun d hd => hdigit (hw d hd)⟩
    | point hc hw _ hplaces =>
      refine List.forall_mem_cons.2 ⟨hdigit hc, fun d hd => ?_⟩
      rcases List.mem_append.1 hd with hd | hd
      · exact hdigit (hw d hd)
      · rcases List.mem_cons.1 hd with rfl | hd
        · exact hdot
        · exact hdigit (hplaces d hd)
  cases hkind with
  | word hc hw =>
    exact scrub_append (List.forall_mem_cons.2
      ⟨Usage.kept_of_isWordChar (Token.isWordChar_iff.2 (.inl hc)),
        fun d hd => Usage.kept_of_isWordChar (hw d hd)⟩) cs
  | int hw => exact scrub_append (hnumeral hw) cs
  | float hw => exact scrub_append (hnumeral hw) cs
  | str _ _ => cases ht
  | @symbol s c w hs =>
    -- only the slash is not kept wherever it stands
    by_cases hslash : s = .slash
    · subst hslash
      cases hs
      exact scrub_cons (by decide) fun hd => h.slash_next hd.2
    · refine scrub_append (fun d hd => ?_) cs
      obtain ⟨-, hquote, hd'⟩ := symbol_chars hs d hd
      exact ⟨hquote, fun h => hslash (hd' h)⟩

/-! ## What stands to the left -/

namespace Usage

/-- What stands to the left of a place, read leftwards, when this is the nearest token there: blanks
up to the token, and no word directly before a word. -/
def Follows (left : List Char) : Option Token → Prop
  | none => ∀ d ∈ left, Text.isBlank d = true
  | some t => ∃ blanks u more, left = blanks ++ (u.reverse ++ more) ∧
      (∀ d ∈ blanks, Text.isBlank d = true) ∧ Kind t u ∧ t.isLiteral = false ∧
      (t.isWord = true → ∀ d ∈ more.head?, isWordChar d = false)

theorem Follows.blanks {prev : Option Token} (h : Follows left prev)
    (hu : ∀ d ∈ u, Text.isBlank d = true) : Follows (u.reverse ++ left) prev := by
  have hrev : ∀ d ∈ u.reverse, Text.isBlank d = true := fun d hd => hu d (List.mem_reverse.1 hd)
  have happend : ∀ {bs : List Char}, (∀ d ∈ bs, Text.isBlank d = true) →
      ∀ d ∈ u.reverse ++ bs, Text.isBlank d = true := by
    intro bs hbs d hd
    rcases List.mem_append.1 hd with hd | hd
    · exact hrev d hd
    · exact hbs d hd
  cases prev with
  | none => exact happend h
  | some t =>
    obtain ⟨bs, v, more, rfl, hbs, hv⟩ := h
    exact ⟨u.reverse ++ bs, v, more, by simp, happend hbs, hv⟩

/-- The first character to the left that is not blank is the last of the token. -/
theorem Follows.dropWhile {t : Token} (h : Follows left (some t)) :
    ∃ u more, left.dropWhile Text.isBlank = u.reverse ++ more ∧ Kind t u ∧ t.isLiteral = false ∧
      (t.isWord = true → ∀ d ∈ more.head?, isWordChar d = false) := by
  obtain ⟨bs, u, more, rfl, hbs, hkind, ht, hmore⟩ := h
  obtain ⟨e, he, hblank, -⟩ := hkind.last ht
  refine ⟨u, more, ?_, hkind, ht, hmore⟩
  rw [List.dropWhile_append_of_pos hbs]
  have hhead : u.reverse.head? = some e := by rw [List.head?_reverse, he]
  obtain ⟨r, hr⟩ := List.head?_eq_some_iff.1 hhead
  rw [hr, List.cons_append, List.dropWhile_cons_of_neg (by simp [hblank])]

theorem Follows.dropWhile_none (h : Follows left none) : left.dropWhile Text.isBlank = [] :=
  List.dropWhile_eq_nil_iff.2 h

/-- **A name is a member if a dot is the nearest token before it.** -/
theorem isMember_iff {prev : Option Token} (h : Follows left prev) (name after : List Char) :
    Site.isMember ⟨left, name, after⟩ = true ↔
      prev = some (.symbol .dot) ∨ prev = some (.symbol .safeDot) := by
  simp only [Site.isMember, decide_eq_true_eq]
  cases prev with
  | none =>
    rw [h.dropWhile_none]
    simp
  | some t =>
    obtain ⟨u, more, hdrop, hkind, ht, -⟩ := h.dropWhile
    obtain ⟨e, he, -, hdot, -⟩ := hkind.last ht
    rw [hdrop, List.head?_append, List.head?_reverse, he, Option.some_or, Option.some.injEq,
      Option.some.injEq, Option.some.injEq, hdot]

/-- A word that ends with `let`, as far as the characters before it tell, is `let`. -/
theorem eq_let_of_isPrefixOf {more : List Char} (hu : ∀ d ∈ u, isWordChar d = true)
    (hmore : ∀ d ∈ more.head?, isWordChar d = false) (hne : u ≠ [])
    (h : ['t', 'e', 'l'] <+: u.reverse ++ more)
    (hend : ∀ d ∈ ((u.reverse ++ more).drop 3).head?, isWordChar d = false) :
    u = ['l', 'e', 't'] := by
  have hrev : ∀ d ∈ u.reverse, isWordChar d = true := fun d hd => hu d (List.mem_reverse.1 hd)
  -- a letter of `let` cannot be the first character before the word
  have hletter : ∀ d ∈ more.head?, d ∉ ['t', 'e', 'l'] := by
    intro d hd hmem
    have hword : isWordChar d = true := by
      rcases List.mem_cons.1 hmem with rfl | hmem
      · decide
      rcases List.mem_cons.1 hmem with rfl | hmem
      · decide
      · rw [List.mem_singleton.1 hmem]
        decide
    rw [hmore d hd] at hword
    cases hword
  rw [← List.reverse_inj]
  match hr : u.reverse with
  | [] => exact absurd (List.reverse_eq_nil_iff.1 hr) hne
  | [a] =>
    rw [hr] at h
    obtain ⟨rest, hrest⟩ := h
    simp only [List.cons_append, List.nil_append, List.cons.injEq] at hrest
    exact absurd (List.mem_cons_of_mem _ List.mem_cons_self)
      (hletter 'e' (by rw [← hrest.2]; rfl))
  | [a, b] =>
    rw [hr] at h
    obtain ⟨rest, hrest⟩ := h
    simp only [List.cons_append, List.nil_append, List.cons.injEq] at hrest
    exact absurd (by decide) (hletter 'l' (by rw [← hrest.2.2]; rfl))
  | [a, b, d] =>
    rw [hr] at h
    obtain ⟨rest, hrest⟩ := h
    simp only [List.cons_append, List.nil_append, List.cons.injEq] at hrest
    rw [← hrest.1, ← hrest.2.1, ← hrest.2.2.1]
    rfl
  | a :: b :: d :: e :: r =>
    rw [hr] at hend hrev
    have hword := hrev e (by simp)
    rw [hend e (by simp)] at hword
    cases hword

theorem ofWord_eq_let_iff (u : List Char) :
    Token.ofWord (String.ofList u) = .keyword .letKw ↔ u = ['l', 'e', 't'] := by
  constructor
  · intro h
    have hspelling := congrArg String.toList (Token.ofWord_eq_keyword h)
    rw [String.toList_ofList] at hspelling
    rw [← hspelling]
    rfl
  · rintro rfl
    decide

/-- **A name is declared if `let` is the nearest token before it.** -/
theorem isDeclared_iff {prev : Option Token} (h : Follows left prev)
    (hleft : ∀ d ∈ left.head?, isWordChar d = false) (name after : List Char) :
    Site.isDeclared ⟨left, name, after⟩ = true ↔ prev = some (.keyword .letKw) := by
  simp only [Site.isDeclared, Bool.and_eq_true, decide_eq_true_eq, Bool.not_eq_true',
    List.isPrefixOf_iff_prefix, Option.any_eq_false]
  cases prev with
  | none =>
    rw [h.dropWhile_none]
    simp
  | some t =>
    obtain ⟨u, more, hdrop, hkind, ht, hmore⟩ := h.dropWhile
    rw [Option.some.injEq]
    constructor
    · rintro ⟨⟨-, htel⟩, hend⟩
      rw [hdrop] at htel hend
      obtain ⟨e, he, -, -, hword⟩ := hkind.last ht
      have hlast : e = 't' := by
        obtain ⟨rest, hrest⟩ := htel
        have hhead : (u.reverse ++ more).head? = some e := by
          rw [List.head?_append, List.head?_reverse, he, Option.some_or]
        rw [← hrest] at hhead
        exact (Option.some.inj hhead).symm
      obtain ⟨c, w, rfl, htoken, -, hu⟩ := hkind.exists_word (hword hlast)
      rw [htoken, ofWord_eq_let_iff]
      exact eq_let_of_isPrefixOf hu (hmore (hword hlast)) (List.cons_ne_nil c w) htel hend
    · intro hlet
      have hisWord : t.isWord = true := by rw [hlet]; rfl
      obtain ⟨-, -, -, htoken, -⟩ := hkind.exists_word hisWord
      have hu : u = ['l', 'e', 't'] := (ofWord_eq_let_iff u).1 (htoken.symm.trans hlet)
      rw [hdrop, hu]
      refine ⟨⟨?_, ⟨more, rfl⟩⟩, hmore hisWord⟩
      -- the word is not directly before the name, so there are blanks between
      by_contra hlen
      have hsuffix : left.dropWhile Text.isBlank <:+ left := List.dropWhile_suffix _
      have hall : left.dropWhile Text.isBlank = left := by
        refine hsuffix.eq_of_length_le ?_
        rw [hdrop, hu]
        omega
      have hhead : left.head? = some 't' := by
        rw [← hall, hdrop, hu]
        rfl
      exact absurd (hleft 't' hhead) (by decide)

end Usage

end ScriptLint
