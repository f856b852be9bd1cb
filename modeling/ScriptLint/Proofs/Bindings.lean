import Mathlib
import ScriptLint.Proofs.LineEndings
import ScriptLint.Proofs.PlainUses

/-!
# Bindings on one line

Declarations are looked for in the characters of a line, without tokens. What the tokens of a line
say is declared is found there all the same, whatever else is on the line, unless the keyword stands
right behind a digit.

* `Binds`: the tokens that bind a name, by `let` or as a parameter.
* `Strung`: tokens of one line, with blanks between them.
* `Token.strung_of_reads`: tokens that begin on one line are strung.
* `Declared.mem_inLine`: a binding that is strung declares its name.
* `binds_declared`: **a name that is bound on one line is declared, and never reported.**
-/

namespace ScriptLint

open Source (byteLength lineCount)
open Token (isWordStart isWordChar Munch Reads Skipped LineEnd)
open TokenLint (lineOf)

/-! ## Binding tokens -/

/-- The tokens of parameters: names with commas between them, and perhaps one behind the last. -/
inductive Params : List String → List Token → Prop
  | nil : Params [] []
  | last (x : String) : Params [x] [.ident x]
  | cons (x : String) {xs : List String} {ts : List Token} (h : Params xs ts) :
      Params (x :: xs) (.ident x :: .symbol .comma :: ts)

/-- The tokens that bind a name. -/
inductive Binds (x : String) : List Token → Prop
  | name : Binds x [.keyword .letKw, .ident x, .symbol .assign]
  | parameter {names : List String} {ts : List Token} (h : Params names ts) (hx : x ∈ names) :
      Binds x (.keyword .fnKw :: .symbol .openParen :: (ts ++ [.symbol .closeParen]))

/-- Tokens one behind the other, with nothing but blanks between them. -/
inductive Strung : List Token → List Char → Prop
  | last {t : Token} {w : List Char} (hkind : Kind t w) : Strung [t] w
  | cons {t : Token} {ts : List Token} {w g m : List Char} (hkind : Kind t w)
      (hg : ∀ d ∈ g, Text.isBlank d = true)
      (hnext : t.isWord = true → ∀ d ∈ (g ++ m).head?, isWordChar d = false)
      (h : Strung ts m) : Strung (t :: ts) (w ++ (g ++ m))

variable {c : Char} {w g m u v rest : List Char} {t : Token} {ts : List Token}
  {x : String}

/-! ## Single tokens -/

theorem Kind.exists_cons (h : Kind t w) : ∃ c w', w = c :: w' ∧ Text.isBlank c = false := by
  cases ht : t.isLiteral with
  | false =>
    obtain ⟨c, hc, hblank, -⟩ := h.head ht
    obtain ⟨w', rfl⟩ := List.head?_eq_some_iff.1 hc
    exact ⟨c, w', rfl, hblank⟩
  | true =>
    cases h with
    | word hc hw => rw [Token.not_isLiteral_ofWord] at ht; cases ht
    | int _ => cases ht
    | float _ => cases ht
    | symbol _ => cases ht
    | @str q content v hq _ =>
      refine ⟨q, _, rfl, ?_⟩
      rcases Token.isQuote_iff.1 hq with rfl | rfl <;> decide

theorem Kind.not_lineEnd (h : Kind t w) (rest : List Char) : ¬LineEnd (w ++ rest) := by
  obtain ⟨c, w', rfl, hblank⟩ := h.exists_cons
  intro hend
  rw [hend c rfl] at hblank
  exact absurd hblank (by decide)

theorem Kind.eq_keyword {k : Keyword} (h : Kind (.keyword k) w) : w = k.spelling.toList := by
  obtain ⟨-, -, -, htoken, -⟩ := h.exists_word rfl
  rw [Token.ofWord_eq_keyword htoken.symm, String.toList_ofList]

theorem ofWord_eq_ident {name x : String} (h : Token.ofWord name = .ident x) : name = x := by
  unfold Token.ofWord at h
  split at h
  · cases h
  · exact Token.ident.inj h

/-- An identifier is spelled by its name. -/
theorem Kind.eq_ident {x : String} (h : Kind (.ident x) w) :
    x.toList = w ∧ ∃ c w', w = c :: w' ∧ isWordStart c = true ∧ ∀ d ∈ w, isWordChar d = true := by
  obtain ⟨c, w', hw, htoken, hc, hword⟩ := h.exists_word rfl
  rw [← ofWord_eq_ident htoken.symm, String.toList_ofList]
  exact ⟨rfl, c, w', hw, hc, hword⟩

theorem Kind.eq_symbol {s : Symbol} (h : Kind (.symbol s) w) : w = s.spelling.toList := by
  generalize ht : Token.symbol s = t at h
  cases h with
  | word _ _ => exact absurd ht.symm (Token.ofWord_ne_symbol _ _)
  | int _ => cases ht
  | float _ => cases ht
  | str _ _ => cases ht
  | symbol hs =>
    cases ht
    exact hs.symm

theorem Strung.not_lineEnd (h : Strung ts m) (rest : List Char) : ¬LineEnd (m ++ rest) := by
  cases h with
  | last hkind => exact hkind.not_lineEnd rest
  | cons hkind _ _ _ =>
    rw [List.append_assoc]
    exact hkind.not_lineEnd _

/-- The first of several tokens, the blanks behind it, and the others. -/
theorem Strung.uncons (h : Strung (t :: ts) m) (hts : ts ≠ []) :
    ∃ w g m', m = w ++ (g ++ m') ∧ Kind t w ∧ (∀ d ∈ g, Text.isBlank d = true) ∧
      (t.isWord = true → ∀ d ∈ (g ++ m').head?, isWordChar d = false) ∧ Strung ts m' := by
  cases h with
  | last _ => exact absurd rfl hts
  | cons hkind hg hnext h => exact ⟨_, _, _, rfl, hkind, hg, hnext, h⟩

theorem Strung.single (h : Strung [t] m) : Kind t m := by
  cases h with
  | last hkind => exact hkind
  | cons _ _ _ h => cases h

/-- A binding begins with a keyword. -/
theorem Binds.head (h : Binds x ts) (hm : Strung ts m) :
    ∃ c m', m = c :: m' ∧ isWordChar c = true := by
  obtain ⟨k, ts, rfl, hne⟩ : ∃ k ts', ts = .keyword k :: ts' ∧ ts' ≠ [] := by
    cases h with
    | name => exact ⟨_, _, rfl, by simp⟩
    | parameter _ _ => exact ⟨_, _, rfl, by simp⟩
  obtain ⟨w, g, m', rfl, hkind, -⟩ := hm.uncons hne
  obtain ⟨c, w', rfl, -, -, hword⟩ := hkind.exists_word rfl
  exact ⟨c, _, rfl, hword c List.mem_cons_self⟩

/-! ## Tokens of a line are strung -/

theorem isBlank_of_mem_blanks (h : c ∈ [' ', '\t', '\r', '\n', '\x0c']) : Text.isBlank c = true :=
  TokenLint.isBlank_of_isGap (Token.isGap_iff.2 (by simpa using h))

theorem Token.Skipped.isBlank (h : Skipped rest g) (hg : '\n' ∉ g) (hrest : ¬LineEnd rest) :
    ∀ d ∈ g, Text.isBlank d = true := by
  induction h with
  | nil => simp
  | @blank c cs hc _ ih =>
    obtain ⟨-, hcs⟩ := not_or.1 (List.mem_cons.not.1 hg)
    exact List.forall_mem_cons.2 ⟨isBlank_of_mem_blanks hc, ih hcs⟩
  | @comment w cs _ hend _ _ =>
    -- a comment would go on to the end of the line
    cases cs with
    | nil => exact absurd hend hrest
    | cons d cs =>
      rw [hend d rfl] at hg
      simp at hg

/-- What is skipped right before a token ends with a blank. -/
theorem Token.Skipped.last (h : Skipped rest g) (hrest : ¬LineEnd rest) :
    ∀ d ∈ g.getLast?, isWordChar d = false := by
  induction h with
  | nil => simp
  | @blank c cs hc _ ih =>
    intro d hd
    cases cs with
    | nil =>
      cases hd
      exact Usage.isWordChar_of_isBlank (isBlank_of_mem_blanks hc)
    | cons e cs => exact ih d hd
  | @comment w cs _ hend _ ih =>
    intro d hd
    cases cs with
    | nil => exact absurd hend hrest
    | cons e cs =>
      rw [← List.cons_append, ← List.cons_append,
        List.getLast?_append_of_ne_nil _ (List.cons_ne_nil e cs)] at hd
      exact ih d hd

theorem Source.walk_line (u v : List Char) :
    (Source.walk 1 1 (u ++ v) (byteLength u)).1 = lineCount u := by
  have hbreak := Source.walk_break (p := u) (q := []) rfl
  have hthrough := Source.walk_through 1 1 u
  rw [Source.byteLength_append] at hbreak
  have hline := congrArg Prod.fst (hbreak.symm.trans hthrough)
  rw [Source.walk_append] at hline ⊢
  dsimp only at hline
  omega

theorem not_mem_newline_of_lineCount (h : lineCount (u ++ m) = lineCount u) : '\n' ∉ m := by
  simp only [lineCount, List.count_append] at h
  exact List.count_eq_zero.1 (by omega)

/-- The first token, where it stands, and what is read behind it. -/
theorem Token.Reads.uncons {post : List Char} {b : Lexeme} {xs : List Lexeme}
    (h : Reads (byteLength u) post [] (b :: xs)) :
    ∃ g w pre, post = g ++ (w ++ pre) ∧ Skipped (w ++ pre) g ∧
      Munch (w ++ pre) (.token b.token) w ∧ b.span.start = byteLength (u ++ g) ∧
      Reads (byteLength (u ++ g ++ w)) pre [] xs := by
  obtain ⟨hnil, -⟩ | ⟨g, w, pre, t, xs, rfl, hg, hmunch, hxs, hreads⟩ := h.layout
  · cases hnil
  · rw [List.append_nil] at hg hmunch
    obtain ⟨rfl, rfl⟩ := List.cons.inj hxs
    rw [← Source.byteLength_append, ← Source.byteLength_append] at hreads
    exact ⟨g, w, pre, rfl, hg, hmunch, (Source.byteLength_append u g).symm, hreads⟩

theorem Token.Munch.kind (h : Munch (w ++ rest) (.token t) w) : Kind t w :=
  (h.spelled (by simp)).kind

theorem Token.Munch.not_mem_newline (h : Munch (w ++ rest) (.token t) w) : '\n' ∉ w := by
  obtain ⟨c, w', rfl, hblank⟩ := h.kind.exists_cons
  refine (h.spelled (by simp)).not_mem_newline ?_
  by_contra hgap
  rw [TokenLint.isBlank_of_isGap (by simpa using hgap)] at hblank
  cases hblank

theorem Token.Munch.isWord_next (h : Munch (w ++ rest) (.token t) w) (ht : t.isWord = true) :
    ∀ d ∈ rest.head?, isWordChar d = false := by
  obtain ⟨c, w', rfl, -, hc, hw⟩ := h.kind.exists_word ht
  exact h.word_next hc (List.forall_mem_cons.1 hw).2

/-- **Tokens that begin on one line are strung**, behind what is skipped before the first. -/
theorem Token.strung_of_reads {post : List Char} {b : Lexeme} {bs ys : List Lexeme} {n : ℕ}
    (h : Reads (byteLength u) post [] (b :: (bs ++ ys)))
    (hline : ∀ x ∈ b :: bs, lineOf (u ++ post) x = n) :
    ∃ g m rest, post = g ++ (m ++ rest) ∧ Strung ((b :: bs).map Lexeme.token) m ∧ '\n' ∉ m ∧
      b.span.start = byteLength (u ++ g) ∧ Skipped (m ++ rest) g := by
  induction bs generalizing b u post with
  | nil =>
    obtain ⟨g, w, pre, rfl, hg, hmunch, hstart, -⟩ := h.uncons
    exact ⟨g, w, pre, rfl, .last hmunch.kind, hmunch.not_mem_newline, hstart, hg⟩
  | cons b' bs ih =>
    obtain ⟨g, w, pre, rfl, hg, hmunch, hstart, hreads⟩ := h.uncons
    obtain ⟨hb, hbs⟩ := List.forall_mem_cons.1 hline
    have htext : u ++ (g ++ (w ++ pre)) = u ++ g ++ w ++ pre := by simp
    rw [htext] at hbs
    obtain ⟨g', m, rest, rfl, hm, hbreak, hstart', hg'⟩ := ih hreads hbs
    -- both tokens begin on the line, so there is no line break between them
    have hbetween : '\n' ∉ w ++ g' := by
      refine not_mem_newline_of_lineCount (u := u ++ g) ?_
      have hb' := (List.forall_mem_cons.1 hbs).1
      rw [lineOf, hstart, ← List.append_assoc, Source.walk_line] at hb
      rw [lineOf, hstart', ← List.append_assoc, Source.walk_line] at hb'
      rw [← List.append_assoc, hb, hb']
    obtain ⟨-, hbreak'⟩ := not_or.1 (List.mem_append.not.1 hbetween)
    have hblank := hg'.isBlank hbreak' (hm.not_lineEnd rest)
    refine ⟨g, w ++ (g' ++ m), rest, by simp, .cons hmunch.kind hblank ?_ hm, ?_, hstart,
      by simpa using hg⟩
    · intro hword d hd
      obtain ⟨more, hmore⟩ := List.head?_eq_some_iff.1 hd
      refine hmunch.isWord_next hword d ?_
      rw [← List.append_assoc, hmore]
      rfl
    · rw [← List.append_assoc, List.mem_append, not_or]
      exact ⟨hbetween, hbreak⟩

/-! ## What stands before a keyword -/

/-- Words are cut at this place only behind a digit. -/
def Apart (u v : List Char) : Prop :=
  ∀ d ∈ u.getLast?, isWordChar d = true →
    d.isDigit = true ∨ ∀ e ∈ v.head?, isWordChar e = false

theorem Token.Munch.apart (h : Munch (w ++ rest) (.token t) w) (u : List Char) :
    Apart (u ++ w) rest := by
  obtain ⟨c, w', hne, -⟩ := h.kind.exists_cons
  intro d hd hword
  rw [List.getLast?_append_of_ne_nil _ (hne ▸ List.cons_ne_nil c w')] at hd
  have hmem : d ∈ w := List.mem_of_mem_getLast? hd
  cases ht : t.isWord with
  | true => exact .inr (h.isWord_next ht)
  | false =>
    left
    generalize hkind : t = s at ht
    have hk := h.kind
    rw [hkind] at hk
    cases hk with
    | word _ _ => rw [Token.isWord_ofWord] at ht; cases ht
    | int hw =>
      obtain ⟨e, he, hdigit⟩ := hw.last
      rw [Option.mem_unique hd he]
      exact hdigit
    | float hw =>
      obtain ⟨e, he, hdigit⟩ := hw.last
      rw [Option.mem_unique hd he]
      exact hdigit
    | @str q content v hq _ =>
      rw [← List.cons_append, List.getLast?_concat] at hd
      cases hd
      rw [Usage.isWordChar_of_isQuote hq] at hword
      cases hword
    | symbol hs =>
      rw [(symbol_chars hs d hmem).1] at hword
      cases hword

/-- What is read behind some of the tokens, and where. -/
theorem Token.Reads.drop {pre : List Char} {xs ys : List Lexeme}
    (h : Reads (byteLength u) pre [] (xs ++ ys)) (hu : Apart u pre) :
    ∃ p post, u ++ pre = p ++ post ∧ Reads (byteLength p) post [] ys ∧ Apart p post := by
  induction xs generalizing u pre with
  | nil => exact ⟨u, pre, rfl, h, hu⟩
  | cons x xs ih =>
    obtain ⟨g, w, rest, rfl, -, hmunch, -, hreads⟩ := h.uncons
    obtain ⟨p, post, htext, hpost⟩ := ih hreads (hmunch.apart (u ++ g))
    exact ⟨p, post, by rw [← htext]; simp, hpost⟩

/-- No part of a word stands before a word, unless it is a digit. -/
theorem Apart.before_word (h : Apart u (g ++ c :: v)) (hg : Skipped (c :: v) g)
    (hc : isWordChar c = true) (hdigit : ∀ d ∈ (u ++ g).getLast?, d.isDigit = false) :
    ∀ d ∈ (u ++ g).getLast?, isWordChar d = false := by
  intro d hd
  cases g with
  | nil =>
    rw [List.append_nil] at hd hdigit
    by_contra hne
    rcases h d hd (by simpa using hne) with hd' | hnext
    · rw [hdigit d hd] at hd'
      cases hd'
    · rw [hnext c rfl] at hc
      cases hc
  | cons e g =>
    rw [List.getLast?_append_of_ne_nil _ (List.cons_ne_nil e g)] at hd
    refine hg.last (fun hend => ?_) d hd
    rw [hend c rfl] at hc
    exact absurd hc (by decide)

/-! ## Lines of a text -/

/-- A stretch without line breaks lies in a line, behind the end of what is before it. -/
theorem Text.exists_line (hm : '\n' ∉ m) (u v : List Char) :
    ∃ u' v', u' ++ (m ++ v') ∈ Text.lines (u ++ (m ++ v)) ∧ u' <:+ u := by
  induction u using Text.line_induction with
  | last u hu =>
    by_cases hbreak : '\n' ∈ v
    · obtain ⟨v', b, rfl, hv'⟩ := List.eq_append_cons_of_mem hbreak
      refine ⟨u, v', ?_, List.suffix_refl u⟩
      have hline : '\n' ∉ u ++ (m ++ v') := by simp [hu, hm, hv']
      have htext : u ++ (m ++ (v' ++ '\n' :: b)) = u ++ (m ++ v') ++ '\n' :: b := by simp
      rw [htext, TokenLint.lines_append_break hline]
      exact List.mem_cons_self
    · refine ⟨u, v, ?_, List.suffix_refl u⟩
      have hline : '\n' ∉ u ++ (m ++ v) := by simp [hu, hm, hbreak]
      rw [TokenLint.lines_of_not_mem hline]
      exact List.mem_singleton_self _
  | line a b ha ih =>
    obtain ⟨u', v', hmem, hsuffix⟩ := ih
    refine ⟨u', v', ?_, hsuffix.trans ⟨a ++ ['\n'], by simp⟩⟩
    have htext : a ++ '\n' :: b ++ (m ++ v) = a ++ '\n' :: (b ++ (m ++ v)) := by simp
    rw [htext, TokenLint.lines_append_break ha]
    exact List.mem_cons_of_mem _ hmem

/-! ## Bindings declare -/

namespace Declared

theorem mem_occurrences {word : List Char} (hne : word ≠ []) {joined : Bool}
    (hjoined : u = [] → joined = false) (hu : ∀ d ∈ u.getLast?, isWordChar d = false)
    (rest : List Char) : rest ∈ occurrences word joined (u ++ (word ++ rest)) := by
  induction u generalizing joined with
  | nil =>
    obtain ⟨c, w, rfl⟩ := List.exists_cons_of_ne_nil hne
    have hbegins : (c :: w).isPrefixOf (c :: (w ++ rest)) = true :=
      List.isPrefixOf_iff_prefix.2 (List.prefix_append (c :: w) rest)
    rw [List.nil_append, List.cons_append, occurrences, hjoined rfl, hbegins, if_pos (by decide),
      ← List.cons_append, List.drop_left]
    exact List.mem_cons_self
  | cons d u ih =>
    have hmem : rest ∈ occurrences word (isWordChar d) (u ++ (word ++ rest)) := by
      refine ih (fun hnil => ?_) fun e he => hu e (List.mem_getLast?_cons he)
      subst hnil
      exact hu d rfl
    rw [List.cons_append, occurrences]
    split
    · exact List.mem_cons_of_mem _ hmem
    · exact hmem

theorem trimStart_blanks (hg : ∀ d ∈ g, Text.isBlank d = true) (hc : Text.isBlank c = false)
    (v : List Char) : Text.trimStart (g ++ c :: v) = c :: v := by
  rw [Text.trimStart, List.dropWhile_append_of_pos hg, List.dropWhile_cons_of_neg (by simp [hc])]

theorem identifier?_word (hc : isWordStart c = true) (hw : ∀ d ∈ w, isWordChar d = true)
    (hv : ∀ d ∈ v.head?, isWordChar d = false) : identifier? (c :: w ++ v) = some (c :: w) := by
  rw [List.cons_append, identifier?, if_pos hc, Usage.takeWhile_run hw hv]

/-- `let`, blanks, a name, blanks and an equals sign. -/
theorem letName?_strung (hm : Strung [.keyword .letKw, .ident x, .symbol .assign] m)
    (rest : List Char) :
    ∃ v, m = ['l', 'e', 't'] ++ v ∧ letName? (v ++ rest) = some x.toList := by
  obtain ⟨w, g, m₁, rfl, hlet, hg, hnext, hm₁⟩ := hm.uncons (by simp)
  obtain ⟨name, g', m₂, rfl, hname, hg', hnext', hm₂⟩ := hm₁.uncons (by simp)
  obtain ⟨hx, c, name, rfl, hc, hword⟩ := hname.eq_ident
  have hassign : m₂ = ['='] := hm₂.single.eq_symbol
  subst hassign
  refine ⟨g ++ (c :: name ++ (g' ++ ['='])), by rw [hlet.eq_keyword]; rfl, ?_⟩
  obtain ⟨hword', hnames⟩ := List.forall_mem_cons.1 hword
  -- a name right behind `let` would be one word with it
  have hpos : 0 < g.length := by
    refine List.length_pos_iff.2 fun hnil => ?_
    have hhead := hnext rfl c (by rw [hnil]; rfl)
    rw [hword'] at hhead
    cases hhead
  have hafter : ∀ d ∈ (g' ++ '=' :: rest).head?, isWordChar d = false := by
    intro d hd
    refine hnext' rfl d ?_
    cases g' with
    | nil => exact hd
    | cons e g' => exact hd
  have hlist : g ++ (c :: name ++ (g' ++ ['='])) ++ rest =
      g ++ c :: (name ++ (g' ++ '=' :: rest)) := by simp
  have htrim := trimStart_blanks hg (isBlank_of_isWordChar hword') (name ++ (g' ++ '=' :: rest))
  have hident := identifier?_word hc hnames hafter
  rw [List.cons_append] at hident
  have hsign := trimStart_blanks hg' (c := '=') (by decide) rest
  rw [hlist, letName?, htrim, hident, hx]
  simp [hpos, hsign]

/-! ### Parameters -/

theorem trim_blanks (hg : ∀ d ∈ g, Text.isBlank d = true) (hw : ∀ d ∈ w, isWordChar d = true)
    (hne : w ≠ []) (hv : ∀ d ∈ v, Text.isBlank d = true) : Text.trim (g ++ (w ++ v)) = w := by
  have hback : ∀ d ∈ v.reverse, Text.isBlank d = true := fun d hd => hv d (List.mem_reverse.1 hd)
  obtain ⟨c, w', hw'⟩ := List.exists_cons_of_ne_nil hne
  have hstart : Text.trimStart (g ++ (w ++ v)) = w ++ v := by
    rw [hw', List.cons_append]
    exact trimStart_blanks hg (isBlank_of_isWordChar (hw c (by simp [hw']))) _
  obtain ⟨d, w'', hlast⟩ := List.exists_cons_of_ne_nil (List.reverse_eq_nil_iff.not.2 hne)
  have hd : isWordChar d = true :=
    hw d (List.mem_reverse.1 (by rw [hlast]; exact List.mem_cons_self))
  have hend := trimStart_blanks hback (isBlank_of_isWordChar hd) w''
  rw [Text.trim, hstart, Text.trimEnd, List.reverse_append, hlast]
  rw [Text.trimStart] at hend
  rw [hend, ← hlast, List.reverse_reverse]

/-- A character that is neither blank nor part of a word is not among blanks and words. -/
theorem not_mem_blanks (hc : Text.isBlank c = false) (hc' : isWordChar c = false)
    (hg : ∀ d ∈ g, Text.isBlank d = true) (hw : ∀ d ∈ w, isWordChar d = true)
    (hv : ∀ d ∈ v, Text.isBlank d = true) : c ∉ g ++ (w ++ v) := by
  simp only [List.mem_append, not_or]
  refine ⟨fun h => ?_, fun h => ?_, fun h => ?_⟩
  · rw [hg c h] at hc; cases hc
  · rw [hw c h] at hc'; cases hc'
  · rw [hv c h] at hc; cases hc

theorem identifier?_trim (hg : ∀ d ∈ g, Text.isBlank d = true) (hc : isWordStart c = true)
    (hw : ∀ d ∈ c :: w, isWordChar d = true) (hv : ∀ d ∈ v, Text.isBlank d = true) :
    identifier? (Text.trim (g ++ (c :: w ++ v))) = some (c :: w) := by
  have hident := identifier?_word (v := []) hc (List.forall_mem_cons.1 hw).2 (by simp)
  rw [List.append_nil] at hident
  rw [trim_blanks hg hw (List.cons_ne_nil c w) hv, hident]

/-- Parameters up to the closing parenthesis: each is found between the commas around it. -/
theorem pieces_params {names : List String} (h : Params names ts)
    (hm : Strung (ts ++ [.symbol .closeParen]) m) (hg : ∀ d ∈ g, Text.isBlank d = true) :
    ∃ inner, m = inner ++ [')'] ∧ ')' ∉ g ++ inner ∧ ∀ x ∈ names,
      x.toList ∈ (Text.pieces ',' (g ++ inner)).filterMap fun p => identifier? (Text.trim p) := by
  induction h generalizing m g with
  | nil =>
    have hclose : m = [')'] := hm.single.eq_symbol
    refine ⟨[], hclose, fun hmem => ?_, by simp⟩
    rw [List.append_nil] at hmem
    exact absurd (hg _ hmem) (by decide)
  | last x =>
    obtain ⟨name, g', m', rfl, hname, hg', -, hm'⟩ := hm.uncons (by simp)
    obtain ⟨hx, c, w, rfl, hc, hw⟩ := hname.eq_ident
    have hclose : m' = [')'] := hm'.single.eq_symbol
    subst hclose
    refine ⟨c :: w ++ g', by simp, not_mem_blanks (by decide) (by decide) hg hw hg', ?_⟩
    rw [Text.pieces_of_not_mem (not_mem_blanks (by decide) (by decide) hg hw hg'),
      List.forall_mem_singleton, hx]
    exact List.mem_filterMap.2 ⟨_, List.mem_singleton_self _, identifier?_trim hg hc hw hg'⟩
  | @cons x names ts _ ih =>
    obtain ⟨name, g', m', rfl, hname, hg', -, hm'⟩ := hm.uncons (by simp)
    obtain ⟨hx, c, w, rfl, hc, hw⟩ := hname.eq_ident
    obtain ⟨comma, g'', m'', rfl, hcomma, hg'', -, hm''⟩ := hm'.uncons (by simp)
    have hcomma' : comma = [','] := hcomma.eq_symbol
    subst hcomma'
    obtain ⟨inner, rfl, hparen, hinner⟩ := ih hm'' hg''
    have htext : g ++ (c :: w ++ (g' ++ ',' :: (g'' ++ inner))) =
        g ++ (c :: w ++ g') ++ ',' :: (g'' ++ inner) := by simp
    refine ⟨c :: w ++ (g' ++ ',' :: (g'' ++ inner)), by simp, ?_, ?_⟩
    · rw [htext, List.mem_append, List.mem_cons, not_or, not_or]
      exact ⟨not_mem_blanks (by decide) (by decide) hg hw hg', by decide, hparen⟩
    · rw [htext, Text.pieces_append (not_mem_blanks (by decide) (by decide) hg hw hg'),
        List.filterMap_cons_some (f := fun p => identifier? (Text.trim p))
          (identifier?_trim hg hc hw hg'), List.forall_mem_cons, hx]
      exact ⟨List.mem_cons_self, fun y hy => List.mem_cons_of_mem _ (hinner y hy)⟩

/-- `fn`, blanks and parameters in parentheses. -/
theorem paramNames_strung {names : List String} (h : Params names ts)
    (hm : Strung (.keyword .fnKw :: .symbol .openParen :: (ts ++ [.symbol .closeParen])) m)
    (hx : x ∈ names) (rest : List Char) :
    ∃ v, m = ['f', 'n'] ++ v ∧ x.toList ∈ paramNames (v ++ rest) := by
  obtain ⟨w, g, m₁, rfl, hfn, hg, -, hm₁⟩ := hm.uncons (by simp)
  obtain ⟨w', g', m₂, rfl, hopen, hg', -, hm₂⟩ := hm₁.uncons (by simp)
  have hopen' : w' = ['('] := hopen.eq_symbol
  subst hopen'
  obtain ⟨inner, rfl, hparen, hinner⟩ := pieces_params h hm₂ hg'
  refine ⟨g ++ (['('] ++ (g' ++ (inner ++ [')']))), by rw [hfn.eq_keyword]; rfl, ?_⟩
  have hlist : g ++ (['('] ++ (g' ++ (inner ++ [')']))) ++ rest =
      g ++ '(' :: (g' ++ inner ++ ')' :: rest) := by simp
  have htrim := trimStart_blanks hg (c := '(') (by decide) (g' ++ inner ++ ')' :: rest)
  have hcontains : (g' ++ inner ++ ')' :: rest).contains ')' = true := by simp
  have htake : (g' ++ inner ++ ')' :: rest).takeWhile (· ≠ ')') = g' ++ inner := by
    rw [List.takeWhile_append_of_pos, List.takeWhile_cons_of_neg (by simp), List.append_nil]
    intro d hd
    simp only [ne_eq, decide_not, Bool.not_eq_true', decide_eq_false_iff_not]
    rintro rfl
    exact hparen hd
  have hnames : paramNames (g ++ '(' :: (g' ++ inner ++ ')' :: rest)) =
      (Text.pieces ',' (g' ++ inner)).filterMap fun p => identifier? (Text.trim p) := by
    simp only [paramNames, htrim, hcontains, if_true, htake]
  rw [hlist, hnames]
  exact hinner x hx

/-- **A strung binding declares its name**, unless its keyword ends a longer word. -/
theorem mem_inLine (h : Binds x ts) (hm : Strung ts m)
    (hu : ∀ d ∈ u.getLast?, isWordChar d = false) (v : List Char) :
    x ∈ inLine (u ++ (m ++ v)) := by
  have hx : x = String.ofList x.toList := (String.ofList_toList).symm
  rw [hx, inLine]
  refine List.mem_map_of_mem (List.mem_append.2 ?_)
  cases h with
  | name =>
    left
    obtain ⟨w, rfl, hname⟩ := letName?_strung hm v
    rw [List.append_assoc]
    exact List.mem_filterMap.2 ⟨_, mem_occurrences (by simp) (fun _ => rfl) hu _, hname⟩
  | parameter hparams hmem =>
    right
    obtain ⟨w, rfl, hname⟩ := paramNames_strung hparams hm hmem v
    rw [List.append_assoc]
    exact List.mem_flatMap.2 ⟨_, mem_occurrences (by simp) (fun _ => rfl) hu _, hname⟩

end Declared

/-! ## Declared names are not reported -/

theorem severity_locate (message : String) : (locate message).severity = .error := by
  unfold locate
  dsimp only
  split <;> rfl

/-- A failure of the engine is reported as an error. -/
theorem severity_of_failure {engine : Engine} {source : String} {d : Diagnostic}
    (h : d ∈ ((engine.failure? source).map locate).toList) : d.severity = .error := by
  obtain ⟨message, -, rfl⟩ := Option.mem_map.1 (Option.mem_toList.1 h)
  exact severity_locate message

theorem not_warns_of_failure {engine : Engine} {source : String} {d : Diagnostic}
    (h : d ∈ ((engine.failure? source).map locate).toList) (name : String) :
    ¬Usage.Warns name d := by
  rintro ⟨hseverity, -⟩
  rw [severity_of_failure h] at hseverity
  cases hseverity

theorem not_warns_of_declared {engine : Engine} {settings : Settings} {source : String}
    (h : x ∈ declaredNames (Text.lines source.toList)) :
    ∀ d ∈ diagnose engine settings source, ¬Usage.Warns x d := by
  intro d hd hwarns
  rcases List.mem_append.1 hd with hd | hd
  · exact not_warns_of_failure hd x hwarns
  · split at hd
    · obtain ⟨u, hu, -, rfl⟩ := Usage.exists_use_of_warns hd hwarns
      have hknown := (Usage.isLeast_of_mem_firstUses hu).1
      exact (Usage.isKnown_eq_false_iff.1 hknown).2.2.1 h
    · cases hd

/-- **What is bound on one line is declared.** If consecutive tokens that begin on one line bind a
name, and no digit stands right before the keyword, then the name is declared, and no diagnosis
warns of it anywhere in the script. -/
theorem binds_declared (source : String) (lexemes : Array Lexeme)
    (h : tokenize source = .ok lexemes) (x : String) (before bs after : List Lexeme)
    (hsplit : lexemes.toList = before ++ (bs ++ after)) (hbinds : Binds x (bs.map Lexeme.token))
    (line : ℕ) (hline : ∀ b ∈ bs, lineOf source.toList b = line)
    (hdigit : ∀ b ∈ bs.head?, ∀ d ∈ (Source.before source.toList b.span.start).getLast?,
      d.isDigit = false) :
    x ∈ declaredNames (Text.lines source.toList) ∧
      ∀ engine settings, ∀ d ∈ diagnose engine settings source, ¬Usage.Warns x d := by
  obtain ⟨xs, rfl, hreads⟩ := Token.reads_of_scan (scan_of_tokenize h)
  rw [Array.empty_append, List.toList_toArray] at hsplit
  subst hsplit
  cases bs with
  | nil => cases hbinds
  | cons b bs =>
    obtain ⟨p, post, htext, hpost, hapart⟩ := hreads.drop (u := []) (by simp [Apart])
    rw [List.nil_append] at htext
    rw [htext] at hline hdigit
    obtain ⟨g, m, rest, rfl, hm, hbreak, hstart, hg⟩ := Token.strung_of_reads hpost hline
    have hbefore : ∀ d ∈ (p ++ g).getLast?, isWordChar d = false := by
      have hlast := hdigit b rfl
      rw [hstart, ← List.append_assoc, Source.before_append] at hlast
      obtain ⟨c, m', rfl, hc⟩ := hbinds.head hm
      exact hapart.before_word hg hc hlast
    obtain ⟨u, v, hmem, hsuffix⟩ := Text.exists_line hbreak (p ++ g) rest
    have hdeclared : x ∈ declaredNames (Text.lines source.toList) := by
      rw [htext, declaredNames, List.mem_eraseDups]
      rw [List.append_assoc] at hmem
      refine List.mem_flatMap.2 ⟨_, hmem, Declared.mem_inLine hbinds hm (fun d hd => ?_) v⟩
      obtain ⟨a, ha⟩ := hsuffix
      refine hbefore d ?_
      rw [← ha, List.getLast?_append, Option.mem_def.1 hd]
      rfl
    exact ⟨hdeclared, fun engine settings => not_warns_of_declared hdeclared⟩

namespace Binds

/-- A parameter that is used on the line before, with a literal and a comment around it. -/
def sample : String :=
  "y\nf(\"fn\", fn (x, y,) ) // let"

def sampleBefore : List Lexeme :=
  [⟨.ident "y", ⟨0, 1⟩⟩, ⟨.ident "f", ⟨2, 3⟩⟩, ⟨.symbol .openParen, ⟨3, 4⟩⟩, ⟨.str "fn", ⟨4, 8⟩⟩,
    ⟨.symbol .comma, ⟨8, 9⟩⟩]

def sampleBinding : List Lexeme :=
  [⟨.keyword .fnKw, ⟨10, 12⟩⟩, ⟨.symbol .openParen, ⟨13, 14⟩⟩, ⟨.ident "x", ⟨14, 15⟩⟩,
    ⟨.symbol .comma, ⟨15, 16⟩⟩, ⟨.ident "y", ⟨17, 18⟩⟩, ⟨.symbol .comma, ⟨18, 19⟩⟩,
    ⟨.symbol .closeParen, ⟨19, 20⟩⟩]

def sampleAfter : List Lexeme :=
  [⟨.symbol .closeParen, ⟨21, 22⟩⟩]

end Binds

open Binds in
/-- The parameter of the sample is declared for the whole of it. -/
theorem binds_declared_sample :
    (tokenize sample = .ok (sampleBefore ++ (sampleBinding ++ sampleAfter)).toArray ∧
      Binds "y" (sampleBinding.map Lexeme.token) ∧
      ∀ b ∈ sampleBinding, lineOf sample.toList b = 2) ∧
    "y" ∈ declaredNames (Text.lines sample.toList) ∧
    ∀ engine settings, ∀ d ∈ diagnose engine settings sample, ¬Usage.Warns "y" d := by
  have hok : tokenize sample = .ok (sampleBefore ++ (sampleBinding ++ sampleAfter)).toArray := by
    cbv
  have hbinds : Binds "y" (sampleBinding.map Lexeme.token) :=
    .parameter (.cons "x" (.cons "y" .nil)) (by simp)
  have hline : ∀ b ∈ sampleBinding, lineOf sample.toList b = 2 := by decide
  refine ⟨⟨hok, hbinds, hline⟩, binds_declared sample _ hok "y" _ _ _ rfl hbinds 2 hline ?_⟩
  rintro b ⟨⟩ d hd
  have hspace : (Source.before sample.toList 10).getLast? = some ' ' := by decide
  rw [Option.mem_unique hd hspace]
  rfl

end ScriptLint
