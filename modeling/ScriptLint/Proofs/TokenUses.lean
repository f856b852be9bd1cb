import Mathlib
import ScriptLint.Proofs.Reading
import ScriptLint.Proofs.Scrubbed

/-!
# The lint over tokens

Undefined variables can be looked for among the tokens of a script instead of the characters of its
lines. Both ways agree wherever literals hold no backslash and no word stands right behind a digit.

* `TokenLint.warnings`: the lint as a walk over the tokens of a text.
* `TokenLint.Row`: a scrubbed line with its tokens; `row_of_reads`: every line that is read is one.
* `Row.called_iff`, `Row.marks_eq`: along a row, characters and tokens say the same.
* `undefinedNames_eq_warnings`: **the lint over lines is the lint over tokens.**
-/

namespace ScriptLint

open Token (isWordStart isWordChar Spelled Munch Reads isQuote)
open Source (byteLength)

namespace Source

theorem walk_of_not_mem {p : List Char} (h : '\n' ∉ p) (line column : ℕ) :
    walk line column p (byteLength p) = (line, column + p.length) := by
  induction p generalizing column with
  | nil => rfl
  | cons c p ih =>
    obtain ⟨hc, hp⟩ := not_or.1 (List.mem_cons.not.1 h)
    have hge : ¬ c.utf8Size + byteLength p < c.utf8Size := by omega
    have hsub : c.utf8Size + byteLength p - c.utf8Size = byteLength p := by omega
    simp only [byteLength, walk, hge, if_false, hsub, if_neg (Ne.symm hc), ih hp,
      List.length_cons]
    rw [Nat.add_assoc, Nat.add_comm 1]

/-- Along a line the column counts the characters. -/
theorem walk_along {p u q : List Char} {number column : ℕ} (hu : '\n' ∉ u)
    (h : walk 1 1 (p ++ (u ++ q)) (byteLength p) = (number, column)) :
    walk 1 1 (p ++ (u ++ q)) (byteLength (p ++ u)) = (number, column + u.length) := by
  rw [walk_append] at h
  rw [byteLength_append, walk_append_add, h, walk_append, walk_of_not_mem hu]

/-- A line break leads to the next line. -/
theorem walk_break {p q : List Char} {number column : ℕ}
    (h : walk 1 1 (p ++ '\n' :: q) (byteLength p) = (number, column)) :
    walk 1 1 (p ++ '\n' :: q) (byteLength (p ++ ['\n'])) = (number + 1, 1) := by
  rw [walk_append] at h
  rw [byteLength_append, walk_append_add, h]
  have hbreak : byteLength ['\n'] = 1 := rfl
  have hsize : '\n'.utf8Size = 1 := rfl
  simp [hbreak, walk, hsize, walk_zero]

end Source

namespace TokenLint

/-! ## The lint over tokens -/

/-- The line on which a token begins. -/
def lineOf (text : List Char) (x : Lexeme) : ℕ :=
  (Source.walk 1 1 text x.span.start).1

/-- The first of the tokens that stands on the line and is no string literal. -/
def nearest (text : List Char) (line : ℕ) (xs : List Lexeme) : Option Token :=
  (xs.find? fun x => lineOf text x = line && !x.token.isLiteral).map Lexeme.token

/-- Is a token, with the tokens `before` it read leftwards and those `after` it, neither declared
nor a member nor called? -/
def isPlain (text : List Char) (before : List Lexeme) (x : Lexeme) (after : List Lexeme) : Bool :=
  let left := nearest text (lineOf text x) before
  let right := nearest text (lineOf text x) after
  left ≠ some (.keyword .letKw) && left ≠ some (.symbol .dot) && left ≠ some (.symbol .safeDot) &&
    right ≠ some (.symbol .openParen)

/-- A warning for each identifier that is used plainly and neither known nor reported yet. -/
def warnings (text : List Char) (known : String → Bool) (reported : List String)
    (before : List Lexeme) : List Lexeme → List Diagnostic
  | [] => []
  | x :: after =>
    match x.token with
    | .ident name =>
      if isPlain text before x after && !known name && !reported.contains name then
        let place := Source.positionAt text x.span.start
        ⟨place.line, place.column, "Undefined variable '" ++ name ++ "'", .warning⟩ ::
          warnings text known (name :: reported) (x :: before) after
      else warnings text known reported (x :: before) after
    | _ => warnings text known reported (x :: before) after

/-- Is the name a function of the library, declared or given by the host? -/
def isKnown (declared globals : List String) (name : String) : Bool :=
  Vocabulary.isNative name || declared.contains name || globals.contains name

/-- The identifiers among the tokens, each at its place. -/
def identifiers (text : List Char) (xs : List Lexeme) : List Use :=
  xs.filterMap fun x => match x.token with
    | .ident name =>
      let place := Source.walk 1 1 text x.span.start
      some ⟨place.1, place.2, name⟩
    | _ => none

/-- The words that the scrubbed lines hold besides keywords, each at its place. -/
def wordsOf (number : ℕ) : List (List Char) → List Use
  | [] => []
  | l :: ls =>
    ((Usage.sites [] (scrub l)).filterMap fun s =>
      let name := String.ofList s.name
      if Vocabulary.isKeyword name then none else some ⟨number, s.column, name⟩) ++
    wordsOf (number + 1) ls

/-! ## Rows -/

/-- A scrubbed line from a column on, with the tokens that begin there. A literal stands in front of
the spaces that cover it. -/
inductive Row (text : List Char) (number : ℕ) : ℕ → List Char → List Lexeme → Prop
  | nil {column : ℕ} : Row text number column [] []
  | blank {column : ℕ} {d : Char} {cs : List Char} {xs : List Lexeme} (hd : Text.isBlank d = true)
      (h : Row text number (column + 1) cs xs) : Row text number column (d :: cs) xs
  | literal {column : ℕ} {x : Lexeme} {cs : List Char} {xs : List Lexeme}
      (hx : x.token.isLiteral = true)
      (hplace : Source.walk 1 1 text x.span.start = (number, column))
      (h : Row text number column cs xs) : Row text number column cs (x :: xs)
  | token {column : ℕ} {x : Lexeme} {u cs : List Char} {xs : List Lexeme}
      (hx : x.token.isLiteral = false)
      (hplace : Source.walk 1 1 text x.span.start = (number, column))
      (hkind : Kind x.token u)
      (hapart : ∀ d ∈ u.getLast?, isWordChar d = true → ∀ e ∈ cs.head?, isWordChar e = false)
      (h : Row text number (column + u.length) cs xs) : Row text number column (u ++ cs) (x :: xs)

variable {text cs u left : List Char} {number column : ℕ} {x : Lexeme}
  {xs before later : List Lexeme}

theorem Row.blanks (hu : ∀ d ∈ u, Text.isBlank d = true)
    (h : Row text number (column + u.length) cs xs) : Row text number column (u ++ cs) xs := by
  induction u generalizing column with
  | nil => exact h
  | cons d u ih =>
    refine .blank (hu d List.mem_cons_self) (ih (fun e he => hu e (List.mem_cons_of_mem _ he)) ?_)
    rwa [List.length_cons, Nat.add_comm u.length, ← Nat.add_assoc] at h

theorem Row.lineOf_eq (h : Row text number column cs xs) : ∀ x ∈ xs, lineOf text x = number := by
  induction h with
  | nil => simp
  | blank _ _ ih => exact ih
  | literal _ hplace _ ih => exact List.forall_mem_cons.2 ⟨congrArg Prod.fst hplace, ih⟩
  | token _ hplace _ _ _ ih => exact List.forall_mem_cons.2 ⟨congrArg Prod.fst hplace, ih⟩

theorem nearest_cons_literal (hx : x.token.isLiteral = true) :
    nearest text number (x :: xs) = nearest text number xs := by
  simp [nearest, hx]

theorem nearest_cons_token (hx : x.token.isLiteral = false) (hline : lineOf text x = number) :
    nearest text number (x :: xs) = some x.token := by
  simp [nearest, hx, hline]

theorem nearest_of_forall_ne (h : ∀ x ∈ xs, lineOf text x ≠ number) :
    nearest text number xs = none := by
  rw [nearest, Option.map_eq_none_iff, List.find?_eq_none]
  intro x hx
  simp [h x hx]

/-- **A parenthesis follows among the characters if one follows among the tokens.** -/
theorem Row.called_iff (h : Row text number column cs xs)
    (hlater : ∀ x ∈ later, lineOf text x ≠ number) :
    (cs.dropWhile Text.isBlank).head? = some '(' ↔
      nearest text number (xs ++ later) = some (.symbol .openParen) := by
  induction h with
  | nil => simp [nearest_of_forall_ne hlater]
  | blank hd _ ih => rw [List.dropWhile_cons_of_pos hd, ih]
  | literal hx _ _ ih => rw [List.cons_append, nearest_cons_literal hx, ih]
  | token hx hplace hkind _ _ _ =>
    obtain ⟨e, he, hblank, hparen⟩ := hkind.head hx
    obtain ⟨r, rfl⟩ := List.head?_eq_some_iff.1 he
    rw [List.cons_append, List.dropWhile_cons_of_neg (by simp [hblank]), List.cons_append,
      nearest_cons_token hx (congrArg Prod.fst hplace), List.head?_cons, Option.some.injEq,
      Option.some.injEq, hparen]

/-! ## Lines that are read are rows -/

theorem isBlank_of_isGap {c : Char} (h : Token.isGap c = true) : Text.isBlank c = true := by
  rcases Token.isGap_iff.1 h with rfl | rfl | rfl | rfl | rfl <;> decide

theorem not_mem_of_body {q : Char} {v content : List Char} (h : Token.Body q v content)
    (hv : '\\' ∉ v) : q ∉ v := by
  induction h with
  | nil => simp
  | plain hquote _ _ _ ih =>
    obtain ⟨-, hrest⟩ := not_or.1 (List.mem_cons.not.1 hv)
    exact List.mem_cons.not.2 (not_or.2 ⟨Ne.symm hquote, ih hrest⟩)
  | escape _ _ _ => exact absurd List.mem_cons_self hv

/-- A comment takes the rest of its line. -/
theorem comment_end {v rest : List Char}
    (h : Munch ('/' :: '/' :: v ++ rest) .gap ('/' :: '/' :: v))
    (hv : ∀ d ∈ v, d ≠ '\n') (hrest : '\n' ∉ rest) : rest = [] := by
  cases rest with
  | nil => rfl
  | cons d rest =>
    have hlonger : Spelled .gap ('/' :: '/' :: (v ++ [d])) := .comment fun e he => by
      rcases List.mem_append.1 he with he | he
      · exact hv e he
      · rintro rfl
        exact hrest (List.mem_cons.2 (.inl (List.mem_singleton.1 he)))
    have hle := h.longest _ _ hlonger ⟨rest, by simp⟩
    simp only [List.length_cons, List.length_append, List.length_nil] at hle
    omega

/-- Behind a word or a number, no word character follows. -/
theorem apart_of_munch {t : Token} {rest : List Char} (h : Munch (u ++ rest) (.token t) u)
    (hkind : Kind t u) (ht : t.isLiteral = false)
    (hdigit : ∀ d ∈ u.getLast?, d.isDigit = true → ∀ e ∈ rest.head?, isWordStart e = false) :
    ∀ d ∈ u.getLast?, isWordChar d = true → ∀ e ∈ (scrub rest).head?, isWordChar e = false := by
  have hnumeral : Numeral u → ∀ e ∈ rest.head?, isWordChar e = false := by
    intro hu e he
    obtain ⟨d, hd, hd'⟩ := hu.last
    by_contra hne
    rcases Token.isWordChar_iff.1 (by simpa using hne) with hstart | hdigit'
    · rw [hdigit d hd hd' e he] at hstart
      cases hstart
    · rw [h.numeral_next hu e he] at hdigit'
      cases hdigit'
  intro d hd hword e he
  have hnext : ∀ e ∈ rest.head?, isWordChar e = false := by
    cases hkind with
    | word hc hw => exact h.word_next hc hw
    | int hu => exact hnumeral hu
    | float hu => exact hnumeral hu
    | str _ _ => cases ht
    | @symbol s c w hs =>
      rw [← hs] at hd
      cases s <;> cases hd <;> exact absurd hword (by decide)
  rcases head_scrub rest e he with rfl | hhead
  · decide
  · exact hnext e hhead

theorem isBlank_of_mem_spaces {n : ℕ} {d : Char} (h : d ∈ List.replicate n ' ') :
    Text.isBlank d = true := by
  rw [List.eq_of_mem_replicate h]
  decide

theorem Row.gap {pre : List Char} {c : Char} {w : List Char}
    (h : Munch (c :: w ++ pre) .gap (c :: w)) (hpre : '\n' ∉ pre)
    (hrow : Row text number (column + (c :: w).length) (scrub pre) xs) :
    Row text number column (scrub (c :: w ++ pre)) xs := by
  rcases (h.spelled (by simp)).gap_cases with hblanks | ⟨v, hcomment, hv⟩
  · have hblanks' := fun d hd => isBlank_of_isGap (hblanks d hd)
    rw [scrub_append fun d hd => Usage.kept_of_isBlank (hblanks' d hd)]
    exact hrow.blanks hblanks'
  · rw [hcomment] at h hrow ⊢
    obtain rfl := comment_end h hv hpre
    rw [List.append_nil, scrub_comment, ← List.append_nil (List.replicate _ _)]
    refine Row.blanks (fun d hd => isBlank_of_mem_spaces hd) ?_
    rw [List.length_replicate]
    exact hrow

theorem Row.string {pre : List Char} (hkind : Kind x.token u) (hx : x.token.isLiteral = true)
    (hslash : '\\' ∉ u) (hplace : Source.walk 1 1 text x.span.start = (number, column))
    (hrow : Row text number (column + u.length) (scrub pre) xs) :
    Row text number column (scrub (u ++ pre)) (x :: xs) := by
  refine .literal hx hplace ?_
  generalize x.token = t at hkind hx
  cases hkind with
  | word _ _ => rw [Token.not_isLiteral_ofWord] at hx; cases hx
  | int _ => cases hx
  | float _ => cases hx
  | symbol _ => cases hx
  | @str q content v hq hbody =>
    have hv : q ∉ v := not_mem_of_body hbody fun hmem =>
      hslash (List.mem_cons_of_mem _ (List.mem_append_left _ hmem))
    have happend : q :: (v ++ [q]) ++ pre = q :: (v ++ q :: pre) := by simp
    rw [happend, scrub_literal hq hv]
    refine Row.blanks (fun d hd => isBlank_of_mem_spaces hd) ?_
    rw [List.length_replicate]
    simpa using hrow

/-- **A line that is read is a row**, if its literals hold no backslash and its words do not stand
right behind a digit. -/
theorem row_of_reads {offset : ℕ} {cur rest p post : List Char} (h : Reads offset cur rest xs)
    (hrest : rest = []) (hoffset : offset = byteLength p) (htext : text = p ++ (cur ++ post))
    (hline : '\n' ∉ cur) (hplace : Source.walk 1 1 text offset = (number, column))
    (hliterals : ∀ x ∈ xs, x.token.isLiteral = true → '\\' ∉ Source.slice text x.span)
    (hwords : ∀ x ∈ xs, x.token.isWord = true →
      ∀ d ∈ (Source.before text x.span.start).getLast?, d.isDigit = false) :
    Row text number column (scrub cur) xs := by
  induction h generalizing p column with
  | nil => exact .nil
  | @gap offset c w pre rest xs hfirst _ ih =>
    subst hrest hoffset
    rw [← List.cons_append] at hline htext ⊢
    rw [List.append_assoc] at htext
    obtain ⟨hu, hpre⟩ := not_or.1 (List.mem_append.not.1 hline)
    rw [Token.first_eq_iff, List.append_nil, ← List.cons_append] at hfirst
    refine Row.gap hfirst hpre (ih rfl ?_ ?_ hpre ?_ hliterals hwords (p := p ++ c :: w))
    · rw [Source.byteLength_append]
    · rw [htext, List.append_assoc]
    · rw [← Source.byteLength_append]
      rw [htext] at hplace ⊢
      exact Source.walk_along hu hplace
  | @token offset c w pre rest t xs hfirst hreads ih =>
    subst hrest hoffset
    rw [← List.cons_append] at hline htext ⊢
    rw [List.append_assoc] at htext
    obtain ⟨hu, hpre⟩ := not_or.1 (List.mem_append.not.1 hline)
    obtain ⟨hliteral, hliterals⟩ := List.forall_mem_cons.1 hliterals
    obtain ⟨-, hwords⟩ := List.forall_mem_cons.1 hwords
    rw [Token.first_eq_iff, List.append_nil, ← List.cons_append] at hfirst
    rw [← Source.byteLength_append] at ih hreads
    have hkind := (hfirst.spelled (by simp)).kind
    have hrow : Row text number (column + (c :: w).length) (scrub pre) xs := by
      refine ih rfl rfl ?_ hpre ?_ hliterals hwords
      · rw [htext, List.append_assoc]
      · rw [htext] at hplace ⊢
        exact Source.walk_along hu hplace
    cases ht : t.isLiteral with
    | true =>
      have hslash := hliteral ht
      rw [htext, Source.slice_append] at hslash
      exact Row.string hkind ht hslash hplace hrow
    | false =>
      rw [scrub_token hfirst hkind ht]
      refine .token ht hplace hkind (apart_of_munch hfirst hkind ht ?_) hrow
      -- a word right behind a digit would be a token with a digit before it
      intro d hd hdigit e he
      by_contra hstart
      obtain ⟨more, rfl⟩ := List.head?_eq_some_iff.1 he
      obtain ⟨name, stop, ys, rfl⟩ := hreads.word_head (by simpa using hstart)
      have hlast := hwords _ List.mem_cons_self (Token.isWord_ofWord name) d
      rw [htext, ← List.append_assoc, Source.before_append,
        List.getLast?_append_of_ne_nil _ (List.cons_ne_nil c w)] at hlast
      rw [hlast hd] at hdigit
      cases hdigit

/-! ## Identifiers and their marks -/

/-- The identifiers among the tokens, each with whether it is used plainly. -/
def tokenMarks (text : List Char) (before : List Lexeme) : List Lexeme → List (Use × Bool)
  | [] => []
  | x :: after =>
    match x.token with
    | .ident name =>
      let place := Source.walk 1 1 text x.span.start
      (⟨place.1, place.2, name⟩, isPlain text before x after) :: tokenMarks text (x :: before) after
    | _ => tokenMarks text (x :: before) after

/-- The words among the identifiers of a line besides keywords, each with whether it is used
plainly. -/
def siteMarks (number : ℕ) (ss : List Usage.Site) : List (Use × Bool) :=
  ss.filterMap fun s =>
    let name := String.ofList s.name
    if Vocabulary.isKeyword name then none else some (⟨number, s.column, name⟩, s.isPlain)

def lineMarks (number : ℕ) : List (List Char) → List (Use × Bool)
  | [] => []
  | l :: ls => siteMarks number (Usage.sites [] (scrub l)) ++ lineMarks (number + 1) ls

theorem tokenMarks_ident {name : String} (hx : x.token = .ident name) (after : List Lexeme) :
    tokenMarks text before (x :: after) =
      (⟨(Source.walk 1 1 text x.span.start).1, (Source.walk 1 1 text x.span.start).2, name⟩,
        isPlain text before x after) :: tokenMarks text (x :: before) after := by
  rw [tokenMarks, hx]

theorem tokenMarks_other (hx : ∀ name, x.token ≠ .ident name) (after : List Lexeme) :
    tokenMarks text before (x :: after) = tokenMarks text (x :: before) after := by
  rw [tokenMarks]
  split
  · next name h => exact absurd h (hx name)
  · rfl

/-- The words of the vocabulary are the words that tokens know as keywords. -/
theorem isKeyword_eq (name : String) :
    Vocabulary.isKeyword name = (Keyword.ofWord? name).isSome := by
  have hmem : ∀ k : Keyword, k ∈ Vocabulary.keywords ∧ k ∈ Keyword.all := by
    intro k
    cases k <;> decide
  rw [Bool.eq_iff_iff, Vocabulary.isKeyword, Vocabulary.keyword?, Keyword.ofWord?,
    List.find?_isSome, List.find?_isSome]
  constructor
  · rintro ⟨k, -, hk⟩
    exact ⟨k, (hmem k).2, hk⟩
  · rintro ⟨k, -, hk⟩
    exact ⟨k, (hmem k).1, hk⟩

theorem siteMarks_keyword {s : Usage.Site} (h : Vocabulary.isKeyword (String.ofList s.name) = true)
    (ss : List Usage.Site) : siteMarks number (s :: ss) = siteMarks number ss := by
  simp [siteMarks, h]

theorem siteMarks_name {s : Usage.Site} (h : Vocabulary.isKeyword (String.ofList s.name) = false)
    (ss : List Usage.Site) :
    siteMarks number (s :: ss) =
      (⟨number, s.column, String.ofList s.name⟩, s.isPlain) :: siteMarks number ss := by
  simp [siteMarks, h]

/-- The characters on both sides of a word say what the tokens on both sides of it say. -/
theorem isPlain_eq (hline : lineOf text x = number)
    (hfollows : Usage.Follows left (nearest text number before))
    (hleft : ∀ d ∈ left.head?, isWordChar d = false) {after : List Lexeme}
    (hcalled : (cs.dropWhile Text.isBlank).head? = some '(' ↔
      nearest text number after = some (.symbol .openParen)) :
    isPlain text before x after = Usage.Site.isPlain ⟨left, u, cs⟩ := by
  have hmember := Usage.isMember_iff hfollows u cs
  have hdeclared := Usage.isDeclared_iff hfollows hleft u cs
  have hcalled' : Usage.Site.isCalled ⟨left, u, cs⟩ = true ↔
      nearest text number after = some (.symbol .openParen) := by
    rw [← hcalled, Usage.Site.isCalled, decide_eq_true_eq]
  rw [Bool.eq_iff_iff]
  simp only [isPlain, Usage.Site.isPlain, hline, Bool.and_eq_true, Bool.not_eq_true',
    ← Bool.not_eq_true, hmember, hdeclared, hcalled', decide_eq_true_eq]
  tauto

/-- Numbers and symbols hold no identifiers. -/
theorem sites_token {t : Token} (hkind : Kind t u) (ht : t.isLiteral = false)
    (hword : t.isWord = false)
    (hapart : ∀ d ∈ u.getLast?, isWordChar d = true → ∀ e ∈ cs.head?, isWordChar e = false) :
    Usage.sites left (u ++ cs) = Usage.sites (u.reverse ++ left) cs := by
  have hnumeral : Numeral u → Usage.sites left (u ++ cs) = Usage.sites (u.reverse ++ left) cs := by
    intro hu
    obtain ⟨d, hd, hdigit⟩ := hu.last
    exact Usage.sites_numeral hu (hapart d hd (Token.isWordChar_iff.2 (.inr hdigit))) left
  cases hkind with
  | word _ _ => rw [Token.isWord_ofWord] at hword; cases hword
  | int hu => exact hnumeral hu
  | float hu => exact hnumeral hu
  | str _ _ => cases ht
  | @symbol s c w hs =>
    exact Usage.sites_append (fun d hd => (symbol_chars hs d hd).1) left cs

/-- **Along a row, the identifiers of the line are those among its tokens.** -/
theorem Row.marks_eq (h : Row text number column cs xs) (hcolumn : column = left.length + 1)
    (hlater : ∀ x ∈ later, lineOf text x ≠ number)
    (hfollows : Usage.Follows left (nearest text number before))
    (hapart : ∀ d ∈ left.head?, isWordChar d = true → ∀ e ∈ cs.head?, isWordChar e = false) :
    tokenMarks text before (xs ++ later) =
      siteMarks number (Usage.sites left cs) ++ tokenMarks text (xs.reverse ++ before) later := by
  induction h generalizing left before with
  | nil => simp [Usage.sites_nil, siteMarks]
  | @blank column d cs xs hd _ ih =>
    have hword := Usage.isWordChar_of_isBlank hd
    rw [Usage.sites_cons hword]
    refine ih (by rw [hcolumn, List.length_cons]) ?_ ?_
    · exact hfollows.blanks (u := [d]) (List.forall_mem_singleton.2 hd)
    · rintro e ⟨⟩ he
      rw [hword] at he
      cases he
  | @literal column x cs xs hx _ _ ih =>
    have hother : ∀ name, x.token ≠ .ident name := by
      intro name h
      rw [h] at hx
      cases hx
    rw [List.cons_append, tokenMarks_other hother,
      ih hcolumn (by rwa [nearest_cons_literal hx]) hapart]
    simp
  | @token column x u cs xs hx hplace hkind hapart' hrow ih =>
    have hline : lineOf text x = number := congrArg Prod.fst hplace
    obtain ⟨e, he, -⟩ := hkind.last hx
    have hhead : (u.reverse ++ left).head? = u.getLast? := by
      rw [List.head?_append, List.head?_reverse, he, Option.some_or]
    -- a word is not directly behind another one
    have hleft : x.token.isWord = true → ∀ d ∈ left.head?, isWordChar d = false := by
      intro hword d hd
      by_contra hd'
      obtain ⟨c, w, rfl, -, -, hchars⟩ := hkind.exists_word hword
      have hc := hapart d hd (by simpa using hd') c rfl
      rw [hchars c List.mem_cons_self] at hc
      cases hc
    have hfollows' : Usage.Follows (u.reverse ++ left) (nearest text number (x :: before)) := by
      rw [nearest_cons_token hx hline]
      exact ⟨[], u, left, rfl, by simp, hkind, hx, hleft⟩
    have hcolumn' : column + u.length = (u.reverse ++ left).length + 1 := by
      rw [hcolumn, List.length_append, List.length_reverse]
      omega
    have hrest := ih hcolumn' hfollows' (by rw [hhead]; exact hapart')
    rw [List.cons_append, List.reverse_cons, List.append_assoc, List.singleton_append]
    cases hword : x.token.isWord with
    | false =>
      have hother : ∀ name, x.token ≠ .ident name := by
        intro name h
        rw [h] at hword
        cases hword
      rw [tokenMarks_other hother, hrest, sites_token hkind hx hword hapart']
    | true =>
      obtain ⟨c, w, rfl, htoken, hc, hchars⟩ := hkind.exists_word hword
      have hcs := hapart' e he (hchars e (List.mem_of_getLast? he))
      have hw : ∀ d ∈ w, isWordChar d = true := fun d hd => hchars d (List.mem_cons_of_mem _ hd)
      rw [Usage.sites_word hc hw hcs]
      cases hk : Keyword.ofWord? (String.ofList (c :: w)) with
      | some k =>
        have hkeyword : x.token = .keyword k := by rw [htoken, Token.ofWord, hk]
        rw [tokenMarks_other (by simp [hkeyword]), hrest,
          siteMarks_keyword (by rw [isKeyword_eq, hk]; rfl)]
      | none =>
        have hident : x.token = .ident (String.ofList (c :: w)) := by rw [htoken, Token.ofWord, hk]
        rw [tokenMarks_ident hident, hrest, siteMarks_name (by rw [isKeyword_eq, hk]; rfl),
          List.cons_append, hplace,
          isPlain_eq hline hfollows (hleft hword) (hrow.called_iff hlater), hcolumn]
        rfl

/-! ## All lines -/

theorem lines_of_not_mem {l : List Char} (h : '\n' ∉ l) : Text.lines l = [l] :=
  Text.pieces_of_not_mem h

theorem lines_append_break {l : List Char} (h : '\n' ∉ l) (b : List Char) :
    Text.lines (l ++ '\n' :: b) = l :: Text.lines b :=
  Text.pieces_append h b

/-- A line in front of other tokens, none of which stands on it. -/
theorem Row.line_marks (h : Row text number 1 (scrub cs) xs)
    (hbefore : ∀ x ∈ before, lineOf text x ≠ number)
    (hlater : ∀ x ∈ later, lineOf text x ≠ number) :
    tokenMarks text before (xs ++ later) =
      siteMarks number (Usage.sites [] (scrub cs)) ++
        tokenMarks text (xs.reverse ++ before) later := by
  refine h.marks_eq rfl hlater ?_ (by simp)
  rw [nearest_of_forall_ne hbefore]
  simp [Usage.Follows]

/-- **The identifiers of the lines are those among the tokens**, with the same marks. -/
theorem tokenMarks_eq_lineMarks {p rest : List Char} (h : Reads (byteLength p) rest [] xs)
    (htext : text = p ++ rest) (hplace : Source.walk 1 1 text (byteLength p) = (number, 1))
    (hbefore : ∀ x ∈ before, lineOf text x < number)
    (hliterals : ∀ x ∈ xs, x.token.isLiteral = true → '\\' ∉ Source.slice text x.span)
    (hwords : ∀ x ∈ xs, x.token.isWord = true →
      ∀ d ∈ (Source.before text x.span.start).getLast?, d.isDigit = false) :
    tokenMarks text before xs = lineMarks number (Text.lines rest) ∧
      ∀ x ∈ xs, number ≤ lineOf text x := by
  have hbefore' : ∀ x ∈ before, lineOf text x ≠ number := fun x hx => (hbefore x hx).ne
  induction hn : rest.length using Nat.strong_induction_on
    generalizing p rest number xs before with
  | _ n ih =>
    by_cases hbreak : '\n' ∈ rest
    · obtain ⟨l, b, rfl, hl⟩ := List.eq_append_cons_of_mem hbreak
      obtain ⟨ys, zs, rfl, hys, hzs⟩ := h.split_line
      obtain ⟨hliterals₁, hliterals₂⟩ := List.forall_mem_append.1 hliterals
      obtain ⟨hwords₁, hwords₂⟩ := List.forall_mem_append.1 hwords
      have hrow := row_of_reads hys rfl rfl htext hl hplace hliterals₁ hwords₁
      -- the next line begins behind the line break
      have hnext : byteLength p + byteLength l + 1 = byteLength (p ++ l ++ ['\n']) := by
        rw [Source.byteLength_append, Source.byteLength_append]
        rfl
      have hplace' : Source.walk 1 1 text (byteLength (p ++ l ++ ['\n'])) = (number + 1, 1) := by
        rw [htext] at hplace ⊢
        have halong := Source.walk_along hl hplace
        rw [← List.append_assoc] at halong ⊢
        exact Source.walk_break halong
      have hlt : b.length < n := by
        rw [← hn, List.length_append, List.length_cons]
        omega
      rw [hnext] at hzs
      have hbefore₂ : ∀ x ∈ ys.reverse ++ before, lineOf text x < number + 1 := by
        intro x hx
        rcases List.mem_append.1 hx with hx | hx
        · rw [hrow.lineOf_eq x (List.mem_reverse.1 hx)]
          exact Nat.lt_succ_self number
        · exact Nat.lt_succ_of_lt (hbefore x hx)
      have htext' : text = p ++ l ++ ['\n'] ++ b := by rw [htext]; simp
      obtain ⟨hmarks, hlines⟩ := ih b.length hlt hzs htext' hplace' hbefore₂ hliterals₂ hwords₂
        (fun x hx => (hbefore₂ x hx).ne) rfl
      have hlater : ∀ x ∈ zs, lineOf text x ≠ number := fun x hx => Nat.ne_of_gt (hlines x hx)
      refine ⟨?_, List.forall_mem_append.2 ⟨fun x hx => (hrow.lineOf_eq x hx).ge, fun x hx => ?_⟩⟩
      · rw [hrow.line_marks hbefore' hlater, hmarks, lines_append_break hl]
        rfl
      · exact Nat.le_of_succ_le (hlines x hx)
    · have htext' : text = p ++ (rest ++ []) := by rw [htext, List.append_nil]
      have hrow := row_of_reads h rfl rfl htext' hbreak hplace hliterals hwords
      have hmarks := hrow.line_marks hbefore' (List.forall_mem_nil _)
      rw [List.append_nil] at hmarks
      refine ⟨?_, fun x hx => (hrow.lineOf_eq x hx).ge⟩
      rw [hmarks, lines_of_not_mem hbreak]
      rfl

/-! ## Reports -/

/-- The uses that are marked plain. -/
def plainUses (marks : List (Use × Bool)) : List Use :=
  (marks.filter Prod.snd).map Prod.fst

theorem plainUses_append (ms ns : List (Use × Bool)) :
    plainUses (ms ++ ns) = plainUses ms ++ plainUses ns := by
  simp [plainUses]

theorem plainUses_siteMarks (ss : List Usage.Site) :
    plainUses (siteMarks number ss) =
      ((ss.filter Usage.Site.isPlain).map fun s =>
        (⟨number, s.column, String.ofList s.name⟩ : Use)).filter
          fun u => !Vocabulary.isKeyword u.name := by
  induction ss with
  | nil => rfl
  | cons s ss ih =>
    cases hk : Vocabulary.isKeyword (String.ofList s.name) with
    | true =>
      rw [siteMarks_keyword hk, ih]
      cases hp : s.isPlain <;> simp [hp, hk]
    | false =>
      rw [siteMarks_name hk]
      cases hp : s.isPlain
      · rw [List.filter_cons_of_neg (by simp [hp]), ← ih]
        simp [plainUses]
      · rw [List.filter_cons_of_pos hp, List.map_cons, List.filter_cons_of_pos (by simp [hk]), ← ih]
        simp [plainUses]

theorem inLines_filter (number : ℕ) (ls : List (List Char)) :
    (Usage.inLines number ls).filter (fun u => !Vocabulary.isKeyword u.name) =
      plainUses (lineMarks number ls) := by
  induction ls generalizing number with
  | nil => rfl
  | cons l ls ih =>
    rw [Usage.inLines, lineMarks, List.filter_append, ih, plainUses_append, plainUses_siteMarks,
      Usage.inLine]
    by_cases hcomment : isCommentLine l = true
    · rw [if_pos hcomment, Usage.sites_of_isCommentLine hcomment]
      rfl
    · rw [if_neg hcomment]

theorem firstUses_filter (known skip : String → Bool) (seen : List String) (us : List Use) :
    Usage.firstUses (fun name => skip name || known name) seen us =
      Usage.firstUses known seen (us.filter fun u => !skip u.name) := by
  induction us generalizing seen with
  | nil => rfl
  | cons u us ih =>
    cases hskip : skip u.name with
    | true =>
      rw [List.filter_cons_of_neg (by simp [hskip]), Usage.firstUses, if_pos (by simp [hskip]), ih]
    | false =>
      rw [List.filter_cons_of_pos (by simp [hskip]), Usage.firstUses, Usage.firstUses]
      simp only [hskip, Bool.false_or, ih]

theorem warning_place (text : List Char) (offset : ℕ) (name : String) :
    Usage.warning ⟨(Source.walk 1 1 text offset).1, (Source.walk 1 1 text offset).2, name⟩ =
      ⟨(Source.positionAt text offset).line, (Source.positionAt text offset).column,
        "Undefined variable '" ++ name ++ "'", .warning⟩ := by
  rw [← make_positionAt, Source.positionAt_eq_walk]
  rfl

theorem warnings_eq (known : String → Bool) (reported : List String) (before xs : List Lexeme) :
    warnings text known reported before xs =
      (Usage.firstUses known reported (plainUses (tokenMarks text before xs))).map
        Usage.warning := by
  induction xs generalizing reported before with
  | nil => rfl
  | cons x xs ih =>
    rw [warnings]
    split
    · next name hx =>
      rw [tokenMarks_ident hx]
      cases hplain : isPlain text before x xs with
      | false => simp [plainUses, ih]
      | true =>
        have hcons : ∀ (u : Use) (ms : List (Use × Bool)),
            plainUses ((u, true) :: ms) = u :: plainUses ms := fun _ _ => rfl
        rw [hcons, Usage.firstUses]
        cases hknown : known name || reported.contains name with
        | true =>
          rw [if_neg (by revert hknown; cases known name <;> simp), ih]
          simp
        | false =>
          obtain ⟨hname, hreported⟩ := Bool.or_eq_false_iff.1 hknown
          rw [if_pos (by rw [hname, hreported]; rfl), ih]
          simp only [Bool.false_eq_true, if_false, List.map_cons, warning_place]
    · next hx => rw [tokenMarks_other (fun name h => hx name h), ih]

theorem identifiers_eq (before xs : List Lexeme) :
    identifiers text xs = (tokenMarks text before xs).map Prod.fst := by
  induction xs generalizing before with
  | nil => rfl
  | cons x xs ih =>
    rw [identifiers, List.filterMap_cons, ← identifiers, tokenMarks, ih (x :: before)]
    cases x.token <;> rfl

theorem wordsOf_eq (number : ℕ) (ls : List (List Char)) :
    wordsOf number ls = (lineMarks number ls).map Prod.fst := by
  induction ls generalizing number with
  | nil => rfl
  | cons l ls ih =>
    rw [wordsOf, lineMarks, List.map_append, ih, siteMarks, List.map_filterMap]
    congr 1
    refine List.filterMap_congr fun s _ => ?_
    dsimp only
    split <;> rfl

end TokenLint

open TokenLint in
/-- **The lint over lines is the lint over tokens.** Where no literal holds a backslash and no word
stands right behind a digit, the scrubbed lines hold the identifiers among the tokens, each at its
place, and what is reported is what a walk over the tokens reports. -/
theorem undefinedNames_eq_warnings (source : String) (declared globals : List String)
    (lexemes : Array Lexeme) (h : tokenize source = .ok lexemes)
    (hliterals : ∀ x ∈ lexemes, x.token.isLiteral = true →
      '\\' ∉ Source.slice source.toList x.span)
    (hwords : ∀ x ∈ lexemes, x.token.isWord = true →
      ∀ d ∈ (Source.before source.toList x.span.start).getLast?, d.isDigit = false) :
    undefinedNames declared globals (Text.lines source.toList) =
        warnings source.toList (TokenLint.isKnown declared globals) [] [] lexemes.toList ∧
      wordsOf 1 (Text.lines source.toList) = identifiers source.toList lexemes.toList := by
  obtain ⟨xs, rfl, hreads⟩ := Token.reads_of_scan (scan_of_tokenize h)
  simp only [Array.empty_append, List.mem_toArray] at hliterals hwords
  have hmarks : tokenMarks source.toList [] xs = lineMarks 1 (Text.lines source.toList) :=
    (tokenMarks_eq_lineMarks (p := []) hreads rfl (Source.walk_zero 1 1 _) (by simp) hliterals
      hwords).1
  rw [Array.empty_append, List.toList_toArray]
  refine ⟨?_, ?_⟩
  · have hknown : Usage.isKnown declared globals =
        fun name => Vocabulary.isKeyword name || TokenLint.isKnown declared globals name := by
      funext name
      simp only [Usage.isKnown, TokenLint.isKnown, Bool.or_assoc]
    rw [undefinedNames, hknown, firstUses_filter, inLines_filter, warnings_eq, hmarks]
  · rw [wordsOf_eq, identifiers_eq [], hmarks]

/-- Names in a literal, behind a dot, in front of a parenthesis and in a comment. -/
def TokenLint.sample : String :=
  "let a = \"é\" + c.d\nf(c) // e"

def TokenLint.sampleLexemes : List Lexeme :=
  [⟨.keyword .letKw, ⟨0, 3⟩⟩, ⟨.ident "a", ⟨4, 5⟩⟩, ⟨.symbol .assign, ⟨6, 7⟩⟩, ⟨.str "é", ⟨8, 12⟩⟩,
    ⟨.symbol .plus, ⟨13, 14⟩⟩, ⟨.ident "c", ⟨15, 16⟩⟩, ⟨.symbol .dot, ⟨16, 17⟩⟩,
    ⟨.ident "d", ⟨17, 18⟩⟩, ⟨.ident "f", ⟨19, 20⟩⟩, ⟨.symbol .openParen, ⟨20, 21⟩⟩,
    ⟨.ident "c", ⟨21, 22⟩⟩, ⟨.symbol .closeParen, ⟨22, 23⟩⟩]

open TokenLint in
/-- Only one name of the sample is reported, at its first use. -/
theorem undefinedNames_eq_warnings_sample :
    tokenize sample = .ok sampleLexemes.toArray ∧
    undefinedNames ["a"] [] (Text.lines sample.toList) =
      [⟨1, 15, "Undefined variable 'c'", .warning⟩] ∧
    wordsOf 1 (Text.lines sample.toList) =
      [⟨1, 5, "a"⟩, ⟨1, 15, "c"⟩, ⟨1, 17, "d"⟩, ⟨2, 1, "f"⟩, ⟨2, 3, "c"⟩] := by
  have hok : tokenize sample = .ok sampleLexemes.toArray := by cbv
  have hslash : ∀ x ∈ sampleLexemes, x.token.isLiteral = true →
      '\\' ∉ Source.slice sample.toList x.span := by decide
  have hdigit : ∀ x ∈ sampleLexemes,
      (Source.before sample.toList x.span.start).getLast?.any Char.isDigit = false := by decide
  obtain ⟨hwarnings, hwords⟩ := undefinedNames_eq_warnings sample ["a"] [] _ hok
    (fun x hx => hslash x (List.mem_toArray.1 hx))
    (fun x hx _ => (Option.any_eq_false _ _).1 (hdigit x (List.mem_toArray.1 hx)))
  refine ⟨hok, ?_, ?_⟩
  · rw [hwarnings]
    cbv
  · rw [hwords]
    cbv

end ScriptLint
