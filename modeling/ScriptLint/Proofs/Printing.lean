import Mathlib
import ScriptLint.Proofs.CommentText

/-!
# Tokens written out

A list of tokens can be written down in many ways: numbers with zeros in front, strings in either
kind of quotes, blanks and comments in between. Whichever is chosen, reading gives the list back, as
long as a blank stands behind each token.

* `Token.written`: how a token is written; `Spelled.of_written`: a writing is a spelling.
* `Spelled.munch`: **a spelling with a blank behind it is the longest match.**
* `Filler.scan_eq`: what may stand between tokens is passed over.
* `layout`, `lexemesFrom`: a list of tokens as a text, and the stretches of the writings in it.
* `tokenize_layout`: **reading undoes writing.**
-/

namespace ScriptLint

open Source (byteLength)

namespace Token

/-! ## Writing a token -/

/-- The choices there are in writing a token: zeros in front of a number, and the quotes around a
string. -/
structure Style where
  zeros : ℕ
  single : Bool
deriving DecidableEq, Repr

def Style.quote (style : Style) : Char :=
  if style.single then '\'' else '"'

/-- A character of a string. A backslash stands before the quote and before a backslash, and a line
break is written by its letter. -/
def escaped (quote c : Char) : List Char :=
  if c = '\\' ∨ c = quote then ['\\', c] else if c = '\n' then ['\\', 'n'] else [c]

/-- How a token is written. -/
def written (style : Style) : Token → List Char
  | ident name => name.toList
  | int value => List.replicate style.zeros '0' ++ Nat.toDigits 10 value
  | float value => value.positional.toList
  | str content =>
    style.quote :: (content.toList.flatMap (escaped style.quote) ++ [style.quote])
  | keyword k => k.spelling.toList
  | symbol s => s.spelling.toList

/-- The tokens whose writings can be read: of the identifiers those that are words and no keywords,
of the whole numbers those that are not too large, and no decimal fractions. -/
def Writable : Token → Prop
  | ident name => (∃ c w, name.toList = c :: w ∧ isWordStart c = true ∧
      ∀ d ∈ w, isWordChar d = true) ∧ ∀ k : Keyword, k.spelling ≠ name
  | int value => value < 2 ^ 63
  | float _ => False
  | str _ | keyword _ | symbol _ => True

variable {c q : Char} {v w rest : List Char} {t : Token} {p : Piece}

theorem Style.isQuote_quote (style : Style) : isQuote style.quote = true := by
  unfold Style.quote
  split <;> decide

/-- Escaping is undone by reading. -/
theorem body_escaped (hq : isQuote q = true) (cs : List Char) :
    Body q (cs.flatMap (escaped q)) cs := by
  induction cs with
  | nil => exact .nil
  | cons c cs ih =>
    rw [List.flatMap_cons, escaped]
    by_cases hescape : c = '\\' ∨ c = q
    · -- neither a backslash nor a quote stands for something else behind a backslash
      have hself : unescape c = c := by
        rcases hescape with rfl | rfl
        · rfl
        · rcases isQuote_iff.1 hq with rfl | rfl <;> rfl
      have hbreak : c ≠ '\n' := by
        rintro rfl
        rcases hescape with h | rfl
        · cases h
        · exact absurd hq (by decide)
      have hbody := Body.escape hbreak ih
      rw [hself] at hbody
      rw [if_pos hescape]
      exact hbody
    rw [if_neg hescape]
    obtain ⟨hslash, hquote⟩ := not_or.1 hescape
    by_cases hbreak : c = '\n'
    · subst hbreak
      rw [if_pos rfl]
      exact Body.escape (by decide) ih
    · rw [if_neg hbreak]
      exact .plain hquote hslash hbreak ih

theorem digitsValue_zeros (n : ℕ) (ds : List Char) :
    digitsValue (List.replicate n '0' ++ ds) = digitsValue ds := by
  induction n with
  | zero => rfl
  | succ n ih =>
    rw [← ih]
    rfl

theorem integer_digits {value : ℕ} (h : value < 2 ^ 63) (zeros : ℕ) :
    integer (List.replicate zeros '0' ++ Nat.toDigits 10 value) = .token (.int value) := by
  have hvalue : digitsValue (Nat.toDigits 10 value) = value :=
    Nat.ofDigitChars_toDigits (by decide) (Nat.le_refl 10)
  have hbound : value < intBound := h
  rw [integer, digitsValue_zeros, hvalue]
  exact if_pos hbound

theorem ofWord_of_ne {name : String} (h : ∀ k : Keyword, k.spelling ≠ name) :
    ofWord name = .ident name := by
  have hnone : Keyword.ofWord? name = none :=
    List.find?_eq_none.2 fun k _ => by simpa using h k
  rw [ofWord, hnone]

theorem keyword_word (k : Keyword) : ∃ c w, k.spelling.toList = c :: w ∧ isWordStart c = true ∧
    ∀ d ∈ w, isWordChar d = true := by
  have hstart : k.spelling.toList.head?.any isWordStart = true := by cases k <;> rfl
  have hword : k.spelling.toList.all isWordChar = true := by cases k <;> rfl
  cases hk : k.spelling.toList with
  | nil =>
    rw [hk] at hstart
    cases hstart
  | cons c w =>
    rw [hk] at hstart hword
    exact ⟨c, w, rfl, hstart, fun d hd =>
      List.all_eq_true.1 hword d (List.mem_cons_of_mem _ hd)⟩

theorem ofWord_keyword (k : Keyword) : ofWord k.spelling = .keyword k := by
  cases k <;> rfl

/-- A writing is a spelling. -/
theorem Spelled.of_written (h : t.Writable) (style : Style) :
    Spelled (.token t) (t.written style) := by
  cases t with
  | ident name =>
    obtain ⟨⟨c, w, hname, hc, hw⟩, hkeyword⟩ := h
    have hspelled := Spelled.word hc hw
    rw [← hname, String.ofList_toList, ofWord_of_ne hkeyword] at hspelled
    exact hspelled
  | int value =>
    have hdigit : ∀ d ∈ List.replicate style.zeros '0' ++ Nat.toDigits 10 value,
        d.isDigit = true := by
      intro d hd
      rcases List.mem_append.1 hd with hd | hd
      · rw [List.eq_of_mem_replicate hd]
        decide
      · exact Locate.isDigit_of_mem_toDigits hd
    have hne : List.replicate style.zeros '0' ++ Nat.toDigits 10 value ≠ [] :=
      List.append_ne_nil_of_right_ne_nil _ Nat.toDigits_ne_nil
    rw [← integer_digits h style.zeros, written]
    obtain ⟨c, w, hw⟩ := List.exists_cons_of_ne_nil hne
    rw [hw] at hdigit ⊢
    exact .digits (hdigit c List.mem_cons_self) fun d hd => hdigit d (List.mem_cons_of_mem _ hd)
  | float value => exact h.elim
  | str content =>
    have hspelled := Spelled.closed style.isQuote_quote
      (body_escaped style.isQuote_quote content.toList)
    rw [String.ofList_toList] at hspelled
    exact hspelled
  | keyword k =>
    obtain ⟨c, w, hk, hc, hw⟩ := keyword_word k
    have hspelled := Spelled.word hc hw
    rw [← hk, String.ofList_toList, ofWord_keyword] at hspelled
    exact hspelled
  | symbol s =>
    have hne : s.spelling.toList ≠ [] := by cases s <;> decide
    obtain ⟨c, w, hs⟩ := List.exists_cons_of_ne_nil hne
    have hspelled := Spelled.symbol hs
    rw [← hs] at hspelled
    exact hspelled

/-! ## Tokens with a blank behind them -/

/-- Nothing, or a text that begins with a blank. -/
def BlankEnd (rest : List Char) : Prop :=
  ∀ d ∈ rest.head?, isGap d = true

/-- A run of characters does not go past a character of another kind. -/
theorem length_le_of_run {f : Char → Bool} (hv : ∀ d ∈ v, f d = true)
    (hrest : ∀ d ∈ rest.head?, f d = false) (h : v <+: w ++ rest) : v.length ≤ w.length := by
  by_contra hlt
  obtain ⟨u, rfl⟩ : w <+: v :=
    List.prefix_of_prefix_length_le (List.prefix_append _ _) h (by omega)
  have hu : u <+: rest := (List.prefix_append_right_inj w).1 h
  cases u with
  | nil => simp at hlt
  | cons d u =>
    obtain ⟨more, rfl⟩ := hu
    have hd := hv d (by simp)
    rw [hrest d rfl] at hd
    cases hd

/-- A number with a blank behind it ends there: neither a digit nor a point follows. -/
theorem length_le_of_numeral (hc : c.isDigit = true) (hshape : Shape p c v (classOf c))
    (hrest : BlankEnd rest) (h : v <+: w ++ rest) : v.length ≤ w.length := by
  have hgap : ∀ d ∈ rest.head?, (d.isDigit || d = '.') = false := by
    intro d hd
    rcases isGap_iff.1 (hrest d hd) with rfl | rfl | rfl | rfl | rfl <;> decide
  refine length_le_of_run (f := fun d => d.isDigit || d = '.') ?_ hgap h
  rw [classOf_digit hc] at hshape
  rcases hshape with ⟨-, hdigits⟩ | ⟨u, places, rfl, hu, -, hplaces, -⟩
  · intro d hd
    rw [hdigits d hd, Bool.true_or]
  · intro d hd
    rcases List.mem_append.1 hd with hd | hd
    · rw [hu d hd, Bool.true_or]
    · rcases List.mem_cons.1 hd with rfl | hd
      · rfl
      · rw [hplaces d hd, Bool.true_or]

/-- A symbol with a blank behind it ends there: no symbol has a blank in it, and a comment has a
slash behind its first. -/
theorem length_le_of_symbol {s : Symbol} (hs : s.spelling.toList = c :: w)
    (hshape : Shape p c v (classOf c)) (hrest : BlankEnd rest) (h : v <+: w ++ rest) :
    v.length ≤ w.length := by
  rw [classOf_symbol hs] at hshape
  rcases hshape with ⟨rfl, -, u, rfl, -⟩ | ⟨s', hs', -⟩
  · cases w with
    | nil =>
      obtain ⟨more, rfl⟩ := h
      exact absurd (hrest '/' rfl) (by decide)
    | cons d w =>
      obtain ⟨rfl, -⟩ := List.cons_prefix_cons.1 h
      exact absurd hs (spelling_ne_comment s w)
  · have hsolid : ∀ d ∈ v, (!isGap d) = true := by
      rcases symbol_cases hs' with ⟨rfl, -⟩ | ⟨d, rfl, hpair⟩
      · simp
      · refine List.forall_mem_singleton.2 ?_
        unfold Symbol.ofPair? at hpair
        split at hpair <;> cases hpair <;> rfl
    exact length_le_of_run hsolid (fun d hd => by rw [hrest d hd]; rfl) h

/-- **A spelling with a blank behind it is the longest match.** -/
theorem Spelled.munch (h : Spelled (.token t) w) (hrest : BlankEnd rest) :
    Munch (w ++ rest) (.token t) w := by
  generalize hp : Piece.token t = p at h ⊢
  cases h with
  | blanks _ _ => cases hp
  | comment _ => cases hp
  | unclosed _ _ => cases hp
  | @word c w hc hw =>
    refine .of_shape (.inl (.word hc hw)) (List.prefix_append w rest) fun p' v hshape hv => ?_
    rw [classOf_word hc] at hshape
    refine length_le_of_run hshape.2 (fun d hd => ?_) hv
    exact Usage.isWordChar_of_isBlank (TokenLint.isBlank_of_isGap (hrest d hd))
  | @digits c w hc hw =>
    exact .of_shape (.inl (.digits hc hw)) (List.prefix_append w rest) fun p' v hshape hv =>
      length_le_of_numeral hc hshape hrest hv
  | @decimal c w places hc hw hne hplaces =>
    exact .of_shape (.inl (.decimal hc hw hne hplaces)) (List.prefix_append _ rest)
      fun p' v hshape hv => length_le_of_numeral hc hshape hrest hv
  | @closed q w content hq hw =>
    -- a literal ends with its quote, whatever follows
    exact first_eq_iff.1 (first_literal hq hw rest)
  | @symbol s c w hs =>
    exact .of_shape (.inl (.symbol hs)) (List.prefix_append w rest) fun p' v hshape hv =>
      length_le_of_symbol hs hshape hrest hv

theorem scan_spelled (h : Spelled (.token t) w) (hrest : BlankEnd rest) (offset : ℕ)
    (read : Array Lexeme) :
    scan offset read (w ++ rest) = scan (offset + byteLength w)
      (read.push ⟨t, ⟨offset, offset + byteLength w⟩⟩) rest := by
  obtain ⟨c, w, rfl⟩ := List.exists_cons_of_ne_nil h.ne_nil
  have hmunch := h.munch hrest
  rw [List.cons_append] at hmunch ⊢
  exact scan_token (first_eq_iff.2 hmunch)

/-! ## What stands between tokens -/

/-- Blanks, and comments with the line break that ends them, in any order. -/
inductive Filler : List Char → Prop
  | nil : Filler []
  | blank {c : Char} {g : List Char} (hc : c ∈ [' ', '\t', '\r', '\n', '\x0c']) (h : Filler g) :
      Filler (c :: g)
  | comment {note g : List Char} (hnote : '\n' ∉ note) (h : Filler g) :
      Filler ('/' :: '/' :: (note ++ '\n' :: g))

/-- What separates a token from the next. It begins with a blank, so that it does not begin with the
slash of a comment. -/
def Separates (g : List Char) : Prop :=
  Filler g ∧ ∃ c ∈ g.head?, c ∈ [' ', '\t', '\r', '\n', '\x0c']

theorem isGap_of_mem (h : c ∈ [' ', '\t', '\r', '\n', '\x0c']) : isGap c = true :=
  isGap_iff.2 (by simpa using h)

theorem Filler.scan_eq {g : List Char} (h : Filler g) (offset : ℕ) (read : Array Lexeme)
    (rest : List Char) :
    scan offset read (g ++ rest) = scan (offset + byteLength g) read rest := by
  induction h generalizing offset with
  | nil => rfl
  | @blank c g hc _ ih =>
    rw [List.cons_append, scan_blank (isGap_of_mem hc), ih, byteLength, Nat.add_assoc]
  | @comment note g hnote _ ih =>
    have hcomment : scan offset read ('/' :: '/' :: note) = .ok read := by
      rw [scan_comment offset read rfl, Text.dropWhile_of_not_mem (by simp [hnote]), scan_nil]
    have hsplit : '/' :: '/' :: (note ++ '\n' :: g) ++ rest =
        '/' :: '/' :: note ++ '\n' :: (g ++ rest) := by simp
    have hlength : byteLength ('/' :: '/' :: (note ++ '\n' :: g)) =
        byteLength ('/' :: '/' :: note) + (1 + byteLength g) :=
      Source.byteLength_append ('/' :: '/' :: note) ('\n' :: g)
    rw [hsplit, scan_lines, hcomment, hlength, ← Nat.add_assoc, ← Nat.add_assoc]
    exact ih _

theorem Separates.blankEnd {g : List Char} (h : Separates g) (rest : List Char) :
    BlankEnd (g ++ rest) := by
  obtain ⟨-, c, hc, hblank⟩ := h
  obtain ⟨g, rfl⟩ := List.head?_eq_some_iff.1 hc
  rintro d ⟨⟩
  exact isGap_of_mem hblank

/-! ## Writing a list of tokens -/

/-- A token in a text: how it is written, and what separates it from the next one. -/
structure Printed where
  token : Token
  style : Style
  gap : List Char
deriving DecidableEq, Repr

def Printed.chars (x : Printed) : List Char :=
  x.token.written x.style

/-- The writings of tokens, each separated from the next. -/
def layout : List Printed → List Char
  | [] => []
  | [x] => x.chars
  | x :: y :: xs => x.chars ++ (x.gap ++ layout (y :: xs))

/-- The tokens, each with the stretch of its writing in a text that begins at an offset. -/
def lexemesFrom (offset : ℕ) : List Printed → List Lexeme
  | [] => []
  | x :: xs => ⟨x.token, ⟨offset, offset + byteLength x.chars⟩⟩ ::
      lexemesFrom (offset + byteLength x.chars + byteLength x.gap) xs

/-- **The writings are read one after the other.** -/
theorem scan_layout {xs : List Printed} (htokens : ∀ x ∈ xs, x.token.Writable)
    (hgaps : ∀ x ∈ xs.dropLast, Separates x.gap) (offset : ℕ) (read : Array Lexeme) :
    scan offset read (layout xs) = .ok (read ++ (lexemesFrom offset xs).toArray) := by
  induction xs generalizing offset read with
  | nil =>
    rw [layout, scan_nil, lexemesFrom]
    simp
  | cons x xs ih =>
    obtain ⟨hx, htokens⟩ := List.forall_mem_cons.1 htokens
    have hspelled : Spelled (.token x.token) x.chars := .of_written hx x.style
    cases xs with
    | nil =>
      have hend : BlankEnd [] := by simp [BlankEnd]
      have hscan := scan_spelled hspelled hend offset read
      rw [List.append_nil, scan_nil] at hscan
      rw [layout, hscan]
      simp [lexemesFrom]
    | cons y xs =>
      obtain ⟨hgap, hgaps⟩ := List.forall_mem_cons.1 hgaps
      rw [layout, scan_spelled hspelled (hgap.blankEnd _), hgap.1.scan_eq, ih htokens hgaps]
      simp [lexemesFrom]

/-- The lexeme has the token, and its stretch of the text is the writing. -/
def Printed.Stands (text : List Char) (x : Printed) (y : Lexeme) : Prop :=
  y.token = x.token ∧ Source.slice text y.span = x.chars

theorem stands_lexemesFrom (u : List Char) (xs : List Printed) :
    List.Forall₂ (Printed.Stands (u ++ layout xs)) xs (lexemesFrom (byteLength u) xs) := by
  induction xs generalizing u with
  | nil => exact .nil
  | cons x xs ih =>
    cases xs with
    | nil =>
      have hslice := Source.slice_append u x.chars []
      rw [List.append_nil] at hslice
      exact .cons ⟨rfl, hslice⟩ .nil
    | cons y xs =>
      have hrest := ih (u ++ x.chars ++ x.gap)
      rw [List.append_assoc, List.append_assoc, Source.byteLength_append,
        Source.byteLength_append] at hrest
      exact .cons ⟨rfl, Source.slice_append u x.chars _⟩ hrest

end Token

open Token (Printed Separates layout lexemesFrom)

/-- **Reading undoes writing.** Tokens that can be written, with blanks and comments between them,
are read as these tokens, each where it is written. -/
theorem tokenize_layout (xs : List Printed) (htokens : ∀ x ∈ xs, x.token.Writable)
    (hgaps : ∀ x ∈ xs.dropLast, Separates x.gap) :
    tokenize (String.ofList (layout xs)) = .ok (lexemesFrom 0 xs).toArray ∧
      List.Forall₂ (Printed.Stands (layout xs)) xs (lexemesFrom 0 xs) := by
  have hscan := Token.scan_layout htokens hgaps 0 #[]
  rw [Array.empty_append] at hscan
  exact ⟨tokenize_of_ok hscan, Token.stands_lexemesFrom [] xs⟩

/-- A word that begins with a keyword, a sign that could be half of another, zeros in front of a
number, and a string with quotes, a backslash, a line break and slashes in it. -/
def Token.sample : List Printed :=
  [⟨.keyword .letKw, ⟨0, false⟩, [' ']⟩,
    ⟨.ident "lets", ⟨0, false⟩, ['\t', '/', '/', '=', '\n']⟩,
    ⟨.symbol .assign, ⟨0, false⟩, ['\r']⟩,
    ⟨.int 7, ⟨2, false⟩, [' ', '\n']⟩,
    ⟨.str "'\"\\\n//", ⟨0, true⟩, []⟩]

theorem tokenize_layout_sample :
    (∀ x ∈ Token.sample, x.token.Writable) ∧ (∀ x ∈ Token.sample.dropLast, Separates x.gap) ∧
      tokenize "let lets\t//=\n=\r007 \n'\\'\"\\\\\\n//'" =
        .ok #[⟨.keyword .letKw, ⟨0, 3⟩⟩, ⟨.ident "lets", ⟨4, 8⟩⟩, ⟨.symbol .assign, ⟨13, 14⟩⟩,
          ⟨.int 7, ⟨15, 18⟩⟩, ⟨.str "'\"\\\n//", ⟨20, 31⟩⟩] := by
  have hword : Token.Writable (.ident "lets") := by
    refine ⟨⟨'l', ['e', 't', 's'], rfl, by decide, List.all_eq_true.1 rfl⟩, fun k => ?_⟩
    cases k <;> decide
  have hint : 7 < 2 ^ 63 := by decide
  have htokens : ∀ x ∈ Token.sample, x.token.Writable := by
    simp only [Token.sample, List.forall_mem_cons]
    exact ⟨trivial, hword, trivial, hint, trivial, by simp⟩
  have hgaps : ∀ x ∈ Token.sample.dropLast, Separates x.gap := by
    simp only [Token.sample, List.dropLast, List.forall_mem_cons]
    refine ⟨⟨.blank (by decide) .nil, ' ', rfl, by decide⟩,
      ⟨.blank (by decide) (@Token.Filler.comment ['='] [] (by decide) .nil), '\t', rfl, by decide⟩,
      ⟨.blank (by decide) .nil, '\r', rfl, by decide⟩,
      ⟨.blank (by decide) (.blank (by decide) .nil), ' ', rfl, by decide⟩, by simp⟩
  have htext : String.ofList (layout Token.sample) =
      "let lets\t//=\n=\r007 \n'\\'\"\\\\\\n//'" := by cbv
  obtain ⟨h, -⟩ := tokenize_layout Token.sample htokens hgaps
  rw [htext] at h
  have hlexemes : lexemesFrom 0 Token.sample = [⟨.keyword .letKw, ⟨0, 3⟩⟩,
      ⟨.ident "lets", ⟨4, 8⟩⟩, ⟨.symbol .assign, ⟨13, 14⟩⟩, ⟨.int 7, ⟨15, 18⟩⟩,
      ⟨.str "'\"\\\n//", ⟨20, 31⟩⟩] := by cbv
  rw [hlexemes] at h
  exact ⟨htokens, hgaps, h⟩

end ScriptLint
