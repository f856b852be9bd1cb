import Mathlib
import ScriptLint.Proofs.Declaring
import ScriptLint.Proofs.LineEndings

/-!
# The text of a comment

A comment is passed over when a text is read and when it is searched for uses. Declarations are
searched for in the lines as they are written, so a name that is declared in a comment counts as
declared. That is the one way from the text of a comment to a diagnosis.

* `Scrub.CommentAt`, `Scrub.Unescaped`: where the comment of a line begins, and lines without a
  backslash in a literal, on which all passes agree about that.
* `Coded`, `coded_of_commentAt`: the code before a comment, taken apart.
* `scrub_coded`, `Token.scan_coded`: **neither scrubbing nor reading looks into a comment.**
* `Text.joinLines_congr`: one line of a text in the place of another.
* `undefinedNames_eq_iff`: which declared names make a difference.
* `diagnose_comment_iff`: **another comment changes nothing but what it declares.**
-/

namespace ScriptLint

open Token (isQuote)

/-! ## Code before a comment -/

namespace Scrub

/-- The comment of a line begins here: at the first `//` that is left when the literals are
covered. -/
def CommentAt (line : List Char) (start : ℕ) : Prop :=
  IsLeast {i | ['/', '/'] <+: (literals none line).drop i} start

/-- No backslash stands in a literal. -/
def Unescaped (code : List Char) : Prop :=
  ∀ i : ℕ, code[i]? = some '\\' → (literals none code)[i]? = some '\\'

theorem commentAt_iff {line : List Char} {start : ℕ} :
    CommentAt line start ↔ ['/', '/'] <+: (literals none line).drop start ∧
      ∀ i < start, ¬['/', '/'] <+: (literals none line).drop i := by
  constructor
  · exact fun h => ⟨h.1, fun i hi hmem => absurd (h.2 hmem) (Nat.not_le_of_lt hi)⟩
  · exact fun h => ⟨h.1, fun i hmem => Nat.le_of_not_lt fun hi => h.2 i hi hmem⟩

instance (line : List Char) (start : ℕ) : Decidable (CommentAt line start) :=
  decidable_of_iff _ commentAt_iff.symm

theorem unescaped_iff {code : List Char} : Unescaped code ↔
    ∀ i < code.length, code[i]? = some '\\' → (literals none code)[i]? = some '\\' := by
  constructor
  · exact fun h i _ => h i
  · intro h i hi
    obtain ⟨hlt, -⟩ := List.getElem?_eq_some_iff.1 hi
    exact h i hlt hi

instance (code : List Char) : Decidable (Unescaped code) :=
  decidable_of_iff _ unescaped_iff.symm

end Scrub

open Scrub (CommentAt Unescaped)

/-- Code that a comment may follow: literals that are closed and have no backslash, and between them
characters that do not begin a comment, not even with the slash that follows the code. -/
inductive Coded : List Char → Prop
  | nil : Coded []
  | char {c : Char} {cs : List Char} (hquote : isQuote c = false)
      (hslash : ¬(c = '/' ∧ (cs ++ ['/']).head? = some '/')) (h : Coded cs) : Coded (c :: cs)
  | literal {q : Char} {v cs : List Char} (hq : isQuote q = true) (hv : q ∉ v) (hescape : '\\' ∉ v)
      (h : Coded cs) : Coded (q :: (v ++ q :: cs))

variable {c q : Char} {cs u v w l code note : List Char} {p : Piece}

/-- What begins behind a text begins there also without the text. -/
theorem isLeast_drop {m n : ℕ} (hu : u.length = m)
    (h : IsLeast {i | w <+: (u ++ l).drop i} (m + n)) : IsLeast {i | w <+: l.drop i} n := by
  subst hu
  have hdrop (i : ℕ) : (u ++ l).drop (u.length + i) = l.drop i := List.drop_length_add_append i
  constructor
  · have hmem : w <+: (u ++ l).drop (u.length + n) := h.1
    rw [hdrop] at hmem
    exact hmem
  · intro i hi
    have hmem : w <+: (u ++ l).drop (u.length + i) := by
      rw [hdrop]
      exact hi
    have hle := h.2 hmem
    omega

namespace Scrub

theorem CommentAt.of_cons {n : ℕ} (h : CommentAt (c :: l) (n + 1)) (hquote : isQuote c = false) :
    CommentAt l n ∧ ¬(c = '/' ∧ l.head? = some '/') := by
  have hliterals : literals none (c :: l) = [c] ++ literals none l := literals_cons hquote l
  unfold CommentAt at h
  rw [hliterals, Nat.add_comm] at h
  refine ⟨isLeast_drop rfl h, ?_⟩
  -- else the comment would begin here
  rintro ⟨rfl, hhead⟩
  obtain ⟨l, rfl⟩ := List.head?_eq_some_iff.1 hhead
  rw [literals_cons (by decide)] at h
  have hhere : ['/', '/'] <+: (['/'] ++ '/' :: literals none l).drop 0 := ⟨literals none l, rfl⟩
  have hle := h.2 hhere
  omega

theorem CommentAt.of_literal {n : ℕ} (h : CommentAt (q :: (v ++ q :: l)) (v.length + 2 + n))
    (hq : isQuote q = true) (hv : q ∉ v) : CommentAt l n := by
  unfold CommentAt at h
  rw [literals_literal hq hv] at h
  exact isLeast_drop List.length_replicate h

/-- A literal that is left open would cover the comment. -/
theorem CommentAt.mem_of_quote (h : CommentAt (q :: (v ++ '/' :: l)) (v.length + 1))
    (hq : isQuote q = true) : q ∈ v := by
  by_contra hv
  have hcovered : literals none (q :: (v ++ '/' :: l)) =
      List.replicate (v.length + 1) ' ' ++ literals (some q) ('/' :: l) := by
    rw [literals_quote hq, literals_open hv, List.replicate_succ, List.cons_append]
  obtain ⟨more, hmore⟩ := h.1
  rw [hcovered, List.drop_left' (by simp), literals] at hmore
  simp at hmore

theorem Unescaped.of_cons (h : Unescaped (c :: cs)) (hquote : isQuote c = false) :
    Unescaped cs := by
  intro i hi
  have hliterals := h (i + 1) hi
  rw [literals_cons hquote] at hliterals
  exact hliterals

theorem Unescaped.of_literal (h : Unescaped (q :: (v ++ q :: cs))) (hq : isQuote q = true)
    (hv : q ∉ v) : '\\' ∉ v ∧ Unescaped cs := by
  unfold Unescaped at h
  rw [literals_literal hq hv] at h
  constructor
  · intro hmem
    obtain ⟨i, hget⟩ := List.mem_iff_getElem?.1 hmem
    obtain ⟨hi, -⟩ := List.getElem?_eq_some_iff.1 hget
    have hcovered := h (i + 1) (by
      rw [List.getElem?_cons_succ, List.getElem?_append_left hi, hget])
    rw [List.getElem?_append_left (by simp; omega)] at hcovered
    have hspace := List.eq_of_mem_replicate (List.mem_of_getElem? hcovered)
    cases hspace
  · intro i hi
    have hplace : v.length + 2 + i = v.length + (i + 1) + 1 := by omega
    have hbehind := h (v.length + 2 + i) (by
      rw [hplace, List.getElem?_cons_succ, List.getElem?_append_right (by omega),
        Nat.add_sub_cancel_left]
      exact hi)
    rw [List.getElem?_append_right (by simp), List.length_replicate,
      Nat.add_sub_cancel_left] at hbehind
    exact hbehind

end Scrub

/-- **What stands before a comment can be taken apart.** -/
theorem coded_of_commentAt (h : CommentAt (code ++ '/' :: '/' :: note) code.length)
    (hescape : Unescaped code) : Coded code := by
  induction hn : code.length using Nat.strong_induction_on generalizing code with
  | _ n ih =>
    cases code with
    | nil => exact .nil
    | cons c cs =>
      rw [List.cons_append] at h
      cases hquote : isQuote c with
      | false =>
        obtain ⟨hcomment, hslash⟩ := h.of_cons hquote
        have hlt : cs.length < n := by
          rw [← hn]
          exact Nat.lt_succ_self _
        refine .char hquote ?_ (ih cs.length hlt hcomment (hescape.of_cons hquote) rfl)
        rw [List.head?_append] at hslash ⊢
        exact hslash
      | true =>
        obtain ⟨v, more, rfl, hv⟩ := List.eq_append_cons_of_mem (h.mem_of_quote hquote)
        obtain ⟨hv', hmore⟩ := hescape.of_literal hquote hv
        have hlength : (c :: (v ++ c :: more)).length = v.length + 2 + more.length := by
          simp only [List.length_cons, List.length_append]
          omega
        have hlt : more.length < n := by omega
        rw [hlength, List.append_assoc, List.cons_append] at h
        exact .literal hquote hv hv' (ih more.length hlt (h.of_literal hquote hv) hmore rfl)

/-- **Scrubbing does not look into a comment.** -/
theorem scrub_coded (h : Coded code) (note : List Char) :
    scrub (code ++ '/' :: '/' :: note) =
      Scrub.literals none code ++ List.replicate (note.length + 2) ' ' := by
  induction h with
  | nil => exact scrub_comment note
  | char hquote hslash _ ih =>
    rw [List.cons_append, scrub_cons hquote, ih, literals_cons hquote, List.cons_append]
    rwa [List.head?_append] at hslash ⊢
  | literal hq hv _ _ ih =>
    rw [List.cons_append, List.append_assoc, List.cons_append, scrub_literal hq hv, ih,
      literals_literal hq hv, List.append_assoc]

theorem Coded.tail (h : Coded (c :: cs)) (hquote : isQuote c = false) : Coded cs := by
  cases h with
  | char _ _ h => exact h
  | literal hq _ _ _ =>
    rw [hquote] at hq
    cases hq

theorem Coded.drop (h : Coded (w ++ cs)) (hw : ∀ d ∈ w, Kept d) : Coded cs := by
  induction w with
  | nil => exact h
  | cons d w ih =>
    obtain ⟨hd, hw⟩ := List.forall_mem_cons.1 hw
    exact ih (h.tail hd.1) hw

/-! ## Reading code before a comment -/

namespace Token

/-- Apart from literals, only a comment has quotes or slashes in it. -/
theorem Spelled.kept (h : Spelled p (c :: w)) (hquote : isQuote c = false) :
    c = '/' ∧ w.head? = some '/' ∨ ∀ d ∈ w, Kept d := by
  have hdigit {d : Char} (hd : d.isDigit = true) : Kept d :=
    Usage.kept_of_isWordChar (isWordChar_iff.2 (.inr hd))
  cases h with
  | blanks _ hw =>
    exact .inr fun d hd => Usage.kept_of_isBlank (TokenLint.isBlank_of_isGap (hw d hd))
  | comment _ => exact .inl ⟨rfl, rfl⟩
  | word _ hw => exact .inr fun d hd => Usage.kept_of_isWordChar (hw d hd)
  | digits _ hw => exact .inr fun d hd => hdigit (hw d hd)
  | decimal _ hw _ hplaces =>
    refine .inr (List.forall_mem_append.2 ⟨fun d hd => hdigit (hw d hd), ?_⟩)
    exact List.forall_mem_cons.2 ⟨by decide, fun d hd => hdigit (hplaces d hd)⟩
  | closed hq _ | unclosed hq _ =>
    rw [hquote] at hq
    cases hq
  | symbol hs =>
    refine .inr fun d hd => ?_
    obtain ⟨-, hd', hslash⟩ := symbol_chars hs d (List.mem_cons_of_mem _ hd)
    refine ⟨hd', fun heq => ?_⟩
    -- the slash is a symbol by itself
    rw [hslash heq] at hs
    obtain ⟨-, rfl⟩ := List.cons.inj hs
    cases hd

theorem Munch.kept (h : Munch (c :: cs) p (c :: w)) (hquote : isQuote c = false)
    (hslash : ¬(c = '/' ∧ (cs ++ ['/']).head? = some '/')) : ∀ d ∈ w, Kept d := by
  rcases h.piece with hspelled | ⟨d, hw, -⟩
  · rcases hspelled.kept hquote with ⟨hc, hhead⟩ | hkept
    · obtain ⟨rest, hrest⟩ := h.isPrefix
      rw [List.cons_append] at hrest
      obtain ⟨-, rfl⟩ := List.cons.inj hrest
      exact absurd ⟨hc, by rw [List.append_assoc, List.head?_append, hhead]; rfl⟩ hslash
    · exact hkept
  · obtain ⟨-, rfl⟩ := List.cons.inj hw
    simp

/-- A piece does not go on into a comment. -/
theorem Munch.append_comment (h : Munch (c :: cs) p (c :: w)) (hquote : isQuote c = false)
    (hslash : ¬(c = '/' ∧ (cs ++ ['/']).head? = some '/')) (r : List Char) :
    Munch (c :: cs ++ '/' :: r) p (c :: w) := by
  refine h.append fun p' v hne hv hspelled => ?_
  -- a spelling that is longer than the code has the slash in it
  obtain ⟨d, v, rfl⟩ := List.exists_cons_of_ne_nil hne
  obtain ⟨more, hmore⟩ := hv
  obtain ⟨rfl, -⟩ := List.cons.inj hmore
  rw [List.cons_append] at hspelled
  rcases hspelled.kept hquote with ⟨hc, hhead⟩ | hkept
  · rw [List.head?_append] at hhead hslash
    exact hslash ⟨hc, hhead⟩
  · exact (hkept '/' (by simp)).2 rfl

theorem body_of_not_mem (hq : q ∉ v) (hescape : '\\' ∉ v) (hbreak : '\n' ∉ v) : Body q v v := by
  induction v with
  | nil => exact .nil
  | cons d v ih =>
    obtain ⟨hdq, hq⟩ := not_or.1 (List.mem_cons.not.1 hq)
    obtain ⟨hde, hescape⟩ := not_or.1 (List.mem_cons.not.1 hescape)
    obtain ⟨hdb, hbreak⟩ := not_or.1 (List.mem_cons.not.1 hbreak)
    exact .plain (Ne.symm hdq) (Ne.symm hde) (Ne.symm hdb) (ih hq hescape hbreak)

theorem first_literal (hq : isQuote q = true) {content : List Char} (h : Body q v content)
    (cs : List Char) :
    first q (v ++ [q] ++ cs) = (.token (.str (String.ofList content)), (v ++ [q]).length) := by
  have hinside := h.inside_closed hq cs
  rw [List.append_assoc, List.singleton_append, List.length_append]
  rcases isQuote_iff.1 hq with rfl | rfl
  · rw [first, if_neg (by decide), if_neg (by simp), if_neg (by decide), if_neg (by decide),
      if_pos (.inl rfl), literal, hinside]
    rfl
  · rw [first, if_neg (by decide), if_neg (by simp), if_neg (by decide), if_neg (by decide),
      if_pos (.inr rfl), literal, hinside]
    rfl

/-- Texts that begin with the same piece are read alike if their rests are. -/
theorem scan_congr {rest rest' : List Char} (h : first c (w ++ rest) = (p, w.length))
    (h' : first c (w ++ rest') = (p, w.length))
    (hrest : ∀ offset read, scan offset read rest' = scan offset read rest) (offset : ℕ)
    (read : Array Lexeme) :
    scan offset read (c :: (w ++ rest')) = scan offset read (c :: (w ++ rest)) := by
  cases p with
  | gap => rw [scan_gap h, scan_gap h', hrest]
  | token t => rw [scan_token h, scan_token h', hrest]
  | bad cause => rw [scan_bad h, scan_bad h']

/-- **Reading does not look into a comment.** -/
theorem scan_coded (hcode : Coded code) (hbreak : '\n' ∉ code) (hnote : '\n' ∉ note) (offset : ℕ)
    (read : Array Lexeme) :
    scan offset read (code ++ '/' :: '/' :: note) = scan offset read code := by
  induction hn : code.length using Nat.strong_induction_on generalizing code offset read with
  | _ n ih =>
    cases hcode with
    | nil =>
      rw [List.nil_append, scan_comment offset read rfl,
        Text.dropWhile_of_not_mem (by simp [hnote]), scan_nil, scan_nil]
    | @char c cs hquote hslash hcs =>
      obtain ⟨w, rest, p, rfl, hfirst⟩ := exists_first c cs
      have hmunch := first_eq_iff.1 hfirst
      have hfirst' : first c (w ++ (rest ++ '/' :: '/' :: note)) = (p, w.length) := by
        have hlonger := hmunch.append_comment hquote hslash ('/' :: note)
        rw [List.cons_append, List.append_assoc] at hlonger
        exact first_eq_iff.2 hlonger
      have hrest : '\n' ∉ rest := fun hmem => hbreak (by simp [hmem])
      have hlt : rest.length < n := by
        rw [← hn, List.length_cons, List.length_append]
        omega
      have hmore : Coded rest := hcs.drop (hmunch.kept hquote hslash)
      rw [List.cons_append, List.append_assoc]
      exact scan_congr hfirst hfirst'
        (fun offset read => ih rest.length hlt hmore hrest offset read rfl) offset read
    | @literal q v cs hq hv hescape hcs =>
      have hbody : Body q v v := body_of_not_mem hv hescape fun hmem => hbreak (by simp [hmem])
      have hrest : '\n' ∉ cs := fun hmem => hbreak (by simp [hmem])
      have hlt : cs.length < n := by
        rw [← hn, List.length_cons, List.length_append, List.length_cons]
        omega
      have hread := scan_congr (first_literal hq hbody cs) (first_literal hq hbody (cs ++ _))
        (fun offset read => ih cs.length hlt hcs hrest offset read rfl) offset read
      simpa using hread

end Token

theorem outcome_coded (hcode : Coded code) (hbreak : '\n' ∉ code) (hnote : '\n' ∉ note) :
    outcome (code ++ '/' :: '/' :: note) = outcome code := by
  rw [outcome, Token.scan_coded hcode hbreak hnote, outcomeOf_above]

theorem endPosition_of_not_mem (h : '\n' ∉ l) :
    endPosition l = ⟨UInt32.ofNatClamp 1, UInt32.ofNatClamp (1 + l.length)⟩ := by
  rw [endPosition, Source.positionAt_eq_walk, Source.walk_of_not_mem h]

/-! ## One line in the place of another -/

namespace Text

/-- What does not change with a line, whatever stands below it, and does not change with what stands
below a line, does not change with one line of a text. -/
theorem joinLines_congr {β : Type} (f : List Char → β) {l l' : List Char} (last : f l' = f l)
    (upper : ∀ b, f (l' ++ '\n' :: b) = f (l ++ '\n' :: b))
    (lower : ∀ a b b', f b' = f b → f (a ++ '\n' :: b') = f (a ++ '\n' :: b))
    (above below : List (List Char)) :
    f (joinLines (above ++ l' :: below)) = f (joinLines (above ++ l :: below)) := by
  induction above with
  | nil =>
    cases below with
    | nil => exact last
    | cons b below => exact upper _
  | cons a above ih =>
    have hjoin (k : List Char) : joinLines (a :: above ++ k :: below) =
        a ++ '\n' :: joinLines (above ++ k :: below) := by
      cases above <;> rfl
    rw [hjoin, hjoin]
    exact lower a _ _ ih

end Text

/-- Texts are read alike if they differ in one line only, which is read alike and as long. -/
theorem failure?_congr {source edited : String} {above below : List (List Char)} {l l' : List Char}
    (hsource : Text.lines source.toList = above ++ l :: below)
    (hedited : Text.lines edited.toList = above ++ l' :: below) (houtcome : outcome l' = outcome l)
    (hlength : l'.length = l.length) :
    Engine.builtin.failure? edited = Engine.builtin.failure? source := by
  have hl : '\n' ∉ l := Text.not_mem_of_mem_lines source.toList (by simp [hsource])
  have hl' : '\n' ∉ l' := Text.not_mem_of_mem_lines edited.toList (by simp [hedited])
  have hcount : Source.lineCount l' = Source.lineCount l := by
    rw [Source.lineCount, Source.lineCount, List.count_eq_zero.2 hl, List.count_eq_zero.2 hl']
  have hread : outcome edited.toList = outcome source.toList := by
    rw [← Text.joinLines_lines edited.toList, ← Text.joinLines_lines source.toList, hsource,
      hedited]
    refine Text.joinLines_congr outcome houtcome (fun b => ?_) (fun a b b' hb => ?_) above below
    · rw [outcome_lines, outcome_lines, houtcome, hcount]
    · rw [outcome_lines, outcome_lines, hb]
  have hend : endPosition edited.toList = endPosition source.toList := by
    rw [← Text.joinLines_lines edited.toList, ← Text.joinLines_lines source.toList, hsource,
      hedited]
    refine Text.joinLines_congr endPosition ?_ (fun b => ?_) (fun a b b' hb => ?_) above below
    · rw [endPosition_of_not_mem hl, endPosition_of_not_mem hl', hlength]
    · rw [endPosition_lines, endPosition_lines, hcount]
    · rw [endPosition_lines, endPosition_lines, hb]
  rw [failure?_eq, failure?_eq, hread, hend]

/-! ## Which declared names make a difference -/

open Usage

theorem exists_warns_iff (declared globals : List String) (lines : List (List Char))
    (name : String) : (∃ d ∈ undefinedNames declared globals lines, Warns name d) ↔
      isKnown declared globals name = false ∧ ∃ place, PlainAt lines name place := by
  constructor
  · rintro ⟨d, hd, hwarns⟩
    obtain ⟨x, hx, -, rfl⟩ := exists_use_of_warns hd hwarns
    obtain ⟨hknown, hfirst⟩ := isLeast_of_mem_firstUses hx
    exact ⟨hknown, x.place, hfirst.1⟩
  · rintro ⟨hknown, place, hplain⟩
    obtain ⟨x, hx, hname⟩ := exists_firstUses_of_plainAt hknown hplain
    exact ⟨warning x, List.mem_map_of_mem hx, warns_warning_iff.2 hname⟩

/-- The warnings that are left when two sets of names are declared do not depend on which of them
was declared first. -/
theorem filter_undefinedNames (declared declared' globals : List String)
    (lines : List (List Char)) :
    (undefinedNames declared' globals lines).filter
        (fun d => ∀ name ∈ declared, ¬Warns name d) =
      (undefinedNames declared globals lines).filter
        (fun d => ∀ name ∈ declared', ¬Warns name d) := by
  rw [← undefinedNames_more (isKnown_append declared' declared globals),
    ← undefinedNames_more (isKnown_append declared declared' globals)]
  refine undefinedNames_congr (fun name => ?_) globals lines
  rw [List.mem_append, List.mem_append, or_comm]

/-- Nothing is left out for names that are not reported anyway. -/
theorem filter_undefinedNames_self {declared more globals : List String}
    {lines : List (List Char)}
    (h : ∀ name place, PlainAt lines name place → Vocabulary.isKeyword name = false →
      Vocabulary.isNative name = false → name ∉ globals → name ∈ more → name ∈ declared) :
    (undefinedNames declared globals lines).filter (fun d => ∀ name ∈ more, ¬Warns name d) =
      undefinedNames declared globals lines := by
  refine List.filter_eq_self.2 fun d hd => decide_eq_true fun name hname hwarns => ?_
  obtain ⟨hknown, place, hplain⟩ := (exists_warns_iff _ _ _ _).1 ⟨d, hd, hwarns⟩
  obtain ⟨hkeyword, hnative, hdeclared, hglobal⟩ := isKnown_eq_false_iff.1 hknown
  exact hdeclared (h name place hplain hkeyword hnative hglobal hname)

/-- **Declared names make a difference if they are used plainly and not known otherwise.** -/
theorem undefinedNames_eq_iff {declared declared' globals : List String}
    {lines : List (List Char)} :
    undefinedNames declared' globals lines = undefinedNames declared globals lines ↔
      ∀ name place, PlainAt lines name place → Vocabulary.isKeyword name = false →
        Vocabulary.isNative name = false → name ∉ globals →
        (name ∈ declared' ↔ name ∈ declared) := by
  constructor
  · intro h name place hplain hkeyword hnative hglobal
    have hwarns : isKnown declared' globals name = false ↔
        isKnown declared globals name = false := by
      have hused : ∃ place, PlainAt lines name place := ⟨place, hplain⟩
      have hsame := exists_warns_iff declared' globals lines name
      rw [h, exists_warns_iff, and_iff_left hused, and_iff_left hused] at hsame
      exact hsame.symm
    simpa [isKnown_eq_false_iff, hkeyword, hnative, hglobal, not_iff_not] using hwarns
  · intro h
    -- each side is what is left when the names of both are declared
    have hboth := filter_undefinedNames declared declared' globals lines
    rw [filter_undefinedNames_self fun name place hp hk hn hg => (h name place hp hk hn hg).2,
      filter_undefinedNames_self fun name place hp hk hn hg => (h name place hp hk hn hg).1]
      at hboth
    exact hboth

/-! ## Texts with another comment -/

/-- The texts differ at most in the characters of one comment, of which there are as many, on a line
without a backslash in a literal. -/
inductive SameButComment (source edited : String) : Prop
  | intro {above below : List (List Char)} {code note note' : List Char}
      (hsource : Text.lines source.toList = above ++ (code ++ '/' :: '/' :: note) :: below)
      (hedited : Text.lines edited.toList = above ++ (code ++ '/' :: '/' :: note') :: below)
      (hcomment : CommentAt (code ++ '/' :: '/' :: note) code.length) (hescape : Unescaped code)
      (hlength : note'.length = note.length)

variable {source edited : String}

theorem SameButComment.failure?_eq (h : SameButComment source edited) :
    Engine.builtin.failure? edited = Engine.builtin.failure? source := by
  obtain ⟨hsource, hedited, hcomment, hescape, hlength⟩ := h
  have hcode := coded_of_commentAt hcomment hescape
  have hbreak := Text.not_mem_of_mem_lines source.toList
    (by rw [hsource]; exact List.mem_append_right _ List.mem_cons_self)
  have hbreak' := Text.not_mem_of_mem_lines edited.toList
    (by rw [hedited]; exact List.mem_append_right _ List.mem_cons_self)
  simp only [List.mem_append, List.mem_cons, not_or] at hbreak hbreak'
  refine failure?_congr hsource hedited ?_ ?_
  · rw [outcome_coded hcode hbreak.1 hbreak.2.2.2, outcome_coded hcode hbreak.1 hbreak'.2.2.2]
  · simp only [List.length_append, List.length_cons, hlength]

theorem SameButComment.inLines_eq (h : SameButComment source edited) :
    inLines 1 (Text.lines edited.toList) = inLines 1 (Text.lines source.toList) := by
  obtain ⟨hsource, hedited, hcomment, hescape, hlength⟩ := h
  have hcode := coded_of_commentAt hcomment hescape
  rw [hsource, hedited, inLines_append, inLines_append, inLines, inLines, inLine_eq, inLine_eq,
    scrub_coded hcode, scrub_coded hcode, hlength]

theorem SameButComment.lint_eq (h : SameButComment source edited) (settings : Settings) :
    lint settings edited = undefinedNames (declaredNames (Text.lines edited.toList))
      settings.globals (Text.lines source.toList) := by
  rw [lint, undefinedNames, h.inLines_eq, undefinedNames]

/-- A failure of the engine is no warning. -/
theorem filter_diagnose_warns (engine : Engine) (settings : Settings) (names : List String) :
    (diagnose engine settings source).filter (fun d => ∀ name ∈ names, ¬Warns name d) =
      ((engine.failure? source).map locate).toList ++ if settings.undefinedVariables then
        (lint settings source).filter fun d => ∀ name ∈ names, ¬Warns name d else [] := by
  have hfailure : ((engine.failure? source).map locate).toList.filter
      (fun d => ∀ name ∈ names, ¬Warns name d) = ((engine.failure? source).map locate).toList :=
    List.filter_eq_self.2 fun _ hd =>
      decide_eq_true fun name _ => not_warns_of_failure hd name
  rw [diagnose, List.filter_append, hfailure]
  split
  · rfl
  · rw [List.filter_nil]

/-- **Another comment changes nothing but what it declares.** Apart from the warnings for names that
one of the texts declares, the diagnostics are the same; and all of them are the same exactly if the
texts declare the same of the names that are used plainly and not known otherwise. -/
theorem diagnose_comment_iff (settings : Settings) (source edited : String)
    (h : SameButComment source edited) :
    (diagnose Engine.builtin settings edited).filter
        (fun d => ∀ name ∈ declaredNames (Text.lines source.toList), ¬Warns name d) =
      (diagnose Engine.builtin settings source).filter
        (fun d => ∀ name ∈ declaredNames (Text.lines edited.toList), ¬Warns name d) ∧
    (diagnose Engine.builtin settings edited = diagnose Engine.builtin settings source ↔
      (settings.undefinedVariables = true →
        ∀ name place, PlainAt (Text.lines source.toList) name place →
          Vocabulary.isKeyword name = false → Vocabulary.isNative name = false →
          name ∉ settings.globals →
          (name ∈ declaredNames (Text.lines edited.toList) ↔
            name ∈ declaredNames (Text.lines source.toList)))) := by
  constructor
  · rw [filter_diagnose_warns, filter_diagnose_warns, h.failure?_eq, h.lint_eq,
      filter_undefinedNames]
    rfl
  · rw [diagnose, diagnose, h.failure?_eq, List.append_cancel_left_eq, h.lint_eq]
    cases settings.undefinedVariables with
    | false => simp
    | true =>
      rw [if_pos rfl, if_pos rfl, imp_iff_right rfl]
      exact undefinedNames_eq_iff

/-- Two slashes in a literal begin no comment, and the comments declare the same name, one as a
parameter and one as a variable. -/
theorem diagnose_comment_iff_literal :
    SameButComment "let a = \"//\" + x // fn(x)" "let a = \"//\" + x //let x=" ∧
    diagnose Engine.builtin {} "let a = \"//\" + x //let x=" =
      diagnose Engine.builtin {} "let a = \"//\" + x // fn(x)" := by
  have hsame : SameButComment "let a = \"//\" + x // fn(x)" "let a = \"//\" + x //let x=" :=
    @SameButComment.intro _ _ [] [] "let a = \"//\" + x ".toList " fn(x)".toList "let x=".toList
      (by cbv) (by cbv) (by decide) (by decide) (by cbv)
  have hdeclared : declaredNames (Text.lines "let a = \"//\" + x //let x=".toList) =
      declaredNames (Text.lines "let a = \"//\" + x // fn(x)".toList) := by cbv
  have hiff := (diagnose_comment_iff {} _ _ hsame).2
  refine ⟨hsame, hiff.2 ?_⟩
  intro _ name place _ _ _ _
  rw [hdeclared]

/-- **A declaration in a comment hides that a name is undefined.** -/
theorem diagnose_declared_in_comment :
    SameButComment "print(x) // let x = 1" "print(x) // get x = 1" ∧
    diagnose Engine.builtin {} "print(x) // let x = 1" = [] ∧
    diagnose Engine.builtin {} "print(x) // get x = 1" =
      [⟨1, 7, "Undefined variable 'x'", .warning⟩] := by
  have hsame : SameButComment "print(x) // let x = 1" "print(x) // get x = 1" :=
    @SameButComment.intro _ _ [] [] "print(x) ".toList " let x = 1".toList " get x = 1".toList
      (by cbv) (by cbv) (by decide) (by decide) (by cbv)
  have hhidden : diagnose Engine.builtin {} "print(x) // let x = 1" = [] := by cbv
  have hshown : diagnose Engine.builtin {} "print(x) // get x = 1" =
      [⟨1, 7, "Undefined variable 'x'", .warning⟩] := by cbv
  exact ⟨hsame, hhidden, hshown⟩

end ScriptLint
