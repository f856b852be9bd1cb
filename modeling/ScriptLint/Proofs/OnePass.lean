import Mathlib
import ScriptLint.Proofs.Scrubbed

/-!
# Scrubbing in one pass

Scrubbing covers the literals of the whole line first, also those that quotes in its comment seem to
open, and looks for the comment only then. A scanner that goes through the line once finds the same
code: nothing behind the start of a comment reaches what stands before it, and covering a literal
neither makes a comment nor hides one.

* `Scrub.Region`, `Region.step`: the scanner, one character at a time.
* `Scrub.regions`: the region of each character of a line.
* `comment_literals`: **the two phases keep what the scanner calls code.**
* `bare_scrub`, `scrub_of_bare`: what is left has no quote and no comment in it, and such lines
  stay as they are.
* `scrub_one_pass`: the scrubbed line, character by character.
-/

namespace ScriptLint

namespace Scrub

/-- What a character of a line is part of. -/
inductive Region
  | code
  | literal (quote : Char)
  | comment
deriving DecidableEq, Repr

namespace Region

/-- The scanner is in a region and comes to the character `c`, with `next` behind it: the region
that the character is part of, and the region in which the scanner goes on. A comment has no end. -/
def step (c : Char) (next : Option Char) : Region → Region × Region
  | code =>
    if c = '"' ∨ c = '\'' then (literal c, literal c)
    else if c = '/' ∧ next = some '/' then (comment, comment)
    else (code, code)
  | literal quote => (literal quote, if c = quote then code else literal quote)
  | comment => (comment, comment)

/-- A character of the region, with a space over it unless it is code. -/
def paint (r : Region) (c : Char) : Char :=
  if r = code then c else ' '

theorem step_code_eq {c : Char} {next : Option Char} (hquote : ¬(c = '"' ∨ c = '\''))
    (hslash : ¬(c = '/' ∧ next = some '/')) : code.step c next = (code, code) := by
  rw [step, if_neg hquote, if_neg hslash]

/-- A character is code only if the scanner is in code, and the character neither opens a literal
nor begins a comment. -/
theorem step_eq_code {c : Char} {next : Option Char} {r : Region} (h : (r.step c next).1 = code) :
    r = code ∧ ¬(c = '"' ∨ c = '\'') ∧ ¬(c = '/' ∧ next = some '/') := by
  cases r with
  | literal quote => cases h
  | comment => cases h
  | code =>
    by_cases hquote : c = '"' ∨ c = '\''
    · rw [step, if_pos hquote] at h
      cases h
    by_cases hslash : c = '/' ∧ next = some '/'
    · rw [step, if_neg hquote, if_pos hslash] at h
      cases h
    · exact ⟨rfl, hquote, hslash⟩

end Region

/-- The regions of the characters of a line, for a scanner that begins in a region. -/
def regions (r : Region) : List Char → List Region
  | [] => []
  | c :: cs => (r.step c cs.head?).1 :: regions (r.step c cs.head?).2 cs

/-- The scanner's region while literals are covered. -/
def regionOf : Option Char → Region
  | none => .code
  | some quote => .literal quote

/-- A line as the scanner leaves it. -/
def painted (r : Region) (cs : List Char) : List Char :=
  List.zipWith Region.paint (regions r cs) cs

variable {c : Char} {cs : List Char} {r : Region}

theorem length_regions (r : Region) (cs : List Char) : (regions r cs).length = cs.length := by
  induction cs generalizing r with
  | nil => rfl
  | cons c cs ih => rw [regions, List.length_cons, List.length_cons, ih]

theorem painted_cons (r : Region) (c : Char) (cs : List Char) :
    painted r (c :: cs) =
      (r.step c cs.head?).1.paint c :: painted (r.step c cs.head?).2 cs := rfl

theorem painted_comment (cs : List Char) :
    painted .comment cs = List.replicate cs.length ' ' := by
  induction cs with
  | nil => rfl
  | cons c cs ih =>
    have hstep : Region.comment.step c cs.head? = (.comment, .comment) := rfl
    rw [painted_cons, hstep, ih, List.length_cons, List.replicate_succ]
    rfl

theorem comment_space (cs : List Char) : comment (' ' :: cs) = ' ' :: comment cs :=
  comment_spaces 1 cs

/-- **The two phases keep what the scanner calls code.** The scanner is in a literal exactly while
one is being covered; in a comment nothing is left to compare. -/
theorem comment_literals (inside : Option Char) (cs : List Char) :
    comment (literals inside cs) = painted (regionOf inside) cs := by
  induction cs generalizing inside with
  | nil => rfl
  | cons c cs ih =>
    cases inside with
    | some quote =>
      have hnext : regionOf (if c = quote then none else some quote) =
          if c = quote then .code else .literal quote := apply_ite regionOf _ _ _
      rw [literals, comment_space, ih, hnext]
      rfl
    | none =>
      by_cases hquote : c = '"' ∨ c = '\''
      · have hstep : Region.code.step c cs.head? = (.literal c, .literal c) := if_pos hquote
        rw [literals_quote (Token.isQuote_iff.2 hquote), comment_space, ih, regionOf, painted_cons,
          hstep]
        rfl
      have hplain : Token.isQuote c = false := by
        simpa using Token.isQuote_iff.not.2 hquote
      by_cases hslash : c = '/' ∧ cs.head? = some '/'
      · -- a comment begins, and the literals behind it are covered twice
        have hstep : Region.code.step c cs.head? = (.comment, .comment) := by
          rw [Region.step, if_neg hquote, if_pos hslash]
        obtain ⟨rfl, hhead⟩ := hslash
        obtain ⟨more, rfl⟩ := List.head?_eq_some_iff.1 hhead
        have hscrub : comment (literals none ('/' :: '/' :: more)) = _ := scrub_comment more
        rw [hscrub, regionOf, painted_cons, hstep, painted_comment, List.length_cons,
          List.replicate_succ]
        rfl
      · have hstep := Region.step_code_eq hquote hslash
        have hscrub : comment (literals none (c :: cs)) = c :: comment (literals none cs) :=
          scrub_cons hplain hslash
        rw [hscrub, ih, regionOf, painted_cons, hstep]
        rfl

theorem getElem?_painted (r : Region) (cs : List Char) (i : ℕ) :
    (painted r cs)[i]? =
      cs[i]?.map fun c => if (regions r cs)[i]? = some .code then c else ' ' := by
  by_cases hi : i < cs.length
  · have hr : i < (regions r cs).length := by rw [length_regions]; exact hi
    rw [painted, List.getElem?_zipWith, List.getElem?_eq_getElem hi, List.getElem?_eq_getElem hr]
    simp [Region.paint]
  · have hcs : cs.length ≤ i := by omega
    have hr : (regions r cs).length ≤ i := by rw [length_regions]; exact hcs
    rw [painted, List.getElem?_zipWith, List.getElem?_eq_none hcs, List.getElem?_eq_none hr]
    rfl

/-- What is code does not open a literal and does not begin a comment. -/
theorem not_opening_of_code {i : ℕ} (hregion : (regions r cs)[i]? = some .code)
    (hc : cs[i]? = some c) : ¬(c = '"' ∨ c = '\'') ∧ ¬(c = '/' ∧ cs[i + 1]? = some '/') := by
  induction cs generalizing r i with
  | nil => cases hc
  | cons d cs ih =>
    cases i with
    | zero =>
      cases hc
      rw [regions, List.getElem?_cons_zero] at hregion
      obtain ⟨-, hquote, hslash⟩ := Region.step_eq_code (Option.some.inj hregion)
      rw [List.getElem?_cons_succ, ← List.head?_eq_getElem?]
      exact ⟨hquote, hslash⟩
    | succ i => exact ih hregion hc

/-- A line without quotes and without a comment. -/
def Bare (cs : List Char) : Prop :=
  '"' ∉ cs ∧ '\'' ∉ cs ∧ ¬['/', '/'] <:+: cs

end Scrub

open Scrub (Bare Region regions painted)

theorem scrub_eq_painted (line : List Char) : scrub line = painted .code line :=
  Scrub.comment_literals none line

/-- A character that is left in a scrubbed line, and no space, is one of the line that is code. -/
theorem code_of_getElem?_scrub {l : List Char} {i : ℕ} {c : Char} (h : (scrub l)[i]? = some c)
    (hspace : c ≠ ' ') : l[i]? = some c ∧ (regions .code l)[i]? = some .code := by
  rw [scrub_eq_painted, Scrub.getElem?_painted] at h
  obtain ⟨d, hd, hc⟩ := Option.map_eq_some_iff.1 h
  by_cases hcode : (regions .code l)[i]? = some .code
  · rw [if_pos hcode] at hc
    rw [← hc]
    exact ⟨hd, hcode⟩
  · rw [if_neg hcode] at hc
    exact absurd hc.symm hspace

theorem bare_scrub (l : List Char) : Bare (scrub l) := by
  have hquote : ∀ q : Char, q = '"' ∨ q = '\'' → q ∉ scrub l := by
    intro q hq hmem
    obtain ⟨i, hi⟩ := List.mem_iff_getElem?.1 hmem
    have hspace : q ≠ ' ' := by
      rintro rfl
      revert hq
      decide
    obtain ⟨hline, hcode⟩ := code_of_getElem?_scrub hi hspace
    exact (Scrub.not_opening_of_code hcode hline).1 hq
  refine ⟨hquote '"' (.inl rfl), hquote '\'' (.inr rfl), ?_⟩
  rintro ⟨u, v, huv⟩
  have hfirst : (scrub l)[u.length]? = some '/' := by
    rw [← huv]
    simp
  have hsecond : (scrub l)[u.length + 1]? = some '/' := by
    rw [← huv]
    simp
  obtain ⟨hline, hcode⟩ := code_of_getElem?_scrub hfirst (by decide)
  obtain ⟨hline', -⟩ := code_of_getElem?_scrub hsecond (by decide)
  exact (Scrub.not_opening_of_code hcode hline).2 ⟨rfl, hline'⟩

theorem scrub_of_bare {cs : List Char} (h : Bare cs) : scrub cs = cs := by
  induction cs with
  | nil => rfl
  | cons c cs ih =>
    obtain ⟨hdouble, hsingle, hslashes⟩ := h
    obtain ⟨hc, hdouble⟩ := not_or.1 (List.mem_cons.not.1 hdouble)
    obtain ⟨hc', hsingle⟩ := not_or.1 (List.mem_cons.not.1 hsingle)
    have hquote : Token.isQuote c = false := by
      simp [Token.isQuote, Ne.symm hc, Ne.symm hc']
    have hslash : ¬(c = '/' ∧ cs.head? = some '/') := by
      rintro ⟨rfl, hhead⟩
      obtain ⟨more, rfl⟩ := List.head?_eq_some_iff.1 hhead
      exact hslashes ⟨[], more, rfl⟩
    have hcs : ¬['/', '/'] <:+: cs := fun hinfix => hslashes (List.infix_cons hinfix)
    rw [scrub_cons hquote hslash, ih ⟨hdouble, hsingle, hcs⟩]

/-- **Scrubbing is one pass over the line.** Each character that the scanner calls code stays, and
there is a space in the place of every other. So no quote and no `//` is left, and a second scrubbing
changes nothing. -/
theorem scrub_one_pass (l : List Char) :
    (scrub l).length = l.length ∧
      (∀ i : ℕ, (scrub l)[i]? =
        l[i]?.map fun c => if (regions .code l)[i]? = some .code then c else ' ') ∧
      ('"' ∉ scrub l ∧ '\'' ∉ scrub l ∧ ¬['/', '/'] <:+: scrub l) ∧
      scrub (scrub l) = scrub l := by
  refine ⟨length_scrub l, fun i => ?_, bare_scrub l, scrub_of_bare (bare_scrub l)⟩
  rw [scrub_eq_painted, Scrub.getElem?_painted]

/-- A quote in a comment opens nothing, and slashes in a literal begin no comment. -/
example : String.ofList (scrub "a'//'b//\"c".toList) = "a    b    " := by decide

end ScriptLint
