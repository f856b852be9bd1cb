import Mathlib
import ScriptLint.Proofs.Scrubbed

/-!
# Which names are reported, and where

The lint walks over scrubbed lines and remembers what it has reported. What comes out can be said
without the walk: a plain use is a word of a scrubbed line with certain surroundings, and every
unknown name that has one is reported at the first.

* `Usage.Standing`: a word of a text that is no part of a longer one.
* `Usage.PlainUse`: the words that are not being declared, no members and not called.
* `Usage.mem_sites`, `Usage.isPlain_iff`: the walk over a line finds exactly these.
* `Usage.Covers`: scrubbing covers whole words or leaves them whole, so what stands in the scrubbed
  line stands in the line.
* `Usage.mem_firstUses`: what is remembered makes the first use the only one.
* `undefinedNames_reports`: **one warning for each unknown name in use, at its first plain use, in
  the order of the text.**
-/

namespace ScriptLint

open Token (isWordStart isWordChar)

namespace Usage

/-! ## Plain uses -/

/-- A name that stands in a text as a word of its own. -/
structure Standing (text before name after : List Char) : Prop where
  text_eq : text = before ++ (name ++ after)
  start : ∃ c ∈ name.head?, isWordStart c = true
  word : ∀ d ∈ name, isWordChar d = true
  left : ∀ d ∈ before.getLast?, isWordChar d = false
  right : ∀ d ∈ after.head?, isWordChar d = false

/-- The word `let`, not the end of a longer word, with blanks behind it. -/
def EndsWithLet (before : List Char) : Prop :=
  ∃ more blanks, before = more ++ 'l' :: 'e' :: 't' :: blanks ∧ blanks ≠ [] ∧
    (∀ d ∈ blanks, Text.isBlank d = true) ∧ ∀ d ∈ more.getLast?, isWordChar d = false

/-- The last character is this one, blanks aside. -/
def EndsWith (c : Char) (before : List Char) : Prop :=
  ∃ more blanks, before = more ++ c :: blanks ∧ ∀ d ∈ blanks, Text.isBlank d = true

/-- The first character is this one, blanks aside. -/
def BeginsWith (c : Char) (after : List Char) : Prop :=
  ∃ blanks more, after = blanks ++ c :: more ∧ ∀ d ∈ blanks, Text.isBlank d = true

/-- **A plain use** of a name in a scrubbed line. -/
structure PlainUse (text before name after : List Char) : Prop
    extends Standing text before name after where
  not_declared : ¬EndsWithLet before
  not_member : ¬EndsWith '.' before
  not_called : ¬BeginsWith '(' after

/-- The name is used plainly at this line and column, counted from one. -/
def PlainAt (lines : List (List Char)) (name : String) (place : ℕ ×ₗ ℕ) : Prop :=
  ∃ i l before after, lines[i]? = some l ∧ place = toLex (i + 1, before.length + 1) ∧
    PlainUse (scrub l) before name.toList after

/-- The name stands at this line and column as a word of its own. -/
def StandsAt (lines : List (List Char)) (name : String) (place : ℕ ×ₗ ℕ) : Prop :=
  ∃ i l before after, lines[i]? = some l ∧ place = toLex (i + 1, before.length + 1) ∧
    Standing l before name.toList after

variable {c : Char} {cs u v w left : List Char}

/-! ## Surroundings -/

theorem head_dropWhile_iff {p : Char → Bool} (hc : p c = false) :
    (cs.dropWhile p).head? = some c ↔ ∃ u v, cs = u ++ c :: v ∧ ∀ d ∈ u, p d = true := by
  constructor
  · intro h
    obtain ⟨v, hv⟩ := List.head?_eq_some_iff.1 h
    refine ⟨cs.takeWhile p, v, ?_, fun d hd => List.mem_takeWhile_imp hd⟩
    rw [← hv, List.takeWhile_append_dropWhile]
  · rintro ⟨u, v, rfl, hu⟩
    rw [List.dropWhile_append_of_pos hu, List.dropWhile_cons_of_neg (by simp [hc])]
    rfl

theorem isCalled_iff (s : Site) : s.isCalled = true ↔ BeginsWith '(' s.after := by
  rw [Site.isCalled, decide_eq_true_eq, head_dropWhile_iff (by decide)]
  rfl

theorem isMember_iff_endsWith (s : Site) : s.isMember = true ↔ EndsWith '.' s.before.reverse := by
  rw [Site.isMember, decide_eq_true_eq, head_dropWhile_iff (by decide)]
  constructor
  · rintro ⟨u, v, h, hu⟩
    exact ⟨v.reverse, u.reverse, by simp [h], fun d hd => hu d (List.mem_reverse.1 hd)⟩
  · rintro ⟨more, blanks, h, hblanks⟩
    refine ⟨blanks.reverse, more.reverse, ?_, fun d hd => hblanks d (List.mem_reverse.1 hd)⟩
    rw [← List.reverse_inj, h]
    simp

theorem isDeclared_iff_endsWithLet (s : Site) :
    s.isDeclared = true ↔ EndsWithLet s.before.reverse := by
  simp only [Site.isDeclared, Bool.and_eq_true, decide_eq_true_eq, Bool.not_eq_true',
    List.isPrefixOf_iff_prefix, Option.any_eq_false]
  have hsplit := List.takeWhile_append_dropWhile (p := Text.isBlank) (l := s.before)
  constructor
  · rintro ⟨⟨hlength, more, hmore⟩, hend⟩
    rw [← hmore] at hend hsplit
    refine ⟨more.reverse, (s.before.takeWhile Text.isBlank).reverse, ?_, ?_, ?_, ?_⟩
    · have hreverse := congrArg List.reverse hsplit
      rw [← hreverse]
      simp
    · intro hnil
      rw [List.reverse_eq_nil_iff.1 hnil, List.nil_append, hmore] at hsplit
      rw [hsplit] at hlength
      exact Nat.lt_irrefl _ hlength
    · exact fun d hd => List.mem_takeWhile_imp (List.mem_reverse.1 hd)
    · rw [List.getLast?_reverse]
      exact hend
  · rintro ⟨more, blanks, h, hne, hblanks, hmore⟩
    have hbefore : s.before = blanks.reverse ++ 't' :: 'e' :: 'l' :: more.reverse := by
      rw [← List.reverse_inj, h]
      simp
    have hdrop : s.before.dropWhile Text.isBlank = 't' :: 'e' :: 'l' :: more.reverse := by
      rw [hbefore, List.dropWhile_append_of_pos fun d hd => hblanks d (List.mem_reverse.1 hd),
        List.dropWhile_cons_of_neg (by decide)]
    have hpos := List.length_pos_iff.2 hne
    rw [hdrop]
    refine ⟨⟨?_, more.reverse, rfl⟩, ?_⟩
    · rw [hbefore, List.length_append, List.length_reverse]
      omega
    · rw [List.drop_succ_cons, List.drop_succ_cons, List.drop_succ_cons, List.drop_zero,
        List.head?_reverse]
      exact hmore

theorem isPlain_iff {text : List Char} {s : Site}
    (h : Standing text s.before.reverse s.name s.after) :
    s.isPlain = true ↔ PlainUse text s.before.reverse s.name s.after := by
  simp only [Site.isPlain, Bool.and_eq_true, Bool.not_eq_true', ← Bool.not_eq_true]
  rw [isDeclared_iff_endsWithLet, isMember_iff_endsWith, isCalled_iff]
  exact ⟨fun hp => ⟨h, hp.1.1, hp.1.2, hp.2⟩,
    fun hp => ⟨⟨hp.not_declared, hp.not_member⟩, hp.not_called⟩⟩

/-! ## The words of a line -/

/-- The word at the front of a text is its longest run of word characters. -/
theorem eq_of_runs {w' cs' : List Char} (hw : ∀ d ∈ w, isWordChar d = true)
    (hcs : ∀ d ∈ cs.head?, isWordChar d = false) (hw' : ∀ d ∈ w', isWordChar d = true)
    (hcs' : ∀ d ∈ cs'.head?, isWordChar d = false) (h : w ++ cs = w' ++ cs') :
    w = w' ∧ cs = cs' := by
  have hrun := takeWhile_run hw hcs
  rw [h, takeWhile_run hw' hcs'] at hrun
  subst hrun
  exact ⟨rfl, List.append_cancel_left h⟩

theorem Standing.exists_cons {text before name after : List Char}
    (h : Standing text before name after) :
    ∃ c w, name = c :: w ∧ isWordStart c = true ∧ isWordChar c = true := by
  obtain ⟨c, hc, hstart⟩ := h.start
  obtain ⟨w, rfl⟩ := List.head?_eq_some_iff.1 hc
  exact ⟨c, w, rfl, hstart, h.word c List.mem_cons_self⟩

variable {before name after : List Char}

/-- Words are not at the front of a text that begins with another character. -/
theorem standing_cons_iff (hc : isWordChar c = false) :
    Standing (c :: cs) before name after ↔
      ∃ u, before = c :: u ∧ Standing cs u name after := by
  constructor
  · intro h
    obtain ⟨d, w, hname, -, hd⟩ := h.exists_cons
    cases before with
    | nil =>
      have htext := h.text_eq
      rw [hname] at htext
      rw [(List.cons.inj htext).1, hd] at hc
      cases hc
    | cons e u =>
      obtain ⟨rfl, htext⟩ := List.cons.inj h.text_eq
      refine ⟨u, rfl, htext, h.start, h.word, fun d hd => h.left d (List.mem_getLast?_cons hd),
        h.right⟩
  · rintro ⟨u, rfl, h⟩
    refine ⟨by rw [h.text_eq]; rfl, h.start, h.word, fun d hd => ?_, h.right⟩
    cases u with
    | nil =>
      cases hd
      exact hc
    | cons e u => exact h.left d hd

/-- A word begins at the front of a run of word characters or behind the run. -/
theorem standing_run_iff (hne : w ≠ []) (hw : ∀ d ∈ w, isWordChar d = true)
    (hcs : ∀ d ∈ cs.head?, isWordChar d = false) :
    Standing (w ++ cs) before name after ↔
      (before = [] ∧ name = w ∧ after = cs ∧ ∃ c ∈ w.head?, isWordStart c = true) ∨
        ∃ u, before = w ++ u ∧ Standing cs u name after := by
  constructor
  · intro h
    rcases List.eq_nil_or_concat before with rfl | ⟨more, d, rfl⟩
    · obtain ⟨rfl, rfl⟩ := eq_of_runs hw hcs h.word h.right h.text_eq
      exact .inl ⟨rfl, rfl, rfl, h.start⟩
    · right
      have hd := h.left d (by simp)
      rcases List.append_eq_append_iff.1 h.text_eq with ⟨u, hu, htext⟩ | ⟨u, hu, -⟩
      · refine ⟨u, hu, htext, h.start, h.word, fun e he => h.left e ?_, h.right⟩
        rw [hu, List.getLast?_append, Option.mem_def.1 he]
        rfl
      · -- the character before the word would be one of the run
        have hmem : d ∈ w := by rw [hu]; simp
        rw [hw d hmem] at hd
        cases hd
  · rintro (⟨rfl, rfl, rfl, hstart⟩ | ⟨u, rfl, h⟩)
    · exact ⟨rfl, hstart, hw, by simp, hcs⟩
    · refine ⟨by rw [h.text_eq, List.append_assoc], h.start, h.word, fun d hd => ?_, h.right⟩
      cases u with
      | nil =>
        -- a word right behind the run would belong to it
        obtain ⟨e, v, rfl, -, he⟩ := h.exists_cons
        have hhead := hcs e (by rw [h.text_eq]; rfl)
        rw [he] at hhead
        cases hhead
      | cons e u =>
        rw [List.getLast?_append_of_ne_nil _ (List.cons_ne_nil e u)] at hd
        exact h.left d hd

theorem sites_run (hc : isWordChar c = true) (hw : ∀ d ∈ w, isWordChar d = true)
    (hcs : ∀ d ∈ cs.head?, isWordChar d = false) (left : List Char) :
    sites left (c :: w ++ cs) =
      (if isWordStart c = true then [⟨left, c :: w, cs⟩] else []) ++
        sites ((c :: w).reverse ++ left) cs := by
  have hleft : w.reverse ++ c :: left = (c :: w).reverse ++ left := by simp
  rw [List.cons_append, sites, if_pos hc, takeWhile_run hw hcs]
  dsimp only
  rw [List.drop_left, hleft]
  split <;> rfl

/-- The walk goes on by a run of word characters, or by one other character. -/
theorem run_induction {P : List Char → List Char → Prop} (nil : ∀ left, P left [])
    (run : ∀ left c w cs, isWordChar c = true → (∀ d ∈ w, isWordChar d = true) →
      (∀ d ∈ cs.head?, isWordChar d = false) → P ((c :: w).reverse ++ left) cs →
      P left (c :: w ++ cs))
    (other : ∀ left c cs, isWordChar c = false → P (c :: left) cs → P left (c :: cs))
    (left cs : List Char) : P left cs := by
  have hrun : ∀ left c cs, isWordChar c = true →
      P ((cs.takeWhile isWordChar).reverse ++ c :: left)
        (cs.drop (cs.takeWhile isWordChar).length) →
      P left (c :: cs) := by
    intro left c cs hc h
    obtain ⟨w, rest, hw, hrest⟩ : ∃ w rest, cs.takeWhile isWordChar = w ∧
        cs.dropWhile isWordChar = rest := ⟨_, _, rfl, rfl⟩
    have hcs : cs = w ++ rest := by rw [← hw, ← hrest, List.takeWhile_append_dropWhile]
    have hword : ∀ d ∈ w, isWordChar d = true := by
      rw [← hw]
      exact fun d hd => List.mem_takeWhile_imp hd
    have hhead : ∀ d ∈ rest.head?, isWordChar d = false := by
      intro d hd
      have hnot := List.head?_dropWhile_not isWordChar cs
      rw [hrest, Option.mem_def.1 hd] at hnot
      exact hnot
    rw [hw, hcs, List.drop_left] at h
    rw [hcs]
    exact run left c w rest hc hword hhead (by simpa using h)
  induction left, cs using sites.induct with
  | case1 left => exact nil left
  | case2 left c cs hc _ _ ih => exact hrun left c cs hc ih
  | case3 left c cs hc _ _ ih => exact hrun left c cs hc ih
  | case4 left c cs hc ih => exact other left c cs (by simpa using hc) ih

/-- **The walk over a line finds its words.** -/
theorem mem_sites {s : Site} {left cs : List Char} :
    s ∈ sites left cs ↔ ∃ u, s.before = u.reverse ++ left ∧ Standing cs u s.name s.after := by
  induction left, cs using run_induction with
  | nil left =>
    rw [sites_nil]
    refine iff_of_false List.not_mem_nil ?_
    rintro ⟨u, -, h⟩
    obtain ⟨c, w, hname, -⟩ := h.exists_cons
    have htext := h.text_eq
    rw [hname] at htext
    simp at htext
  | run left c w cs hc hw hcs ih =>
    rw [sites_run hc hw hcs, List.mem_append, ih]
    simp only [standing_run_iff (List.cons_ne_nil c w) (List.forall_mem_cons.2 ⟨hc, hw⟩) hcs]
    constructor
    · rintro (h | ⟨u, hbefore, h⟩)
      · split at h
        · next hstart =>
          rw [List.mem_singleton.1 h]
          exact ⟨[], rfl, .inl ⟨rfl, rfl, rfl, c, rfl, hstart⟩⟩
        · cases h
      · exact ⟨c :: w ++ u, by rw [hbefore]; simp, .inr ⟨u, rfl, h⟩⟩
    · rintro ⟨u, hbefore, ⟨rfl, hname, hafter, d, ⟨⟩, hstart⟩ | ⟨u, rfl, h⟩⟩
      · left
        obtain ⟨before, name, after⟩ := s
        cases hbefore
        cases hname
        cases hafter
        rw [if_pos hstart]
        exact List.mem_singleton_self _
      · exact .inr ⟨u, by rw [hbefore]; simp, h⟩
  | other left c cs hc ih =>
    rw [sites_cons hc, ih]
    simp only [standing_cons_iff hc]
    constructor
    · rintro ⟨u, hbefore, h⟩
      exact ⟨c :: u, by rw [hbefore]; simp, u, rfl, h⟩
    · rintro ⟨_, hbefore, u, rfl, h⟩
      exact ⟨u, by rw [hbefore]; simp, h⟩

/-- The words of a line come from left to right. -/
theorem pairwise_sites (left cs : List Char) :
    (sites left cs).Pairwise fun s t => s.before.length < t.before.length := by
  induction left, cs using run_induction with
  | nil left =>
    rw [sites_nil]
    exact List.Pairwise.nil
  | run left c w cs hc hw hcs ih =>
    rw [sites_run hc hw hcs]
    split
    · refine List.pairwise_cons.2 ⟨fun t ht => ?_, ih⟩
      obtain ⟨u, hu, -⟩ := mem_sites.1 ht
      rw [hu]
      simp only [List.length_append, List.length_reverse, List.length_cons]
      omega
    · exact ih
  | other left c cs hc ih =>
    rw [sites_cons hc]
    exact ih

/-! ## Scrubbed words -/

/-- Some characters of a text are covered by others, but a word is covered whole or not at all: a
word character beside one that shows, shows too. -/
inductive Covers : List Char → List Char → Prop
  | nil : Covers [] []
  | cons {c d : Char} {s t : List Char} (shows : isWordChar d = true → c = d)
      (right : isWordChar d = true → ∀ e ∈ s.head?, isWordChar e = true → t.head? = some e)
      (left : isWordChar c = true → ∀ e ∈ t.head?, isWordChar e = true → d = c)
      (rest : Covers s t) : Covers (c :: s) (d :: t)

theorem isWordChar_of_isQuote (h : Scrub.isQuote c = true) : isWordChar c = false := by
  rcases Token.isQuote_iff.1 h with rfl | rfl <;> decide

theorem covers_spaces (s : List Char) : Covers s (List.replicate s.length ' ') := by
  induction s with
  | nil => exact .nil
  | cons c s ih =>
    refine .cons (fun h => absurd h (by decide)) (fun h => absurd h (by decide)) ?_ ih
    intro _ e he hword
    cases s with
    | nil => cases he
    | cons d s =>
      cases he
      exact absurd hword (by decide)

/-- Literals begin and end with quotes, which are no word characters. -/
theorem covers_literals {inside : Option Char} (h : ∀ q ∈ inside, Scrub.isQuote q = true)
    (s : List Char) : Covers s (Scrub.literals inside s) := by
  induction s generalizing inside with
  | nil => exact .nil
  | cons c s ih =>
    cases inside with
    | some q =>
      have hq := h q rfl
      rw [Scrub.literals]
      refine .cons (fun h => absurd h (by decide)) (fun h => absurd h (by decide)) ?_ (ih ?_)
      · intro hc e he hword
        by_cases hclose : c = q
        · rw [hclose, isWordChar_of_isQuote hq] at hc
          cases hc
        · rw [if_neg hclose] at he
          cases s with
          | nil => cases he
          | cons d s =>
            cases he
            exact absurd hword (by decide)
      · intro q' hq'
        split at hq'
        · cases hq'
        · cases hq'
          exact hq
    | none =>
      by_cases hc : Scrub.isQuote c = true
      · simp only [Scrub.literals, hc, if_true]
        refine .cons (fun h => absurd h (by decide)) (fun h => absurd h (by decide)) ?_ (ih ?_)
        · intro hword
          rw [isWordChar_of_isQuote hc] at hword
          cases hword
        · rintro _ ⟨⟩
          exact hc
      · simp only [Scrub.literals, if_neg hc]
        refine .cons (fun _ => rfl) ?_ (fun _ _ _ _ => rfl) (ih (by simp))
        intro _ e he hword
        obtain ⟨s, rfl⟩ := List.head?_eq_some_iff.1 he
        have hquote : ¬ Scrub.isQuote e = true := by
          intro hq
          rw [isWordChar_of_isQuote hq] at hword
          cases hword
        simp [Scrub.literals, hquote]

/-- A comment begins with a slash, which is no word character, and has no end. -/
theorem covers_comment (s : List Char) : Covers s (Scrub.comment s) := by
  induction s with
  | nil => exact .nil
  | cons c s ih =>
    rw [Scrub.comment]
    split
    · exact covers_spaces (c :: s)
    · refine .cons (fun _ => rfl) ?_ (fun _ _ _ _ => rfl) ih
      intro _ e he hword
      obtain ⟨s, rfl⟩ := List.head?_eq_some_iff.1 he
      have hslash : ¬(e = '/' ∧ s.head? = some '/') := by
        rintro ⟨rfl, -⟩
        exact absurd hword (by decide)
      rw [Scrub.comment, if_neg hslash]
      rfl

theorem Covers.head {s t : List Char} (h : Covers s t) :
    ∀ e ∈ t.head?, isWordChar e = true → s.head? = some e := by
  cases h with
  | nil => simp
  | cons shows _ _ _ =>
    rintro e ⟨⟩ hword
    rw [shows hword]
    rfl

theorem Covers.trans {s t r : List Char} (h : Covers s t) (h' : Covers t r) : Covers s r := by
  induction h generalizing r with
  | nil => exact h'
  | @cons c d s t shows right left rest ih =>
    cases h' with
    | @cons _ e _ r shows' right' left' rest' =>
      refine .cons ?_ ?_ ?_ (ih rest')
      · intro he
        have hd := shows' he
        rw [shows (hd ▸ he), hd]
      · intro he f hf hword
        have hd := shows' he
        exact right' he f (right (hd ▸ he) f hf hword) hword
      · intro hc f hf hword
        have hd := left hc f (rest'.head f hf hword) hword
        rw [left' (hd ▸ hc) f hf hword, hd]

theorem covers_scrub (line : List Char) : Covers line (scrub line) :=
  (covers_literals (by simp) line).trans (covers_comment _)

theorem Covers.word {s : List Char} (h : Covers s (w ++ v)) (hne : w ≠ [])
    (hw : ∀ d ∈ w, isWordChar d = true) (hv : ∀ d ∈ v.head?, isWordChar d = false) :
    ∃ v', s = w ++ v' ∧ ∀ d ∈ v'.head?, isWordChar d = false := by
  induction w generalizing s with
  | nil => exact absurd rfl hne
  | cons d w ih =>
    obtain ⟨hd, hw⟩ := List.forall_mem_cons.1 hw
    cases h with
    | @cons c _ s _ shows right left rest =>
      cases shows hd
      cases w with
      | nil =>
        refine ⟨s, rfl, fun e he => ?_⟩
        by_contra hne
        have hword : isWordChar e = true := by simpa using hne
        rw [hv e (right hd e he hword)] at hword
        cases hword
      | cons e w =>
        obtain ⟨v', rfl, hv'⟩ := ih rest (List.cons_ne_nil e w) hw
        exact ⟨v', rfl, hv'⟩

/-- **What shows as a word is a word at the same place.** -/
theorem Covers.standing {s t : List Char} (h : Covers s t) (ht : Standing t before name after) :
    ∃ u v, Standing s u name v ∧ u.length = before.length := by
  induction before generalizing s t with
  | nil =>
    obtain ⟨c, w, rfl, -⟩ := ht.exists_cons
    have htext := ht.text_eq
    rw [List.nil_append] at htext
    rw [htext] at h
    obtain ⟨v, hs, hv⟩ := h.word (List.cons_ne_nil c w) ht.word ht.right
    exact ⟨[], v, ⟨hs, ht.start, ht.word, by simp, hv⟩, rfl⟩
  | cons d before ih =>
    have hrest : Standing (before ++ (name ++ after)) before name after :=
      ⟨rfl, ht.start, ht.word, fun e he => ht.left e (List.mem_getLast?_cons he), ht.right⟩
    rw [ht.text_eq] at h
    cases h with
    | @cons c _ s _ shows right left rest =>
      obtain ⟨u, v, hs, hlength⟩ := ih rest hrest
      refine ⟨c :: u, v, ⟨by rw [hs.text_eq]; rfl, hs.start, hs.word, fun e he => ?_, hs.right⟩,
        by rw [List.length_cons, hlength, List.length_cons]⟩
      cases u with
      | cons f u => exact hs.left e he
      | nil =>
        -- the word is next: a word character before it would show
        cases he
        rw [List.length_eq_zero_iff.1 hlength.symm] at ht left
        obtain ⟨f, w, rfl, -, hf⟩ := ht.exists_cons
        by_contra hne
        have hword : isWordChar c = true := by simpa using hne
        have hd := ht.left d rfl
        rw [left hword f rfl hf, hword] at hd
        cases hd

/-! ## The uses of all lines -/

end Usage

/-- The line and the column, in the order of the text. -/
def Use.place (u : Use) : ℕ ×ₗ ℕ :=
  toLex (u.line, u.column)

namespace Usage

variable {lines : List (List Char)} {number : ℕ} {x : Use}

/-- Nothing is lost by passing over lines with nothing but a comment. -/
theorem inLine_eq (number : ℕ) (line : List Char) :
    inLine number line = ((sites [] (scrub line)).filter Site.isPlain).map fun s =>
      ⟨number, s.column, String.ofList s.name⟩ := by
  unfold inLine
  split
  · next h =>
    rw [sites_of_isCommentLine h]
    rfl
  · rfl

theorem mem_inLine {line : List Char} :
    x ∈ inLine number line ↔ x.line = number ∧
      ∃ before after, x.column = before.length + 1 ∧
        PlainUse (scrub line) before x.name.toList after := by
  rw [inLine_eq, List.mem_map]
  constructor
  · rintro ⟨s, hs, rfl⟩
    obtain ⟨hsite, hplain⟩ := List.mem_filter.1 hs
    obtain ⟨u, hbefore, hstanding⟩ := mem_sites.1 hsite
    have hu : s.before.reverse = u := by rw [hbefore]; simp
    rw [← hu] at hstanding
    refine ⟨rfl, s.before.reverse, s.after, by simp [Site.column], ?_⟩
    rw [String.toList_ofList]
    exact (isPlain_iff hstanding).1 hplain
  · rintro ⟨rfl, before, after, hcolumn, h⟩
    have hplain : PlainUse (scrub line) before.reverse.reverse x.name.toList after := by
      rwa [List.reverse_reverse]
    refine ⟨⟨before.reverse, x.name.toList, after⟩, List.mem_filter.2 ⟨?_, ?_⟩, ?_⟩
    · exact mem_sites.2 ⟨before, by simp, h.toStanding⟩
    · exact (isPlain_iff hplain.toStanding).2 hplain
    · rw [Site.column, List.length_reverse, ← hcolumn, String.ofList_toList]

theorem mem_inLines :
    x ∈ inLines number lines ↔ ∃ i l, lines[i]? = some l ∧ x ∈ inLine (number + i) l := by
  induction lines generalizing number with
  | nil => simp [inLines]
  | cons l ls ih =>
    rw [inLines, List.mem_append, ih]
    constructor
    · rintro (h | ⟨i, l', hl, h⟩)
      · exact ⟨0, l, rfl, h⟩
      · refine ⟨i + 1, l', hl, ?_⟩
        rwa [Nat.add_assoc, Nat.add_comm 1] at h
    · rintro ⟨i, l', hl, h⟩
      cases i with
      | zero =>
        cases hl
        exact .inl h
      | succ i =>
        refine .inr ⟨i, l', hl, ?_⟩
        rwa [Nat.add_assoc, Nat.add_comm 1]

/-- **The uses that are found are the plain uses.** -/
theorem mem_inLines_iff : x ∈ inLines 1 lines ↔ PlainAt lines x.name x.place := by
  rw [mem_inLines]
  constructor
  · rintro ⟨i, l, hl, h⟩
    obtain ⟨hline, before, after, hcolumn, huse⟩ := mem_inLine.1 h
    refine ⟨i, l, before, after, hl, ?_, huse⟩
    rw [Use.place, hline, hcolumn, Nat.add_comm]
  · rintro ⟨i, l, before, after, hl, hplace, huse⟩
    obtain ⟨hline, hcolumn⟩ := Prod.mk.inj (toLex.injective hplace)
    exact ⟨i, l, hl, mem_inLine.2 ⟨by rw [hline, Nat.add_comm], before, after, hcolumn, huse⟩⟩

theorem pairwise_inLines (number : ℕ) (lines : List (List Char)) :
    (inLines number lines).Pairwise fun x y => x.place < y.place := by
  induction lines generalizing number with
  | nil => exact List.Pairwise.nil
  | cons l ls ih =>
    rw [inLines, List.pairwise_append]
    refine ⟨?_, ih (number + 1), ?_⟩
    · rw [inLine_eq, List.pairwise_map]
      refine (List.Pairwise.filter _ (pairwise_sites [] (scrub l))).imp fun {s t} hlt => ?_
      refine Prod.Lex.toLex_lt_toLex.2 (.inr ⟨rfl, ?_⟩)
      simp only [Site.column]
      omega
    · intro x hx y hy
      have hline := (mem_inLine.1 hx).1
      obtain ⟨i, l', -, hy⟩ := mem_inLines.1 hy
      have hline' := (mem_inLine.1 hy).1
      exact Prod.Lex.toLex_lt_toLex.2 (.inl (by omega))

/-! ## The first use of each name -/

theorem firstUses_sublist (known : String → Bool) (seen : List String) (us : List Use) :
    (firstUses known seen us).Sublist us := by
  induction us generalizing seen with
  | nil => exact List.Sublist.refl _
  | cons x us ih =>
    unfold firstUses
    split
    · exact (ih seen).cons x
    · exact (ih _).cons_cons x

/-- **What was reported before is not reported again**, so a use is reported if it is the first of
an unknown name. -/
theorem mem_firstUses {known : String → Bool} {seen : List String} {us : List Use}
    (h : us.Pairwise fun x y => x.place < y.place) :
    x ∈ firstUses known seen us ↔ x ∈ us ∧ known x.name = false ∧ x.name ∉ seen ∧
      ∀ y ∈ us, y.name = x.name → x.place ≤ y.place := by
  induction us generalizing seen with
  | nil => simp [firstUses]
  | cons z us ih =>
    obtain ⟨hz, hus⟩ := List.pairwise_cons.1 h
    simp only [firstUses, Bool.or_eq_true, List.contains_iff_mem]
    split
    · next hskip =>
      have hother : known x.name = false → x.name ∉ seen → z.name ≠ x.name := by
        intro hknown hseen heq
        rw [heq, hknown] at hskip
        rcases hskip with hskip | hskip
        · cases hskip
        · exact hseen hskip
      rw [ih hus]
      constructor
      · rintro ⟨hx, hknown, hseen, hfirst⟩
        refine ⟨List.mem_cons_of_mem z hx, hknown, hseen, List.forall_mem_cons.2 ⟨?_, hfirst⟩⟩
        exact fun heq => absurd heq (hother hknown hseen)
      · rintro ⟨hx, hknown, hseen, hfirst⟩
        refine ⟨?_, hknown, hseen, (List.forall_mem_cons.1 hfirst).2⟩
        rcases List.mem_cons.1 hx with rfl | hx
        · exact absurd rfl (hother hknown hseen)
        · exact hx
    · next hreport =>
      obtain ⟨hknown, hseen⟩ := not_or.1 hreport
      rw [List.mem_cons, ih hus]
      constructor
      · rintro (rfl | ⟨hx, hknown', hseen', hfirst⟩)
        · refine ⟨List.mem_cons_self, by simpa using hknown, hseen, ?_⟩
          exact List.forall_mem_cons.2 ⟨fun _ => le_refl _, fun y hy _ => le_of_lt (hz y hy)⟩
        · obtain ⟨hne, hseen'⟩ := not_or.1 (List.mem_cons.not.1 hseen')
          refine ⟨List.mem_cons_of_mem z hx, hknown', hseen', List.forall_mem_cons.2 ⟨?_, hfirst⟩⟩
          exact fun heq => absurd heq.symm hne
      · rintro ⟨hx, hknown', hseen', hfirst⟩
        obtain ⟨hle, hfirst⟩ := List.forall_mem_cons.1 hfirst
        rcases List.mem_cons.1 hx with rfl | hx
        · exact .inl rfl
        · refine .inr ⟨hx, hknown', List.mem_cons.not.2 (not_or.2 ⟨fun heq => ?_, hseen'⟩), hfirst⟩
          exact absurd (hz x hx) (not_lt_of_ge (hle heq.symm))

theorem exists_firstUses {known : String → Bool} {seen : List String} {us : List Use}
    {name : String} (hknown : known name = false) (hseen : name ∉ seen)
    (h : ∃ x ∈ us, x.name = name) : ∃ x ∈ firstUses known seen us, x.name = name := by
  induction us generalizing seen with
  | nil => simp at h
  | cons z us ih =>
    obtain ⟨x, hx, rfl⟩ := h
    simp only [firstUses, Bool.or_eq_true, List.contains_iff_mem]
    by_cases hz : z.name = x.name
    · rw [hz, if_neg (by simp [hknown, hseen])]
      exact ⟨z, List.mem_cons_self, hz⟩
    · have hus : ∃ y ∈ us, y.name = x.name := by
        rcases List.mem_cons.1 hx with rfl | hx
        · exact absurd rfl hz
        · exact ⟨x, hx, rfl⟩
      split
      · exact ih hseen hus
      · obtain ⟨y, hy, hname⟩ := ih (List.mem_cons.not.2 (not_or.2 ⟨Ne.symm hz, hseen⟩)) hus
        exact ⟨y, List.mem_cons_of_mem z hy, hname⟩

theorem pairwise_firstUses (known : String → Bool) {us : List Use}
    (h : us.Pairwise fun x y => x.place < y.place) :
    (firstUses known [] us).Pairwise fun x y => x.place < y.place ∧ x.name ≠ y.name := by
  refine (h.sublist (firstUses_sublist known [] us)).imp_of_mem fun {x y} hx hy hlt => ⟨hlt, ?_⟩
  intro hname
  obtain ⟨-, -, -, hfirst⟩ := (mem_firstUses h).1 hy
  exact absurd hlt (not_lt_of_ge (hfirst x ((mem_firstUses h).1 hx).1 hname))

/-- A use that is reported is the first plain use of its name. -/
theorem isLeast_of_mem_firstUses {known : String → Bool}
    (hx : x ∈ firstUses known [] (inLines 1 lines)) :
    known x.name = false ∧ IsLeast {place | PlainAt lines x.name place} x.place := by
  obtain ⟨hmem, hknown, -, hle⟩ := (mem_firstUses (pairwise_inLines 1 lines)).1 hx
  refine ⟨hknown, mem_inLines_iff.1 hmem, fun place hplain => ?_⟩
  have hused : (⟨place.1, place.2, x.name⟩ : Use) ∈ inLines 1 lines := mem_inLines_iff.2 hplain
  exact hle _ hused rfl

/-- An unknown name with a plain use is reported. -/
theorem exists_firstUses_of_plainAt {known : String → Bool} {name : String} {place : ℕ ×ₗ ℕ}
    (hknown : known name = false) (h : PlainAt lines name place) :
    ∃ x ∈ firstUses known [] (inLines 1 lines), x.name = name := by
  have hused : (⟨place.1, place.2, name⟩ : Use) ∈ inLines 1 lines := mem_inLines_iff.2 h
  exact exists_firstUses hknown List.not_mem_nil ⟨_, hused, rfl⟩

theorem filter_name {us : List Use} (h : us.Pairwise fun x y => x.name ≠ y.name) (hx : x ∈ us) :
    us.filter (fun y => y.name = x.name) = [x] := by
  induction us with
  | nil => cases hx
  | cons z us ih =>
    obtain ⟨hz, hus⟩ := List.pairwise_cons.1 h
    rcases List.mem_cons.1 hx with rfl | hx
    · rw [List.filter_cons_of_pos (by simp), List.filter_eq_nil_iff.2]
      intro y hy
      simpa using (hz y hy).symm
    · rw [List.filter_cons_of_neg (by simpa using hz x hx), ih hus hx]

end Usage

/-! ## Reports -/

/-- The line and the column, in the order of the text. -/
def Diagnostic.place (d : Diagnostic) : ℕ ×ₗ ℕ :=
  toLex (d.line.toNat, d.column.toNat)

namespace Usage

variable {lines : List (List Char)} {x : Use}

/-- Is this the warning for the name? -/
def Warns (name : String) (d : Diagnostic) : Prop :=
  d.severity = .warning ∧ d.message = "Undefined variable '" ++ name ++ "'"

instance (name : String) (d : Diagnostic) : Decidable (Warns name d) :=
  inferInstanceAs (Decidable (_ ∧ _))

/-- **What is reported about some lines**, told by their plain uses. -/
structure Reports (declared globals : List String) (lines : List (List Char))
    (ds : List Diagnostic) : Prop where
  warning : ∀ d ∈ ds, ∃ name, Warns name d
  reported_iff : ∀ name, (∃ d ∈ ds, Warns name d) ↔
    (Vocabulary.isKeyword name = false ∧ Vocabulary.isNative name = false ∧ name ∉ declared ∧
      name ∉ globals) ∧ ∃ place, PlainAt lines name place
  once : ∀ name, ∀ d ∈ ds, Warns name d → ds.filter (fun e => Warns name e) = [d]
  first : ∀ name, ∀ d ∈ ds, Warns name d → IsLeast {place | PlainAt lines name place} d.place
  stands : ∀ name, ∀ d ∈ ds, Warns name d → StandsAt lines name d.place
  increasing : ds.Pairwise fun d e => d.place < e.place

theorem warns_warning_iff {name : String} : Warns name (warning x) ↔ x.name = name := by
  constructor
  · rintro ⟨-, hmessage⟩
    have htoList := congrArg String.toList hmessage
    simp only [warning, Diagnostic.make, String.toList_append, List.append_assoc] at htoList
    exact String.toList_inj.1 (List.append_cancel_right (List.append_cancel_left htoList))
  · rintro rfl
    exact ⟨rfl, rfl⟩

/-- A warning for a name comes from a use of that name. -/
theorem exists_use_of_warns {declared globals : List String} {name : String} {d : Diagnostic}
    (hd : d ∈ undefinedNames declared globals lines) (h : Warns name d) :
    ∃ x ∈ firstUses (isKnown declared globals) [] (inLines 1 lines),
      d = warning x ∧ name = x.name := by
  obtain ⟨x, hx, rfl⟩ := List.mem_map.1 hd
  exact ⟨x, hx, rfl, (warns_warning_iff.1 h).symm⟩

theorem isKnown_eq_false_iff {declared globals : List String} {name : String} :
    isKnown declared globals name = false ↔ Vocabulary.isKeyword name = false ∧
      Vocabulary.isNative name = false ∧ name ∉ declared ∧ name ∉ globals := by
  simp [isKnown, and_assoc]

theorem PlainAt.standsAt {name : String} {place : ℕ ×ₗ ℕ} (h : PlainAt lines name place) :
    StandsAt lines name place := by
  obtain ⟨i, l, before, after, hl, rfl, huse⟩ := h
  obtain ⟨u, v, hstanding, hlength⟩ := (covers_scrub l).standing huse.toStanding
  exact ⟨i, l, u, v, hl, by rw [hlength], hstanding⟩

theorem StandsAt.column_le {name : String} {i column : ℕ}
    (h : StandsAt lines name (toLex (i, column))) :
    1 ≤ i ∧ i ≤ lines.length ∧ 1 ≤ column ∧ ∃ l ∈ lines, column ≤ l.length := by
  obtain ⟨j, l, before, after, hl, hplace, hstanding⟩ := h
  obtain ⟨rfl, rfl⟩ := Prod.mk.inj (toLex.injective hplace)
  obtain ⟨c, w, hname, -⟩ := hstanding.exists_cons
  have hlength := congrArg List.length hstanding.text_eq
  rw [hname] at hlength
  simp only [List.length_append, List.length_cons] at hlength
  have hj := (List.getElem?_eq_some_iff.1 hl).1
  exact ⟨by omega, hj, by omega, l, List.mem_of_getElem? hl, by omega⟩

/-- The numbers of a use fit where the lines are few and short enough. -/
theorem place_warning (hlines : lines.length < 2 ^ 32 - 1)
    (hcolumns : ∀ l ∈ lines, l.length < 2 ^ 32 - 1) (hx : PlainAt lines x.name x.place) :
    (warning x).place = x.place := by
  obtain ⟨hline, hle, hcolumn, l, hl, hle'⟩ := hx.standsAt.column_le
  have hlength := hcolumns l hl
  have hsize : UInt32.size = 2 ^ 32 := rfl
  simp only [Diagnostic.place, Use.place, warning, Diagnostic.make, max_ofNatClamp_one hline,
    max_ofNatClamp_one hcolumn]
  rw [UInt32.toNat_ofNatClamp_of_lt (by omega), UInt32.toNat_ofNatClamp_of_lt (by omega)]

end Usage

open Usage

/-- **Undefined variables are reported exactly**: one warning for each name that is used plainly and
not known, at its first plain use, in the order of the text, and at the place where the name stands
in the line as it is written. -/
theorem undefinedNames_reports (declared globals : List String) (lines : List (List Char))
    (hlines : lines.length < 2 ^ 32 - 1) (hcolumns : ∀ l ∈ lines, l.length < 2 ^ 32 - 1) :
    Reports declared globals lines (undefinedNames declared globals lines) := by
  have hsorted := pairwise_firstUses (isKnown declared globals) (pairwise_inLines 1 lines)
  have hplace : ∀ x ∈ firstUses (isKnown declared globals) [] (inLines 1 lines),
      (warning x).place = x.place :=
    fun x hx => place_warning hlines hcolumns (isLeast_of_mem_firstUses hx).2.1
  constructor
  case warning =>
    intro d hd
    obtain ⟨x, -, rfl⟩ := List.mem_map.1 hd
    exact ⟨x.name, warns_warning_iff.2 rfl⟩
  case reported_iff =>
    intro name
    rw [← isKnown_eq_false_iff]
    constructor
    · rintro ⟨d, hd, hname⟩
      obtain ⟨x, hx, -, rfl⟩ := exists_use_of_warns hd hname
      obtain ⟨hknown, hfirst⟩ := isLeast_of_mem_firstUses hx
      exact ⟨hknown, x.place, hfirst.1⟩
    · rintro ⟨hknown, place, hplain⟩
      obtain ⟨x, hx, hname⟩ := exists_firstUses_of_plainAt hknown hplain
      exact ⟨warning x, List.mem_map_of_mem hx, warns_warning_iff.2 hname⟩
  case once =>
    intro name d hd hname
    obtain ⟨x, hx, rfl, rfl⟩ := exists_use_of_warns hd hname
    have hsame : ((fun e => decide (Warns x.name e)) ∘ warning) =
        fun y => decide (y.name = x.name) := by
      funext y
      simp only [Function.comp_apply, warns_warning_iff]
    rw [undefinedNames, List.filter_map, hsame, filter_name (hsorted.imp fun h => h.2) hx]
    rfl
  case first =>
    intro name d hd hname
    obtain ⟨x, hx, rfl, rfl⟩ := exists_use_of_warns hd hname
    rw [hplace x hx]
    exact (isLeast_of_mem_firstUses hx).2
  case stands =>
    intro name d hd hname
    obtain ⟨x, hx, rfl, rfl⟩ := exists_use_of_warns hd hname
    rw [hplace x hx]
    exact (isLeast_of_mem_firstUses hx).2.1.standsAt
  case increasing =>
    rw [undefinedNames, List.pairwise_map]
    refine hsorted.imp_of_mem fun {x y} hx hy hlt => ?_
    rw [hplace x hx, hplace y hy]
    exact hlt.1

namespace Usage

/-- A name that is declared, a member and called before it is used, with a literal, a comment and
words that begin with a digit around it. -/
def sampleLines : List (List Char) :=
  ["let b = é.b + b(1x, \"b\")".toList, "  // b".toList, "a/2_ + b // a".toList, "b _c b".toList]

def sampleReport : List Diagnostic :=
  [⟨3, 8, "Undefined variable 'b'", .warning⟩, ⟨4, 3, "Undefined variable '_c'", .warning⟩]

end Usage

/-- The names of the sample that are reported, each at its first plain use. -/
theorem undefinedNames_reports_sample :
    (sampleLines.length < 2 ^ 32 - 1 ∧ ∀ l ∈ sampleLines, l.length < 2 ^ 32 - 1) ∧
    undefinedNames ["a"] [] sampleLines = sampleReport ∧
    Reports ["a"] [] sampleLines sampleReport := by
  have hlines : sampleLines.length < 2 ^ 32 - 1 := by decide
  have hcolumns : ∀ l ∈ sampleLines, l.length < 2 ^ 32 - 1 := by decide
  have hreport : undefinedNames ["a"] [] sampleLines = sampleReport := by cbv
  refine ⟨⟨hlines, hcolumns⟩, hreport, ?_⟩
  rw [← hreport]
  exact undefinedNames_reports ["a"] [] sampleLines hlines hcolumns

end ScriptLint
