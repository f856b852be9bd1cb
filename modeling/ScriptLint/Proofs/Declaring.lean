import Mathlib
import ScriptLint.Proofs.Bindings
import ScriptLint.Proofs.PlainUses

/-!
# What a declaration changes

A name that becomes known is no longer reported, and nothing else changes: what is reported of the
other names does not depend on whether this one was reported before them.

* `Usage.firstUses_seen`: what has been reported matters for unknown names only.
* `Usage.firstUses_or`, `undefinedNames_more`: **more known names delete their own warnings.**
* `Declared.inLine_letLine`, `Usage.isKeyword_of_mem_letLine`: a line `let name = null` declares the
  name and nothing else, and uses nothing but keywords.
* `undefinedNames_declare`: **declaring a name, anywhere, deletes the warning for it.**
-/

namespace ScriptLint

open Token (isWordStart isWordChar)

namespace Usage

/-! ## More known names -/

/-- Two runs that have reported the same unknown names go on alike. -/
theorem firstUses_seen {known : String → Bool} {seen seen' : List String}
    (h : ∀ name, known name = false → (name ∈ seen ↔ name ∈ seen')) (us : List Use) :
    firstUses known seen us = firstUses known seen' us := by
  induction us generalizing seen seen' with
  | nil => rfl
  | cons u us ih =>
    cases hknown : known u.name with
    | true =>
      rw [firstUses, firstUses, hknown, Bool.true_or, Bool.true_or, if_pos rfl, if_pos rfl]
      exact ih h
    | false =>
      have hseen : seen.contains u.name = seen'.contains u.name := by
        rw [Bool.eq_iff_iff, List.contains_iff_mem, List.contains_iff_mem]
        exact h u.name hknown
      rw [firstUses, firstUses, hseen]
      split
      · exact ih h
      · refine congrArg (u :: ·) (ih fun name hname => ?_)
        rw [List.mem_cons, List.mem_cons, h name hname]

/-- **More known names take their own uses away, and no others.** -/
theorem firstUses_or (known more : String → Bool) (seen : List String) (us : List Use) :
    firstUses (fun name => more name || known name) seen us =
      (firstUses known seen us).filter fun u => !more u.name := by
  induction us generalizing seen with
  | nil => rfl
  | cons u us ih =>
    rw [firstUses, firstUses, Bool.or_assoc]
    cases hmore : more u.name with
    | false =>
      rw [Bool.false_or]
      split
      · exact ih seen
      · rw [List.filter_cons_of_pos (by simp [hmore]), ih]
    | true =>
      rw [Bool.true_or, if_pos rfl]
      split
      · exact ih seen
      · -- here one run reports the name and the other does not
        rw [List.filter_cons_of_neg (by simp [hmore]), ← ih]
        refine firstUses_seen (fun name hname => ?_) us
        have hne : name ≠ u.name := by
          rintro rfl
          rw [hmore, Bool.true_or] at hname
          cases hname
        rw [List.mem_cons, or_iff_right hne]

end Usage

open Usage

/-- **More known names delete their own warnings.** -/
theorem undefinedNames_more {declared globals declared' globals' more : List String}
    (h : ∀ name, isKnown declared' globals' name =
      (more.contains name || isKnown declared globals name)) (lines : List (List Char)) :
    undefinedNames declared' globals' lines =
      (undefinedNames declared globals lines).filter fun d => ∀ name ∈ more, ¬Warns name d := by
  have hwarns : ((fun d => decide (∀ name ∈ more, ¬Warns name d)) ∘ warning) =
      fun u : Use => !more.contains u.name := by
    funext u
    rw [Function.comp_apply, Bool.eq_iff_iff, decide_eq_true_eq, Bool.not_eq_true',
      ← Bool.not_eq_true, List.contains_iff_mem]
    constructor
    · exact fun hd hmem => hd u.name hmem (warns_warning_iff.2 rfl)
    · intro hmem name hname hd
      exact hmem (warns_warning_iff.1 hd ▸ hname)
  rw [undefinedNames, undefinedNames, funext h, firstUses_or, List.filter_map, hwarns]

theorem undefinedNames_congr {declared declared' : List String}
    (h : ∀ name, name ∈ declared' ↔ name ∈ declared) (globals : List String)
    (lines : List (List Char)) :
    undefinedNames declared' globals lines = undefinedNames declared globals lines := by
  have hknown : isKnown declared' globals = isKnown declared globals := by
    funext name
    have hcontains : declared'.contains name = declared.contains name := by
      rw [Bool.eq_iff_iff, List.contains_iff_mem, List.contains_iff_mem, h]
    rw [isKnown, hcontains, isKnown]
  rw [undefinedNames, undefinedNames, hknown]

theorem isKnown_insert (name : String) (declared globals : List String) (x : String) :
    isKnown (declared.insert name) globals x =
      ([name].contains x || isKnown declared globals x) := by
  rw [Bool.eq_iff_iff]
  simp only [isKnown, Bool.or_eq_true, List.contains_iff_mem, List.mem_insert_iff,
    List.mem_singleton]
  tauto

theorem isKnown_concat (name : String) (declared globals : List String) (x : String) :
    isKnown declared (globals ++ [name]) x =
      ([name].contains x || isKnown declared globals x) := by
  rw [Bool.eq_iff_iff]
  simp only [isKnown, Bool.or_eq_true, List.contains_iff_mem, List.mem_append, List.mem_singleton]
  tauto

theorem isKnown_append (declared more globals : List String) (x : String) :
    isKnown (declared ++ more) globals x = (more.contains x || isKnown declared globals x) := by
  rw [Bool.eq_iff_iff]
  simp only [isKnown, Bool.or_eq_true, List.contains_iff_mem, List.mem_append]
  tauto

/-- There is at most one warning for a name. -/
theorem length_filter_warns_le (name : String) (declared globals : List String)
    (lines : List (List Char)) :
    ((undefinedNames declared globals lines).filter fun d => Warns name d).length ≤ 1 := by
  have hsame : ((fun d => decide (Warns name d)) ∘ warning) = fun u => decide (u.name = name) := by
    funext u
    rw [Function.comp_apply, decide_eq_decide, warns_warning_iff]
  have hdistinct := (pairwise_firstUses (isKnown declared globals) (pairwise_inLines 1 lines)).imp
    fun h => h.2
  rw [undefinedNames, List.filter_map, hsame, List.length_map]
  by_cases hname : ∃ x ∈ firstUses (isKnown declared globals) [] (inLines 1 lines), x.name = name
  · obtain ⟨x, hx, rfl⟩ := hname
    rw [filter_name hdistinct hx, List.length_singleton]
  · rw [List.filter_eq_nil_iff.2 fun x hx hx' => hname ⟨x, hx, of_decide_eq_true hx'⟩]
    exact Nat.zero_le 1

/-! ## A line with a declaration -/

/-- A letter or an underscore, and then letters, digits and underscores. -/
def IsIdentifier (name : String) : Prop :=
  ∃ c w, name.toList = c :: w ∧ isWordStart c = true ∧ ∀ d ∈ w, isWordChar d = true

/-- What stands behind the name of `letLine`. -/
def nullValue : List Char :=
  [' ', '=', ' ', 'n', 'u', 'l', 'l']

theorem isBlank_space : Text.isBlank ' ' = true := by decide

theorem head_nullValue : ∀ d ∈ nullValue.head?, isWordChar d = false := by
  rintro _ ⟨⟩
  decide

/-- `let name = null` -/
def letLine (name : List Char) : List Char :=
  ['l', 'e', 't', ' '] ++ (name ++ nullValue)

variable {c : Char} {w cs v word : List Char}

namespace Declared

theorem occurrences_run (word : List Char) (hw : ∀ d ∈ w, isWordChar d = true) (cs : List Char) :
    occurrences word true (w ++ cs) = occurrences word true cs := by
  induction w with
  | nil => rfl
  | cons d w ih =>
    obtain ⟨hd, hw⟩ := List.forall_mem_cons.1 hw
    rw [List.cons_append, occurrences, if_neg (by simp), hd]
    exact ih hw

/-- A word can begin at the front of a run of word characters, or behind the run. -/
theorem occurrences_word (hc : isWordChar c = true) (hw : ∀ d ∈ w, isWordChar d = true)
    (word cs : List Char) : occurrences word false (c :: w ++ cs) =
      (if word.isPrefixOf (c :: w ++ cs) then [(c :: w ++ cs).drop word.length] else []) ++
        occurrences word true cs := by
  rw [List.cons_append, occurrences, hc, occurrences_run word hw, Bool.not_false, Bool.true_and]
  split <;> rfl

theorem prefix_run (hcs : ∀ d ∈ cs.head?, d ∉ word) (h : word <+: w ++ cs) : word <+: w := by
  rcases List.prefix_or_prefix_of_prefix h (List.prefix_append w cs) with hprefix | ⟨r, rfl⟩
  · exact hprefix
  · -- what goes beyond the run begins with a character that is not in the word
    obtain ⟨t, ht⟩ := h
    rw [List.append_assoc, List.append_cancel_left_eq] at ht
    cases r with
    | nil => rw [List.append_nil]
    | cons d r => exact absurd (by simp) (hcs d (by rw [← ht]; rfl))

/-- What a word at the front of `name = null` leaves over is the rest of the name. -/
theorem mem_occurrences_nullValue {r : List Char} (hc : isWordChar c = true)
    (hw : ∀ d ∈ w, isWordChar d = true) (hspace : ' ' ∉ word)
    (hnull : occurrences word true nullValue = [])
    (h : r ∈ occurrences word false (c :: w ++ nullValue)) :
    ∃ v, (∀ d ∈ v, isWordChar d = true) ∧ r = v ++ nullValue := by
  rw [occurrences_word hc hw, hnull, List.append_nil] at h
  split at h
  · next hbegins =>
    have hprefix : word <+: c :: w := by
      refine prefix_run ?_ (List.isPrefixOf_iff_prefix.1 hbegins)
      rintro _ ⟨⟩
      exact hspace
    have hrun : ∀ d ∈ c :: w, isWordChar d = true := List.forall_mem_cons.2 ⟨hc, hw⟩
    refine ⟨(c :: w).drop word.length, fun d hd => hrun d (List.mem_of_mem_drop hd), ?_⟩
    · rw [List.mem_singleton.1 h, List.drop_append_of_le_length hprefix.length_le]
  · cases h

theorem letName?_nullValue (hv : ∀ d ∈ v, isWordChar d = true) :
    letName? (v ++ nullValue) = none := by
  cases v with
  | nil => decide
  | cons d v =>
    -- a blank must follow the word
    have hd := isBlank_of_isWordChar (hv d List.mem_cons_self)
    have htrim := trimStart_blanks (g := []) (by simp) hd (v ++ nullValue)
    rw [List.nil_append] at htrim
    simp [letName?, htrim]

theorem paramNames_nullValue (hv : ∀ d ∈ v, isWordChar d = true) :
    paramNames (v ++ nullValue) = [] := by
  cases v with
  | nil => decide
  | cons d v =>
    have hword := hv d List.mem_cons_self
    have htrim := trimStart_blanks (g := []) (by simp) (isBlank_of_isWordChar hword)
      (v ++ nullValue)
    rw [List.nil_append] at htrim
    have hparen : d ≠ '(' := by
      rintro rfl
      exact absurd hword (by decide)
    simp [paramNames, htrim, hparen]

theorem letName?_name (hc : isWordStart c = true) (hw : ∀ d ∈ w, isWordChar d = true) :
    letName? (' ' :: (c :: w ++ nullValue)) = some (c :: w) := by
  have hblank := isBlank_of_isWordChar (Token.isWordChar_iff.2 (.inl hc))
  have htrim := trimStart_blanks (List.forall_mem_singleton.2 isBlank_space) hblank (w ++ nullValue)
  have hident := identifier?_word (v := nullValue) hc hw head_nullValue
  have hsign : (Text.trimStart nullValue).head? = some '=' := by decide
  rw [List.singleton_append] at htrim
  simp only [List.cons_append] at hident ⊢
  simp [letName?, htrim, hident, hsign]

theorem occurrences_letLine (word name : List Char) : occurrences word false (letLine name) =
    (if word.isPrefixOf (letLine name) then [(letLine name).drop word.length] else []) ++
      occurrences word false (name ++ nullValue) := by
  have hlet : occurrences word false (letLine name) = _ :=
    occurrences_word (c := 'l') (w := ['e', 't']) (by decide) (by simp; decide) word
      (' ' :: (name ++ nullValue))
  have hspace : occurrences word true (' ' :: (name ++ nullValue)) =
      occurrences word false (name ++ nullValue) := by
    rw [occurrences, if_neg (by simp)]
    rfl
  rw [hlet, hspace]
  rfl

/-- **The line declares the name and nothing else.** -/
theorem inLine_letLine (hc : isWordStart c = true) (hw : ∀ d ∈ w, isWordChar d = true) :
    inLine (letLine (c :: w)) = [String.ofList (c :: w)] := by
  have hc' : isWordChar c = true := Token.isWordChar_iff.2 (.inl hc)
  have hlets : (occurrences ['l', 'e', 't'] false (c :: w ++ nullValue)).filterMap letName? = [] :=
    List.filterMap_eq_nil_iff.2 fun r hr => by
      obtain ⟨v, hv, rfl⟩ := mem_occurrences_nullValue hc' hw (by decide) (by decide) hr
      exact letName?_nullValue hv
  have hparams : (occurrences ['f', 'n'] false (c :: w ++ nullValue)).flatMap paramNames = [] :=
    List.flatMap_eq_nil_iff.2 fun r hr => by
      obtain ⟨v, hv, rfl⟩ := mem_occurrences_nullValue hc' hw (by decide) (by decide) hr
      exact paramNames_nullValue hv
  have hlet : occurrences ['l', 'e', 't'] false (letLine (c :: w)) =
      (' ' :: (c :: w ++ nullValue)) :: occurrences ['l', 'e', 't'] false (c :: w ++ nullValue) :=
    occurrences_letLine _ _
  have hfn : occurrences ['f', 'n'] false (letLine (c :: w)) =
      occurrences ['f', 'n'] false (c :: w ++ nullValue) :=
    occurrences_letLine _ _
  rw [inLine, hlet, hfn, hparams, List.filterMap_cons_some (letName?_name hc hw), hlets]
  rfl

end Declared

namespace Usage

theorem scrub_letLine {name : List Char} (h : ∀ d ∈ name, isWordChar d = true) :
    scrub (letLine name) = letLine name := by
  have hlet : ∀ d ∈ ['l', 'e', 't', ' '], Kept d := by simp; decide
  have hnull : ∀ d ∈ nullValue, Kept d := by simp [nullValue]; decide
  have hkept : ∀ d ∈ letLine name, Kept d := List.forall_mem_append.2
    ⟨hlet, List.forall_mem_append.2 ⟨fun d hd => kept_of_isWordChar (h d hd), hnull⟩⟩
  have hscrub := scrub_append hkept []
  rw [List.append_nil] at hscrub
  exact hscrub.trans (List.append_nil _)

theorem sites_letLine (hc : isWordStart c = true) (hw : ∀ d ∈ w, isWordChar d = true) :
    sites [] (letLine (c :: w)) =
      [⟨[], ['l', 'e', 't'], ' ' :: (c :: w ++ nullValue)⟩,
        ⟨[' ', 't', 'e', 'l'], c :: w, nullValue⟩,
        ⟨[' ', '=', ' '] ++ ((c :: w).reverse ++ [' ', 't', 'e', 'l']),
          ['n', 'u', 'l', 'l'], []⟩] := by
  have hlet : sites [] (['l', 'e', 't'] ++ ' ' :: (c :: w ++ nullValue)) = _ :=
    sites_word (by decide) (by simp; decide) (by rintro _ ⟨⟩; decide) []
  have hnull (left : List Char) : sites left nullValue =
      [⟨[' ', '=', ' '] ++ left, ['n', 'u', 'l', 'l'], []⟩] := by
    have hequals : sites left nullValue = sites ([' ', '=', ' '] ++ left) ['n', 'u', 'l', 'l'] :=
      sites_append (u := [' ', '=', ' ']) (by simp; decide) left ['n', 'u', 'l', 'l']
    have hword : sites ([' ', '=', ' '] ++ left) (['n', 'u', 'l', 'l'] ++ []) = _ :=
      sites_word (by decide) (by simp; decide) (by simp) _
    rw [sites_nil, List.append_nil] at hword
    rw [hequals, hword]
  have hline : letLine (c :: w) = ['l', 'e', 't'] ++ ' ' :: (c :: w ++ nullValue) := rfl
  rw [hline, hlet, sites_cons (by decide), sites_word hc hw head_nullValue, hnull]
  rfl

/-- **Nothing but keywords is used on the line**, since the name is being declared there. -/
theorem isKeyword_of_mem_letLine (hc : isWordStart c = true) (hw : ∀ d ∈ w, isWordChar d = true)
    (number : ℕ) : ∀ u ∈ inLine number (letLine (c :: w)), Vocabulary.isKeyword u.name = true := by
  have hword : ∀ d ∈ c :: w, isWordChar d = true :=
    List.forall_mem_cons.2 ⟨Token.isWordChar_iff.2 (.inl hc), hw⟩
  have hdeclared : Site.isPlain ⟨[' ', 't', 'e', 'l'], c :: w, nullValue⟩ = false := rfl
  have hlet : Vocabulary.isKeyword (String.ofList ['l', 'e', 't']) = true := by decide
  have hnull : Vocabulary.isKeyword (String.ofList ['n', 'u', 'l', 'l']) = true := by decide
  rw [inLine_eq, scrub_letLine hword, sites_letLine hc hw]
  intro u hu
  obtain ⟨s, hs, rfl⟩ := List.mem_map.1 hu
  obtain ⟨hmem, hplain⟩ := List.mem_filter.1 hs
  simp only [List.mem_cons, List.not_mem_nil, or_false] at hmem
  rcases hmem with rfl | rfl | rfl
  · exact hlet
  · rw [hdeclared] at hplain
    cases hplain
  · exact hnull

theorem inLines_append (number : ℕ) (above below : List (List Char)) :
    inLines number (above ++ below) =
      inLines number above ++ inLines (number + above.length) below := by
  induction above generalizing number with
  | nil => rfl
  | cons l ls ih =>
    rw [List.cons_append, inLines, inLines, ih, List.length_cons, List.append_assoc,
      Nat.add_right_comm, Nat.add_assoc]

theorem firstUses_of_known {known : String → Bool} {us : List Use}
    (h : ∀ u ∈ us, known u.name = true) (seen : List String) : firstUses known seen us = [] := by
  induction us with
  | nil => rfl
  | cons u us ih =>
    obtain ⟨hu, hus⟩ := List.forall_mem_cons.1 h
    rw [firstUses, hu, Bool.true_or, if_pos rfl, ih hus]

theorem firstUses_append_of_known {known : String → Bool} {vs : List Use}
    (h : ∀ v ∈ vs, known v.name = true) (seen : List String) (us : List Use) :
    firstUses known seen (us ++ vs) = firstUses known seen us := by
  induction us generalizing seen with
  | nil => exact firstUses_of_known h seen
  | cons u us ih => rw [List.cons_append, firstUses, firstUses, ih, ih]

end Usage

/-- A line on which only keywords are used adds no warning. -/
theorem undefinedNames_append {l : List Char}
    (h : ∀ number, ∀ u ∈ inLine number l, Vocabulary.isKeyword u.name = true)
    (declared globals : List String) (lines : List (List Char)) :
    undefinedNames declared globals (lines ++ [l]) = undefinedNames declared globals lines := by
  rw [undefinedNames, undefinedNames, inLines_append, firstUses_append_of_known]
  intro u hu
  rw [inLines, inLines, List.append_nil] at hu
  rw [isKnown, h _ u hu, Bool.true_or, Bool.true_or, Bool.true_or]

/-! ## A text with a declaration -/

theorem Text.lines_append (a b : List Char) :
    Text.lines (a ++ '\n' :: b) = Text.lines a ++ Text.lines b := by
  induction a using Text.line_induction with
  | last a ha => rw [TokenLint.lines_append_break ha, TokenLint.lines_of_not_mem ha]; rfl
  | line a a' ha ih =>
    rw [List.append_assoc, List.cons_append, TokenLint.lines_append_break ha, ih,
      TokenLint.lines_append_break ha, List.cons_append]

theorem newline_not_mem_letLine {name : List Char} (h : ∀ d ∈ name, isWordChar d = true) :
    '\n' ∉ letLine name := by
  have hname : '\n' ∉ name := fun hmem => absurd (h _ hmem) (by decide)
  simp [letLine, nullValue, hname]

theorem mem_declaredNames_concat {l : List Char} {name : String} (h : Declared.inLine l = [name])
    (lines : List (List Char)) (x : String) :
    x ∈ declaredNames (lines ++ [l]) ↔ x ∈ (declaredNames lines).insert name := by
  rw [List.mem_insert_iff, declaredNames, declaredNames, List.mem_eraseDups, List.mem_eraseDups,
    List.flatMap_append, List.mem_append, List.flatMap_singleton, h, List.mem_singleton, or_comm]

theorem undefinedNames_insert (name : String) (declared globals : List String)
    (lines : List (List Char)) :
    undefinedNames (declared.insert name) globals lines =
      (undefinedNames declared globals lines).filter fun d => ¬Warns name d := by
  rw [undefinedNames_more (isKnown_insert name declared globals)]
  simp only [List.forall_mem_singleton]

/-- A line with a declaration at the end of a text. -/
theorem lint_declare {name : String} (hname : IsIdentifier name) (settings : Settings)
    (source : String) :
    lint settings (source ++ "\nlet " ++ name ++ " = null") =
      (lint settings source).filter fun d => ¬Warns name d := by
  obtain ⟨c, w, hlist, hc, hw⟩ := hname
  have hword : ∀ d ∈ c :: w, isWordChar d = true :=
    List.forall_mem_cons.2 ⟨Token.isWordChar_iff.2 (.inl hc), hw⟩
  have htext : (source ++ "\nlet " ++ name ++ " = null").toList =
      source.toList ++ '\n' :: letLine (c :: w) := by
    simp [letLine, nullValue, hlist]
  have hlines : Text.lines (source ++ "\nlet " ++ name ++ " = null").toList =
      Text.lines source.toList ++ [letLine (c :: w)] := by
    rw [htext, Text.lines_append, TokenLint.lines_of_not_mem (newline_not_mem_letLine hword)]
  have hdeclares : Declared.inLine (letLine (c :: w)) = [name] := by
    rw [Declared.inLine_letLine hc hw, ← hlist, String.ofList_toList]
  rw [lint, lint, hlines, undefinedNames_append (isKeyword_of_mem_letLine hc hw),
    undefinedNames_congr (mem_declaredNames_concat hdeclares _), undefinedNames_insert]

/-- The warnings of a diagnosis are those of the lint. -/
theorem filter_diagnose {settings : Settings} (h : settings.undefinedVariables = true)
    (engine : Engine) (source : String) :
    (diagnose engine settings source).filter (fun d => d.severity = .warning) =
      lint settings source := by
  have herror : ((engine.failure? source).map locate).toList.filter
      (fun d => d.severity = .warning) = [] := by
    refine List.filter_eq_nil_iff.2 fun d hd => ?_
    rw [severity_of_failure hd]
    decide
  have hwarning : (lint settings source).filter (fun d => d.severity = .warning) =
      lint settings source := by
    refine List.filter_eq_self.2 fun d hd => ?_
    obtain ⟨u, -, rfl⟩ := List.mem_map.1 hd
    rfl
  rw [diagnose, List.filter_append, herror, List.nil_append, if_pos h, hwarning]

/-- **Declaring a name deletes the warning for it and leaves every other as it is**, whether the
name is added to the declared names, to those of the host, or by a line at the end of the text,
behind all its uses. -/
theorem undefinedNames_declare (name : String) :
    (∀ declared globals lines,
      undefinedNames (declared.insert name) globals lines =
          (undefinedNames declared globals lines).filter (fun d => ¬Warns name d) ∧
        undefinedNames declared (globals ++ [name]) lines =
          (undefinedNames declared globals lines).filter (fun d => ¬Warns name d) ∧
        ((undefinedNames declared globals lines).filter fun d => Warns name d).length ≤ 1) ∧
    ∀ engine settings source, settings.undefinedVariables = true → IsIdentifier name →
      (diagnose engine settings (source ++ "\nlet " ++ name ++ " = null")).filter
          (fun d => d.severity = .warning) =
        ((diagnose engine settings source).filter (fun d => d.severity = .warning)).filter
          fun d => ¬Warns name d := by
  refine ⟨fun declared globals lines => ⟨undefinedNames_insert name declared globals lines, ?_,
    length_filter_warns_le name declared globals lines⟩, ?_⟩
  · rw [undefinedNames_more (isKnown_concat name declared globals)]
    simp only [List.forall_mem_singleton]
  · intro engine settings source hlint hname
    rw [filter_diagnose hlint, filter_diagnose hlint, lint_declare hname]

/-- A name that is used twice above its declaration, around one that stays undefined. -/
theorem undefinedNames_declare_later :
    IsIdentifier "later" ∧
    diagnose Engine.builtin {} "print(later, other, later)" =
      [⟨1, 7, "Undefined variable 'later'", .warning⟩,
        ⟨1, 14, "Undefined variable 'other'", .warning⟩] ∧
    (diagnose Engine.builtin {} ("print(later, other, later)" ++ "\nlet " ++ "later" ++
        " = null")).filter (fun d => d.severity = .warning) =
      [⟨1, 14, "Undefined variable 'other'", .warning⟩] := by
  have hname : IsIdentifier "later" := ⟨'l', ['a', 't', 'e', 'r'], rfl, by decide, by simp; decide⟩
  have hbefore : diagnose Engine.builtin {} "print(later, other, later)" =
      [⟨1, 7, "Undefined variable 'later'", .warning⟩,
        ⟨1, 14, "Undefined variable 'other'", .warning⟩] := by cbv
  refine ⟨hname, hbefore, ?_⟩
  rw [(undefinedNames_declare "later").2 Engine.builtin {} _ rfl hname, hbefore]
  decide

end ScriptLint
