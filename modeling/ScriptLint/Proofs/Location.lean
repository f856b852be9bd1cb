import Mathlib.Data.List.Basic
import Mathlib.Data.Nat.Notation
import ScriptLint.Diagnostic.Locate
import ScriptLint.Source.Fault

/-!
# Locations in messages

Where a location can be found in a text that is put together from pieces.

* `numbered`, `columnAfter`: the readers of a location, one number at a time.
* `Stops`: a text that no location begun before it runs into, such as one that begins with a quote
  or the place behind a message.
* `Stops.findLocation_append`: **a stop divides the search**; the piece before it is searched by
  itself, and first.
* `findLocation_quoted`, `findLocation_append_suffix`: quotations, and messages with their place.
* `locate_append_suffix`: a message without a location of its own is recovered with its place.
-/

namespace ScriptLint.Locate

/-! ## The readers, one number at a time -/

/-- A word, blanks and a number. -/
def numbered (word cs : List Char) : Option (UInt32 × List Char) :=
  (word? word cs).bind fun rest => (blanks? rest).bind number?

/-- A colon and a number, perhaps with blanks between them. -/
def colon : List Char → Option (UInt32 × List Char)
  | ':' :: cs => number? (Text.trimStart cs)
  | _ => none

/-- What stands behind the line of a location, up to its column. -/
def columnAfter (cs : List Char) : Option (UInt32 × List Char) :=
  (numbered ['c', 'o', 'l', 'u', 'm', 'n'] (Text.trimStart (skipComma cs))).or
    (colon (Text.trimStart cs))

theorem line?_eq (cs : List Char) : line? cs = numbered ['l', 'i', 'n', 'e'] cs :=
  rfl

theorem word?_cons {w c : Char} {ws cs rest : List Char}
    (h : word? (w :: ws) (c :: cs) = some rest) : c.toLower = w := by
  rw [word?] at h
  split at h
  · assumption
  · cases h

/-- The two separators exclude each other. -/
theorem colon_eq_none {cs ws rest : List Char}
    (h : word? ('c' :: ws) (Text.trimStart (skipComma cs)) = some rest) :
    colon (Text.trimStart cs) = none := by
  have hcomma : skipComma cs = cs ∨ ∃ ds, cs = ',' :: ds := by
    unfold skipComma
    split
    · exact .inr ⟨_, rfl⟩
    · exact .inl rfl
  -- behind a comma there is no colon, and without one both look at the same character
  rcases hcomma with hcs | ⟨ds, rfl⟩
  · rw [hcs] at h
    cases hd : Text.trimStart cs with
    | nil => rfl
    | cons c ds =>
      rw [hd] at h
      have hc := word?_cons h
      unfold colon
      split
      · next heq =>
        cases heq
        exact absurd hc (by decide)
      · rfl
  · rfl

theorem colon_bind (cs : List Char) :
    Option.bind (match cs with
      | ':' :: rest => some (Text.trimStart rest)
      | _ => none) number? = colon cs := by
  unfold colon
  split <;> rfl

theorem separator?_bind_number? (cs : List Char) :
    (separator? cs).bind number? = columnAfter cs := by
  unfold separator? columnAfter numbered
  cases hword : word? ['c', 'o', 'l', 'u', 'm', 'n'] (Text.trimStart (skipComma cs)) with
  | none => exact colon_bind (Text.trimStart cs)
  | some rest =>
    -- the word is enough to exclude the colon, though blanks must follow it too
    have hcolon := colon_eq_none hword
    simp only [Option.bind_some]
    cases hblanks : blanks? rest with
    | none => exact colon_bind (Text.trimStart cs)
    | some rest => rw [hcolon, Option.or_none]

theorem lineColumn?_eq (cs : List Char) :
    lineColumn? cs = (line? cs).bind fun x =>
      (columnAfter x.2).map fun y => (x.1, y.1, y.2) := by
  simp only [← separator?_bind_number?, Option.map_eq_bind, Option.bind_assoc]
  rfl

theorem location?_eq (cs : List Char) :
    location? cs =
      ((word? ['a', 't'] cs).bind fun rest => (blanks? rest).bind lineColumn?).or
        (lineColumn? cs) := by
  rw [← Option.bind_assoc]
  unfold location?
  cases ((word? ['a', 't'] cs).bind blanks?).bind lineColumn? <;> rfl

/-! ## Texts that no location runs into -/

/-- The letters of the words in a location. -/
def letters : List Char :=
  ['a', 't', 'l', 'i', 'n', 'e', 'c', 'o', 'u', 'm']

/-- A location that begins before the text ends before it. -/
structure Stops (t : List Char) : Prop where
  head : ∀ c ∈ t.head?, c.isDigit = false ∧ c ∉ [',', ':'] ∧ c.toLower ∉ letters
  visible : ∀ c ∈ (Text.trimStart t).head?, c.isDigit = false ∧ c ≠ ':' ∧ c.toLower ∉ ['l', 'c']

theorem trimStart_append (s t : List Char) :
    Text.trimStart (s ++ t) =
      if (Text.trimStart s).isEmpty then Text.trimStart t else Text.trimStart s ++ t :=
  List.dropWhile_append

theorem blanks?_eq (cs : List Char) :
    blanks? cs =
      if (Text.trimStart cs).length < cs.length then some (Text.trimStart cs) else none :=
  rfl

theorem takeWhile_isDigit {cs : List Char} (h : ∀ c ∈ cs.head?, c.isDigit = false) :
    cs.takeWhile Char.isDigit = [] := by
  cases cs with
  | nil => rfl
  | cons c cs => exact List.takeWhile_cons_of_neg (by simp [h c rfl])

/-- A reader does with `t` behind the text what it does without, and leaves `t` over. -/
structure Leaves {β : Type} (t : List Char) (behind : β → β) (read : List Char → Option β) :
    Prop where
  append : ∀ s, read (s ++ t) = (read s).map behind
  nil : read [] = none
  visible : read (Text.trimStart t) = none

section Leaves

variable {t : List Char} {β : Type} {behind : β → β} {read : List Char → Option β}

theorem Leaves.trimStart (h : Leaves t behind read) (s : List Char) :
    read (Text.trimStart (s ++ t)) = (read (Text.trimStart s)).map behind := by
  rw [trimStart_append]
  split
  · next hs => rw [List.isEmpty_iff.1 hs, h.nil, h.visible, Option.map_none]
  · exact h.append _

theorem Leaves.blanks (h : Leaves t behind read) (s : List Char) :
    (blanks? (s ++ t)).bind read = ((blanks? s).bind read).map behind := by
  rw [blanks?_eq, blanks?_eq, trimStart_append]
  split
  · next hs =>
    -- the blanks reach up to `t`: there is nothing to read behind them, with it or without
    rw [List.isEmpty_iff.1 hs]
    split <;> split <;> simp [h.visible, h.nil]
  · simp only [List.length_append, Nat.add_lt_add_iff_right]
    split <;> simp [h.append]

end Leaves

section Stops

variable {t : List Char}

/-- A number or a pair of numbers, with `t` behind what was left over. -/
def leaving {α : Type} (t : List Char) : α × List Char → α × List Char :=
  Prod.map id (· ++ t)

theorem Stops.word?_append (h : Stops t) {ws : List Char} (hws : ws ⊆ letters) (s : List Char) :
    word? ws (s ++ t) = (word? ws s).map (· ++ t) := by
  induction ws generalizing s with
  | nil => simp [word?]
  | cons w ws ih =>
    have hletters := List.cons_subset.1 hws
    cases s with
    | nil =>
      cases t with
      | nil => rfl
      | cons c t =>
        have hc : c.toLower ≠ w := fun hc => (h.head c rfl).2.2 (hc ▸ hletters.1)
        exact if_neg hc
    | cons c s =>
      simp only [List.cons_append, word?]
      split
      · exact ih hletters.2 s
      · rfl

theorem word?_eq_none {w : Char} {ws cs : List Char} (h : ∀ c ∈ cs.head?, c.toLower ≠ w) :
    word? (w :: ws) cs = none := by
  cases cs with
  | nil => rfl
  | cons c cs => exact if_neg (h c rfl)

theorem number?_eq_none {cs : List Char} (h : ∀ c ∈ cs.head?, c.isDigit = false) :
    number? cs = none := by
  simp [number?, takeWhile_isDigit h]

theorem colon_eq_none_of_head {cs : List Char} (h : ∀ c ∈ cs.head?, c ≠ ':') :
    Locate.colon cs = none := by
  unfold Locate.colon
  split
  · exact absurd rfl (h ':' rfl)
  · rfl

theorem Stops.number? (h : Stops t) : Leaves t (leaving t) number? where
  append s := by
    have htake : (s ++ t).takeWhile Char.isDigit = s.takeWhile Char.isDigit := by
      rw [List.takeWhile_append, takeWhile_isDigit fun c hc => (h.head c hc).1]
      split
      · next hlen => rw [List.append_nil, (List.takeWhile_prefix _).eq_of_length hlen]
      · rfl
    simp only [Locate.number?, htake]
    split
    · rw [List.drop_append_of_le_length (List.takeWhile_prefix _).length_le]
      rfl
    · rfl
  nil := rfl
  visible := number?_eq_none fun c hc => (h.visible c hc).1

theorem Stops.numbered (h : Stops t) {w : Char} {ws : List Char} (hw : w ∈ ['l', 'c'])
    (hws : w :: ws ⊆ letters) : Leaves t (leaving t) (numbered (w :: ws)) where
  append s := by
    simp only [Locate.numbered, h.word?_append hws, Option.bind_map, Option.map_bind,
      Function.comp_def, h.number?.blanks]
  nil := rfl
  visible := by
    have hword : word? (w :: ws) (Text.trimStart t) = none :=
      word?_eq_none fun c hc hcw => (h.visible c hc).2.2 (hcw ▸ hw)
    rw [Locate.numbered, hword, Option.bind_none]

theorem Stops.colon (h : Stops t) : Leaves t (leaving t) colon where
  append s := by
    cases s with
    | nil => exact colon_eq_none_of_head fun c hc hcolon => (h.head c hc).2.1 (by simp [hcolon])
    | cons c s =>
      by_cases hc : c = ':'
      · subst hc
        exact h.number?.trimStart s
      · rw [colon_eq_none_of_head (by simpa using hc), colon_eq_none_of_head (by simpa using hc)]
        rfl
  nil := rfl
  visible := colon_eq_none_of_head fun c hc => (h.visible c hc).2.1

theorem Stops.skipComma_append (h : Stops t) (s : List Char) :
    skipComma (s ++ t) = skipComma s ++ t := by
  cases s with
  | nil =>
    cases t with
    | nil => rfl
    | cons c t =>
      have hc : c ≠ ',' := fun hc => (h.head c rfl).2.1 (by simp [hc])
      simp [skipComma, hc]
  | cons c s =>
    by_cases hc : c = ','
    · subst hc
      rfl
    · simp [skipComma, hc]

theorem Stops.columnAfter_append (h : Stops t) (s : List Char) :
    columnAfter (s ++ t) = (columnAfter s).map (leaving t) := by
  have hcolumn : Leaves t (leaving t) (Locate.numbered ['c', 'o', 'l', 'u', 'm', 'n']) :=
    h.numbered (by decide) (by decide)
  unfold columnAfter
  rw [h.skipComma_append, hcolumn.trimStart, h.colon.trimStart, Option.map_or]

theorem Stops.line?_append (h : Stops t) (s : List Char) :
    line? (s ++ t) = (line? s).map (leaving t) :=
  (h.numbered (by decide) (by decide)).append s

theorem Stops.lineColumn? (h : Stops t) :
    Leaves t (Prod.map id (leaving t)) lineColumn? where
  append s := by
    simp only [lineColumn?_eq, h.line?_append, Option.bind_map, Option.map_bind, Function.comp_def,
      Option.map_map, leaving, Prod.map, h.columnAfter_append, id]
  nil := rfl
  visible := by
    rw [lineColumn?_eq, line?_eq, (h.numbered (by decide) (by decide)).visible, Option.bind_none]

/-- **No location runs into a stop.** -/
theorem Stops.location?_append (h : Stops t) (s : List Char) :
    location? (s ++ t) = (location? s).map (Prod.map id (leaving t)) := by
  have hat : word? ['a', 't'] (s ++ t) = (word? ['a', 't'] s).map (· ++ t) :=
    h.word?_append (by decide) s
  simp only [location?_eq, hat, Option.bind_map, Function.comp_def, h.lineColumn?.blanks,
    h.lineColumn?.append, Option.map_or, Option.map_bind]

end Stops

/-! ## The first location -/

/-- A location of a text as one of the text with `p` before and `t` behind it. -/
def Found.within (p t : List Char) (f : Found) : Found :=
  { f with before := p ++ f.before, after := f.after ++ t }

/-- The text without the location. -/
def Found.rest (f : Found) : List Char :=
  f.before ++ f.after

theorem Found.within_rest (p t : List Char) (f : Found) :
    (f.within p t).rest = p ++ (f.rest ++ t) := by
  simp [Found.within, Found.rest]

theorem Found.within_nil : Found.within [] [] = id := by
  funext f
  simp [Found.within]

theorem Found.within_within (p q t u : List Char) :
    Found.within p t ∘ Found.within q u = Found.within (p ++ q) (u ++ t) := by
  funext f
  simp [Found.within]

theorem findLocation_cons (c : Char) (cs : List Char) :
    findLocation (c :: cs) =
      ((location? (c :: cs)).map fun x => ⟨x.1, x.2.1, [], x.2.2⟩).or
        ((findLocation cs).map (Found.within [c] [])) := by
  have hwithin : Found.within [c] [] = fun f => { f with before := c :: f.before } := by
    funext f
    simp [Found.within]
  rw [findLocation, hwithin]
  cases location? (c :: cs) <;> rfl

/-- Some part of the text is a location. -/
def Occurs (cs : List Char) : Prop :=
  ∃ rest, rest <:+ cs ∧ (location? rest).isSome

theorem findLocation_eq_none (cs : List Char) : findLocation cs = none ↔ ¬ Occurs cs := by
  unfold Occurs
  induction cs with
  | nil => simp [findLocation, location?, word?, lineColumn?, line?]
  | cons c cs ih =>
    simp only [findLocation_cons, Option.or_eq_none_iff, Option.map_eq_none_iff, ih,
      List.suffix_cons_iff]
    constructor
    · rintro ⟨hc, hcs⟩ ⟨rest, rfl | hrest, hsome⟩
      · simp [hc] at hsome
      · exact hcs ⟨rest, hrest, hsome⟩
    · intro h
      refine ⟨Option.not_isSome_iff_eq_none.1 fun hsome => h ⟨_, .inl rfl, hsome⟩, ?_⟩
      rintro ⟨rest, hrest, hsome⟩
      exact h ⟨rest, .inr hrest, hsome⟩

/-- **A stop divides the search**: what is before it is searched first, and by itself. -/
theorem Stops.findLocation_append {t : List Char} (h : Stops t) (s : List Char) :
    findLocation (s ++ t) =
      ((findLocation s).map (Found.within [] t)).or ((findLocation t).map (Found.within s [])) := by
  induction s with
  | nil => simp [findLocation, Found.within_nil]
  | cons c s ih =>
    -- at each place before the stop the location is found, or not, as without it
    have hc : location? (c :: (s ++ t)) = _ := h.location?_append (c :: s)
    rw [List.cons_append, findLocation_cons, findLocation_cons, hc, ih]
    cases location? (c :: s) with
    | some x => rfl
    | none =>
      simp only [Option.map_none, Option.none_or, Option.map_or, Option.map_map,
        Found.within_within, List.append_nil, List.nil_append, List.cons_append]

/-! ## Texts without a location -/

theorem word?_suffix {ws cs rest : List Char} (h : word? ws cs = some rest) : rest <:+ cs := by
  induction ws generalizing cs with
  | nil => cases h; exact List.suffix_refl _
  | cons w ws ih =>
    cases cs with
    | nil => cases h
    | cons c cs =>
      rw [word?] at h
      split at h
      · exact (ih h).trans (List.suffix_cons c cs)
      · cases h

theorem exists_isBlank_of_blanks? {cs rest : List Char} (h : blanks? cs = some rest) :
    ∃ c ∈ cs, Text.isBlank c = true := by
  -- without a blank at the front nothing is dropped
  by_contra hne
  have hdrop : cs.dropWhile Text.isBlank = cs := by
    cases cs with
    | nil => rfl
    | cons c cs =>
      exact List.dropWhile_cons_of_neg fun hc => hne ⟨c, List.mem_cons_self, hc⟩
  simp [blanks?, hdrop] at h

theorem exists_isBlank_of_word {β : Type} {ws cs : List Char} {read : List Char → Option β}
    (h : ((word? ws cs).bind fun rest => (blanks? rest).bind read).isSome) :
    ∃ c ∈ cs, Text.isBlank c = true := by
  obtain ⟨_, h⟩ := Option.isSome_iff_exists.1 h
  obtain ⟨rest, hword, h⟩ := Option.bind_eq_some_iff.1 h
  obtain ⟨_, hblanks, -⟩ := Option.bind_eq_some_iff.1 h
  obtain ⟨c, hc, hblank⟩ := exists_isBlank_of_blanks? hblanks
  exact ⟨c, (word?_suffix hword).subset hc, hblank⟩

theorem exists_isBlank_of_location? {cs : List Char} (h : (location? cs).isSome) :
    ∃ c ∈ cs, Text.isBlank c = true := by
  rw [location?_eq, Option.isSome_or, Bool.or_eq_true] at h
  rcases h with h | h
  · exact exists_isBlank_of_word h
  · rw [lineColumn?_eq] at h
    exact exists_isBlank_of_word (Option.isSome_of_isSome_bind h)

/-- A location has a blank in it. -/
theorem findLocation_eq_none_of_visible {cs : List Char}
    (h : ∀ c ∈ cs, Text.isBlank c = false) : findLocation cs = none := by
  rw [findLocation_eq_none]
  rintro ⟨rest, hrest, hsome⟩
  obtain ⟨c, hc, hblank⟩ := exists_isBlank_of_location? hsome
  rw [h c (hrest.subset hc)] at hblank
  cases hblank

theorem findLocation_singleton (c : Char) : findLocation [c] = none := by
  have hword (v w : Char) (ws : List Char) : word? (v :: w :: ws) [c] = none := by simp [word?]
  have hlocation : location? [c] = none := by
    rw [location?_eq, lineColumn?_eq, line?_eq, numbered, hword, hword]
    rfl
  rw [findLocation_cons, hlocation]
  rfl

theorem trimStart_of_isBlank_eq_false {c : Char} (h : Text.isBlank c = false) (cs : List Char) :
    Text.trimStart (c :: cs) = c :: cs :=
  List.dropWhile_cons_of_neg (by simp [h])

theorem stops_quote {q : Char} (hq : q ∈ ['\'', '"']) (t : List Char) : Stops (q :: t) := by
  have hchar : Text.isBlank q = false ∧
      (q.isDigit = false ∧ q ∉ [',', ':'] ∧ q.toLower ∉ letters) ∧
      (q.isDigit = false ∧ q ≠ ':' ∧ q.toLower ∉ ['l', 'c']) := by
    simp only [List.mem_cons, List.not_mem_nil, or_false] at hq
    rcases hq with rfl | rfl <;> decide
  obtain ⟨hblank, hhead, hvisible⟩ := hchar
  refine ⟨?_, ?_⟩
  · rintro _ ⟨⟩
    exact hhead
  · rw [trimStart_of_isBlank_eq_false hblank]
    rintro _ ⟨⟩
    exact hvisible

/-- **Between quotes**, a location is one of the text between them. -/
theorem findLocation_quoted {q : Char} (hq : q ∈ ['\'', '"']) {p : List Char}
    (hp : findLocation p = none) (cs : List Char) :
    findLocation (p ++ q :: (cs ++ [q])) =
      (findLocation cs).map (Found.within (p ++ [q]) [q]) := by
  have hquote : location? (q :: (cs ++ [q])) = none :=
    (stops_quote hq (cs ++ [q])).location?_append []
  -- the search is divided at the opening quote, and behind it at the closing one
  rw [(stops_quote hq _).findLocation_append, hp, Option.map_none, Option.none_or,
    findLocation_cons, hquote, Option.map_none, Option.none_or,
    (stops_quote hq []).findLocation_append, findLocation_singleton, Option.map_none,
    Option.or_none, Option.map_map, Option.map_map, Found.within_within, Found.within_within,
    List.append_nil]
  rfl

/-! ## The position behind a message -/

theorem isBlank_eq_false {c : Char} (hlow : 32 < c.toNat) (hhigh : c.toNat < 128) :
    Text.isBlank c = false := by
  have hranges : ∀ r ∈ Text.blankRanges, r.2 ≤ 32 ∨ 128 ≤ r.1 := by decide
  rw [Text.isBlank, Text.inRanges, List.any_eq_false]
  intro r hr
  have hr' := hranges r hr
  simp only [Bool.and_eq_true, decide_eq_true_eq]
  omega

theorem isBlank_of_isDigit {c : Char} (h : c.isDigit = true) : Text.isBlank c = false := by
  obtain ⟨hlow, hhigh⟩ := Char.isDigit_iff_toNat.1 h
  exact isBlank_eq_false (Nat.lt_of_lt_of_le (by decide) hlow)
    (Nat.lt_of_le_of_lt hhigh (by decide))

theorem blanks?_space {c : Char} (h : Text.isBlank c = false) (cs : List Char) :
    blanks? (' ' :: c :: cs) = some (c :: cs) := by
  have hdrop : (' ' :: c :: cs).dropWhile Text.isBlank = c :: cs :=
    trimStart_of_isBlank_eq_false h cs
  simp [blanks?, hdrop]

theorem isDigit_of_mem_toDigits {n : ℕ} {c : Char} (hc : c ∈ Nat.toDigits 10 n) :
    c.isDigit = true :=
  Nat.isDigit_of_mem_toDigits (by decide) (Nat.le_refl 10) hc

theorem blanks?_toDigits (n : ℕ) (t : List Char) :
    blanks? (' ' :: (Nat.toDigits 10 n ++ t)) = some (Nat.toDigits 10 n ++ t) := by
  cases hds : Nat.toDigits 10 n with
  | nil => exact absurd hds Nat.toDigits_ne_nil
  | cons d ds =>
    have hd : d ∈ Nat.toDigits 10 n := hds ▸ List.mem_cons_self
    exact blanks?_space (isBlank_of_isDigit (isDigit_of_mem_toDigits hd)) _

theorem number?_toDigits (n : UInt32) {t : List Char} (ht : ∀ c ∈ t.head?, c.isDigit = false) :
    number? (Nat.toDigits 10 n.toNat ++ t) = some (n, t) := by
  have hvalue : digitsValue (Nat.toDigits 10 n.toNat) = n.toNat :=
    Nat.ofDigitChars_toDigits (by decide) (Nat.le_refl 10)
  simp only [number?, List.takeWhile_append_of_pos fun _ => isDigit_of_mem_toDigits,
    takeWhile_isDigit ht, List.append_nil, hvalue, UInt32.ofNat_toNat, List.drop_left]
  exact if_pos ⟨Nat.toDigits_ne_nil, n.toNat_lt_size⟩

theorem numbered_toDigits {word cs t : List Char} {n : UInt32}
    (h : word? word cs = some (' ' :: (Nat.toDigits 10 n.toNat ++ t)))
    (ht : ∀ c ∈ t.head?, c.isDigit = false) : numbered word cs = some (n, t) := by
  rw [numbered, h, Option.bind_some, blanks?_toDigits, Option.bind_some, number?_toDigits n ht]

/-- A column as it is written behind a line. -/
def columnText (n : UInt32) : List Char :=
  [',', ' ', 'c', 'o', 'l', 'u', 'm', 'n', ' '] ++ Nat.toDigits 10 n.toNat

theorem columnAfter_columnText (n : UInt32) : columnAfter (columnText n) = some (n, []) := by
  have hcolumn : numbered ['c', 'o', 'l', 'u', 'm', 'n']
      (['c', 'o', 'l', 'u', 'm', 'n', ' '] ++ Nat.toDigits 10 n.toNat) = some (n, []) :=
    numbered_toDigits (by rw [List.append_nil]; rfl) (by simp)
  have htrim : Text.trimStart (skipComma (columnText n)) =
      ['c', 'o', 'l', 'u', 'm', 'n', ' '] ++ Nat.toDigits 10 n.toNat := rfl
  rw [columnAfter, htrim, hcolumn, Option.some_or]

/-- A position as it is written behind a message, from its first letter. -/
def positionText (p : Position) : List Char :=
  ['a', 't', ' ', 'l', 'i', 'n', 'e', ' '] ++ (Nat.toDigits 10 p.line.toNat ++ columnText p.column)

theorem location?_positionText (p : Position) :
    location? (positionText p) = some (p.line, p.column, []) := by
  have hline : line? (['l', 'i', 'n', 'e', ' '] ++
      (Nat.toDigits 10 p.line.toNat ++ columnText p.column)) =
        some (p.line, columnText p.column) :=
    numbered_toDigits rfl (by simp [columnText])
  have hat : (word? ['a', 't'] (positionText p)).bind blanks? = some (['l', 'i', 'n', 'e', ' '] ++
      (Nat.toDigits 10 p.line.toNat ++ columnText p.column)) :=
    blanks?_space (by decide) _
  rw [location?_eq, ← Option.bind_assoc, hat, Option.bind_some, lineColumn?_eq, hline,
    Option.bind_some, columnAfter_columnText]
  rfl

theorem toList_suffix (p : Position) : (Fault.suffix p).toList = ' ' :: positionText p := by
  simp [Fault.suffix, positionText, columnText]

theorem stops_suffix (p : Position) : Stops (Fault.suffix p).toList := by
  rw [toList_suffix]
  constructor
  · simp [letters]
  · intro c hc
    cases (show some 'a' = some c from hc)
    decide

theorem findLocation_suffix (p : Position) :
    findLocation (Fault.suffix p).toList = some ⟨p.line, p.column, [' '], []⟩ := by
  have hfirst : findLocation (positionText p) = some ⟨p.line, p.column, [], []⟩ := by
    have h := location?_positionText p
    unfold positionText at h ⊢
    rw [List.cons_append] at h ⊢
    rw [findLocation_cons, h]
    rfl
  have hspace : location? (' ' :: positionText p) = none := rfl
  rw [toList_suffix, findLocation_cons, hspace, hfirst]
  rfl

theorem findLocation_append_suffix (m : List Char) (p : Position) :
    findLocation (m ++ (Fault.suffix p).toList) =
      ((findLocation m).map (Found.within [] (Fault.suffix p).toList)).or
        (some ⟨p.line, p.column, m ++ [' '], []⟩) := by
  rw [(stops_suffix p).findLocation_append, findLocation_suffix]
  rfl

/-! ## Trimming -/

theorem trimEnd_append_space (cs : List Char) : Text.trimEnd (cs ++ [' ']) = Text.trimEnd cs := by
  unfold Text.trimEnd
  rw [List.reverse_append]
  rfl

theorem trim_append_space (cs : List Char) : Text.trim (cs ++ [' ']) = Text.trim cs := by
  unfold Text.trim
  rw [trimStart_append]
  split
  · next h => rw [List.isEmpty_iff.1 h]; rfl
  · exact trimEnd_append_space _

theorem trimStart_eq_self {cs : List Char} (h : ∀ c ∈ cs.head?, Text.isBlank c = false) :
    Text.trimStart cs = cs := by
  cases cs with
  | nil => rfl
  | cons c cs => exact trimStart_of_isBlank_eq_false (h c rfl) cs

theorem trim_eq_self {cs : List Char} (hhead : ∀ c ∈ cs.head?, Text.isBlank c = false)
    (hlast : ∀ c ∈ cs.getLast?, Text.isBlank c = false) : Text.trim cs = cs := by
  have hend : Text.trimStart cs.reverse = cs.reverse :=
    trimStart_eq_self (by rwa [List.head?_reverse])
  calc Text.trim cs = Text.trimEnd cs := by rw [Text.trim, trimStart_eq_self hhead]
    _ = (Text.trimStart cs.reverse).reverse := rfl
    _ = cs := by rw [hend, List.reverse_reverse]

theorem isDigit_of_mem_getLast? {m : List Char} {p : Position} {c : Char}
    (h : c ∈ (m ++ (Fault.suffix p).toList).getLast?) : c.isDigit = true := by
  have hsuffix : Nat.toDigits 10 p.column.toNat <:+ m ++ (Fault.suffix p).toList := by
    rw [toList_suffix, positionText, columnText, ← List.append_assoc, ← List.append_assoc,
      ← List.cons_append, ← List.append_assoc]
    exact List.suffix_append _ _
  obtain ⟨cs, hcs⟩ := hsuffix
  rw [← hcs, List.getLast?_append_of_ne_nil _ Nat.toDigits_ne_nil] at h
  exact isDigit_of_mem_toDigits (List.mem_of_mem_getLast? h)

theorem Found.message_eq {f : Found} (h : Text.trim f.rest ≠ []) (m : String) :
    f.message m = String.ofList (Text.trim f.rest) := by
  unfold Found.message
  split
  · contradiction
  · rfl

/-- **Without a location of its own, a message is recovered from its text**, place and all. -/
theorem locate_append_suffix {m : String} (hnone : findLocation m.toList = none)
    (hm : Text.trim m.toList ≠ []) (p : Position) :
    locate (m ++ Fault.suffix p) =
      Diagnostic.make .error p.line p.column (String.ofList (Text.trim m.toList)) := by
  have hfound := findLocation_append_suffix m.toList p
  rw [hnone, Option.map_none, Option.none_or] at hfound
  -- the space before the place is left over, and trimmed
  have htrim : Text.trim (Found.rest ⟨p.line, p.column, m.toList ++ [' '], []⟩) =
      Text.trim m.toList := by
    rw [Found.rest, List.append_nil, trim_append_space]
  simp only [locate, String.toList_append, hfound]
  rw [Found.message_eq (by rwa [htrim]), htrim]

/-- With a location of its own, a message is placed there and loses that location only. -/
theorem locate_append_suffix_of_found {m : String} {f : Found}
    (hsome : findLocation m.toList = some f) (hne : f.rest ≠ [])
    (hhead : ∀ c ∈ f.rest.head?, Text.isBlank c = false) (p : Position) :
    locate (m ++ Fault.suffix p) =
      Diagnostic.make .error f.line f.column (String.ofList f.rest ++ Fault.suffix p) := by
  have hfound := findLocation_append_suffix m.toList p
  rw [hsome, Option.map_some, Option.some_or] at hfound
  -- the place ends with a digit, so there is nothing to trim
  have htrim : Text.trim (f.within [] (Fault.suffix p).toList).rest =
      f.rest ++ (Fault.suffix p).toList := by
    rw [Found.within_rest, List.nil_append]
    refine trim_eq_self ?_ fun c hc => isBlank_of_isDigit (isDigit_of_mem_getLast? hc)
    rwa [List.head?_append_of_ne_nil _ hne]
  have hmessage := Found.message_eq
    (by rw [htrim]; exact List.append_ne_nil_of_left_ne_nil hne _) (m ++ Fault.suffix p)
  rw [htrim, String.ofList_append, String.ofList_toList] at hmessage
  simp only [locate, String.toList_append, hfound, hmessage]
  rfl

end ScriptLint.Locate
