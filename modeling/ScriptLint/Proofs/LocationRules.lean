import Mathlib
import ScriptLint.Proofs.Location

/-!
# The rules for the place of a message

What a location is and which one counts, said without the readers: as text with its parts, and by
the place where it begins.

* `Number`, `Numbered`, `ColumnAfter`, `LineColumn`, `Location`: the texts that a message may hold,
  each with what stands behind it.
* `number?_iff`, `numbered_iff`, `columnAfter_iff`, `lineColumn?_iff`, `location?_iff`: **the
  readers read exactly these texts.**
* `Leftmost`: the first place of a text where something begins; `leftmost_of_findLocation`,
  `findLine_cases`: the searches find it.
* `Placed`: the diagnostics that the three rules allow for a message.
* `locate_rules`: **the rules allow one diagnostic for each message, the one that is reported.**
* `locate_position`: a message without a location of its own is recovered from its text, whatever
  place is written behind it.
-/

namespace ScriptLint.Locate

variable {word cs rest after : List Char} {n m : UInt32}

/-! ## Locations as texts -/

/-- The word in letters of either case. -/
def Cased (word w : List Char) : Prop :=
  w.map Char.toLower = word

/-- Nothing but blanks. -/
def Blank (b : List Char) : Prop :=
  ∀ c ∈ b, Text.isBlank c = true

/-- A text that begins with the number `n`, all digits there being part of it. -/
inductive Number : List Char → UInt32 → List Char → Prop
  | intro {ds rest : List Char} {n : UInt32} (hne : ds ≠ []) (hds : ∀ d ∈ ds, d.isDigit = true)
      (hrest : ∀ d ∈ rest.head?, d.isDigit = false) (hvalue : Nat.ofDigitChars 10 ds 0 = n.toNat) :
      Number (ds ++ rest) n rest

/-- A text that begins with a word, blanks and a number. -/
inductive Numbered (word : List Char) : List Char → UInt32 → List Char → Prop
  | intro {w b cs rest : List Char} {n : UInt32} (hw : Cased word w) (hne : b ≠ []) (hb : Blank b)
      (hn : Number cs n rest) : Numbered word (w ++ (b ++ cs)) n rest

/-- What stands between the line of a location and the text behind it: `, column M`, the comma
being optional, or `: M`. -/
inductive ColumnAfter : List Char → UInt32 → List Char → Prop
  | named {comma b cs rest : List Char} {m : UInt32} (hcomma : comma = [] ∨ comma = [','])
      (hb : Blank b) (hm : Numbered ['c', 'o', 'l', 'u', 'm', 'n'] cs m rest) :
      ColumnAfter (comma ++ (b ++ cs)) m rest
  | colon {b b' cs rest : List Char} {m : UInt32} (hb : Blank b) (hb' : Blank b')
      (hm : Number cs m rest) : ColumnAfter (b ++ ':' :: (b' ++ cs)) m rest

/-- `line N` -/
abbrev Line : List Char → UInt32 → List Char → Prop :=
  Numbered ['l', 'i', 'n', 'e']

/-- `line N, column M` or `line N:M` -/
inductive LineColumn : List Char → UInt32 → UInt32 → List Char → Prop
  | intro {cs rest after : List Char} {n m : UInt32} (hline : Line cs n rest)
      (hcolumn : ColumnAfter rest m after) : LineColumn cs n m after

/-- A text that begins with a location, perhaps with `at` before it. -/
inductive Location : List Char → UInt32 → UInt32 → List Char → Prop
  | plain {cs after : List Char} {n m : UInt32} (h : LineColumn cs n m after) :
      Location cs n m after
  | led {w b cs after : List Char} {n m : UInt32} (hw : Cased ['a', 't'] w) (hne : b ≠ [])
      (hb : Blank b) (h : LineColumn cs n m after) : Location (w ++ (b ++ cs)) n m after

/-! ## The readers read exactly these texts -/

/-- A run of characters and what stands behind it. -/
theorem takeWhile_dropWhile_iff {p : Char → Bool} {u : List Char} :
    cs.takeWhile p = u ∧ cs.dropWhile p = rest ↔
      cs = u ++ rest ∧ (∀ c ∈ u, p c = true) ∧ ∀ c ∈ rest.head?, p c = false := by
  constructor
  · rintro ⟨rfl, rfl⟩
    refine ⟨List.takeWhile_append_dropWhile.symm, fun c hc => List.mem_takeWhile_imp hc, ?_⟩
    intro c hc
    have hnot := List.head?_dropWhile_not p cs
    rw [Option.mem_def.1 hc] at hnot
    exact hnot
  · rintro ⟨rfl, hu, hrest⟩
    rw [List.takeWhile_append_of_pos hu, List.dropWhile_append_of_pos hu]
    cases rest with
    | nil => simp
    | cons c rest => simp [hrest c rfl]

theorem trimStart_iff : Text.trimStart cs = rest ↔
    ∃ b, Blank b ∧ cs = b ++ rest ∧ ∀ c ∈ rest.head?, Text.isBlank c = false := by
  constructor
  · intro h
    obtain ⟨hcs, hb, hrest⟩ := takeWhile_dropWhile_iff.1 ⟨rfl, h⟩
    exact ⟨_, hb, hcs, hrest⟩
  · rintro ⟨b, hb, hcs, hrest⟩
    exact (takeWhile_dropWhile_iff.2 ⟨hcs, hb, hrest⟩).2

theorem blanks?_iff : blanks? cs = some rest ↔
    ∃ b, b ≠ [] ∧ Blank b ∧ cs = b ++ rest ∧ ∀ c ∈ rest.head?, Text.isBlank c = false := by
  rw [blanks?_eq]
  constructor
  · intro h
    split at h
    · next hlt =>
      obtain ⟨b, hb, hcs, hrest⟩ := trimStart_iff.1 (Option.some.inj h)
      refine ⟨b, ?_, hb, hcs, hrest⟩
      rintro rfl
      rw [Option.some.inj h, hcs, List.nil_append] at hlt
      exact Nat.lt_irrefl _ hlt
    · cases h
  · rintro ⟨b, hne, hb, rfl, hrest⟩
    have htrim : Text.trimStart (b ++ rest) = rest := trimStart_iff.2 ⟨b, hb, rfl, hrest⟩
    have hpos := List.length_pos_iff.2 hne
    rw [htrim, if_pos (by rw [List.length_append]; omega)]

theorem word?_iff : word? word cs = some rest ↔ ∃ w, Cased word w ∧ cs = w ++ rest := by
  unfold Cased
  induction word generalizing cs with
  | nil =>
    rw [word?, Option.some.injEq]
    constructor
    · rintro rfl
      exact ⟨[], rfl, rfl⟩
    · rintro ⟨w, hw, rfl⟩
      rw [List.map_eq_nil_iff.1 hw, List.nil_append]
  | cons v word ih =>
    cases cs with
    | nil =>
      rw [word?]
      refine iff_of_false (by simp) ?_
      rintro ⟨w, hw, hcs⟩
      rw [(List.append_eq_nil_iff.1 hcs.symm).1] at hw
      cases hw
    | cons c cs =>
      rw [word?]
      constructor
      · intro h
        split at h
        · next hc =>
          obtain ⟨w, hw, rfl⟩ := ih.1 h
          exact ⟨c :: w, by rw [List.map_cons, hc, hw], rfl⟩
        · cases h
      · rintro ⟨w, hw, hcs⟩
        cases w with
        | nil => cases hw
        | cons d w =>
          obtain ⟨hd, htail⟩ := List.cons.inj hw
          obtain ⟨rfl, htext⟩ := List.cons.inj hcs
          rw [if_pos hd]
          exact ih.2 ⟨w, htail, htext⟩

theorem number?_run {ds : List Char} (hds : ∀ d ∈ ds, d.isDigit = true)
    (hrest : ∀ d ∈ rest.head?, d.isDigit = false) : number? (ds ++ rest) =
      if ds ≠ [] ∧ Nat.ofDigitChars 10 ds 0 < UInt32.size then
        some (UInt32.ofNat (Nat.ofDigitChars 10 ds 0), rest)
      else none := by
  have htake := (takeWhile_dropWhile_iff.2 ⟨rfl, hds, hrest⟩).1
  simp only [number?, htake, List.drop_left]
  rfl

theorem number?_iff : number? cs = some (n, rest) ↔ Number cs n rest := by
  constructor
  · intro h
    obtain ⟨ds, r, hds, hr⟩ : ∃ ds r, cs.takeWhile Char.isDigit = ds ∧
        cs.dropWhile Char.isDigit = r := ⟨_, _, rfl, rfl⟩
    obtain ⟨rfl, hdigits, hhead⟩ := takeWhile_dropWhile_iff.1 ⟨hds, hr⟩
    rw [number?_run hdigits hhead] at h
    split at h
    · next hif =>
      obtain ⟨rfl, rfl⟩ := Prod.mk.inj (Option.some.inj h)
      exact .intro hif.1 hdigits hhead (UInt32.toNat_ofNat_of_lt' hif.2).symm
    · cases h
  · rintro ⟨hne, hds, hrest, hvalue⟩
    rw [number?_run hds hrest, hvalue, if_pos ⟨hne, n.toNat_lt_size⟩, UInt32.ofNat_toNat]

theorem Number.head (h : Number cs n rest) : ∀ c ∈ cs.head?, Text.isBlank c = false := by
  obtain ⟨hne, hds, -, -⟩ := h
  intro c hc
  rw [List.head?_append_of_ne_nil _ hne] at hc
  exact isBlank_of_isDigit (hds c (List.mem_of_mem_head? hc))

theorem numbered_iff : numbered word cs = some (n, rest) ↔ Numbered word cs n rest := by
  rw [numbered, Option.bind_eq_some_iff]
  constructor
  · rintro ⟨rest₁, hword, h⟩
    obtain ⟨rest₂, hblanks, hnumber⟩ := Option.bind_eq_some_iff.1 h
    obtain ⟨w, hw, rfl⟩ := word?_iff.1 hword
    obtain ⟨b, hne, hb, rfl, -⟩ := blanks?_iff.1 hblanks
    exact .intro hw hne hb (number?_iff.1 hnumber)
  · rintro ⟨hw, hne, hb, hn⟩
    exact ⟨_, word?_iff.2 ⟨_, hw, rfl⟩, Option.bind_eq_some_iff.2
      ⟨_, blanks?_iff.2 ⟨_, hne, hb, rfl, hn.head⟩, number?_iff.2 hn⟩⟩

/-- A letter is not blank in either case. -/
theorem isBlank_of_toLower {c w : Char} (h : c.toLower = w) (hw : Text.isBlank w = false) :
    Text.isBlank c = false := by
  unfold Char.toLower at h
  split at h
  · next hupper =>
    have hlow : 'A'.toNat ≤ c.toNat := UInt32.le_iff_toNat_le.1 hupper.1
    have hhigh : c.toNat ≤ 'Z'.toNat := UInt32.le_iff_toNat_le.1 hupper.2
    exact isBlank_eq_false (Nat.lt_of_lt_of_le (by decide) hlow)
      (Nat.lt_of_le_of_lt hhigh (by decide))
  · rwa [h]

theorem Numbered.head {w : Char} (h : Numbered (w :: word) cs n rest) :
    ∃ c ∈ cs.head?, c.toLower = w := by
  cases h with
  | @intro v _ _ _ _ hw _ _ _ =>
    cases v with
    | nil => cases hw
    | cons c v => exact ⟨c, rfl, (List.cons.inj hw).1⟩

theorem Numbered.visible {w : Char} (h : Numbered (w :: word) cs n rest)
    (hw : Text.isBlank w = false) : ∀ c ∈ cs.head?, Text.isBlank c = false := by
  intro c hc
  obtain ⟨d, hd, hlower⟩ := h.head
  rw [Option.mem_unique hc hd]
  exact isBlank_of_toLower hlower hw

theorem exists_comma (cs : List Char) :
    ∃ comma, (comma = [] ∨ comma = [',']) ∧ cs = comma ++ skipComma cs := by
  unfold skipComma
  split
  · exact ⟨[','], .inr rfl, rfl⟩
  · exact ⟨[], .inl rfl, rfl⟩

theorem skipComma_append {comma : List Char} (hcomma : comma = [] ∨ comma = [','])
    (h : ∀ c ∈ cs.head?, c ≠ ',') : skipComma (comma ++ cs) = cs := by
  rcases hcomma with rfl | rfl
  · rw [List.nil_append]
    unfold skipComma
    split
    · exact absurd rfl (h ',' rfl)
    · rfl
  · rfl

theorem colon_iff : colon cs = some (m, rest) ↔
    ∃ b ds, Blank b ∧ Number ds m rest ∧ cs = ':' :: (b ++ ds) := by
  constructor
  · intro h
    unfold colon at h
    split at h
    · obtain ⟨b, hb, hds, -⟩ := trimStart_iff.1 rfl
      exact ⟨b, _, hb, number?_iff.1 h, by rw [← hds]⟩
    · cases h
  · rintro ⟨b, ds, hb, hm, rfl⟩
    have htrim : Text.trimStart (b ++ ds) = ds := trimStart_iff.2 ⟨b, hb, rfl, hm.head⟩
    rw [colon, htrim]
    exact number?_iff.2 hm

theorem columnAfter_iff : columnAfter cs = some (m, rest) ↔ ColumnAfter cs m rest := by
  rw [columnAfter, Option.or_eq_some_iff]
  constructor
  · rintro (h | ⟨-, h⟩)
    · obtain ⟨comma, hcomma, hcs⟩ := exists_comma cs
      obtain ⟨b, hb, hskip, -⟩ := trimStart_iff.1 (rfl : Text.trimStart (skipComma cs) = _)
      rw [hcs, hskip]
      exact .named hcomma hb (numbered_iff.1 h)
    · obtain ⟨b, hb, hcs, -⟩ := trimStart_iff.1 (rfl : Text.trimStart cs = _)
      obtain ⟨b', ds, hb', hm, hcolon⟩ := colon_iff.1 h
      rw [hcs, hcolon]
      exact .colon hb hb' hm
  · intro h
    cases h with
    | @named comma b ds _ _ hcomma hb hm =>
      left
      have hvisible := hm.visible (by decide)
      have htrim : Text.trimStart (b ++ ds) = ds := trimStart_iff.2 ⟨b, hb, rfl, hvisible⟩
      have hskip : skipComma (comma ++ (b ++ ds)) = b ++ ds := by
        refine skipComma_append hcomma fun c hc => ?_
        rintro rfl
        cases b with
        | nil =>
          obtain ⟨d, hd, hlower⟩ := hm.head
          rw [← Option.mem_unique hc hd] at hlower
          exact absurd hlower (by decide)
        | cons e b =>
          cases hc
          exact absurd (hb ',' List.mem_cons_self) (by decide)
      rw [hskip, htrim]
      exact numbered_iff.2 hm
    | @colon b b' ds _ _ hb hb' hm =>
      right
      have htrim : Text.trimStart (b ++ ':' :: (b' ++ ds)) = ':' :: (b' ++ ds) :=
        trimStart_iff.2 ⟨b, hb, rfl, by simp; decide⟩
      have hcolon : Locate.colon (Text.trimStart (b ++ ':' :: (b' ++ ds))) = some (m, rest) := by
        rw [htrim]
        exact colon_iff.2 ⟨b', ds, hb', hm, rfl⟩
      refine ⟨?_, hcolon⟩
      -- the word would exclude the colon
      cases hword : word? ['c', 'o', 'l', 'u', 'm', 'n']
          (Text.trimStart (skipComma (b ++ ':' :: (b' ++ ds)))) with
      | none => rw [numbered, hword, Option.bind_none]
      | some r =>
        rw [colon_eq_none hword] at hcolon
        cases hcolon

theorem lineColumn?_iff : lineColumn? cs = some (n, m, after) ↔ LineColumn cs n m after := by
  rw [lineColumn?_eq, Option.bind_eq_some_iff]
  constructor
  · rintro ⟨⟨n', rest⟩, hline, h⟩
    obtain ⟨⟨m', after'⟩, hcolumn, heq⟩ := Option.map_eq_some_iff.1 h
    cases heq
    exact .intro (numbered_iff.1 hline) (columnAfter_iff.1 hcolumn)
  · rintro ⟨hline, hcolumn⟩
    exact ⟨_, numbered_iff.2 hline, by rw [columnAfter_iff.2 hcolumn]; rfl⟩

theorem LineColumn.head (h : LineColumn cs n m after) : ∃ c ∈ cs.head?, c.toLower = 'l' := by
  obtain ⟨hline, -⟩ := h
  exact hline.head

theorem location?_iff : location? cs = some (n, m, after) ↔ Location cs n m after := by
  rw [location?_eq, Option.or_eq_some_iff]
  constructor
  · rintro (h | ⟨-, h⟩)
    · obtain ⟨rest, hword, hrest⟩ := Option.bind_eq_some_iff.1 h
      obtain ⟨rest', hblanks, hplain⟩ := Option.bind_eq_some_iff.1 hrest
      obtain ⟨w, hw, rfl⟩ := word?_iff.1 hword
      obtain ⟨b, hne, hb, rfl, -⟩ := blanks?_iff.1 hblanks
      exact .led hw hne hb (lineColumn?_iff.1 hplain)
    · exact .plain (lineColumn?_iff.1 h)
  · intro h
    cases h with
    | plain h =>
      right
      obtain ⟨c, hc, hlower⟩ := h.head
      have hat : word? ['a', 't'] cs = none :=
        word?_eq_none fun d hd => by
          rw [Option.mem_unique hd hc, hlower]
          decide
      exact ⟨by rw [hat, Option.bind_none], lineColumn?_iff.2 h⟩
    | led hw hne hb h =>
      left
      obtain ⟨c, hc, hlower⟩ := h.head
      have hvisible : ∀ d ∈ List.head? _, Text.isBlank d = false := fun d hd => by
        rw [Option.mem_unique hd hc]
        exact isBlank_of_toLower hlower (by decide)
      rw [word?_iff.2 ⟨_, hw, rfl⟩, Option.bind_some, blanks?_iff.2 ⟨_, hne, hb, rfl, hvisible⟩,
        Option.bind_some]
      exact lineColumn?_iff.2 h

/-! ## The first place -/

/-- The first place of a text where something begins. -/
structure Leftmost (begins : List Char → Prop) (text before rest : List Char) : Prop where
  text_eq : text = before ++ rest
  begins_rest : begins rest
  least : ∀ u v, text = u ++ v → begins v → before.length ≤ u.length

/-- A location begins here. -/
def BeginsLocation (cs : List Char) : Prop :=
  ∃ n m after, Location cs n m after

/-- A line with its number begins here. -/
def BeginsLine (cs : List Char) : Prop :=
  ∃ n after, Line cs n after

section Leftmost

variable {begins : List Char → Prop} {text before before' rest' : List Char} {c : Char}

theorem Leftmost.unique (h : Leftmost begins text before rest)
    (h' : Leftmost begins text before' rest') : before = before' ∧ rest = rest' := by
  have hlength : before.length = before'.length :=
    Nat.le_antisymm (h.least _ _ h'.text_eq h'.begins_rest)
      (h'.least _ _ h.text_eq h.begins_rest)
  exact List.append_inj (h.text_eq.symm.trans h'.text_eq) hlength

theorem leftmost_here (h : begins text) : Leftmost begins text [] text :=
  ⟨rfl, h, fun _ _ _ _ => Nat.zero_le _⟩

theorem Leftmost.cons (h : Leftmost begins text before rest) (hc : ¬begins (c :: text)) :
    Leftmost begins (c :: text) (c :: before) rest := by
  refine ⟨by rw [h.text_eq, List.cons_append], h.begins_rest, fun u v huv hv => ?_⟩
  cases u with
  | nil =>
    rw [List.nil_append] at huv
    exact absurd (huv ▸ hv) hc
  | cons d u => exact Nat.succ_le_succ (h.least u v (List.cons.inj huv).2 hv)

theorem nowhere_cons_iff : (∀ u v, c :: text = u ++ v → ¬begins v) ↔
    ¬begins (c :: text) ∧ ∀ u v, text = u ++ v → ¬begins v := by
  constructor
  · exact fun h => ⟨h [] _ rfl, fun u v huv => h (c :: u) v (by rw [huv, List.cons_append])⟩
  · rintro ⟨hc, h⟩ u v huv
    cases u with
    | nil =>
      rw [List.nil_append] at huv
      exact huv ▸ hc
    | cons d u => exact h u v (List.cons.inj huv).2

end Leftmost

theorem beginsLocation_iff : BeginsLocation cs ↔ (location? cs).isSome := by
  constructor
  · rintro ⟨n, m, after, h⟩
    rw [location?_iff.2 h]
    rfl
  · intro h
    obtain ⟨⟨n, m, after⟩, hsome⟩ := Option.isSome_iff_exists.1 h
    exact ⟨n, m, after, location?_iff.1 hsome⟩

theorem beginsLine_iff : BeginsLine cs ↔ (line? cs).isSome := by
  constructor
  · rintro ⟨n, after, h⟩
    rw [line?_eq, numbered_iff.2 h]
    rfl
  · intro h
    obtain ⟨⟨n, after⟩, hsome⟩ := Option.isSome_iff_exists.1 h
    exact ⟨n, after, numbered_iff.1 hsome⟩

theorem findLocation_eq_none_iff (text : List Char) :
    findLocation text = none ↔ ∀ u v, text = u ++ v → ¬BeginsLocation v := by
  rw [findLocation_eq_none]
  constructor
  · intro h u v huv hv
    exact h ⟨v, ⟨u, huv.symm⟩, beginsLocation_iff.1 hv⟩
  · rintro h ⟨v, ⟨u, huv⟩, hv⟩
    exact h u v huv.symm (beginsLocation_iff.2 hv)

/-- **The search finds the first location.** -/
theorem leftmost_of_findLocation {text : List Char} {f : Found} (h : findLocation text = some f) :
    ∃ cs, Leftmost BeginsLocation text f.before cs ∧ Location cs f.line f.column f.after := by
  induction text generalizing f with
  | nil => cases h
  | cons c text ih =>
    rw [findLocation_cons] at h
    cases hhere : location? (c :: text) with
    | some x =>
      rw [hhere] at h
      cases h
      have hlocation : Location (c :: text) x.1 x.2.1 x.2.2 := location?_iff.1 hhere
      exact ⟨_, leftmost_here ⟨_, _, _, hlocation⟩, hlocation⟩
    | none =>
      rw [hhere, Option.map_none, Option.none_or] at h
      obtain ⟨g, hg, rfl⟩ := Option.map_eq_some_iff.1 h
      obtain ⟨cs, hleft, hlocation⟩ := ih hg
      have hnot : ¬BeginsLocation (c :: text) := by
        rw [beginsLocation_iff, hhere]
        exact Bool.false_ne_true
      simp only [Found.within, List.append_nil]
      exact ⟨cs, hleft.cons hnot, hlocation⟩

theorem Location.unique {n' m' : UInt32} {after' : List Char} (h : Location cs n m after)
    (h' : Location cs n' m' after') : n = n' ∧ m = m' ∧ after = after' := by
  have hsame := (location?_iff.2 h).symm.trans (location?_iff.2 h')
  cases hsame
  exact ⟨rfl, rfl, rfl⟩

theorem findLocation_of_leftmost {text before : List Char}
    (hfirst : Leftmost BeginsLocation text before cs) (h : Location cs n m after) :
    findLocation text = some ⟨n, m, before, after⟩ := by
  cases hfound : findLocation text with
  | none =>
    exact absurd hfirst.begins_rest ((findLocation_eq_none_iff text).1 hfound _ _ hfirst.text_eq)
  | some f =>
    obtain ⟨cs', hfirst', h'⟩ := leftmost_of_findLocation hfound
    obtain ⟨rfl, rfl⟩ := hfirst.unique hfirst'
    obtain ⟨rfl, rfl, rfl⟩ := h.unique h'
    rfl

/-- **The search finds the first line**, or there is none. -/
theorem findLine_cases (text : List Char) :
    (∃ n before cs after, findLine text = some n ∧ Leftmost BeginsLine text before cs ∧
      Line cs n after) ∨
    findLine text = none ∧ ∀ u v, text = u ++ v → ¬BeginsLine v := by
  induction text with
  | nil =>
    refine .inr ⟨rfl, fun u v huv hv => ?_⟩
    rw [(List.append_eq_nil_iff.1 huv.symm).2, beginsLine_iff] at hv
    exact absurd hv (by decide)
  | cons c text ih =>
    rw [findLine]
    cases hhere : line? (c :: text) with
    | some x =>
      have hline : Line (c :: text) x.1 x.2 := numbered_iff.1 hhere
      exact .inl ⟨x.1, [], _, x.2, rfl, leftmost_here ⟨_, _, hline⟩, hline⟩
    | none =>
      have hnot : ¬BeginsLine (c :: text) := by
        rw [beginsLine_iff, hhere]
        exact Bool.false_ne_true
      rcases ih with ⟨n, before, cs, after, hfind, hleft, hline⟩ | ⟨hfind, hnone⟩
      · exact .inl ⟨n, c :: before, cs, after, hfind, hleft.cons hnot, hline⟩
      · exact .inr ⟨hfind, nowhere_cons_iff.2 ⟨hnot, hnone⟩⟩

theorem findLine_of_leftmost {text before : List Char}
    (hfirst : Leftmost BeginsLine text before cs) (h : Line cs n after) :
    findLine text = some n := by
  rcases findLine_cases text with ⟨n', before', cs', after', hfind, hfirst', h'⟩ | ⟨-, hnone⟩
  · obtain ⟨rfl, rfl⟩ := hfirst.unique hfirst'
    have hsame := (numbered_iff.2 h).symm.trans (numbered_iff.2 h')
    cases hsame
    exact hfind
  · exact absurd hfirst.begins_rest (hnone _ _ hfirst.text_eq)

theorem findLine_eq_none {text : List Char} (h : ∀ u v, text = u ++ v → ¬BeginsLine v) :
    findLine text = none := by
  rcases findLine_cases text with ⟨n, before, cs, after, -, hfirst, -⟩ | ⟨hnone, -⟩
  · exact absurd hfirst.begins_rest (h _ _ hfirst.text_eq)
  · exact hnone

/-! ## Trimming -/

/-- The text between the blanks at both ends. -/
structure Trimmed (text core : List Char) : Prop where
  split : ∃ u v, text = u ++ (core ++ v) ∧ Blank u ∧ Blank v
  head : ∀ c ∈ core.head?, Text.isBlank c = false
  last : ∀ c ∈ core.getLast?, Text.isBlank c = false

theorem trimEnd_iff {text core : List Char} : Text.trimEnd text = core ↔
    ∃ v, Blank v ∧ text = core ++ v ∧ ∀ c ∈ core.getLast?, Text.isBlank c = false := by
  have hreverse : Text.trimEnd text = core ↔ Text.trimStart text.reverse = core.reverse :=
    List.reverse_eq_iff
  rw [hreverse, trimStart_iff]
  simp only [List.head?_reverse]
  constructor
  · rintro ⟨b, hb, htext, hlast⟩
    refine ⟨b.reverse, fun c hc => hb c (List.mem_reverse.1 hc), ?_, hlast⟩
    rw [← List.reverse_inj, htext]
    simp
  · rintro ⟨v, hv, rfl, hlast⟩
    exact ⟨v.reverse, fun c hc => hv c (List.mem_reverse.1 hc), by simp, hlast⟩

theorem trimmed_trim (text : List Char) : Trimmed text (Text.trim text) := by
  obtain ⟨u, hu, htext, hhead⟩ := trimStart_iff.1 (rfl : Text.trimStart text = _)
  obtain ⟨v, hv, hstart, hlast⟩ := trimEnd_iff.1 (rfl : Text.trimEnd (Text.trimStart text) = _)
  refine ⟨⟨u, v, htext.trans (congrArg (u ++ ·) hstart), hu, hv⟩, fun c hc => ?_, hlast⟩
  -- the first character of the core is the first behind the blanks
  obtain ⟨core, hcore⟩ := List.head?_eq_some_iff.1 hc
  refine hhead c ?_
  rw [hstart]
  exact congrArg (fun l => (l ++ v).head?) hcore

theorem Trimmed.eq_trim {text core : List Char} (h : Trimmed text core) :
    core = Text.trim text := by
  obtain ⟨⟨u, v, rfl, hu, hv⟩, hhead, hlast⟩ := h
  rw [Text.trim]
  rcases eq_or_ne core [] with rfl | hne
  · have hstart : Text.trimStart (u ++ ([] ++ v)) = [] :=
      List.dropWhile_eq_nil_iff.2 fun c hc => (List.mem_append.1 hc).elim (hu c) (hv c)
    rw [hstart]
    rfl
  · have hstart : Text.trimStart (u ++ (core ++ v)) = core ++ v :=
      trimStart_iff.2 ⟨u, hu, rfl, by rwa [List.head?_append_of_ne_nil _ hne]⟩
    rw [hstart]
    exact (trimEnd_iff.2 ⟨v, hv, rfl, hlast⟩).symm

/-! ## The three rules -/

/-- What is left of a message without its location: the core, or all of it if there is none. -/
def remainder (message : String) (core : List Char) : String :=
  if core = [] then message else String.ofList core

/-- **The diagnostics that a message may get**, by the first of three rules that applies: its first
location, its first line, or the start of the script. -/
inductive Placed (message : String) : Diagnostic → Prop
  | location {before cs after core : List Char} {n m : UInt32}
      (hfirst : Leftmost BeginsLocation message.toList before cs)
      (hlocation : Location cs n m after) (hcore : Trimmed (before ++ after) core) :
      Placed message ⟨max n 1, max m 1, remainder message core, .error⟩
  | line {before cs after : List Char} {n : UInt32}
      (hnone : ∀ u v, message.toList = u ++ v → ¬BeginsLocation v)
      (hfirst : Leftmost BeginsLine message.toList before cs) (hline : Line cs n after) :
      Placed message ⟨max n 1, 1, message, .error⟩
  | start (hnone : ∀ u v, message.toList = u ++ v → ¬BeginsLocation v)
      (hline : ∀ u v, message.toList = u ++ v → ¬BeginsLine v) :
      Placed message ⟨1, 1, message, .error⟩

theorem message_eq_remainder (f : Found) (message : String) :
    f.message message = remainder message (Text.trim (f.before ++ f.after)) := by
  unfold Found.message remainder
  split
  · next h => rw [if_pos h]
  · next h => rw [if_neg h]

theorem locate_of_findLocation {message : String} {f : Found}
    (h : findLocation message.toList = some f) : locate message = ⟨max f.line 1, max f.column 1,
      remainder message (Text.trim (f.before ++ f.after)), .error⟩ := by
  simp only [locate, h, message_eq_remainder]
  rfl

theorem locate_of_findLocation_none {message : String} (h : findLocation message.toList = none) :
    locate message = ⟨max ((findLine message.toList).getD 1) 1, 1, message, .error⟩ := by
  simp only [locate, h]
  rfl

theorem placed_locate (message : String) : Placed message (locate message) := by
  cases hfound : findLocation message.toList with
  | some f =>
    obtain ⟨cs, hfirst, hlocation⟩ := leftmost_of_findLocation hfound
    rw [locate_of_findLocation hfound]
    exact .location hfirst hlocation (trimmed_trim _)
  | none =>
    have hnone := (findLocation_eq_none_iff _).1 hfound
    rw [locate_of_findLocation_none hfound]
    rcases findLine_cases message.toList with ⟨n, before, cs, after, hline, hfirst, h⟩ | ⟨hline, h⟩
    · rw [hline]
      exact .line hnone hfirst h
    · rw [hline]
      exact .start hnone h

theorem Placed.eq_locate {message : String} {d : Diagnostic} (h : Placed message d) :
    d = locate message := by
  cases h with
  | location hfirst hlocation hcore =>
    rw [locate_of_findLocation (findLocation_of_leftmost hfirst hlocation), hcore.eq_trim]
  | line hnone hfirst hline =>
    rw [locate_of_findLocation_none ((findLocation_eq_none_iff _).2 hnone),
      findLine_of_leftmost hfirst hline]
    rfl
  | start hnone hline =>
    rw [locate_of_findLocation_none ((findLocation_eq_none_iff _).2 hnone), findLine_eq_none hline]
    rfl

theorem remainder_eq_empty {message : String} {core : List Char}
    (h : remainder message core = "") : message = "" := by
  unfold remainder at h
  split at h
  · exact h
  · next hne => exact absurd (by simpa using h) hne

theorem Placed.message_eq_empty {message : String} {d : Diagnostic} (h : Placed message d)
    (hd : d.message = "") : message = "" := by
  cases h with
  | location _ _ _ => exact remainder_eq_empty hd
  | line _ _ _ => exact hd
  | start _ _ => exact hd

theorem one_le_max (n : UInt32) : 1 ≤ max n 1 := by
  rw [UInt32.max_def]
  split
  · exact UInt32.le_refl 1
  · next h => exact UInt32.le_of_lt (UInt32.not_le.1 h)

theorem Placed.one_le {message : String} {d : Diagnostic} (h : Placed message d) :
    1 ≤ d.line ∧ 1 ≤ d.column := by
  cases h with
  | location _ _ _ => exact ⟨one_le_max _, one_le_max _⟩
  | line _ _ _ => exact ⟨one_le_max _, UInt32.le_refl 1⟩
  | start _ _ => exact ⟨UInt32.le_refl 1, UInt32.le_refl 1⟩

/-- **The rules allow one diagnostic for each message, the one that is reported.** Its line and
column are at least one, and its message is empty only if there was none. -/
theorem locate_rules (message : String) :
    (∀ d, Placed message d ↔ d = locate message) ∧
      1 ≤ (locate message).line ∧ 1 ≤ (locate message).column ∧
      ((locate message).message = "" ↔ message = "") := by
  have hplaced := placed_locate message
  refine ⟨fun d => ⟨Placed.eq_locate, ?_⟩, hplaced.one_le.1, hplaced.one_le.2,
    hplaced.message_eq_empty, ?_⟩
  · rintro rfl
    exact hplaced
  · rintro rfl
    decide

/-! ## Places written behind a message -/

/-- **A place written behind a message is read back**, and what is left is the message, if it has no
location of its own: whatever it ends with, no location begins in it and ends in the place. -/
theorem locate_position (m : String) (l c : UInt32)
    (h : ∀ u v, m.toList = u ++ v → ¬BeginsLocation v) :
    ∃ core, Trimmed m.toList core ∧
      locate (m ++ " at line " ++ toString l.toNat ++ ", column " ++ toString c.toNat) =
        ⟨max l 1, max c 1,
          remainder (m ++ " at line " ++ toString l.toNat ++ ", column " ++ toString c.toNat) core,
          .error⟩ := by
  have htext : m ++ " at line " ++ toString l.toNat ++ ", column " ++ toString c.toNat =
      m ++ Fault.suffix ⟨l, c⟩ := by
    simp only [Fault.suffix, String.append_assoc]
  have hfound : findLocation (m ++ Fault.suffix ⟨l, c⟩).toList =
      some ⟨l, c, m.toList ++ [' '], []⟩ := by
    rw [String.toList_append, findLocation_append_suffix, (findLocation_eq_none_iff _).2 h]
    rfl
  refine ⟨Text.trim m.toList, trimmed_trim _, ?_⟩
  rw [htext, locate_of_findLocation hfound, List.append_nil, trim_append_space]

/-- A line without a column, a number that is too large and the beginning of a column stand in the
message. -/
theorem locate_position_unfinished :
    (∀ u v, "at line 99999999999:1 or line 5, column".toList = u ++ v → ¬BeginsLocation v) ∧
    locate "at line 99999999999:1 or line 5, column at line 0, column 4294967295" =
      ⟨1, 4294967295, "at line 99999999999:1 or line 5, column", .error⟩ := by
  have hnone : ∀ u v, "at line 99999999999:1 or line 5, column".toList = u ++ v →
      ¬BeginsLocation v := (findLocation_eq_none_iff _).1 (by decide)
  obtain ⟨core, hcore, hlocate⟩ := locate_position _ 0 4294967295 hnone
  have htrim := hcore.eq_trim
  refine ⟨hnone, ?_⟩
  rw [htrim] at hlocate
  exact hlocate

end ScriptLint.Locate
