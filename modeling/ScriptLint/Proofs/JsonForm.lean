import Mathlib
import ScriptLint.Json.Reader
import ScriptLint.Proofs.Location

/-!
# The form of JSON text

The rules of JSON as relations on texts, and what readers take off a text that keeps them.

* `JsonForm.Body`, `JsonForm.Number`, `JsonForm.Form`: strings, numbers, and values with the blanks
  around them.
* `JsonReader.Takes`: a reader takes a value off the front of a text.
* `JsonReader.takes_items`, `JsonReader.takes_foldMembers`: lists and objects, item by item.
* `takes_skip`: **a value that is skipped is taken off whole, however it is written and nested.**
-/

namespace ScriptLint

open JsonReader (isSpace)
open JsonValue (commas)

/-! ## The rules -/

namespace JsonForm

def Blank (u : List Char) : Prop :=
  ∀ c ∈ u, isSpace c = true

def isHex (c : Char) : Bool :=
  c.isDigit || ('a' ≤ c && c ≤ 'f') || ('A' ≤ c && c ≤ 'F')

/-- The inside of a string: characters as they are, a backslash and a letter, or a backslash, `u`
and four hexadecimal digits. -/
inductive Body : List Char → Prop
  | nil : Body []
  | plain {c : Char} {w : List Char} (hquote : c ≠ '"') (hslash : c ≠ '\\')
      (hcontrol : 0x20 ≤ c.toNat) (hw : Body w) : Body (c :: w)
  | escape {e : Char} {w : List Char} (he : e ∈ ['"', '\\', '/', 'b', 'f', 'n', 'r', 't'])
      (hw : Body w) : Body ('\\' :: e :: w)
  | unit {a b c d : Char} {w : List Char} (hhex : ∀ x ∈ [a, b, c, d], isHex x = true)
      (hw : Body w) : Body ('\\' :: 'u' :: a :: b :: c :: d :: w)

/-- A zero, or digits that do not begin with one. -/
inductive Whole : List Char → Prop
  | zero : Whole ['0']
  | digits {c : Char} {w : List Char} (hc : c.isDigit = true) (hzero : c ≠ '0')
      (hw : ∀ d ∈ w, d.isDigit = true) : Whole (c :: w)

/-- Nothing, or a point and digits. -/
inductive Places : List Char → Prop
  | none : Places []
  | digits {w : List Char} (hne : w ≠ []) (hw : ∀ d ∈ w, d.isDigit = true) : Places ('.' :: w)

/-- Nothing, or a letter, perhaps a sign, and digits. -/
inductive Exponent : List Char → Prop
  | none : Exponent []
  | power {e : Char} {sign w : List Char} (he : e = 'e' ∨ e = 'E')
      (hsign : sign = [] ∨ sign = ['+'] ∨ sign = ['-']) (hne : w ≠ [])
      (hw : ∀ d ∈ w, d.isDigit = true) : Exponent (e :: (sign ++ w))

inductive Number : List Char → Prop
  | mk {sign whole places exponent : List Char} (hsign : sign = [] ∨ sign = ['-'])
      (hwhole : Whole whole) (hplaces : Places places) (hexponent : Exponent exponent) :
      Number (sign ++ (whole ++ (places ++ exponent)))

inductive Phrase
  | value
  /-- A value with blanks around it. -/
  | element
  /-- A name, a colon and an element. -/
  | member

/-- The texts of JSON. -/
inductive Form : Phrase → List Char → Prop
  | null : Form .value ['n', 'u', 'l', 'l']
  | yes : Form .value ['t', 'r', 'u', 'e']
  | no : Form .value ['f', 'a', 'l', 's', 'e']
  | number {w : List Char} (h : Number w) : Form .value w
  | string {w : List Char} (h : Body w) : Form .value ('"' :: (w ++ ['"']))
  | emptyList {u : List Char} (hu : Blank u) : Form .value ('[' :: (u ++ [']']))
  | list {ws : List (List Char)} (h : ∀ w ∈ ws, Form .element w) :
      Form .value ('[' :: (commas ws ++ [']']))
  | emptyObject {u : List Char} (hu : Blank u) : Form .value ('\x7b' :: (u ++ ['\x7d']))
  | object {ws : List (List Char)} (h : ∀ w ∈ ws, Form .member w) :
      Form .value ('\x7b' :: (commas ws ++ ['\x7d']))
  | element {u w v : List Char} (hu : Blank u) (hv : Blank v) (h : Form .value w) :
      Form .element (u ++ (w ++ v))
  | member {u name v w : List Char} (hu : Blank u) (hname : Body name) (hv : Blank v)
      (h : Form .element w) : Form .member (u ++ '"' :: (name ++ '"' :: (v ++ ':' :: w)))

/-- A text that does not go on with a number before it. -/
def Stop (cs : List Char) : Prop :=
  ∀ c ∈ cs.head?, c.isDigit = false ∧ c ≠ '.' ∧ c ≠ 'e' ∧ c ≠ 'E'

theorem Blank.nil : Blank [] :=
  List.forall_mem_nil _

theorem stop_cons {c : Char} (h : c ∈ [',', ']', '\x7d']) (cs : List Char) : Stop (c :: cs) := by
  rintro _ ⟨⟩
  simp only [List.mem_cons, List.not_mem_nil, or_false] at h
  rcases h with rfl | rfl | rfl <;> decide

theorem Stop.blank {u cs : List Char} (hu : Blank u) (h : Stop cs) : Stop (u ++ cs) := by
  cases u with
  | nil => exact h
  | cons c u =>
    have hc := hu c List.mem_cons_self
    rintro _ ⟨⟩
    simp only [isSpace, Bool.or_eq_true, decide_eq_true_eq] at hc
    rcases hc with ((rfl | rfl) | rfl) | rfl <;> decide

theorem dropWhile_blank {u : List Char} {c : Char} (hu : Blank u) (hc : isSpace c = false)
    (cs : List Char) : (u ++ c :: cs).dropWhile isSpace = c :: cs := by
  rw [List.dropWhile_append_of_pos hu, List.dropWhile_cons_of_neg (by simp [hc])]

end JsonForm

open JsonForm

/-! ## Strings and numbers -/

namespace JsonText

theorem hexValue?_of_isHex {c : Char} (h : isHex c = true) : ∃ n, hexValue? c = some n := by
  unfold hexValue?
  simp only [isHex, Bool.or_eq_true, Bool.and_eq_true, decide_eq_true_eq] at h
  split
  · exact ⟨_, rfl⟩
  · split
    · exact ⟨_, rfl⟩
    · split
      · exact ⟨_, rfl⟩
      · tauto

theorem hexNumber?_of_isHex {a b c d : Char} (h : ∀ x ∈ [a, b, c, d], isHex x = true) :
    ∃ n, hexNumber? [a, b, c, d] = some n := by
  obtain ⟨i, hi⟩ := hexValue?_of_isHex (h a (by simp))
  obtain ⟨j, hj⟩ := hexValue?_of_isHex (h b (by simp))
  obtain ⟨k, hk⟩ := hexValue?_of_isHex (h c (by simp))
  obtain ⟨l, hl⟩ := hexValue?_of_isHex (h d (by simp))
  simp [hexNumber?, hi, hj, hk, hl]

theorem parts?_quote (cs : List Char) : parts? ('"' :: cs) = some ([], cs) := by
  rw [parts?]
  · simp
  · simp
  · simp

theorem parts?_plain {c : Char} {cs rest : List Char} {parts : List Part} (hquote : c ≠ '"')
    (hslash : c ≠ '\\') (hcontrol : 0x20 ≤ c.toNat) (h : parts? cs = some (parts, rest)) :
    parts? (c :: cs) = some (.char c :: parts, rest) := by
  have hnot : ¬(c = '\\' ∨ c.toNat < 0x20) := by
    rintro (h | h)
    · exact hslash h
    · omega
  rw [parts?]
  · simp [hquote, hnot, h]
  · rintro a b d e es rfl _
    exact hslash rfl
  · rintro a as rfl _
    exact hslash rfl

theorem parts?_escape {e c : Char} {cs rest : List Char} {parts : List Part}
    (he : escape? e = some c) (h : parts? cs = some (parts, rest)) :
    parts? ('\\' :: e :: cs) = some (.char c :: parts, rest) := by
  rw [parts?]
  · simp [he, h]
  · rintro a b d f fs rfl
    cases he

theorem parts?_unit {a b c d : Char} {n : ℕ} {cs rest : List Char} {parts : List Part}
    (hn : hexNumber? [a, b, c, d] = some n) (h : parts? cs = some (parts, rest)) :
    parts? ('\\' :: 'u' :: a :: b :: c :: d :: cs) = some (.unit n :: parts, rest) := by
  rw [parts?]
  simp [hn, h]

/-- The inside of a string is taken up to its closing quote. -/
theorem parts?_of_body {w : List Char} (h : Body w) (rest : List Char) :
    ∃ parts, parts? (w ++ '"' :: rest) = some (parts, rest) := by
  induction h with
  | nil => exact ⟨[], parts?_quote rest⟩
  | plain hquote hslash hcontrol _ ih =>
    obtain ⟨parts, hparts⟩ := ih
    exact ⟨_, parts?_plain hquote hslash hcontrol hparts⟩
  | @escape e w he _ ih =>
    obtain ⟨parts, hparts⟩ := ih
    have hescape : ∃ c, escape? e = some c := by
      simp only [List.mem_cons, List.not_mem_nil, or_false] at he
      rcases he with rfl | rfl | rfl | rfl | rfl | rfl | rfl | rfl <;> exact ⟨_, rfl⟩
    obtain ⟨c, hc⟩ := hescape
    exact ⟨_, parts?_escape hc hparts⟩
  | unit hhex _ ih =>
    obtain ⟨parts, hparts⟩ := ih
    obtain ⟨n, hn⟩ := hexNumber?_of_isHex hhex
    exact ⟨_, parts?_unit hn hparts⟩

theorem takeWhile_digits {w rest : List Char} (hw : ∀ d ∈ w, d.isDigit = true)
    (hrest : ∀ c ∈ rest.head?, c.isDigit = false) : (w ++ rest).takeWhile Char.isDigit = w := by
  rw [List.takeWhile_append_of_pos hw, Locate.takeWhile_isDigit hrest, List.append_nil]

theorem whole?_of_whole {w rest : List Char} (h : Whole w)
    (hrest : ∀ c ∈ rest.head?, c.isDigit = false) : whole? (w ++ rest) = some (w, rest) := by
  have hdigits : ∀ d ∈ w, d.isDigit = true := by
    cases h with
    | zero => simp
    | digits hc _ hw => exact List.forall_mem_cons.2 ⟨hc, hw⟩
  have hidle : ¬(w = [] ∨ (w.head? = some '0' ∧ 1 < w.length)) := by
    cases h with
    | zero => simp
    | digits _ hzero _ => simp [hzero]
  unfold whole?
  rw [takeWhile_digits hdigits hrest]
  dsimp only
  rw [if_neg hidle, List.drop_left]

theorem places?_none {cs : List Char} (h : ∀ c ∈ cs.head?, c ≠ '.') :
    places? cs = some (none, cs) := by
  rw [places?]
  rintro ds rfl
  exact h '.' rfl rfl

theorem places?_of_places {w rest : List Char} (h : Places w)
    (hrest : ∀ c ∈ rest.head?, c.isDigit = false ∧ c ≠ '.') :
    ∃ places, places? (w ++ rest) = some (places, rest) := by
  cases h with
  | none => exact ⟨none, places?_none fun c hc => (hrest c hc).2⟩
  | @digits w hne hw =>
    refine ⟨some w, ?_⟩
    rw [List.cons_append, places?, takeWhile_digits hw fun c hc => (hrest c hc).1]
    simp [hne]

theorem exponent?_none {cs : List Char} (h : ∀ c ∈ cs.head?, c ≠ 'e' ∧ c ≠ 'E') :
    exponent? cs = some (none, cs) := by
  cases cs with
  | nil => rfl
  | cons c cs =>
    obtain ⟨he, hE⟩ := h c rfl
    simp [exponent?, he, hE]

theorem exponentDigits?_of_digits (negative : Bool) {w rest : List Char} (hne : w ≠ [])
    (hw : ∀ d ∈ w, d.isDigit = true) (hrest : ∀ c ∈ rest.head?, c.isDigit = false) :
    ∃ exponent, exponentDigits? negative (w ++ rest) = some (exponent, rest) := by
  unfold exponentDigits?
  rw [takeWhile_digits hw hrest]
  simp [hne]

theorem exponent?_of_exponent {w rest : List Char} (h : Exponent w)
    (hrest : ∀ c ∈ rest.head?, c.isDigit = false ∧ c ≠ 'e' ∧ c ≠ 'E') :
    ∃ exponent, exponent? (w ++ rest) = some (exponent, rest) := by
  have hdigit : ∀ c ∈ rest.head?, c.isDigit = false := fun c hc => (hrest c hc).1
  cases h with
  | none => exact ⟨none, exponent?_none fun c hc => (hrest c hc).2⟩
  | @power e sign w he hsign hne hw =>
    obtain ⟨d, ds, rfl⟩ := List.exists_cons_of_ne_nil hne
    have hd := hw d List.mem_cons_self
    rw [List.cons_append, List.append_assoc]
    rcases hsign with rfl | rfl | rfl
    · rw [List.nil_append, List.cons_append, exponent?, if_pos he]
      · exact exponentDigits?_of_digits false hne hw hdigit
      -- a digit is no sign
      all_goals
        rintro cs hcs
        rw [(List.cons.inj hcs).1] at hd
        exact absurd hd (by decide)
    · rw [List.singleton_append, exponent?, if_pos he]
      exact exponentDigits?_of_digits false hne hw hdigit
    · rw [List.singleton_append, exponent?, if_pos he]
      exact exponentDigits?_of_digits true hne hw hdigit

theorem sign_of_isDigit {c : Char} (h : c.isDigit = true) (cs : List Char) :
    sign (c :: cs) = (false, c :: cs) := by
  rw [sign]
  intro ds hds
  rw [(List.cons.inj hds).1] at h
  exact absurd h (by decide)

theorem Whole.head {w : List Char} (h : Whole w) : ∃ c w', w = c :: w' ∧ c.isDigit = true := by
  cases h with
  | zero => exact ⟨'0', [], rfl, by decide⟩
  | digits hc _ _ => exact ⟨_, _, rfl, hc⟩

theorem not_digit_places {w rest : List Char} (h : Places w)
    (hrest : ∀ c ∈ rest.head?, c.isDigit = false) : ∀ c ∈ (w ++ rest).head?, c.isDigit = false := by
  cases h with
  | none => exact hrest
  | digits _ _ => rintro _ ⟨⟩; decide

theorem not_digit_exponent {w rest : List Char} (h : Exponent w)
    (hrest : ∀ c ∈ rest.head?, c.isDigit = false ∧ c ≠ '.') :
    ∀ c ∈ (w ++ rest).head?, c.isDigit = false ∧ c ≠ '.' := by
  cases h with
  | none => exact hrest
  | power he _ _ _ =>
    rintro _ ⟨⟩
    rcases he with rfl | rfl <;> decide

/-- A number is taken up to the text that does not go on with it. -/
theorem number?_of_number {w rest : List Char} (h : Number w) (hrest : Stop rest) :
    ∃ t, number? (w ++ rest) = some (t, rest) := by
  obtain ⟨hsign, hwhole, hplaces, hexponent⟩ := h
  rename_i sign whole places exponent
  have hdigit : ∀ c ∈ (exponent ++ rest).head?, c.isDigit = false ∧ c ≠ '.' :=
    not_digit_exponent hexponent fun c hc => ⟨(hrest c hc).1, (hrest c hc).2.1⟩
  obtain ⟨e, he⟩ := exponent?_of_exponent hexponent
    fun c hc => ⟨(hrest c hc).1, (hrest c hc).2.2⟩
  obtain ⟨p, hp⟩ := places?_of_places hplaces hdigit
  have hw := whole?_of_whole hwhole (not_digit_places hplaces fun c hc => (hdigit c hc).1)
  have hsigned : ∃ negative, JsonText.sign (sign ++ (whole ++ (places ++ (exponent ++ rest)))) =
      (negative, whole ++ (places ++ (exponent ++ rest))) := by
    rcases hsign with rfl | rfl
    · obtain ⟨c, w', rfl, hc⟩ := Whole.head hwhole
      exact ⟨false, sign_of_isDigit hc _⟩
    · exact ⟨true, rfl⟩
  obtain ⟨negative, hnegative⟩ := hsigned
  refine ⟨⟨negative, whole, p.getD [], p.isSome, e⟩, ?_⟩
  simp only [List.append_assoc]
  rw [number?, hnegative]
  simp [hw, hp, he]

end JsonText

/-! ## Readers -/

namespace JsonReader

variable {α β κ : Type} {p : JsonReader α} {a : α} {b b' : β} {c : Char}
  {u v w cs mid rest : List Char} {ws : List (List Char)}

/-- The reader takes the value off the front of the text and leaves the rest. -/
def Takes (p : JsonReader α) (cs : List Char) (a : α) (rest : List Char) : Prop :=
  StateT.run p cs = .ok (a, rest)

theorem Takes.pure (a : α) (cs : List Char) : Takes (pure a) cs a cs := rfl

theorem Takes.bind {f : α → JsonReader β} (hp : Takes p cs a mid) (hf : Takes (f a) mid b rest) :
    Takes (p >>= f) cs b rest := by
  rw [Takes, StateT.run_bind, hp]
  exact hf

theorem takes_advance (c : Char) (cs : List Char) : Takes advance (c :: cs) () cs := rfl

theorem takes_get (cs : List Char) : Takes get cs cs cs := rfl

theorem takes_peek (hu : Blank u) (hc : isSpace c = false) (cs : List Char) :
    Takes peek (u ++ c :: cs) (some c) (c :: cs) := by
  have hdrop := dropWhile_blank hu hc cs
  have hpeek : Takes peek (u ++ c :: cs) ((u ++ c :: cs).dropWhile isSpace).head?
      ((u ++ c :: cs).dropWhile isSpace) := rfl
  rw [hdrop] at hpeek
  exact hpeek

theorem takes_expect (hu : Blank u) (hc : isSpace c = false) (cs : List Char) :
    Takes (expect c) (u ++ c :: cs) () cs := by
  refine (takes_peek hu hc cs).bind ?_
  rw [if_pos rfl]
  exact takes_advance c cs

theorem takes_scan {f : List Char → Option (α × List Char)} (h : f cs = some (a, rest)) :
    Takes (scan f) cs a rest := by
  refine (takes_get cs).bind ?_
  rw [h]
  rfl

theorem takes_word (w rest : List Char) : Takes (word w) (w ++ rest) () rest := by
  refine takes_scan ?_
  have hprefix : w.isPrefixOf (w ++ rest) = true :=
    List.isPrefixOf_iff_prefix.2 (List.prefix_append w rest)
  rw [if_pos hprefix, List.drop_left]

theorem takes_skipString (h : Body w) (rest : List Char) :
    Takes skipString ('"' :: (w ++ '"' :: rest)) () rest := by
  obtain ⟨parts, hparts⟩ := JsonText.parts?_of_body h rest
  refine (takes_advance _ _).bind ((takes_scan hparts).bind ?_)
  exact Takes.pure _ _

/-! ### Lists -/

theorem takes_nextItem_close (first : Bool) (hv : Blank v) (rest : List Char) :
    Takes (nextItem first) (v ++ ']' :: rest) false rest :=
  (takes_peek hv (by decide) rest).bind ((takes_advance _ _).bind (Takes.pure _ _))

theorem takes_nextItem_first (hu : Blank u) (hc : isSpace c = false) (hclose : c ≠ ']')
    (cs : List Char) : Takes (nextItem true) (u ++ c :: cs) true (c :: cs) := by
  refine (takes_peek hu hc cs).bind ?_
  split
  · next h => cases h
  · next h => exact absurd (Option.some.inj h) hclose
  · exact Takes.pure _ _

theorem takes_nextItem_comma (hv : Blank v) (hu : Blank u) (hc : isSpace c = false)
    (hclose : c ≠ ']') (cs : List Char) :
    Takes (nextItem false) (v ++ ',' :: (u ++ c :: cs)) true (c :: cs) := by
  refine (takes_peek hv (by decide) _).bind ?_
  refine (takes_advance _ _).bind ((takes_peek hu hc cs).bind ?_)
  dsimp only
  rw [if_neg hclose]
  exact Takes.pure _ _

/-- The text of an item, blanks included; the reader is run from its first character on. -/
def TakesItem (item : JsonReader α) (w : List Char) (a : α) : Prop :=
  ∃ u c w', w = u ++ c :: w' ∧ Blank u ∧ isSpace c = false ∧ c ≠ ']' ∧
    ∀ rest, Stop rest → ∃ v, Blank v ∧ Takes item (c :: (w' ++ rest)) a (v ++ rest)

theorem commas_cons (w : List Char) (ws : List (List Char)) :
    commas (w :: ws) = w ++ ws.flatMap (',' :: ·) := by
  induction ws generalizing w with
  | nil => simp [commas]
  | cons w' ws ih =>
    rw [commas, ih]
    · simp
    · simp

/-- What follows an item or a member is a comma or the end. -/
theorem stop_flatMap (ws : List (List Char)) (close : Char) (h : close ∈ [']', '\x7d'])
    (rest : List Char) : Stop (ws.flatMap (',' :: ·) ++ close :: rest) := by
  cases ws with
  | nil => exact stop_cons (List.mem_cons_of_mem _ h) rest
  | cons w ws => exact stop_cons List.mem_cons_self _

/-- A text is longer than there are items left behind the first. -/
theorem exists_fuel (u w rest : List Char) (c close : Char) (ws : List (List Char)) :
    ∃ m, (u ++ c :: (w ++ (ws.flatMap (',' :: ·) ++ close :: rest))).length = m + 1 ∧
      ws.length ≤ m := by
  have hlength : ws.length ≤ (ws.flatMap (',' :: ·)).length := by
    induction ws with
    | nil => simp
    | cons w ws ih =>
      simp only [List.flatMap_cons, List.length_append, List.length_cons]
      omega
  refine ⟨u.length + (w ++ (ws.flatMap (',' :: ·) ++ close :: rest)).length, ?_, ?_⟩
  · rw [List.length_append, List.length_cons, Nat.add_assoc]
  · simp only [List.length_append]
    omega

theorem takes_itemsUpTo {item : JsonReader α} {as : List α}
    (h : List.Forall₂ (TakesItem item) ws as) {n : ℕ} (hn : ws.length ≤ n) (hv : Blank v)
    (rest : List Char) :
    Takes (itemsUpTo item (n + 1) false) (v ++ (ws.flatMap (',' :: ·) ++ ']' :: rest)) as rest := by
  induction h generalizing n v with
  | nil => exact (takes_nextItem_close false hv rest).bind (Takes.pure _ _)
  | @cons w a ws as hw _ ih =>
    obtain ⟨m, rfl⟩ : ∃ m, n = m + 1 := ⟨n - 1, by simp only [List.length_cons] at hn; omega⟩
    obtain ⟨u, c, w', rfl, hu, hc, hclose, htakes⟩ := hw
    obtain ⟨v', hv', hitem⟩ := htakes _ (stop_flatMap ws ']' (by simp) rest)
    have htext : v ++ (((u ++ c :: w') :: ws).flatMap (',' :: ·) ++ ']' :: rest) =
        v ++ ',' :: (u ++ c :: (w' ++ (ws.flatMap (',' :: ·) ++ ']' :: rest))) := by simp
    rw [htext]
    refine (takes_nextItem_comma hv hu hc hclose _).bind (hitem.bind ?_)
    exact (ih (by simpa using hn) hv').bind (Takes.pure _ _)

theorem takes_items_nil (item : JsonReader α) (hu : Blank u) (rest : List Char) :
    Takes (items item) (u ++ ']' :: rest) [] rest :=
  (takes_get _).bind ((takes_nextItem_close true hu rest).bind (Takes.pure _ _))

theorem takes_items {item : JsonReader α} {as : List α} (h : List.Forall₂ (TakesItem item) ws as)
    (rest : List Char) : Takes (items item) (commas ws ++ ']' :: rest) as rest := by
  cases h with
  | nil => exact takes_items_nil item Blank.nil rest
  | @cons w a ws as hw hws =>
    obtain ⟨u, c, w', rfl, hu, hc, hclose, htakes⟩ := hw
    obtain ⟨v, hv, hitem⟩ := htakes _ (stop_flatMap ws ']' (by simp) rest)
    have htext : commas ((u ++ c :: w') :: ws) ++ ']' :: rest =
        u ++ c :: (w' ++ (ws.flatMap (',' :: ·) ++ ']' :: rest)) := by
      rw [commas_cons]; simp
    rw [htext]
    obtain ⟨m, hm, hle⟩ := exists_fuel u w' rest c ']' ws
    refine (takes_get _).bind ?_
    rw [hm]
    refine (takes_nextItem_first hu hc hclose _).bind (hitem.bind ?_)
    exact (takes_itemsUpTo hws hle hv rest).bind (Takes.pure _ _)

/-! ### Objects -/

theorem takes_nextKey_close (key : JsonReader κ) (first : Bool) (hv : Blank v)
    (rest : List Char) : Takes (nextKey key first) (v ++ '\x7d' :: rest) none rest :=
  (takes_peek hv (by decide) rest).bind ((takes_advance _ _).bind (Takes.pure _ _))

theorem takes_nextKey_first {key : JsonReader κ} {k : κ} (hu : Blank u)
    (hkey : Takes key ('"' :: cs) k mid) :
    Takes (nextKey key true) (u ++ '"' :: cs) (some k) mid := by
  refine (takes_peek hu (by decide) cs).bind ?_
  refine (takes_peek Blank.nil (by decide) cs).bind ?_
  exact hkey.bind (Takes.pure _ _)

theorem takes_nextKey_comma {key : JsonReader κ} {k : κ} (hv : Blank v) (hu : Blank u)
    (hkey : Takes key ('"' :: cs) k mid) :
    Takes (nextKey key false) (v ++ ',' :: (u ++ '"' :: cs)) (some k) mid := by
  refine (takes_peek hv (by decide) _).bind ?_
  refine (takes_advance _ _).bind ((takes_peek hu (by decide) cs).bind ?_)
  exact hkey.bind (Takes.pure _ _)

/-- The text of a member, blanks included, that leads from one value to the next. -/
def TakesMember (key : JsonReader κ) (member : β → κ → JsonReader β) (b : β) (w : List Char)
    (b' : β) : Prop :=
  ∃ u w', w = u ++ '"' :: w' ∧ Blank u ∧ ∀ rest, Stop rest → ∃ k mid v, Blank v ∧
    Takes key ('"' :: (w' ++ rest)) k mid ∧ Takes (member b k) mid b' (v ++ rest)

/-- The texts of members, one behind the other. -/
inductive TakesMembers (key : JsonReader κ) (member : β → κ → JsonReader β) :
    β → List (List Char) → β → Prop
  | nil (b : β) : TakesMembers key member b [] b
  | cons {b b' b'' : β} {w : List Char} {ws : List (List Char)}
      (hw : TakesMember key member b w b') (hws : TakesMembers key member b' ws b'') :
      TakesMembers key member b (w :: ws) b''

variable {key : JsonReader κ} {member : β → κ → JsonReader β}

/-- Members that all leave the value as it was. -/
theorem TakesMembers.of_forall (h : ∀ w ∈ ws, TakesMember key member b w b) :
    TakesMembers key member b ws b := by
  induction ws with
  | nil => exact .nil b
  | cons w ws ih =>
    obtain ⟨hw, hws⟩ := List.forall_mem_cons.1 h
    exact .cons hw (ih hws)

theorem takes_foldMembersUpTo (h : TakesMembers key member b ws b') {n : ℕ} (hn : ws.length ≤ n)
    (hv : Blank v) (rest : List Char) :
    Takes (foldMembersUpTo key member (n + 1) false b)
      (v ++ (ws.flatMap (',' :: ·) ++ '\x7d' :: rest)) b' rest := by
  induction h generalizing n v with
  | nil b => exact (takes_nextKey_close key false hv rest).bind (Takes.pure _ _)
  | @cons b b' b'' w ws hw _ ih =>
    obtain ⟨m, rfl⟩ : ∃ m, n = m + 1 := ⟨n - 1, by simp only [List.length_cons] at hn; omega⟩
    obtain ⟨u, w', rfl, hu, htakes⟩ := hw
    obtain ⟨k, mid, v', hv', hkey, hmember⟩ :=
      htakes _ (stop_flatMap ws '\x7d' (by simp) rest)
    have htext : v ++ (((u ++ '"' :: w') :: ws).flatMap (',' :: ·) ++ '\x7d' :: rest) =
        v ++ ',' :: (u ++ '"' :: (w' ++ (ws.flatMap (',' :: ·) ++ '\x7d' :: rest))) := by simp
    rw [htext]
    exact (takes_nextKey_comma hv hu hkey).bind (hmember.bind (ih (by simpa using hn) hv'))

theorem takes_foldMembers_nil (b : β) (hu : Blank u) (rest : List Char) :
    Takes (foldMembers key member b) (u ++ '\x7d' :: rest) b rest :=
  (takes_get _).bind ((takes_nextKey_close key true hu rest).bind (Takes.pure _ _))

theorem takes_foldMembers (h : TakesMembers key member b ws b') (rest : List Char) :
    Takes (foldMembers key member b) (commas ws ++ '\x7d' :: rest) b' rest := by
  cases h with
  | nil => exact takes_foldMembers_nil b Blank.nil rest
  | @cons b b' b'' w ws hw hws =>
    obtain ⟨u, w', rfl, hu, htakes⟩ := hw
    obtain ⟨k, mid, v, hv, hkey, hmember⟩ :=
      htakes _ (stop_flatMap ws '\x7d' (by simp) rest)
    have htext : commas ((u ++ '"' :: w') :: ws) ++ '\x7d' :: rest =
        u ++ '"' :: (w' ++ (ws.flatMap (',' :: ·) ++ '\x7d' :: rest)) := by
      rw [commas_cons]; simp
    rw [htext]
    obtain ⟨m, hm, hle⟩ := exists_fuel u w' rest '"' '\x7d' ws
    refine (takes_get _).bind ?_
    rw [hm]
    exact (takes_nextKey_first hu hkey).bind (hmember.bind (takes_foldMembersUpTo hws hle hv rest))

/-! ### Skipping -/

/-- What skipping does with a text of each kind, given enough depth for its length. -/
def Skips : Phrase → List Char → Prop
  | .value, w => (∃ c w', w = c :: w' ∧ isSpace c = false ∧ c ≠ ']') ∧
      ∀ depth rest, w.length ≤ depth → Stop rest → Takes (skipUpTo depth) (w ++ rest) () rest
  | .element, w => ∀ depth, w.length ≤ depth → TakesItem (skipUpTo depth) w ()
  | .member, w => ∀ depth, w.length ≤ depth →
      TakesMember skipString (fun _ _ => do expect ':'; skipUpTo depth) () w ()

/-- Blanks in front of a value are skipped with it. -/
theorem takes_skipUpTo_blank {depth : ℕ} (hu : Blank u)
    (h : Takes (skipUpTo depth) cs () rest) : Takes (skipUpTo depth) (u ++ cs) () rest := by
  cases depth with
  | zero => cases h
  | succ depth =>
    have hpeek : StateT.run peek (u ++ cs) = StateT.run peek cs := by
      show Except.ok _ = Except.ok _
      rw [List.dropWhile_append_of_pos hu]
    rw [Takes, skipUpTo, StateT.run_bind] at h ⊢
    rw [hpeek]
    exact h

/-- A number begins with a sign or a digit, which begins nothing else. -/
theorem Number.head (h : Number w) : ∃ c w', w = c :: w' ∧ startsNumber c = true ∧
    c ∉ [' ', '\n', '\t', '\r', '"', '[', ']', '\x7b', 'n', 't', 'f'] := by
  have hhead : ∀ c : Char, startsNumber c = true →
      c ∉ [' ', '\n', '\t', '\r', '"', '[', ']', '\x7b', 'n', 't', 'f'] := by
    intro c hc hmem
    simp only [List.mem_cons, List.not_mem_nil, or_false] at hmem
    rcases hmem with rfl | rfl | rfl | rfl | rfl | rfl | rfl | rfl | rfl | rfl | rfl <;>
      exact absurd hc (by decide)
  obtain ⟨hsign, hwhole, -, -⟩ := h
  rcases hsign with rfl | rfl
  · obtain ⟨c, w', rfl, hc⟩ := JsonText.Whole.head hwhole
    have hstart : startsNumber c = true := by simp [startsNumber, hc]
    exact ⟨c, _, rfl, hstart, hhead c hstart⟩
  · exact ⟨'-', _, rfl, by decide, hhead '-' (by decide)⟩

/-- A value is skipped from its first character on. -/
theorem skips_value (hspace : isSpace c = false) (hclose : c ≠ ']')
    (h : ∀ depth rest, w.length ≤ depth → Stop rest →
      Takes (skipUpTo (depth + 1)) (c :: (w ++ rest)) () rest) : Skips .value (c :: w) := by
  refine ⟨⟨c, w, rfl, hspace, hclose⟩, fun depth rest hdepth hrest => ?_⟩
  rw [List.length_cons] at hdepth
  obtain ⟨m, rfl⟩ : ∃ m, depth = m + 1 := ⟨depth - 1, by omega⟩
  exact h m rest (by omega) hrest

theorem skips_number (h : Number w) : Skips .value w := by
  obtain ⟨c, w', rfl, hc, hmem⟩ := Number.head h
  simp only [List.mem_cons, List.not_mem_nil, or_false, not_or] at hmem
  obtain ⟨h1, h2, h3, h4, hquote, hopen, hclose, hbrace, hn, ht, hf⟩ := hmem
  have hspace : isSpace c = false := by simp [isSpace, h1, h2, h3, h4]
  refine skips_value hspace hclose fun depth rest _ hrest => ?_
  obtain ⟨t, hnumber⟩ := JsonText.number?_of_number h hrest
  refine (takes_peek Blank.nil hspace (w' ++ rest)).bind ?_
  split
  · next h => cases h
  · next h => exact absurd (Option.some.inj h) hquote
  · next h => exact absurd (Option.some.inj h) hopen
  · next h => exact absurd (Option.some.inj h) hbrace
  · next h => exact absurd (Option.some.inj h) hn
  · next h => exact absurd (Option.some.inj h) ht
  · next h => exact absurd (Option.some.inj h) hf
  · next h =>
    cases h
    rw [if_pos hc]
    exact (takes_scan hnumber).bind (Takes.pure _ _)

theorem length_le_commas (hw : w ∈ ws) : w.length ≤ (commas ws).length := by
  cases ws with
  | nil => cases hw
  | cons w' ws =>
    rw [commas_cons, List.length_append]
    rcases List.mem_cons.1 hw with rfl | hw
    · omega
    · have hsub : List.Sublist (',' :: w) (ws.flatMap (',' :: ·)) :=
        List.sublist_flatten_of_mem (List.mem_map_of_mem hw)
      have hle := hsub.length_le
      rw [List.length_cons] at hle
      omega

theorem skips_list (ih : ∀ w ∈ ws, Skips .element w) :
    Skips .value ('[' :: (commas ws ++ [']'])) := by
  refine skips_value (by decide) (by decide) fun depth rest hdepth _ => ?_
  rw [List.length_append, List.length_singleton] at hdepth
  have hitems : List.Forall₂ (TakesItem (skipUpTo depth)) ws (ws.map fun _ => ()) := by
    rw [List.forall₂_map_right_iff, List.forall₂_same]
    intro w hw
    have hle := length_le_commas hw
    exact ih w hw depth (by omega)
  rw [List.append_assoc, List.singleton_append]
  refine (takes_peek Blank.nil (by decide) _).bind ((takes_advance _ _).bind ?_)
  exact (takes_items hitems rest).bind (Takes.pure _ _)

theorem skips_object (ih : ∀ w ∈ ws, Skips .member w) :
    Skips .value ('\x7b' :: (commas ws ++ ['\x7d'])) := by
  refine skips_value (by decide) (by decide) fun depth rest hdepth _ => ?_
  rw [List.length_append, List.length_singleton] at hdepth
  have hmembers : TakesMembers skipString (fun _ _ => do expect ':'; skipUpTo depth) () ws () := by
    refine TakesMembers.of_forall fun w hw => ?_
    have hle := length_le_commas hw
    exact ih w hw depth (by omega)
  rw [List.append_assoc, List.singleton_append]
  refine (takes_peek Blank.nil (by decide) _).bind ((takes_advance _ _).bind ?_)
  exact takes_foldMembers hmembers rest

theorem skips_element (hu : Blank u) (hv : Blank v) (ih : Skips .value w) :
    Skips .element (u ++ (w ++ v)) := by
  obtain ⟨⟨c, w', rfl, hspace, hclose⟩, htakes⟩ := ih
  intro depth hdepth
  refine ⟨u, c, w' ++ v, by simp, hu, hspace, hclose, fun rest hrest => ⟨v, hv, ?_⟩⟩
  rw [List.append_assoc]
  refine htakes depth (v ++ rest) ?_ (hrest.blank hv)
  simp only [List.length_append] at hdepth ⊢
  omega

theorem skips_member {name : List Char} (hu : Blank u) (hname : Body name) (hv : Blank v)
    (ih : Skips .element w) : Skips .member (u ++ '"' :: (name ++ '"' :: (v ++ ':' :: w))) := by
  intro depth hdepth
  simp only [List.length_append, List.length_cons] at hdepth
  obtain ⟨u', c, w', rfl, hu', hspace, -, htakes⟩ := ih depth (by omega)
  refine ⟨u, _, rfl, hu, fun rest hrest => ?_⟩
  obtain ⟨v', hv', hvalue⟩ := htakes rest hrest
  refine ⟨(), _, v', hv', ?_,
    (takes_expect hv (by decide) _).bind (takes_skipUpTo_blank hu' hvalue)⟩
  have hkey := takes_skipString hname (v ++ ':' :: (u' ++ c :: (w' ++ rest)))
  simpa using hkey

theorem skips {ph : Phrase} (h : Form ph w) : Skips ph w := by
  induction h with
  | null =>
    refine skips_value (by decide) (by decide) fun depth rest _ _ => ?_
    exact (takes_peek Blank.nil (by decide) _).bind (takes_word ['n', 'u', 'l', 'l'] rest)
  | yes =>
    refine skips_value (by decide) (by decide) fun depth rest _ _ => ?_
    exact (takes_peek Blank.nil (by decide) _).bind (takes_word ['t', 'r', 'u', 'e'] rest)
  | no =>
    refine skips_value (by decide) (by decide) fun depth rest _ _ => ?_
    exact (takes_peek Blank.nil (by decide) _).bind (takes_word ['f', 'a', 'l', 's', 'e'] rest)
  | number h => exact skips_number h
  | string h =>
    refine skips_value (by decide) (by decide) fun depth rest _ _ => ?_
    rw [List.append_assoc, List.singleton_append]
    exact (takes_peek Blank.nil (by decide) _).bind (takes_skipString h rest)
  | emptyList hu =>
    refine skips_value (by decide) (by decide) fun depth rest _ _ => ?_
    rw [List.append_assoc, List.singleton_append]
    refine (takes_peek Blank.nil (by decide) _).bind ((takes_advance _ _).bind ?_)
    exact (takes_items_nil _ hu rest).bind (Takes.pure _ _)
  | list _ ih => exact skips_list ih
  | emptyObject hu =>
    refine skips_value (by decide) (by decide) fun depth rest _ _ => ?_
    rw [List.append_assoc, List.singleton_append]
    refine (takes_peek Blank.nil (by decide) _).bind ((takes_advance _ _).bind ?_)
    exact takes_foldMembers_nil _ hu rest
  | object _ ih => exact skips_object ih
  | element hu hv _ ih => exact skips_element hu hv ih
  | member hu hname hv _ ih => exact skips_member hu hname hv ih

/-- **A value that is skipped is taken off whole**, however it is written and nested, up to blanks
behind it. -/
theorem takes_skip (h : Form .element w) (hrest : Stop rest) :
    ∃ v, Blank v ∧ Takes skip (w ++ rest) () (v ++ rest) := by
  obtain ⟨u, c, w', rfl, hu, -, -, htakes⟩ :=
    skips h ((w ++ rest).length + 1) (by rw [List.length_append]; omega)
  obtain ⟨v, hv, hvalue⟩ := htakes rest hrest
  refine ⟨v, hv, (takes_get _).bind ?_⟩
  rw [List.append_assoc] at hvalue ⊢
  exact takes_skipUpTo_blank hu hvalue

end JsonReader

end ScriptLint
