import Mathlib
import ScriptLint.Fixture.Basic
import ScriptLint.Proofs.LocationRules

/-!
# Fixture files

Fixtures that are written down, with remarks before, between and behind them, are read back as they
were. A section ends at its own mark only, so a script may hold headings and closing rows, and an
expected diagnostic may look like a rule or a heading.

* `Fixture.Writable`: the fixtures that can be written; `Fixture.written`: their rows.
* `Fixture.fileRows`, `Fixture.fileText`: the rows of a file, and its text.
* `foldl_set_settingRows`: the settings are read off their rows.
* `parseRows_written`: so is a fixture, whatever rows follow.
* `Text.Taken`: the rows that are read of a text, next to those that were written.
* `parseRows_taken`: what is read of the rows of a file.
* `parse_fileText`: **writing and reading fixtures is lossless.**
-/

namespace ScriptLint

namespace Fixture

/-! ## Writing -/

/-- A single row without blanks at its ends. -/
def IsRow (s : String) : Prop :=
  Text.trimString s = s ∧ '\n' ∉ s.toList

/-- The fixtures that can be written down. -/
@[mk_iff]
structure Writable (f : Fixture) : Prop where
  name : IsRow f.name
  skip : ∀ reason ∈ f.skip, IsRow reason
  globals : ∀ g ∈ f.globals, IsRow g ∧ g ≠ "" ∧ ',' ∉ g.toList
  input : ∀ l ∈ Text.linesOf f.input, Text.trimString l ≠ "---" ∧ l.toList.getLast? ≠ some '\r'
  expected : ∀ e ∈ f.expected, IsRow e ∧ e ≠ "" ∧ e ≠ "==="

instance (s : String) : Decidable (IsRow s) :=
  inferInstanceAs (Decidable (_ ∧ _))

instance (f : Fixture) : Decidable f.Writable :=
  decidable_of_iff _ (f.writable_iff).symm

/-- The rows for the settings that a fixture has. -/
def settingRows (f : Fixture) : List String :=
  (if f.globals = [] then [] else ["# globals: " ++ ", ".intercalate f.globals]) ++
    ((if f.syntaxOnly then ["# syntax-only"] else []) ++ f.skip.toList.map ("# skip: " ++ ·))

/-- The rows of a fixture. -/
def written (f : Fixture) : List String :=
  ("# test: " ++ f.name) :: (f.settingRows ++
    "---" :: (Text.linesOf f.input ++ "---" :: (f.expected ++ ["==="])))

/-- A row that does not begin a fixture. -/
def IsRemark (row : String) : Prop :=
  '\n' ∉ row.toList ∧ ¬ "# test:".toList <+: Text.trim row.toList

instance (row : String) : Decidable (IsRemark row) :=
  inferInstanceAs (Decidable (_ ∧ _))

/-- The rows of a file: remarks, and fixtures with the remarks behind each. -/
def fileRows (front : List String) : List (Fixture × List String) → List String
  | [] => front
  | (f, behind) :: rest => front ++ (f.written ++ fileRows behind rest)

/-- Rows as a text, with or without a line break behind the last. -/
def fileText (rows : List String) (closed : Bool) : String :=
  if closed then String.join (rows.map (· ++ "\n")) else "\n".intercalate rows

/-! ## Headings -/

theorem trim_eq_iff {s : List Char} : Text.trim s = s ↔
    (∀ c ∈ s.head?, Text.isBlank c = false) ∧ ∀ c ∈ s.getLast?, Text.isBlank c = false := by
  constructor
  · intro h
    have htrimmed := Locate.trimmed_trim s
    rw [h] at htrimmed
    exact ⟨htrimmed.head, htrimmed.last⟩
  · exact fun h => Locate.trim_eq_self h.1 h.2

theorem IsRow.trim {s : String} (h : IsRow s) : Text.trim s.toList = s.toList := by
  have htrim := congrArg String.toList h.1
  rwa [Text.trimString, String.toList_ofList] at htrim

theorem isRow_iff {s : String} : IsRow s ↔ (∀ c ∈ s.toList.head?, Text.isBlank c = false) ∧
    (∀ c ∈ s.toList.getLast?, Text.isBlank c = false) ∧ '\n' ∉ s.toList := by
  rw [IsRow, Text.trimString, ← String.toList_inj, String.toList_ofList, trim_eq_iff, and_assoc]

theorem trim_space (s : List Char) : Text.trim (' ' :: s) = Text.trim s :=
  rfl

/-- A heading keeps its place when the blanks around the row are dropped. -/
theorem trim_heading {h s : List Char} (hne : h ≠ []) (hh : Text.trim h = h)
    (hs : Text.trim s = s) : ∃ t, Text.trim (h ++ ' ' :: s) = h ++ t ∧ Text.trim t = s := by
  rcases eq_or_ne s [] with rfl | hne'
  · exact ⟨[], by rw [Locate.trim_append_space, hh, List.append_nil], rfl⟩
  · refine ⟨' ' :: s, trim_eq_iff.2 ⟨?_, ?_⟩, by rw [trim_space, hs]⟩
    · rw [List.head?_append_of_ne_nil _ hne]
      exact (trim_eq_iff.1 hh).1
    · rw [← List.singleton_append, ← List.append_assoc, List.getLast?_append_of_ne_nil _ hne']
      exact (trim_eq_iff.1 hs).2

theorem trim_of_head {c : Char} (hc : Text.isBlank c = false) (cs : List Char) :
    ∃ t, Text.trim (c :: cs) = c :: t := by
  obtain ⟨⟨u, v, htext, hu, hv⟩, -, -⟩ := Locate.trimmed_trim (c :: cs)
  have hblank : ∀ b : List Char, Locate.Blank b → c ∉ b := by
    intro b hb hmem
    rw [hb c hmem] at hc
    cases hc
  cases u with
  | cons d u =>
    obtain ⟨rfl, -⟩ := List.cons.inj htext
    exact absurd List.mem_cons_self (hblank _ hu)
  | nil =>
    cases hcore : Text.trim (c :: cs) with
    | nil =>
      rw [hcore, List.nil_append, List.nil_append] at htext
      exact absurd (htext ▸ List.mem_cons_self) (hblank v hv)
    | cons d t =>
      rw [hcore] at htext
      exact ⟨t, by rw [(List.cons.inj htext).1]⟩

theorem heading?_eq {heading : String} {s : List Char} (hne : heading.toList ≠ [])
    (hh : Text.trim heading.toList = heading.toList) (hs : Text.trim s = s) (n : ℕ) :
    heading? heading (n, heading.toList ++ ' ' :: s) = some s := by
  obtain ⟨t, ht, hts⟩ := trim_heading hne hh hs
  rw [heading?, ht, Text.after?, if_pos (List.isPrefixOf_iff_prefix.2 (List.prefix_append _ _)),
    List.drop_left, Option.map_some, hts]

theorem heading?_eq_none {heading : String} {row : Row}
    (h : ¬ heading.toList <+: Text.trim row.2) : heading? heading row = none := by
  rw [heading?, Text.after?, if_neg fun hbegins => h (List.isPrefixOf_iff_prefix.1 hbegins)]
  rfl

/-! ## Settings -/

theorem names_space (cs : List Char) : names (' ' :: cs) = names cs := by
  obtain ⟨p, ps, hp⟩ : ∃ p ps, Text.pieces ',' cs = p :: ps := by
    cases cs with
    | nil => exact ⟨[], [], rfl⟩
    | cons c cs => exact List.exists_cons_of_ne_nil (Text.prepend_ne_nil ',' c _)
  have hpieces : Text.pieces ',' (' ' :: cs) = (' ' :: p) :: ps := by
    show Text.prepend ',' ' ' (Text.pieces ',' cs) = _
    rw [hp]
    rfl
  rw [names, names, hpieces, hp, List.map_cons, List.map_cons, trim_space]

theorem names_of_pieces {cs g : List Char} {ps : List (List Char)}
    (hcs : Text.pieces ',' cs = g :: ps) (hg : Text.trim g = g) (hne : g ≠ []) :
    names cs = String.ofList g ::
      ((ps.map Text.trim).filter (· ≠ [])).map String.ofList := by
  rw [names, hcs, List.map_cons, hg, List.filter_cons_of_pos (by simpa using hne), List.map_cons]

/-- The names in a list are read off it. -/
theorem names_intercalate {gs : List String}
    (h : ∀ g ∈ gs, IsRow g ∧ g ≠ "" ∧ ',' ∉ g.toList) :
    names (", ".intercalate gs).toList = gs := by
  induction gs with
  | nil => rfl
  | cons g gs ih =>
    obtain ⟨hrow, hne, hcomma⟩ := h g List.mem_cons_self
    have hne : g.toList ≠ [] := by simpa using hne
    cases gs with
    | nil =>
      rw [String.intercalate_singleton,
        names_of_pieces (Text.pieces_of_not_mem hcomma) hrow.trim hne]
      simp
    | cons g' gs =>
      have hrest := ih fun x hx => h x (List.mem_cons_of_mem g hx)
      have htext : (", ".intercalate (g :: g' :: gs)).toList =
          g.toList ++ ',' :: ' ' :: (", ".intercalate (g' :: gs)).toList := by
        rw [String.intercalate_cons_cons, String.toList_append, String.toList_append,
          List.append_assoc]
        rfl
      rw [htext, names_of_pieces (Text.pieces_append hcomma _) hrow.trim hne, String.ofList_toList]
      have hspace := names_space (", ".intercalate (g' :: gs)).toList
      rw [hrest] at hspace
      exact congrArg (g :: ·) hspace

theorem isRow_intercalate {gs : List String} (h : ∀ g ∈ gs, IsRow g ∧ g ≠ "") :
    IsRow (", ".intercalate gs) := by
  rw [isRow_iff]
  induction gs with
  | nil => exact ⟨nofun, nofun, nofun⟩
  | cons g gs ih =>
    obtain ⟨hrow, hne⟩ := h g List.mem_cons_self
    obtain ⟨hhead, hlast, hbreak⟩ := isRow_iff.1 hrow
    have hne : g.toList ≠ [] := by simpa using hne
    cases gs with
    | nil =>
      rw [String.intercalate_singleton]
      exact ⟨hhead, hlast, hbreak⟩
    | cons g' gs =>
      obtain ⟨-, hlast', hbreak'⟩ := ih fun x hx => h x (List.mem_cons_of_mem g hx)
      have hne' : (", ".intercalate (g' :: gs)).toList ≠ [] := by
        have hg' := (h g' (by simp)).2
        cases gs <;> simp [String.intercalate_cons_cons, hg']
      rw [String.intercalate_cons_cons, String.toList_append, String.toList_append,
        List.append_assoc, List.head?_append_of_ne_nil _ hne, ← List.append_assoc,
        List.getLast?_append_of_ne_nil _ hne', List.mem_append, List.mem_append]
      exact ⟨hhead, hlast', not_or.2 ⟨not_or.2 ⟨hbreak, by decide +kernel⟩, hbreak'⟩⟩

theorem set_globals {gs : List String} (h : ∀ g ∈ gs, IsRow g ∧ g ≠ "" ∧ ',' ∉ g.toList)
    (f : Fixture) (n : ℕ) : f.set (n, ("# globals: " ++ ", ".intercalate gs).toList) =
      { f with globals := f.globals ++ gs } := by
  have htrim := (isRow_intercalate fun g hg => ⟨(h g hg).1, (h g hg).2.1⟩).trim
  have hheading : heading? "# globals:" (n, ("# globals: " ++ ", ".intercalate gs).toList) =
      some (", ".intercalate gs).toList :=
    String.toList_append ▸ heading?_eq (by decide +kernel) (by decide +kernel) htrim n
  rw [set, hheading]
  dsimp only
  rw [names_intercalate h]

theorem set_syntaxOnly (f : Fixture) (n : ℕ) :
    f.set (n, "# syntax-only".toList) = { f with syntaxOnly := true } := by
  rfl

theorem set_skip {reason : String} (h : IsRow reason) (f : Fixture) (n : ℕ) :
    f.set (n, ("# skip: " ++ reason).toList) = { f with skip := some reason } := by
  have htext : ("# skip: " ++ reason).toList = "# skip:".toList ++ ' ' :: reason.toList :=
    String.toList_append
  have hne : "# skip:".toList ≠ [] := by decide +kernel
  have hself : Text.trim "# skip:".toList = "# skip:".toList := by decide +kernel
  obtain ⟨t, ht, -⟩ := trim_heading hne hself h.trim
  have hglobals : heading? "# globals:" (n, "# skip:".toList ++ ' ' :: reason.toList) = none := by
    refine heading?_eq_none ?_
    rw [ht]
    simp
  have honly : isMark "# syntax-only".toList (n, "# skip:".toList ++ ' ' :: reason.toList) =
      false := by
    rw [isMark, ht]
    simp
  rw [set, htext, hglobals]
  dsimp only
  rw [honly, heading?_eq hne hself h.trim]
  simp

theorem number_append (n : ℕ) (a b : List (List Char)) :
    number n (a ++ b) = number n a ++ number (n + a.length) b := by
  induction a generalizing n with
  | nil => rfl
  | cons r a ih =>
    rw [List.cons_append, number, number, ih, List.cons_append, List.length_cons]
    congr 3
    omega

theorem map_snd_number (n : ℕ) (a : List (List Char)) : (number n a).map Prod.snd = a := by
  induction a generalizing n with
  | nil => rfl
  | cons r a ih => rw [number, List.map_cons, ih]

theorem mem_of_mem_number {n : ℕ} {a : List (List Char)} {row : Row} (h : row ∈ number n a) :
    row.2 ∈ a := by
  have hmem := List.mem_map_of_mem (f := Prod.snd) h
  rwa [map_snd_number] at hmem

/-- **The settings of a fixture are read off their rows.** -/
theorem foldl_set_settingRows {f : Fixture} (h : f.Writable) (name : String) (line n : ℕ) :
    (number n (f.settingRows.map String.toList)).foldl set { name := name, line := line } =
      { name := name, line := line, globals := f.globals, syntaxOnly := f.syntaxOnly,
        skip := f.skip } := by
  have hglobals : ∀ (g : Fixture) (n : ℕ), (number n ((if f.globals = [] then [] else
      ["# globals: " ++ ", ".intercalate f.globals]).map String.toList)).foldl set g =
        { g with globals := g.globals ++ f.globals } := by
    intro g n
    split
    · next hnil => rw [hnil, List.append_nil]; rfl
    · exact set_globals h.globals g n
  have honly : ∀ (g : Fixture) (n : ℕ), (number n ((if f.syntaxOnly then ["# syntax-only"]
      else []).map String.toList)).foldl set g =
        { g with syntaxOnly := f.syntaxOnly || g.syntaxOnly } := by
    intro g n
    cases f.syntaxOnly with
    | true => exact set_syntaxOnly g n
    | false => rfl
  have hskip : ∀ (g : Fixture) (n : ℕ), (number n ((f.skip.toList.map
      ("# skip: " ++ ·)).map String.toList)).foldl set g = { g with skip := f.skip.or g.skip } := by
    intro g n
    cases hf : f.skip with
    | none => rfl
    | some reason => exact set_skip (h.skip reason hf) g n
  rw [settingRows, List.map_append, List.map_append, number_append, number_append,
    List.foldl_append, List.foldl_append, hglobals, honly, hskip, Bool.or_false, Option.or_none]
  rfl

/-! ## Sections -/

/-- A section ends at the first row that is its mark. -/
theorem cut_number {mark m : List Char} {a : List (List Char)} (ha : ∀ r ∈ a, Text.trim r ≠ mark)
    (hm : Text.trim m = mark) (n : ℕ) (b : List (List Char)) :
    cut mark (number n (a ++ m :: b)) = (number n a, number (n + a.length + 1) b) := by
  have hpass : ∀ row ∈ number n a, (!isMark mark row) = true := by
    intro row hrow
    simpa [isMark] using ha row.2 (mem_of_mem_number hrow)
  have hmark : isMark mark (n + a.length, m) = true := by simpa [isMark] using hm
  rw [cut, number_append, number, List.takeWhile_append_of_pos hpass,
    List.dropWhile_append_of_pos hpass]
  simp [hmark]

/-- A row of settings begins with a hash, so it is no rule. -/
theorem trim_settingRows_ne {f : Fixture} :
    ∀ r ∈ f.settingRows.map String.toList, Text.trim r ≠ rule := by
  intro r hr
  obtain ⟨row, hrow, rfl⟩ := List.mem_map.1 hr
  have hhash : ∃ t, row.toList = '#' :: t := by
    rw [settingRows, List.mem_append, List.mem_append] at hrow
    rcases hrow with hrow | hrow | hrow
    · split at hrow
      · cases hrow
      · rw [List.mem_singleton.1 hrow, String.toList_append]
        exact ⟨_, rfl⟩
    · split at hrow
      · rw [List.mem_singleton.1 hrow]
        exact ⟨_, rfl⟩
      · cases hrow
    · obtain ⟨reason, -, rfl⟩ := List.mem_map.1 hrow
      rw [String.toList_append]
      exact ⟨_, rfl⟩
  obtain ⟨t, ht⟩ := hhash
  obtain ⟨t', ht'⟩ := trim_of_head (c := '#') (by decide) t
  rw [ht, ht']
  intro heq
  cases heq

theorem expectations_number {es : List String} (h : ∀ e ∈ es, IsRow e ∧ e ≠ "") (n : ℕ) :
    expectations (number n (es.map String.toList)) = es := by
  have htrim : (number n (es.map String.toList)).map (fun r => Text.trim r.2) =
      es.map String.toList := by
    calc (number n (es.map String.toList)).map (fun r => Text.trim r.2)
        = ((number n (es.map String.toList)).map Prod.snd).map Text.trim := by
          rw [List.map_map]
          rfl
      _ = (es.map String.toList).map Text.trim := by rw [map_snd_number]
      _ = es.map String.toList := by
          rw [List.map_map]
          exact List.map_congr_left fun e he => (h e he).1.trim
  rw [expectations, htrim, List.filter_eq_self.2, List.map_map]
  · simp
  · intro r hr
    obtain ⟨e, he, rfl⟩ := List.mem_map.1 hr
    simpa using (h e he).2

theorem read_sections {f : Fixture} (h : f.Writable) (line n : ℕ) (rest : List (List Char)) :
    read f.name.toList line (number n (f.settingRows.map String.toList ++
      rule :: (Text.lines f.input.toList ++ rule :: (f.expected.map String.toList ++
        closing :: rest)))) =
      ({ f with line := line }, number (n + f.settingRows.length + 1 +
        (Text.lines f.input.toList).length + 1 + f.expected.length + 1) rest) := by
  have hinput : ∀ l ∈ Text.lines f.input.toList, Text.trim l ≠ rule := by
    intro l hl hrule
    refine (h.input (String.ofList l) (List.mem_map_of_mem hl)).1 ?_
    rw [Text.trimString, String.toList_ofList, hrule]
    rfl
  have hexpected : ∀ e ∈ f.expected.map String.toList, Text.trim e ≠ closing := by
    intro r hr hclosing
    obtain ⟨e, he, rfl⟩ := List.mem_map.1 hr
    obtain ⟨hrow, -, hne⟩ := h.expected e he
    rw [hrow.trim] at hclosing
    exact hne (String.toList_inj.1 hclosing)
  have hrule : Text.trim rule = rule := by decide
  have hclosing : Text.trim closing = closing := by decide
  have hlines : String.ofList (Text.joinLines (Text.lines f.input.toList)) = f.input := by
    rw [Text.joinLines_lines, String.ofList_toList]
  rw [read, cut_number trim_settingRows_ne hrule]
  dsimp only
  rw [cut_number hinput hrule]
  dsimp only
  rw [cut_number hexpected hclosing]
  dsimp only
  rw [foldl_set_settingRows h, map_snd_number, hlines, String.ofList_toList,
    expectations_number fun e he => ⟨(h.expected e he).1, (h.expected e he).2.1⟩,
    List.length_map, List.length_map]

/-- **A fixture is read off its rows**, whatever rows follow them. -/
theorem parseRows_written {f : Fixture} (h : f.Writable) (n : ℕ) (rest : List (List Char)) :
    parseRows (number n (f.written.map String.toList ++ rest)) =
      { f with line := n } :: parseRows (number (n + f.written.length) rest) := by
  have hinput : (Text.linesOf f.input).map String.toList = Text.lines f.input.toList := by
    rw [Text.linesOf, List.map_map]
    simp
  have hheading : heading? "# test:" (n, ("# test: " ++ f.name).toList) = some f.name.toList :=
    String.toList_append ▸ heading?_eq (by decide +kernel) (by decide +kernel) h.name.trim n
  have hrows : f.written.map String.toList ++ rest = ("# test: " ++ f.name).toList ::
      (f.settingRows.map String.toList ++ rule :: (Text.lines f.input.toList ++
        rule :: (f.expected.map String.toList ++ closing :: rest))) := by
    simp only [written, List.map_cons, List.map_append, List.map_nil, List.cons_append,
      List.append_assoc, List.nil_append, hinput]
    rfl
  have hlength : f.written.length = 1 + f.settingRows.length + 1 +
      (Text.lines f.input.toList).length + 1 + f.expected.length + 1 := by
    rw [← hinput, List.length_map]
    simp only [written, List.length_cons, List.length_append, List.length_nil]
    omega
  rw [hrows, number, parseRows, hheading]
  dsimp only
  rw [read_sections h, hlength]
  dsimp only
  congr 3
  omega

/-- Remarks are passed over. -/
theorem parseRows_remarks {a : List (List Char)}
    (ha : ∀ r ∈ a, ¬ "# test:".toList <+: Text.trim r) (n : ℕ) (rest : List (List Char)) :
    parseRows (number n (a ++ rest)) = parseRows (number (n + a.length) rest) := by
  induction a generalizing n with
  | nil => rfl
  | cons r a ih =>
    obtain ⟨hr, ha⟩ := List.forall_mem_cons.1 ha
    have hnone : heading? "# test:" (n, r) = none := heading?_eq_none hr
    rw [List.cons_append, number, parseRows, hnone]
    dsimp only
    rw [ih ha, List.length_cons]
    congr 2
    omega

end Fixture

/-! ## Rows of a text -/

namespace Text

/-- Rows that are written, and the rows that are read of their text. A row loses the carriage return
at its end, but not the last one if no line break follows it; that one is not read at all if it is
empty. -/
inductive Taken : List (List Char) → List (List Char) → Prop
  | nil : Taken [] []
  | cons {l : List Char} {ls rs : List (List Char)} (h : Taken ls rs) :
      Taken (l :: ls) (dropReturn l :: rs)
  | last {l : List Char} (hne : l ≠ []) : Taken [l] [l]
  | blank : Taken [[]] []

variable {l : List Char} {a b ls rs : List (List Char)}

theorem taken_rowsOf (ls : List (List Char)) : Taken ls (rowsOf ls) := by
  induction ls with
  | nil => exact .nil
  | cons l ls ih =>
    cases ls with
    | nil =>
      rw [rowsOf]
      split
      · next hnil => rw [hnil]; exact .blank
      · next hne => exact .last hne
    | cons l' ls => exact .cons ih

theorem taken_rowsOf_closed (ls : List (List Char)) : Taken ls (rowsOf (ls ++ [[]])) := by
  induction ls with
  | nil => exact .nil
  | cons l ls ih =>
    have hrows : rowsOf (l :: ls ++ [[]]) = dropReturn l :: rowsOf (ls ++ [[]]) := by
      cases ls <;> rfl
    rw [hrows]
    exact .cons ih

theorem lines_closed (h : ∀ l ∈ ls, '\n' ∉ l) :
    lines (ls.flatMap (· ++ ['\n'])) = ls ++ [[]] := by
  induction ls with
  | nil => rfl
  | cons l ls ih =>
    obtain ⟨hl, hls⟩ := List.forall_mem_cons.1 h
    rw [List.flatMap_cons, List.append_assoc, List.singleton_append, lines, pieces_append hl]
    exact congrArg (l :: ·) (ih hls)

theorem lines_intercalate (hne : ls ≠ []) (h : ∀ l ∈ ls, '\n' ∉ l) :
    lines (['\n'].intercalate ls) = ls := by
  induction ls with
  | nil => exact absurd rfl hne
  | cons l ls ih =>
    obtain ⟨hl, hls⟩ := List.forall_mem_cons.1 h
    cases ls with
    | nil =>
      rw [List.intercalate_singleton]
      exact pieces_of_not_mem hl
    | cons l' ls =>
      rw [List.intercalate_cons_cons, List.append_assoc, List.singleton_append, lines,
        pieces_append hl]
      exact congrArg (l :: ·) (ih nofun hls)

theorem Taken.append (h : Taken (a ++ b) rs) (hb : b ≠ []) :
    ∃ rs', rs = a.map dropReturn ++ rs' ∧ Taken b rs' := by
  induction a generalizing rs with
  | nil => exact ⟨rs, rfl, h⟩
  | cons c a ih =>
    generalize hrows : c :: a ++ b = rows at h
    cases h with
    | nil => cases hrows
    | cons h =>
      obtain ⟨rfl, rfl⟩ := List.cons.inj hrows
      obtain ⟨rs', rfl, hrest⟩ := ih h
      exact ⟨rs', rfl, hrest⟩
    | last _ => simp [hb] at hrows
    | blank => simp [hb] at hrows

/-- Rows without a carriage return at the end are read as they are, up to one that is not empty. -/
theorem Taken.split (h : Taken (a ++ l :: b) rs) (ha : ∀ r ∈ a ++ [l], r.getLast? ≠ some '\r')
    (hne : l ≠ []) : ∃ rs', rs = a ++ l :: rs' ∧ Taken b rs' := by
  have hself : ∀ r ∈ a ++ [l], dropReturn r = r := fun r hr => if_neg (ha r hr)
  obtain ⟨rs', rfl, hrest⟩ := h.append (List.cons_ne_nil l b)
  have hmap : a.map dropReturn = a.map id :=
    List.map_congr_left fun r hr => hself r (List.mem_append_left _ hr)
  rw [hmap, List.map_id]
  cases hrest with
  | cons hrest => exact ⟨_, by rw [hself l (by simp)], hrest⟩
  | last _ => exact ⟨[], rfl, .nil⟩
  | blank => exact absurd rfl hne

theorem trim_dropReturn (l : List Char) : trim (dropReturn l) = trim l := by
  rw [dropReturn]
  split
  · next hlast =>
    obtain ⟨⟨u, v, htext, hu, hv⟩, hhead, hend⟩ := Locate.trimmed_trim l.dropLast
    refine Locate.Trimmed.eq_trim ⟨⟨u, v ++ ['\r'], ?_, hu, ?_⟩, hhead, hend⟩
    · rw [← List.append_assoc, ← List.append_assoc, List.append_assoc u, ← htext]
      exact (List.dropLast_append_getLast? _ hlast).symm
    · exact List.forall_mem_append.2 ⟨hv, List.forall_mem_singleton.2 rfl⟩
  · rfl

/-- What is read of a row is the row, blanks aside. -/
theorem Taken.exists_trim (h : Taken ls rs) {r : List Char} (hr : r ∈ rs) :
    ∃ l ∈ ls, trim r = trim l := by
  induction h with
  | nil => cases hr
  | @cons l ls rs _ ih =>
    rcases List.mem_cons.1 hr with rfl | hr
    · exact ⟨l, List.mem_cons_self, trim_dropReturn l⟩
    · obtain ⟨l', hl', htrim⟩ := ih hr
      exact ⟨l', List.mem_cons_of_mem _ hl', htrim⟩
  | @last l _ =>
    rw [List.mem_singleton.1 hr]
    exact ⟨l, List.mem_cons_self, rfl⟩
  | blank => cases hr

end Text

namespace Fixture

/-! ## Files -/

theorem IsRow.last {s : String} (h : IsRow s) : s.toList.getLast? ≠ some '\r' := by
  intro hlast
  have hblank := (trim_eq_iff.1 h.trim).2 '\r' hlast
  revert hblank
  decide

/-- A row behind a heading is written without a break and without a carriage return at its end. -/
theorem row_heading {heading s : String} (hs : IsRow s) (hbreak : '\n' ∉ heading.toList)
    (hlast : heading.toList.getLast? = some ' ') :
    '\n' ∉ (heading ++ s).toList ∧ (heading ++ s).toList.getLast? ≠ some '\r' := by
  rw [String.toList_append]
  refine ⟨fun hmem => (List.mem_append.1 hmem).elim hbreak hs.2, ?_⟩
  rcases eq_or_ne s.toList [] with hnil | hne
  · rw [hnil, List.append_nil, hlast]
    decide
  · rw [List.getLast?_append_of_ne_nil _ hne]
    exact hs.last

theorem row_settingRows {f : Fixture} (h : f.Writable) :
    ∀ r ∈ f.settingRows, '\n' ∉ r.toList ∧ r.toList.getLast? ≠ some '\r' := by
  intro r hr
  rw [settingRows, List.mem_append, List.mem_append] at hr
  rcases hr with hr | hr | hr
  · split at hr
    · cases hr
    · rw [List.mem_singleton.1 hr]
      exact row_heading (isRow_intercalate fun g hg => ⟨(h.globals g hg).1, (h.globals g hg).2.1⟩)
        (by decide +kernel) (by decide +kernel)
  · split at hr
    · rw [List.mem_singleton.1 hr]
      decide +kernel
    · cases hr
  · obtain ⟨reason, hreason, rfl⟩ := List.mem_map.1 hr
    exact row_heading (h.skip reason (Option.mem_toList.1 hreason)) (by decide +kernel)
      (by decide +kernel)

theorem row_written {f : Fixture} (h : f.Writable) :
    ∀ r ∈ f.written, '\n' ∉ r.toList ∧ r.toList.getLast? ≠ some '\r' := by
  have hrule : '\n' ∉ "---".toList ∧ "---".toList.getLast? ≠ some '\r' := by decide +kernel
  have hclosing : '\n' ∉ "===".toList ∧ "===".toList.getLast? ≠ some '\r' := by decide +kernel
  simp only [written, List.forall_mem_cons, List.forall_mem_append]
  refine ⟨row_heading h.name (by decide +kernel) (by decide +kernel), row_settingRows h, hrule,
    fun r hr => ⟨?_, (h.input r hr).2⟩, hrule,
    fun r hr => ⟨(h.expected r hr).1.2, (h.expected r hr).1.last⟩, hclosing, nofun⟩
  obtain ⟨l, hl, rfl⟩ := List.mem_map.1 hr
  rw [String.toList_ofList]
  exact Text.not_mem_of_mem_lines _ hl

theorem fileRows_append (front : List String) (before : List (Fixture × List String))
    (x : Fixture × List String) (rest : List (Fixture × List String)) :
    fileRows front (before ++ x :: rest) =
      fileRows front before ++ (x.1.written ++ fileRows x.2 rest) := by
  induction before generalizing front with
  | nil => rfl
  | cons y before ih =>
    rw [List.cons_append, fileRows, fileRows, ih, List.append_assoc, List.append_assoc]

theorem not_mem_fileRows {front : List String} {cases : List (Fixture × List String)}
    (hfront : ∀ r ∈ front, IsRemark r)
    (hcases : ∀ x ∈ cases, x.1.Writable ∧ ∀ r ∈ x.2, IsRemark r) :
    ∀ r ∈ fileRows front cases, '\n' ∉ r.toList := by
  induction cases generalizing front with
  | nil => exact fun r hr => (hfront r hr).1
  | cons x rest ih =>
    obtain ⟨⟨hx, hbehind⟩, hrest⟩ := List.forall_mem_cons.1 hcases
    rw [fileRows, List.forall_mem_append, List.forall_mem_append]
    exact ⟨fun r hr => (hfront r hr).1, fun r hr => (row_written hx r hr).1, ih hbehind hrest⟩

/-- The lines of a file are its rows; one without characters follows a line break at the end. -/
theorem lines_fileText {rows : List String} (h : ∀ r ∈ rows, '\n' ∉ r.toList) (closed : Bool) :
    ∃ tail, Text.lines (fileText rows closed).toList = rows.map String.toList ++ tail ∧
      (tail = [] ∨ tail = [[]]) := by
  have hrows : ∀ l ∈ rows.map String.toList, '\n' ∉ l := List.forall_mem_map.2 h
  cases closed with
  | true =>
    refine ⟨[[]], ?_, .inr rfl⟩
    rw [← Text.lines_closed hrows]
    simp [fileText, Function.comp_def, List.flatMap_def]
  | false =>
    rw [fileText, if_neg Bool.false_ne_true, String.toList_intercalate]
    rcases eq_or_ne rows [] with rfl | hne
    · exact ⟨[[]], rfl, .inr rfl⟩
    · refine ⟨[], ?_, .inl rfl⟩
      rw [List.append_nil]
      exact Text.lines_intercalate (by simpa using hne) hrows

theorem remarks_of_trim {a : List String} {rs : List (List Char)} (ha : ∀ r ∈ a, IsRemark r)
    (h : ∀ r ∈ rs, ∃ l ∈ a.map String.toList, Text.trim r = Text.trim l) :
    ∀ r ∈ rs, ¬ "# test:".toList <+: Text.trim r := by
  intro r hr
  obtain ⟨l, hl, htrim⟩ := h r hr
  obtain ⟨row, hrow, rfl⟩ := List.mem_map.1 hl
  rw [htrim]
  exact (ha row hrow).2

/-- The rows of a fixture are read as they are, whatever follows them. -/
theorem taken_written {f : Fixture} (h : f.Writable) {b rs : List (List Char)}
    (htaken : Text.Taken (f.written.map String.toList ++ b) rs) :
    ∃ rs', rs = f.written.map String.toList ++ rs' ∧ Text.Taken b rs' := by
  obtain ⟨a, ha⟩ : ∃ a, f.written.map String.toList = a ++ [closing] :=
    ⟨(("# test: " ++ f.name) :: (f.settingRows ++
      "---" :: (Text.linesOf f.input ++ "---" :: f.expected))).map String.toList, by
        simp [written, closing]⟩
  have hlast : ∀ r ∈ a ++ [closing], r.getLast? ≠ some '\r' := by
    rw [← ha, List.forall_mem_map]
    exact fun r hr => (row_written h r hr).2
  rw [ha, List.append_assoc] at htaken
  obtain ⟨rs', rfl, hrest⟩ := htaken.split hlast (List.cons_ne_nil _ _)
  exact ⟨rs', by rw [ha, List.append_assoc]; rfl, hrest⟩

/-- What is read of the rows of a file. The induction is on the fixtures: the remarks in front are
passed over, the first fixture is read off its own rows, and the remarks behind it stand in front of
the others. -/
theorem parseRows_taken {front : List String} {cases : List (Fixture × List String)}
    {rs : List (List Char)} (hfront : ∀ r ∈ front, IsRemark r)
    (hcases : ∀ x ∈ cases, x.1.Writable ∧ ∀ r ∈ x.2, IsRemark r)
    (h : Text.Taken ((fileRows front cases).map String.toList) rs) (n : ℕ) :
    parseRows (number n rs) = cases.mapIdx fun k x =>
      { x.1 with line := n + (fileRows front (cases.take k)).length } := by
  induction cases generalizing front rs n with
  | nil =>
    have hremarks := remarks_of_trim hfront fun r hr => h.exists_trim hr
    rw [← List.append_nil rs, parseRows_remarks hremarks, number, parseRows, List.mapIdx_nil]
  | cons x rest ih =>
    obtain ⟨⟨hx, hbehind⟩, hrest⟩ := List.forall_mem_cons.1 hcases
    rw [fileRows, List.map_append, List.map_append] at h
    obtain ⟨rs, rfl, hrows⟩ := h.append (by simp [written])
    obtain ⟨rs, rfl, htail⟩ := taken_written hx hrows
    have hremarks : ∀ r ∈ (front.map String.toList).map Text.dropReturn,
        ¬ "# test:".toList <+: Text.trim r := by
      refine remarks_of_trim hfront (List.forall_mem_map.2 fun l hl => ?_)
      exact ⟨l, hl, Text.trim_dropReturn l⟩
    rw [parseRows_remarks hremarks, parseRows_written hx, ih hbehind hrest htail, List.mapIdx_cons,
      List.length_map, List.length_map]
    congr 1
    refine congrArg (List.mapIdx · rest) (funext₂ fun k y => ?_)
    rw [List.take_succ_cons, fileRows, List.length_append, List.length_append, Nat.add_assoc,
      Nat.add_assoc]

theorem heading_fileRows (front : List String) {cases : List (Fixture × List String)} {k : ℕ}
    {x : Fixture × List String} (h : cases[k]? = some x) :
    (fileRows front cases)[(fileRows front (cases.take k)).length]? =
      some ("# test: " ++ x.1.name) := by
  have hsplit : fileRows front cases = fileRows front (cases.take k) ++
      (x.1.written ++ fileRows x.2 (cases.drop (k + 1))) := by
    obtain ⟨hk, rfl⟩ := List.getElem?_eq_some_iff.1 h
    rw [← fileRows_append, List.getElem_cons_drop, List.take_append_drop]
  rw [hsplit, List.getElem?_append_right (Nat.le_refl _), Nat.sub_self]
  rfl

/-- **Writing and reading fixtures is lossless.** Whatever remarks stand in front of the fixtures,
between and behind them, with or without a line break at the end of the file, the fixtures are read
back in order, each as it was and with the number of the line that holds its heading. -/
theorem parse_fileText (front : List String) (cases : List (Fixture × List String)) (closed : Bool)
    (hfront : ∀ r ∈ front, IsRemark r)
    (hcases : ∀ x ∈ cases, x.1.Writable ∧ ∀ r ∈ x.2, IsRemark r) :
    parse (fileText (fileRows front cases) closed) = cases.mapIdx (fun k x =>
        { x.1 with line := (fileRows front (cases.take k)).length + 1 }) ∧
      ∀ k x, cases[k]? = some x →
        (Text.linesOf (fileText (fileRows front cases) closed))[
          (fileRows front (cases.take k)).length]? = some ("# test: " ++ x.1.name) := by
  obtain ⟨tail, hlines, htail⟩ := lines_fileText (not_mem_fileRows hfront hcases) closed
  constructor
  · have htaken : Text.Taken ((fileRows front cases).map String.toList)
        (Text.rows (fileText (fileRows front cases) closed).toList) := by
      rw [Text.rows, hlines]
      rcases htail with rfl | rfl
      · rw [List.append_nil]
        exact Text.taken_rowsOf _
      · exact Text.taken_rowsOf_closed _
    rw [parse, parseRows_taken hfront hcases htaken]
    refine congrArg (List.mapIdx · cases) (funext₂ fun k x => ?_)
    rw [Nat.add_comm]
  · intro k x hx
    have hheading := heading_fileRows front hx
    have hlt := (List.getElem?_eq_some_iff.1 hheading).1
    rw [Text.linesOf, hlines, List.map_append, List.getElem?_append_left (by simpa using hlt)]
    simpa using hheading

/-- A script with headings and a closing row in it, expected diagnostics that look like a rule and
a heading, a remark that looks like a setting, and a fixture with nothing in it. -/
theorem parse_fileText_imitations :
    parse ("about\n# test: a b\n# globals: x, y z\n# syntax-only\n# skip: later\n---\n" ++
        "# test: c\n===\n# skip: no\n---\n---\n# test: d\n===\n\n# skip: no\r\n" ++
        "# test: \n---\n\n---\n===\n---") =
      [{ name := "a b", line := 2, input := "# test: c\n===\n# skip: no",
         expected := ["---", "# test: d"], globals := ["x", "y z"], syntaxOnly := true,
         skip := some "later" }, { name := "", line := 16 }] := by
  have h := parse_fileText ["about"]
    [({ name := "a b", line := 0, input := "# test: c\n===\n# skip: no",
        expected := ["---", "# test: d"], globals := ["x", "y z"], syntaxOnly := true,
        skip := some "later" }, ["", "# skip: no\r"]), ({ name := "", line := 0 }, ["---"])] false
    (by decide +kernel) (by decide +kernel)
  exact h.1

end Fixture

end ScriptLint
