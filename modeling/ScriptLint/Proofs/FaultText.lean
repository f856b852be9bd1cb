import Mathlib
import ScriptLint.Diagnose
import ScriptLint.Proofs.LineIndex
import ScriptLint.Proofs.Location

/-!
# Faults told by their text

A fault reaches its diagnostic as text, with its place written behind its message. What the message
quotes comes from the script, so the place that is read back need not be the one that was written.

* `Reported`: the causes that a text can have; `known_scan`, `reported_of_parseSource`: every
  fault has one of these.
* `Cause.QuotesLocation`: the cause quotes a string literal with a location in it.
* `Reported.findLocation_message`: no other message has a location in it. Identifiers, numbers and
  symbols are spelled without blanks, which every location has.
* `diagnose_fault_iff`: **the place and the message of a fault survive exactly if its message does
  not quote a location**, and what is reported if it does.
-/

namespace ScriptLint

open Locate

/-! ## Texts without blanks -/

/-- No character of the text is blank. -/
def Visible (cs : List Char) : Prop :=
  ∀ c ∈ cs, Text.isBlank c = false

instance (cs : List Char) : Decidable (Visible cs) :=
  List.decidableBAll (fun c => Text.isBlank c = false) cs

theorem Visible.append {cs ds : List Char} (hcs : Visible cs) (hds : Visible ds) :
    Visible (cs ++ ds) := by
  intro c hc
  rcases List.mem_append.1 hc with hc | hc
  · exact hcs c hc
  · exact hds c hc

theorem visible_of_isDigit {cs : List Char} (h : ∀ c ∈ cs, c.isDigit = true) : Visible cs :=
  fun c hc => isBlank_of_isDigit (h c hc)

theorem visible_toDigits (n : ℕ) : Visible (Nat.toDigits 10 n) :=
  visible_of_isDigit fun _ => isDigit_of_mem_toDigits

theorem visible_zeros (n : ℕ) : Visible (List.replicate n '0') :=
  visible_of_isDigit fun _ hc => List.eq_of_mem_replicate hc ▸ rfl

theorem visible_withPoint {digits : List Char} (h : Visible digits) (places : ℕ) :
    Visible (Binary64.withPoint digits places).toList := by
  have hpadded := (visible_zeros (places + 1 - digits.length)).append h
  have hpoint : Visible ['.'] := by decide
  rw [Binary64.withPoint, String.toList_ofList]
  refine Visible.append (fun c hc => hpadded c (List.mem_of_mem_take hc)) ?_
  exact hpoint.append fun c hc => hpadded c (List.mem_of_mem_drop hc)

theorem visible_positional (x : Binary64) : Visible x.positional.toList := by
  unfold Binary64.positional
  split
  · rw [String.toList_append]
    refine Visible.append ?_ ?_
    · unfold Binary64.sign
      split <;> decide
    · split
      · rw [String.toList_ofList]
        exact (visible_toDigits _).append (visible_zeros _)
      · exact visible_withPoint (visible_toDigits _) _
  · unfold Binary64.special
    split
    · split <;> decide
    · decide

theorem isBlank_of_between {a b c : Char} (ha : 32 < a.toNat) (hb : b.toNat < 128)
    (hlow : a.val ≤ c.val) (hhigh : c.val ≤ b.val) : Text.isBlank c = false :=
  isBlank_eq_false (Nat.lt_of_lt_of_le ha (UInt32.le_iff_toNat_le.1 hlow))
    (Nat.lt_of_le_of_lt (UInt32.le_iff_toNat_le.1 hhigh) hb)

theorem isBlank_of_isAlpha {c : Char} (h : c.isAlpha = true) : Text.isBlank c = false := by
  rcases Bool.or_eq_true_iff.1 h with hupper | hlower
  · obtain ⟨hlow, hhigh⟩ : 'A'.val ≤ c.val ∧ c.val ≤ 'Z'.val := of_decide_eq_true hupper
    exact isBlank_of_between (by decide) (by decide) hlow hhigh
  · obtain ⟨hlow, hhigh⟩ := Bool.and_eq_true_iff.1 hlower
    exact isBlank_of_between (by decide) (by decide) (of_decide_eq_true hlow)
      (of_decide_eq_true hhigh)

theorem isBlank_of_isWordChar {c : Char} (h : Token.isWordChar c = true) :
    Text.isBlank c = false := by
  rcases Bool.or_eq_true_iff.1 h with halphanum | hunderscore
  · rcases Bool.or_eq_true_iff.1 halphanum with halpha | hdigit
    · exact isBlank_of_isAlpha halpha
    · exact isBlank_of_isDigit hdigit
  · rw [of_decide_eq_true hunderscore]
    decide

/-! ## What pieces of a text say -/

/-- A token whose spelling has no blanks, unless it is a string literal. -/
def Token.Plain (t : Token) : Prop :=
  (∃ content, t = .str content) ∨ Visible t.spelling.toList

/-- The causes that a text can have, with what is known of their parts. -/
inductive Reported : Cause → Prop
  | unterminatedString : Reported .unterminatedString
  | invalidNumber {digits : List Char} (h : ∀ c ∈ digits, c.isDigit = true) :
      Reported (.invalidNumber (String.ofList digits))
  | unexpectedCharacter (c : Char) : Reported (.unexpectedCharacter c)
  | unexpectedToken {t : Token} (h : t.Plain) : Reported (.unexpectedToken t.spelling)
  | unexpectedEnd : Reported .unexpectedEnd

/-- What is known of a piece. -/
def Piece.Known : Piece → Prop
  | .gap => True
  | .token t => t.Plain
  | .bad cause => Reported cause

theorem plain_keyword (k : Keyword) : (Token.keyword k).Plain := by
  right
  cases k <;> decide

theorem plain_symbol (s : Symbol) : (Token.symbol s).Plain := by
  right
  cases s <;> decide

theorem plain_ofWord {cs : List Char} (h : ∀ c ∈ cs, Token.isWordChar c = true) :
    (Token.ofWord (String.ofList cs)).Plain := by
  unfold Token.ofWord
  split
  · exact plain_keyword _
  · right
    rw [Token.spelling, String.toList_ofList]
    exact fun c hc => isBlank_of_isWordChar (h c hc)

theorem known_integer {digits : List Char} (h : ∀ c ∈ digits, c.isDigit = true) :
    (Token.integer digits).Known := by
  unfold Token.integer
  dsimp only
  split
  · right
    simpa [Token.spelling] using visible_toDigits _
  · exact .invalidNumber h

theorem known_number {c : Char} (hc : c.isDigit = true) (cs : List Char) :
    (Token.number c cs).1.Known := by
  have hwhole : ∀ d ∈ c :: cs.takeWhile Char.isDigit, d.isDigit = true :=
    List.forall_mem_cons.2 ⟨hc, List.all_eq_true.1 List.all_takeWhile⟩
  unfold Token.number
  dsimp only
  split
  · split
    · exact known_integer hwhole
    · exact .inr (visible_positional _)
  · exact known_integer hwhole

theorem known_literal (q : Char) (cs : List Char) : (Token.literal q cs).1.Known := by
  unfold Token.literal
  dsimp only
  split
  · exact .inl ⟨_, rfl⟩
  · exact .unterminatedString

theorem known_mark (c : Char) (cs : List Char) : (Token.mark c cs).1.Known := by
  unfold Token.mark
  split
  · exact plain_symbol _
  · split
    · exact plain_symbol _
    · exact .unexpectedCharacter c

theorem known_first (c : Char) (cs : List Char) : (Token.first c cs).1.Known := by
  unfold Token.first
  split
  · trivial
  split
  · trivial
  split
  · next hstart =>
    have hc : Token.isWordChar c = true := by
      refine Bool.or_eq_true_iff.2 ((Bool.or_eq_true_iff.1 hstart).imp_left fun halpha => ?_)
      exact Bool.or_eq_true_iff.2 (.inl halpha)
    exact plain_ofWord (List.forall_mem_cons.2 ⟨hc, List.all_eq_true.1 List.all_takeWhile⟩)
  split
  · next hc => exact known_number hc cs
  split
  · exact known_literal c cs
  · exact known_mark c cs

/-- What is known of the outcome of a scan. -/
def KnownScan : Except (Cause × Span) (Array Lexeme) → Prop
  | .ok lexemes => ∀ lexeme ∈ lexemes, lexeme.token.Plain
  | .error (cause, _) => Reported cause

theorem known_scan (offset : ℕ) (read : Array Lexeme) (cs : List Char)
    (hread : ∀ lexeme ∈ read, lexeme.token.Plain) : KnownScan (Token.scan offset read cs) := by
  -- a gap pushes nothing, a token is known when it is pushed, and a bad piece ends the scan
  fun_induction Token.scan offset read cs with
  | case1 => exact hread
  | case2 _ _ _ _ _ _ _ ih => exact ih hread
  | case3 _ _ c cs _ _ t hfirst ih =>
    have ht := known_first c cs
    rw [hfirst] at ht
    refine ih fun lexeme hlexeme => ?_
    rcases Array.mem_push.1 hlexeme with hlexeme | rfl
    · exact hread lexeme hlexeme
    · exact ht
  | case4 _ _ c cs _ _ cause hfirst =>
    have hcause := known_first c cs
    rw [hfirst] at hcause
    exact hcause

theorem reported_blame {lexemes : Array Lexeme} (h : ∀ lexeme ∈ lexemes, lexeme.token.Plain)
    (text : List Char) (i : ℕ) :
    ∃ span cause, blame text lexemes i = Fault.inText text span cause ∧ Reported cause := by
  unfold blame
  split
  · next lexeme hlexeme =>
    exact ⟨_, _, rfl, .unexpectedToken (h lexeme (Array.mem_of_getElem? hlexeme))⟩
  · exact ⟨_, _, rfl, .unexpectedEnd⟩

/-- **The fault of a text** is placed in it, and its cause is known. -/
theorem reported_of_parseSource {source : String} {f : Fault} (h : parseSource source = .error f) :
    ∃ span cause, f = Fault.inText source.toList span cause ∧ Reported cause := by
  have hscan := known_scan 0 #[] source.toList (by simp)
  cases hs : Token.scan 0 #[] source.toList with
  | error e =>
    rw [hs] at hscan
    simp only [parseSource, tokenize, hs, bind, Except.bind] at h
    cases h
    exact ⟨_, _, rfl, hscan⟩
  | ok lexemes =>
    rw [hs] at hscan
    simp only [parseSource, tokenize, hs, bind, Except.bind, parse] at h
    split at h
    · cases h
    · cases h
      exact reported_blame hscan source.toList _

theorem failure?_builtin (source : String) :
    Engine.builtin.failure? source =
      match parseSource source with
      | .error f => some f.display
      | .ok _ => none := by
  unfold Engine.failure? Engine.builtin parseSource
  dsimp only
  cases tokenize source with
  | error f => rfl
  | ok lexemes =>
    cases hparse : parse source lexemes with
    | error f => simp [bind, Except.bind, Except.mapError, hparse]
    | ok program => simp [bind, Except.bind, Except.mapError, hparse]

/-! ## Positions -/

theorem max_ofNatClamp_one {n : ℕ} (h : 1 ≤ n) :
    max (UInt32.ofNatClamp n) 1 = UInt32.ofNatClamp n := by
  have hle : 1 ≤ UInt32.ofNatClamp n := by
    rw [UInt32.le_iff_toNat_le]
    by_cases hn : n < UInt32.size
    · rw [UInt32.toNat_ofNatClamp_of_lt hn]
      exact h
    · rw [UInt32.toNat_ofNatClamp_of_le (Nat.le_of_not_lt hn)]
      decide
  rw [UInt32.max_def]
  split
  · next hge => exact UInt32.le_antisymm hle hge
  · rfl

/-- Lines and columns of a text are at least one. -/
theorem make_positionAt (severity : Severity) (text : List Char) (offset : ℕ) (message : String) :
    Diagnostic.make severity (Source.positionAt text offset).line
        (Source.positionAt text offset).column message =
      ⟨(Source.positionAt text offset).line, (Source.positionAt text offset).column, message,
        severity⟩ := by
  simp only [Diagnostic.make, Source.positionAt_eq, max_ofNatClamp_one (Nat.le_add_right 1 _)]

/-! ## What messages say -/

/-- The cause quotes a string literal with a location in it. -/
def Cause.QuotesLocation (cause : Cause) : Prop :=
  ∃ content, cause = .unexpectedToken (Token.str content).spelling ∧ Occurs content.toList

/-- A quotation is searched by itself, whatever leads up to it. -/
theorem findLocation_quotation {q : Char} (hq : q ∈ ['\'', '"']) (lead : List Char)
    {opening closing : String} (hopening : opening.toList = lead ++ [q])
    (hclosing : closing.toList = [q]) (hlead : findLocation lead = none) (x : String) :
    findLocation (opening ++ x ++ closing).toList =
      (findLocation x.toList).map (Locate.Found.within opening.toList [q]) := by
  rw [String.toList_append, String.toList_append, hopening, hclosing, List.append_assoc,
    List.append_assoc]
  exact findLocation_quoted hq hlead x.toList

theorem rest_quotation (opening closing : String) {q : Char} (hclosing : closing.toList = [q])
    (f : Locate.Found) :
    String.ofList (f.within opening.toList [q]).rest =
      opening ++ String.ofList f.rest ++ closing := by
  rw [Locate.Found.within_rest, ← hclosing, String.ofList_append, String.ofList_append,
    String.ofList_toList, String.ofList_toList, String.append_assoc]

theorem findLocation_invalidNumber (digits : String) :
    findLocation (Cause.invalidNumber digits).message.toList =
      (findLocation digits.toList).map (Locate.Found.within "Invalid number '".toList ['\'']) :=
  findLocation_quotation (by decide) "Invalid number ".toList (by decide) (by decide) (by decide)
    digits

theorem findLocation_unexpectedCharacter (c : Char) :
    findLocation (Cause.unexpectedCharacter c).message.toList =
      (findLocation (String.singleton c).toList).map
        (Locate.Found.within "Unexpected character '".toList ['\'']) :=
  findLocation_quotation (by decide) "Unexpected character ".toList (by decide) (by decide)
    (by decide) (String.singleton c)

theorem findLocation_unexpectedToken (spelling : String) :
    findLocation (Cause.unexpectedToken spelling).message.toList =
      (findLocation spelling.toList).map (Locate.Found.within "Unexpected token '".toList ['\'']) :=
  findLocation_quotation (by decide) "Unexpected token ".toList (by decide) (by decide) (by decide)
    spelling

theorem findLocation_str (content : String) :
    findLocation (Token.str content).spelling.toList =
      (findLocation content.toList).map (Locate.Found.within ['"'] ['"']) :=
  findLocation_quotation (by decide) [] (by decide) (by decide) rfl content

theorem Cause.not_quotesLocation {cause : Cause}
    (h : ∀ spelling, cause ≠ .unexpectedToken spelling) : ¬ cause.QuotesLocation := by
  rintro ⟨_, hcause, -⟩
  exact h _ hcause

/-- **Only string literals carry locations into messages.** -/
theorem Reported.findLocation_message {cause : Cause} (h : Reported cause) :
    findLocation cause.message.toList = none ↔ ¬ cause.QuotesLocation := by
  cases h with
  | unterminatedString => exact iff_of_true (by decide) (Cause.not_quotesLocation (by simp))
  | unexpectedEnd => exact iff_of_true (by decide) (Cause.not_quotesLocation (by simp))
  | @invalidNumber digits hdigits =>
    refine iff_of_true ?_ (Cause.not_quotesLocation (by simp))
    have hnone : findLocation (String.ofList digits).toList = none := by
      rw [String.toList_ofList]
      exact findLocation_eq_none_of_visible (visible_of_isDigit hdigits)
    rw [findLocation_invalidNumber, hnone, Option.map_none]
  | unexpectedCharacter c =>
    refine iff_of_true ?_ (Cause.not_quotesLocation (by simp))
    rw [findLocation_unexpectedCharacter, String.toList_singleton, findLocation_singleton,
      Option.map_none]
  | @unexpectedToken t ht =>
    have hstr (content : String) :
        findLocation (Token.str content).spelling.toList = none ↔ ¬ Occurs content.toList := by
      rw [findLocation_str, Option.map_eq_none_iff, findLocation_eq_none]
    rw [findLocation_unexpectedToken, Option.map_eq_none_iff]
    constructor
    · -- two tokens may be spelled alike, but then both spellings are searched alike
      rintro hnone ⟨content, hcause, hoccurs⟩
      rw [Cause.unexpectedToken.inj hcause] at hnone
      exact (hstr content).1 hnone hoccurs
    · intro hquotes
      rcases ht with ⟨content, rfl⟩ | hvisible
      · exact (hstr content).2 fun hoccurs => hquotes ⟨content, rfl, hoccurs⟩
      · exact findLocation_eq_none_of_visible hvisible

/-- The text begins and ends with characters that are not blank, the last of them no digit. -/
structure Framed (cs : List Char) : Prop where
  ne_nil : cs ≠ []
  head : ∀ c ∈ cs.head?, Text.isBlank c = false
  last : ∀ c ∈ cs.getLast?, Text.isBlank c = false ∧ c.isDigit = false

theorem framed_of_ends {cs : List Char} {c d : Char} (hhead : cs.head? = some c)
    (hlast : cs.getLast? = some d) (hc : Text.isBlank c = false)
    (hd : Text.isBlank d = false ∧ d.isDigit = false) : Framed cs := by
  refine ⟨?_, ?_, ?_⟩
  · rintro rfl
    cases hhead
  · rw [hhead]
    rintro _ ⟨⟩
    exact hc
  · rw [hlast]
    rintro _ ⟨⟩
    exact hd

theorem framed_quotation {opening : String} {c : Char} (hhead : opening.toList.head? = some c)
    (hc : Text.isBlank c = false) (x : String) : Framed (opening ++ x ++ "'").toList := by
  have hlist : (opening ++ x ++ "'").toList = opening.toList ++ x.toList ++ ['\''] := by
    rw [String.toList_append, String.toList_append]
    rfl
  rw [hlist]
  -- whatever is quoted, the closing quote comes last
  refine framed_of_ends ?_ List.getLast?_concat hc (by decide)
  rw [List.append_assoc, List.head?_append, hhead, Option.some_or]

theorem Reported.framed {cause : Cause} (h : Reported cause) : Framed cause.message.toList := by
  cases h with
  | unterminatedString =>
    exact framed_of_ends (c := 'U') (d := 'l') (by decide) (by decide) (by decide) (by decide)
  | unexpectedEnd =>
    exact framed_of_ends (c := 'U') (d := 't') (by decide) (by decide) (by decide) (by decide)
  | invalidNumber _ => exact framed_quotation (c := 'I') (by decide) (by decide) _
  | unexpectedCharacter c => exact framed_quotation (c := 'U') (by decide) (by decide) _
  | unexpectedToken _ => exact framed_quotation (c := 'U') (by decide) (by decide) _

/-! ## Faults in diagnostics -/

theorem display_inText (text : List Char) (span : Span) (cause : Cause) :
    (Fault.inText text span cause).display =
      cause.message ++ Fault.suffix (Source.positionAt text span.start) :=
  rfl

theorem locate_of_not_quotesLocation {cause : Cause} (h : Reported cause)
    (hquotes : ¬ cause.QuotesLocation) (text : List Char) (span : Span) :
    locate (Fault.inText text span cause).display =
      ⟨(Source.positionAt text span.start).line, (Source.positionAt text span.start).column,
        cause.message, .error⟩ := by
  have hframed := h.framed
  have htrim : Text.trim cause.message.toList = cause.message.toList :=
    trim_eq_self hframed.head fun c hc => (hframed.last c hc).1
  rw [display_inText, locate_append_suffix (h.findLocation_message.2 hquotes)
    (by rw [htrim]; exact hframed.ne_nil), htrim, String.ofList_toList, make_positionAt]

/-- A location in a quoted literal is taken for the place of the fault, and cut out of it. -/
theorem locate_of_found {content : String} {found : Locate.Found}
    (h : findLocation content.toList = some found) (text : List Char) (span : Span) :
    locate (Fault.inText text span (.unexpectedToken (Token.str content).spelling)).display =
      Diagnostic.make .error found.line found.column
        ((Cause.unexpectedToken (Token.str (String.ofList found.rest)).spelling).message ++
          Fault.suffix (Source.positionAt text span.start)) := by
  -- the location moves outward through both quotations
  have hliteral : String.ofList (found.within ['"'] ['"']).rest =
      (Token.str (String.ofList found.rest)).spelling :=
    rest_quotation "\"" "\"" rfl found
  have hmessage : String.ofList
      ((found.within ['"'] ['"']).within "Unexpected token '".toList ['\'']).rest =
        (Cause.unexpectedToken (Token.str (String.ofList found.rest)).spelling).message := by
    rw [← hliteral]
    exact rest_quotation "Unexpected token '" "'" rfl _
  have hfound : findLocation
      (Cause.unexpectedToken (Token.str content).spelling).message.toList =
        some ((found.within ['"'] ['"']).within "Unexpected token '".toList ['\'']) := by
    rw [findLocation_unexpectedToken, findLocation_str, h, Option.map_some, Option.map_some]
  have hframed : Framed
      (Cause.unexpectedToken (Token.str (String.ofList found.rest)).spelling).message.toList :=
    (Reported.unexpectedToken (.inl ⟨_, rfl⟩)).framed
  rw [← hmessage, String.toList_ofList] at hframed
  rw [display_inText, locate_append_suffix_of_found hfound hframed.ne_nil hframed.head, hmessage]
  rfl

/-- A message never ends as a place does. -/
theorem Framed.ne_append_suffix {m : String} (h : Framed m.toList) (x : String) (p : Position) :
    m ≠ x ++ Fault.suffix p := by
  rintro rfl
  rw [String.toList_append] at h
  have hlast := List.getLast?_eq_some_getLast h.ne_nil
  have hdigit := (h.last _ hlast).2
  rw [isDigit_of_mem_getLast? hlast] at hdigit
  cases hdigit

theorem diagnose_of_fault {source : String} {f : Fault} (h : parseSource source = .error f)
    (settings : Settings) :
    diagnose Engine.builtin settings source =
      locate f.display :: if settings.undefinedVariables then lint settings source else [] := by
  simp only [diagnose, failure?_builtin, h, Option.map_some, Option.toList_some]
  rfl

/-- **The place and the message of a fault survive its text, unless it quotes a location.** The
first diagnostic of a text with a fault is that fault exactly if its message does not quote a string
literal with a location in it. If it does, the literal's first location is reported instead, and
the message lacks it and still has the place behind it. -/
theorem diagnose_fault_iff (settings : Settings) (source : String) (f : Fault)
    (h : parseSource source = .error f) :
    ∃ place, f.place = some place ∧
      ((diagnose Engine.builtin settings source).head? =
          some ⟨place.position.line, place.position.column, f.message, .error⟩ ↔
        ¬ f.cause.QuotesLocation) ∧
      ∀ content found, f.cause = .unexpectedToken (Token.str content).spelling →
        findLocation content.toList = some found →
        (diagnose Engine.builtin settings source).head? =
          some (Diagnostic.make .error found.line found.column
            ((Cause.unexpectedToken (Token.str (String.ofList found.rest)).spelling).message ++
              Fault.suffix place.position)) := by
  obtain ⟨span, cause, rfl, hreported⟩ := reported_of_parseSource h
  rw [diagnose_of_fault h, List.head?_cons]
  refine ⟨_, rfl, ⟨?_, ?_⟩, ?_⟩
  · -- the message that is reported has the place behind it, and no fault's own message does
    rintro hlocate ⟨content, hcause, hoccurs⟩
    obtain ⟨found, hfound⟩ : ∃ found, findLocation content.toList = some found :=
      Option.ne_none_iff_exists'.1 fun hnone => (findLocation_eq_none _).1 hnone hoccurs
    cases (show cause = _ from hcause)
    rw [locate_of_found hfound] at hlocate
    exact hreported.framed.ne_append_suffix _ _
      (congrArg Diagnostic.message (Option.some.inj hlocate)).symm
  · intro hquotes
    rw [locate_of_not_quotesLocation hreported hquotes]
    rfl
  · rintro content found hcause hfound
    cases (show cause = _ from hcause)
    rw [locate_of_found hfound]

theorem diagnose_fault_iff_at :
    parseSource "let \"at 3:5\"" =
      .error ⟨.unexpectedToken "\"at 3:5\"", some ⟨⟨4, 12⟩, ⟨1, 5⟩⟩⟩ ∧
    (diagnose Engine.builtin {} "let \"at 3:5\"").head? =
      some ⟨1, 5, "Unexpected token '\"at 3:5\"'", .error⟩ := by
  have hfault : parseSource "let \"at 3:5\"" =
      .error ⟨.unexpectedToken "\"at 3:5\"", some ⟨⟨4, 12⟩, ⟨1, 5⟩⟩⟩ := by cbv
  have hreported : Reported (.unexpectedToken (Token.str "at 3:5").spelling) :=
    .unexpectedToken (.inl ⟨_, rfl⟩)
  obtain ⟨_, ⟨⟩, hiff, -⟩ := diagnose_fault_iff {} _ _ hfault
  exact ⟨hfault, hiff.2 (hreported.findLocation_message.1 (by decide))⟩

/-- A literal that holds a location: the fault is at 1:5 and is reported at 3:5. -/
theorem diagnose_quoted_location :
    parseSource "let \"line 3:5\"" =
      .error ⟨.unexpectedToken "\"line 3:5\"", some ⟨⟨4, 14⟩, ⟨1, 5⟩⟩⟩ ∧
    diagnose Engine.builtin Settings.syntaxOnly "let \"line 3:5\"" =
      [⟨3, 5, "Unexpected token '\"\"' at line 1, column 5", .error⟩] := by
  have hfault : parseSource "let \"line 3:5\"" =
      .error ⟨.unexpectedToken "\"line 3:5\"", some ⟨⟨4, 14⟩, ⟨1, 5⟩⟩⟩ := by cbv
  refine ⟨hfault, ?_⟩
  rw [diagnose_of_fault hfault]
  decide

end ScriptLint
