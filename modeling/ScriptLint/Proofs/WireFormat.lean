import Mathlib
import ScriptLint.Diagnostic.Wire
import ScriptLint.Proofs.JsonForm

/-!
# Diagnostics and markers on the wire

A record is written as an object with its fields in their order. Reading does not ask for that
order, and it passes over members that are no fields of the record.

* `JsonReader.takes_string`, `JsonReader.takes_uint32`: what is written as a string or a number is
  read back.
* `Datum.takes_read`: every datum is.
* `Shape.Rearranged`: the members of an object that holds a record's fields in some order, among
  others.
* `Shape.takes_read`: **such an object is read as the record.**
* `decode_wire`: diagnostics and markers come back from their text, and from any rearranged one.
-/

namespace ScriptLint

open JsonForm
open JsonValue (commas quote escapeChar)
open JsonReader (Takes TakesMember TakesMembers)

/-! ## Strings -/

namespace JsonText

/-- What a character of a string is read as: a control character that has no letter is written by
its number. -/
def partOf (c : Char) : Part :=
  if c.toNat < 0x20 ∧ c ∉ ['\x08', '\x0c', '\n', '\r', '\t'] then .unit c.toNat else .char c

theorem hexNumber?_hexDigit : ∀ n < 0x20,
    hexNumber? ['0', '0', JsonValue.hexDigit (n / 16), JsonValue.hexDigit (n % 16)] = some n := by
  decide

theorem parts?_escapeChar (c : Char) {cs rest : List Char} {parts : List Part}
    (h : parts? cs = some (parts, rest)) :
    parts? (escapeChar c ++ cs) = some (partOf c :: parts, rest) := by
  unfold escapeChar
  split
  · next hc => subst hc; exact parts?_escape rfl h
  split
  · next hc => subst hc; exact parts?_escape rfl h
  split
  · next hc => subst hc; exact parts?_escape rfl h
  split
  · next hc => subst hc; exact parts?_escape rfl h
  split
  · next hc => subst hc; exact parts?_escape rfl h
  split
  · next hc => subst hc; exact parts?_escape rfl h
  split
  · next hc => subst hc; exact parts?_escape rfl h
  next hquote hslash h8 hc hn hr ht =>
  split
  · next hcontrol =>
    have hpart : partOf c = .unit c.toNat := by simp [partOf, hcontrol, h8, hc, hn, hr, ht]
    rw [hpart]
    exact parts?_unit (hexNumber?_hexDigit _ hcontrol) h
  · next hcontrol =>
    have hpart : partOf c = .char c := by simp [partOf, hcontrol]
    rw [hpart]
    exact parts?_plain hquote hslash (by omega) h

theorem parts?_quote_text (s : List Char) (rest : List Char) :
    parts? (s.flatMap escapeChar ++ '"' :: rest) = some (s.map partOf, rest) := by
  induction s with
  | nil => exact parts?_quote rest
  | cons c s ih =>
    rw [List.flatMap_cons, List.append_assoc]
    exact parts?_escapeChar c ih

/-- A unit below the surrogates stands for its character, whatever follows. -/
theorem join?_unit {n : ℕ} (hn : n < 0xD800) {cs : List Char} {ps : List Part}
    (h : join? ps = some cs) : join? (.unit n :: ps) = some (Char.ofNat n :: cs) := by
  have hhigh : ¬(0xD800 ≤ n ∧ n < 0xDC00) := by omega
  have hlow : ¬(0xDC00 ≤ n ∧ n < 0xE000) := by omega
  have hany : ¬(0xD800 ≤ n ∧ n < 0xE000) := by omega
  rcases ps with _ | ⟨_ | m, ps⟩
  · rw [join?, if_neg hany, h]
    · rfl
    · simp
  · rw [join?, if_neg hany, h]
    · rfl
    · simp
  · rw [join?, if_neg hhigh, if_neg hlow, h]
    rfl

theorem join?_cons (c : Char) {cs : List Char} {ps : List Part} (h : join? ps = some cs) :
    join? (partOf c :: ps) = some (c :: cs) := by
  unfold partOf
  split
  · next hc =>
    have hunit := join?_unit (show c.toNat < 0xD800 by omega) h
    rwa [Char.ofNat_toNat] at hunit
  · rw [join?, h]
    rfl

theorem join?_map_partOf (s : List Char) : join? (s.map partOf) = some s := by
  induction s with
  | nil => rfl
  | cons c s ih => exact join?_cons c ih

/-! ## Numbers -/

theorem toDigits_head_ne {n : ℕ} (hn : 0 < n) :
    ∃ c w, Nat.toDigits 10 n = c :: w ∧ c ≠ '0' := by
  induction n using Nat.strong_induction_on with
  | _ n ih =>
    by_cases hlt : n < 10
    · rw [Nat.toDigits_of_lt_base hlt]
      refine ⟨_, [], rfl, ?_⟩
      have hdigit : ∀ n < 10, 0 < n → n.digitChar ≠ '0' := by decide
      exact hdigit n hlt hn
    · obtain ⟨c, w, hw, hc⟩ := ih (n / 10) (by omega) (by omega)
      rw [Nat.toDigits_of_base_le (by decide) (by omega), hw]
      exact ⟨c, _, rfl, hc⟩

theorem whole_toDigits (n : ℕ) : Whole (Nat.toDigits 10 n) := by
  rcases Nat.eq_zero_or_pos n with rfl | hn
  · exact .zero
  · obtain ⟨c, w, hw, hc⟩ := toDigits_head_ne hn
    have hdigits : ∀ d ∈ c :: w, d.isDigit = true := by
      rw [← hw]
      exact fun d => Locate.isDigit_of_mem_toDigits
    rw [hw]
    obtain ⟨hdigit, hmore⟩ := List.forall_mem_cons.1 hdigits
    exact .digits hdigit hc hmore

theorem number?_of_whole {w rest : List Char} (h : Whole w) (hrest : Stop rest) :
    number? (w ++ rest) = some (⟨false, w, [], false, none⟩, rest) := by
  have hwhole := whole?_of_whole h fun c hc => (hrest c hc).1
  have hplaces := places?_none fun c hc => (hrest c hc).2.1
  have hexponent := exponent?_none fun c hc => (hrest c hc).2.2
  have hsign : sign (w ++ rest) = (false, w ++ rest) := by
    obtain ⟨c, w', rfl, hc⟩ := Whole.head h
    exact sign_of_isDigit hc _
  rw [number?, hsign]
  simp [hwhole, hplaces, hexponent]

end JsonText

namespace JsonReader

variable {rest : List Char}

theorem takes_string (s : String) (rest : List Char) : Takes string (quote s ++ rest) s rest := by
  have hparts := JsonText.parts?_quote_text s.toList rest
  have htext : quote s ++ rest = '"' :: (s.toList.flatMap escapeChar ++ '"' :: rest) := by
    simp [quote]
  rw [htext]
  refine (takes_advance _ _).bind ((takes_scan hparts).bind ?_)
  rw [JsonText.join?_map_partOf]
  dsimp only
  rw [String.ofList_toList]
  exact Takes.pure _ _

theorem takes_text (expected s : String) (rest : List Char) :
    Takes (text expected) (quote s ++ rest) s rest := by
  refine (takes_peek Blank.nil (by decide) _).bind ?_
  rw [if_pos rfl]
  exact takes_string s rest

theorem takes_number (n : ℕ) (hn : n < UInt64.size) (hrest : Stop rest) :
    Takes number (Nat.toDigits 10 n ++ rest) (.int n) rest := by
  have hvalue : digitsValue (Nat.toDigits 10 n) = n :=
    Nat.ofDigitChars_toDigits (by decide) (Nat.le_refl 10)
  have hint : NumberText.int? ⟨false, Nat.toDigits 10 n, [], false, none⟩ = some (n : ℤ) := by
    simp [NumberText.int?, NumberText.isWhole, hvalue, hn]
  refine (takes_scan (JsonText.number?_of_whole (JsonText.whole_toDigits n) hrest)).bind ?_
  rw [hint]
  exact Takes.pure _ _

theorem takes_uint32 (n : UInt32) (hrest : Stop rest) :
    Takes uint32 (Nat.toDigits 10 n.toNat ++ rest) n rest := by
  have hlt : n.toNat < UInt32.size := n.toNat_lt_size
  have hnumber := takes_number n.toNat (Nat.lt_trans hlt (by decide)) hrest
  obtain ⟨c, w, hw, hc⟩ := JsonText.Whole.head (JsonText.whole_toDigits n.toNat)
  have hstart : startsNumber c = true := by simp [startsNumber, hc]
  have hspace : isSpace c = false := by
    by_contra hne
    simp only [isSpace, Bool.not_eq_false, Bool.or_eq_true, decide_eq_true_eq] at hne
    rcases hne with ((rfl | rfl) | rfl) | rfl <;> exact absurd hc (by decide)
  rw [hw] at hnumber ⊢
  refine (takes_peek Blank.nil hspace _).bind ?_
  dsimp only
  rw [if_pos hstart]
  refine hnumber.bind ?_
  dsimp only
  rw [if_pos ⟨by omega, by exact_mod_cast hlt⟩, Int.toNat_natCast, UInt32.ofNat_toNat]
  exact Takes.pure _ _

theorem takes_variant {known : List String} {n : String} (h : n ∈ known) (rest : List Char) :
    Takes (variant known) (quote n ++ rest) n rest := by
  refine (takes_peek Blank.nil (by decide) _).bind ((takes_text _ n rest).bind ?_)
  rw [if_pos (List.contains_iff_mem.2 h)]
  exact Takes.pure _ _

/-- A member written with its name is read by that name. -/
theorem takesMember_quote {β : Type} {member : β → String → JsonReader β} {b b' : β}
    {name : String} {value : List Char}
    (h : ∀ rest, Stop rest →
      ∃ v, Blank v ∧ Takes (member b name) (':' :: (value ++ rest)) b' (v ++ rest)) :
    TakesMember string member b (quote name ++ ':' :: value) b' := by
  refine ⟨[], _, rfl, Blank.nil, fun rest hrest => ?_⟩
  obtain ⟨v, hv, hmember⟩ := h rest hrest
  refine ⟨name, _, v, hv, ?_, hmember⟩
  have hkey := takes_string name (':' :: (value ++ rest))
  simpa [quote] using hkey

end JsonReader

/-! ## Records -/

theorem Datum.takes_read (d : Datum) {rest : List Char} (hrest : Stop rest) :
    Takes (Datum.read d.kind) (d.toJson.chars ++ rest) d rest := by
  cases d with
  | number n =>
    have hchars : (Datum.number n).toJson.chars = Nat.toDigits 10 n.toNat :=
      Nat.toList_repr
    rw [hchars]
    exact (JsonReader.takes_uint32 n hrest).bind (Takes.pure _ _)
  | text s => exact (JsonReader.takes_text _ s rest).bind (Takes.pure _ _)
  | severity s =>
    have hknown : s.name ∈ Severity.all.map Severity.name := by cases s <;> decide
    have hname : Severity.ofName? s.name = some s := by cases s <;> decide
    refine (JsonReader.takes_variant hknown rest).bind ?_
    rw [hname]
    exact Takes.pure _ _

/-- A member of an object that is read as a record. -/
inductive Entry
  | field (name : String) (datum : Datum)
  /-- A member of another name, with the text of its value. -/
  | other (name : String) (value : List Char)

namespace Entry

def chars : Entry → List Char
  | field name datum => quote name ++ ':' :: datum.toJson.chars
  | other name value => quote name ++ ':' :: value

def field? : Entry → Option (String × Datum)
  | field name datum => some (name, datum)
  | other _ _ => none

/-- The text of an object with these members. -/
def object (entries : List Entry) : String :=
  String.ofList ('\x7b' :: (commas (entries.map chars) ++ ['\x7d']))

/-- A member that the reader of a record takes. -/
def Fits (shape : Shape) : Entry → Prop
  | field name datum => shape.fields.lookup name = some datum.kind
  | other name value => shape.fields.lookup name = none ∧ Form .element value

end Entry

namespace Shape

variable {shape : Shape} {seen : List (String × Datum)} {data : List Datum} {entries : List Entry}
  {rest : List Char}

/-- The data under their names. -/
def named (shape : Shape) (data : List Datum) : List (String × Datum) :=
  (shape.fields.map Prod.fst).zip data

/-- **A rearranged record**: every field once, in any order, among members of other names whose
values are any texts of JSON. -/
structure Rearranged (shape : Shape) (data : List Datum) (entries : List Entry) : Prop where
  fields : (entries.filterMap Entry.field?).Perm (shape.named data)
  others : ∀ name value, Entry.other name value ∈ entries →
    name ∉ shape.fields.map Prod.fst ∧ Form .element value

/-- What one member adds to the fields seen. -/
theorem takesMember_entry {e : Entry} (hfits : e.Fits shape)
    (hnew : ∀ p ∈ e.field?, seen.lookup p.1 = none) :
    TakesMember JsonReader.string shape.readMember seen e.chars (e.field?.toList ++ seen) := by
  cases e with
  | field name datum =>
    refine JsonReader.takesMember_quote fun rest hrest => ⟨[], Blank.nil, ?_⟩
    rw [readMember, hfits]
    dsimp only
    rw [hnew _ rfl]
    exact (JsonReader.takes_expect Blank.nil (by decide) _).bind
      ((Datum.takes_read datum hrest).bind (Takes.pure _ _))
  | other name value =>
    refine JsonReader.takesMember_quote fun rest hrest => ?_
    obtain ⟨v, hv, hskip⟩ := JsonReader.takes_skip hfits.2 hrest
    refine ⟨v, hv, ?_⟩
    rw [readMember, hfits.1]
    exact (JsonReader.takes_expect Blank.nil (by decide) _).bind (hskip.bind (Takes.pure _ _))

theorem lookup_eq_none {α : Type} {l : List (String × α)} {name : String}
    (h : name ∉ l.map Prod.fst) : l.lookup name = none := by
  rw [List.lookup_eq_none_iff]
  intro p hp
  have hne : name ≠ p.1 := fun heq => h (heq ▸ List.mem_map_of_mem hp)
  simpa using hne

/-- What all the members leave. -/
theorem takesMembers_entries (hfits : ∀ e ∈ entries, e.Fits shape)
    (hnodup : (((entries.filterMap Entry.field?).reverse ++ seen).map Prod.fst).Nodup) :
    TakesMembers JsonReader.string shape.readMember seen (entries.map Entry.chars)
      ((entries.filterMap Entry.field?).reverse ++ seen) := by
  induction entries generalizing seen with
  | nil => exact .nil seen
  | cons e entries ih =>
    obtain ⟨he, hentries⟩ := List.forall_mem_cons.1 hfits
    have hseen : ((e :: entries).filterMap Entry.field?).reverse ++ seen =
        (entries.filterMap Entry.field?).reverse ++ (e.field?.toList ++ seen) := by
      cases e with
      | field name datum => simp [Entry.field?]
      | other name value =>
        rw [List.filterMap_cons_none rfl]
        rfl
    rw [hseen] at hnodup ⊢
    refine .cons (takesMember_entry he fun p hp => ?_) (ih hentries hnodup)
    rw [Option.mem_def.1 hp, List.map_append, List.map_append] at hnodup
    have hcons := (List.nodup_append.1 hnodup).2.1
    exact lookup_eq_none (List.nodup_cons.1 hcons).1

theorem lookup_of_mem {α : Type} {l : List (String × α)} (hnodup : (l.map Prod.fst).Nodup)
    {p : String × α} (hp : p ∈ l) : l.lookup p.1 = some p.2 := by
  induction l with
  | nil => cases hp
  | cons q l ih =>
    obtain ⟨hq, hl⟩ := List.nodup_cons.1 hnodup
    rcases List.mem_cons.1 hp with rfl | hp
    · exact List.lookup_cons_self
    · have hne : p.1 ≠ q.1 := fun heq => hq (heq ▸ List.mem_map_of_mem hp)
      rw [List.lookup_cons, beq_eq_false_iff_ne.2 hne]
      exact ih hl hp

theorem collect_of_lookup {fields : List (String × Datum.Kind)}
    (hlength : fields.length = data.length)
    (h : ∀ p ∈ (fields.map Prod.fst).zip data, seen.lookup p.1 = some p.2) :
    collect seen fields = .ok data := by
  induction fields generalizing data with
  | nil =>
    cases data with
    | nil => rfl
    | cons d data => cases hlength
  | cons field fields ih =>
    cases data with
    | nil => cases hlength
    | cons d data =>
      obtain ⟨hfield, hfields⟩ := List.forall_mem_cons.1 h
      rw [collect, hfield, ih (Nat.succ.inj hlength) hfields]
      rfl

section

variable (hkinds : data.map Datum.kind = shape.fields.map Prod.snd)
include hkinds

theorem length_fields : shape.fields.length = data.length := by
  have hlength := congrArg List.length hkinds
  rwa [List.length_map, List.length_map, eq_comm] at hlength

theorem map_fst_named : (shape.named data).map Prod.fst = shape.fields.map Prod.fst := by
  have hlength := length_fields hkinds
  exact List.map_fst_zip (by rw [List.length_map, hlength])

variable (hnames : (shape.fields.map Prod.fst).Nodup)
include hnames

theorem kind_of_mem_named {p : String × Datum} (hp : p ∈ shape.named data) :
    shape.fields.lookup p.1 = some p.2.kind := by
  have hfields : shape.fields = (shape.fields.map Prod.fst).zip (data.map Datum.kind) :=
    List.zip_of_prod rfl hkinds.symm
  have hmem : (p.1, p.2.kind) ∈ shape.fields := by
    rw [hfields, List.zip_map_right]
    exact List.mem_map_of_mem hp
  exact lookup_of_mem hnames hmem

theorem Rearranged.fits (h : shape.Rearranged data entries) : ∀ e ∈ entries, e.Fits shape := by
  intro e he
  cases e with
  | field name datum =>
    have hmem : (name, datum) ∈ entries.filterMap Entry.field? :=
      List.mem_filterMap.2 ⟨_, he, rfl⟩
    exact kind_of_mem_named hkinds hnames (h.fields.mem_iff.1 hmem)
  | other name value =>
    obtain ⟨hname, hvalue⟩ := h.others name value he
    exact ⟨lookup_eq_none hname, hvalue⟩

/-- **A record is read from any rearrangement of its members.** -/
theorem takes_read (h : shape.Rearranged data entries) (rest : List Char) :
    Takes shape.read ('\x7b' :: (commas (entries.map Entry.chars) ++ '\x7d' :: rest)) data
      rest := by
  have hperm : (entries.filterMap Entry.field?).reverse.Perm (shape.named data) :=
    (List.reverse_perm _).trans h.fields
  have hnodup : ((entries.filterMap Entry.field?).reverse.map Prod.fst).Nodup := by
    rw [(hperm.map Prod.fst).nodup_iff, map_fst_named hkinds]
    exact hnames
  have hmembers : TakesMembers JsonReader.string shape.readMember [] (entries.map Entry.chars)
      (entries.filterMap Entry.field?).reverse := by
    have hall := takesMembers_entries (h.fits hkinds hnames) (by rwa [List.append_nil])
    rwa [List.append_nil] at hall
  have hcollect : collect (entries.filterMap Entry.field?).reverse shape.fields = .ok data :=
    collect_of_lookup (length_fields hkinds) fun p hp =>
      lookup_of_mem hnodup (hperm.mem_iff.2 hp)
  refine (JsonReader.takes_peek Blank.nil (by decide) _).bind ?_
  refine (JsonReader.takes_advance _ _).bind ?_
  refine (JsonReader.takes_foldMembers hmembers rest).bind ?_
  rw [hcollect]
  exact Takes.pure _ _

end

theorem memberChars_named (fields : List (String × Datum.Kind)) (data : List Datum) :
    JsonValue.memberChars
        (List.zipWith (fun field datum => (field.1, datum.toJson)) fields data) =
      (((fields.map Prod.fst).zip data).map fun p => Entry.field p.1 p.2).map Entry.chars := by
  induction fields generalizing data with
  | nil => simp [JsonValue.memberChars]
  | cons field fields ih =>
    cases data with
    | nil => simp [JsonValue.memberChars]
    | cons d data => simp [JsonValue.memberChars, ih, Entry.chars]

/-- What is written is the rearrangement that keeps the order and adds nothing. -/
theorem compact_write (shape : Shape) (data : List Datum) : ∃ entries,
    shape.Rearranged data entries ∧ (shape.write data).compact = Entry.object entries := by
  refine ⟨(shape.named data).map fun p => .field p.1 p.2, ⟨?_, ?_⟩, ?_⟩
  · have hfields : ((shape.named data).map fun p => Entry.field p.1 p.2).filterMap Entry.field? =
        shape.named data := by
      rw [List.filterMap_map]
      exact List.filterMap_some
    rw [hfields]
  · intro name value hmem
    obtain ⟨p, -, hp⟩ := List.mem_map.1 hmem
    cases hp
  · rw [write, JsonValue.compact, JsonValue.chars, memberChars_named]
    rfl

end Shape

/-! ## Diagnostics and markers -/

theorem JsonReader.run_of_takes {α : Type} {p : JsonReader α} {cs : List Char} {a : α}
    (h : Takes p cs a []) : p.run (String.ofList cs) = .ok a := by
  rw [JsonReader.run, String.toList_ofList, h]
  rfl

theorem Diagnostic.decode_rearranged (d : Diagnostic) {entries : List Entry}
    (h : Diagnostic.shape.Rearranged d.data entries) :
    Diagnostic.decode (Entry.object entries) = .ok d := by
  have hread := Shape.takes_read rfl (by decide) h []
  exact JsonReader.run_of_takes (hread.bind (Takes.pure _ _))

theorem Marker.decode_rearranged (m : Marker) {entries : List Entry}
    (h : Marker.shape.Rearranged m.data entries) :
    Marker.decode (Entry.object entries) = .ok m := by
  have hread := Shape.takes_read rfl (by decide) h []
  exact JsonReader.run_of_takes (hread.bind (Takes.pure _ _))

/-- **What is written is read back**, and so is any rearrangement of it: the fields in any order,
among members of other names that hold any JSON. -/
theorem decode_wire :
    (∀ d : Diagnostic, Diagnostic.decode d.toJson.compact = .ok d ∧
      ∀ entries, Diagnostic.shape.Rearranged d.data entries →
        Diagnostic.decode (Entry.object entries) = .ok d) ∧
    ∀ m : Marker, Marker.decode m.toJson.compact = .ok m ∧
      ∀ entries, Marker.shape.Rearranged m.data entries →
        Marker.decode (Entry.object entries) = .ok m := by
  refine ⟨fun d => ⟨?_, fun entries h => d.decode_rearranged h⟩,
    fun m => ⟨?_, fun entries h => m.decode_rearranged h⟩⟩
  · obtain ⟨entries, h, htext⟩ := Shape.compact_write Diagnostic.shape d.data
    rw [Diagnostic.toJson, htext]
    exact d.decode_rearranged h
  · obtain ⟨entries, h, htext⟩ := Shape.compact_write Marker.shape m.data
    rw [Marker.toJson, htext]
    exact m.decode_rearranged h

/-- The fields in another order, one of them with a character that is escaped, and a member that is
no field. -/
theorem decode_wire_rearranged :
    Diagnostic.shape.Rearranged (Diagnostic.data ⟨0, 7, "\x01", .info⟩)
        [.field "severity" (.severity .info), .other "tags" ['[', 'n', 'u', 'l', 'l', ']'],
          .field "message" (.text "\x01"), .field "column" (.number 7),
          .field "line" (.number 0)] ∧
      Diagnostic.decode ("\x7b\"severity\":\"info\",\"tags\":[null],\"message\":\"\\u0001\"," ++
        "\"column\":7,\"line\":0\x7d") = .ok ⟨0, 7, "\x01", .info⟩ := by
  have h : Diagnostic.shape.Rearranged (Diagnostic.data ⟨0, 7, "\x01", .info⟩)
      [.field "severity" (.severity .info), .other "tags" ['[', 'n', 'u', 'l', 'l', ']'],
        .field "message" (.text "\x01"), .field "column" (.number 7),
        .field "line" (.number 0)] := by
    refine ⟨by decide, fun name value hmem => ?_⟩
    simp only [List.mem_cons, reduceCtorEq, Entry.other.injEq, List.not_mem_nil, or_false,
      false_or] at hmem
    obtain ⟨rfl, rfl⟩ := hmem
    have hitem : Form .element ['n', 'u', 'l', 'l'] := .element Blank.nil Blank.nil .null
    have hlist : Form .value ('[' :: (commas [['n', 'u', 'l', 'l']] ++ [']'])) :=
      .list (List.forall_mem_singleton.2 hitem)
    exact ⟨by decide, .element Blank.nil Blank.nil hlist⟩
  have hdecode := (decode_wire.1 ⟨0, 7, "\x01", .info⟩).2 _ h
  have htext : Entry.object [.field "severity" (.severity .info),
      .other "tags" ['[', 'n', 'u', 'l', 'l', ']'], .field "message" (.text "\x01"),
      .field "column" (.number 7), .field "line" (.number 0)] =
        "\x7b\"severity\":\"info\",\"tags\":[null],\"message\":\"\\u0001\"," ++
          "\"column\":7,\"line\":0\x7d" := by decide +kernel
  rw [htext] at hdecode
  exact ⟨h, hdecode⟩

end ScriptLint
