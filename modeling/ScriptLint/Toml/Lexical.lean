import ScriptLint.Json.Lexical
import ScriptLint.Toml.Value

/-!
# Strings, numbers and dates of TOML text

* `TomlText.basic?`, `TomlText.literal?`, `TomlText.multiBasic?`, `TomlText.multiLiteral?`: the
  inside of the four kinds of string, each read up to its closing quotes.
* `TomlText.scalar?`: the value of an unquoted word: a truth value, a number, a date or a time.
* `TomlText.trivia?`: what may stand between the items of a list.
-/

namespace ScriptLint.TomlText

/-- May the character stand in a comment or a string as it is? -/
def isPlain (c : Char) : Bool :=
  c = '\t' || (0x20 ≤ c.toNat && c.toNat ≠ 0x7F)

/-- The blanks within a line. -/
def isSpace (c : Char) : Bool :=
  c = ' ' || c = '\t'

/-- The text behind a line break. -/
def newline? : List Char → Option (List Char)
  | '\n' :: cs => some cs
  | '\r' :: '\n' :: cs => some cs
  | _ => none

/-- The text behind blanks, line breaks and comments. -/
def trivia? (comment : Bool) : List Char → Option (List Char)
  | [] => some []
  | '\r' :: '\n' :: cs => trivia? false cs
  | c :: cs =>
    if c = '\n' then trivia? false cs
    else if comment then (if isPlain c then trivia? true cs else none)
    else if isSpace c then trivia? false cs
    else if c = '#' then trivia? true cs
    else some (c :: cs)

/-- The rest of a comment, up to the end of its line. -/
def comment? (cs : List Char) : Option (List Char) :=
  let body := cs.takeWhile fun c => c ≠ '\n' ∧ c ≠ '\r'
  if body.all isPlain then some (cs.drop body.length) else none

/-- A character given by its code point. -/
def codePoint? (digits : List Char) : Option Char := do
  let n ← JsonText.hexNumber? digits
  if n.isValidChar then some (Char.ofNat n) else none

/-- What a backslash and a letter stand for. -/
def escape? : Char → Option Char
  | 'b' => some '\x08'
  | 't' => some '\t'
  | 'n' => some '\n'
  | 'f' => some '\x0c'
  | 'r' => some '\r'
  | 'e' => some '\x1b'
  | '"' => some '"'
  | '\\' => some '\\'
  | _ => none

/-- Puts a character in front of what a reader found behind it. -/
def cons (c : Char) (found : Option (List Char × List Char)) : Option (List Char × List Char) := do
  let (content, rest) ← found
  return (c :: content, rest)

/-- A string in double quotes. -/
def basic? : List Char → Option (List Char × List Char)
  | '\\' :: 'x' :: a :: b :: cs => do cons (← codePoint? [a, b]) (basic? cs)
  | '\\' :: 'u' :: a :: b :: c :: d :: cs => do cons (← codePoint? [a, b, c, d]) (basic? cs)
  | '\\' :: 'U' :: a :: b :: c :: d :: e :: f :: g :: h :: cs => do
    cons (← codePoint? [a, b, c, d, e, f, g, h]) (basic? cs)
  | '\\' :: e :: cs => do cons (← escape? e) (basic? cs)
  | c :: cs =>
    if c = '"' then some ([], cs)
    else if c ≠ '\\' ∧ isPlain c then cons c (basic? cs)
    else none
  | [] => none

/-- A string in single quotes. -/
def literal? (cs : List Char) : Option (List Char × List Char) :=
  let content := cs.takeWhile (· ≠ '\'')
  if content.all isPlain ∧ content.length < cs.length then
    some (content, cs.drop (content.length + 1))
  else none

/-- The text behind three quotes, and up to two more of them that belong to the string. -/
def closing? (quote : Char) (cs : List Char) : Option (List Char × List Char) :=
  let run := (cs.takeWhile (· = quote)).length
  if run < 3 then none
  else
    let content := min (run - 3) 2
    some (List.replicate content quote, cs.drop (content + 3))

/-- Does a line break follow, blanks aside? -/
def endsLine (cs : List Char) : Bool :=
  (newline? (cs.dropWhile isSpace)).isSome

/-- A string in three double quotes. A backslash at the end of a line joins it with what follows
the blanks and line breaks behind it; `joining` while these are passed over. -/
def multiBasic? (joining : Bool) : List Char → Option (List Char × List Char)
  | '\\' :: 'x' :: a :: b :: cs => do cons (← codePoint? [a, b]) (multiBasic? false cs)
  | '\\' :: 'u' :: a :: b :: c :: d :: cs => do
    cons (← codePoint? [a, b, c, d]) (multiBasic? false cs)
  | '\\' :: 'U' :: a :: b :: c :: d :: e :: f :: g :: h :: cs => do
    cons (← codePoint? [a, b, c, d, e, f, g, h]) (multiBasic? false cs)
  | '\\' :: e :: cs =>
    if endsLine (e :: cs) then multiBasic? true (e :: cs)
    else do cons (← escape? e) (multiBasic? false cs)
  | '\r' :: '\n' :: cs => if joining then multiBasic? true cs else cons '\n' (multiBasic? false cs)
  | c :: cs =>
    if joining ∧ (isSpace c ∨ c = '\n') then multiBasic? true cs
    else if c = '"' then
      match closing? '"' (c :: cs) with
      | some found => some found
      | none => cons c (multiBasic? false cs)
    else if c = '\n' ∨ (c ≠ '\\' ∧ isPlain c) then cons c (multiBasic? false cs)
    else none
  | [] => none

/-- A string in three single quotes. -/
def multiLiteral? : List Char → Option (List Char × List Char)
  | '\r' :: '\n' :: cs => cons '\n' (multiLiteral? cs)
  | c :: cs =>
    if c = '\'' then
      match closing? '\'' (c :: cs) with
      | some found => some found
      | none => cons c (multiLiteral? cs)
    else if c = '\n' ∨ isPlain c then cons c (multiLiteral? cs)
    else none
  | [] => none

/-- A string of several lines does not begin with the line break behind its quotes. -/
def skipNewline (cs : List Char) : List Char :=
  (newline? cs).getD cs

/-- The string that a text begins with. -/
def string? : List Char → Option (String × List Char)
  | '"' :: '"' :: '"' :: cs => named (multiBasic? false (skipNewline cs))
  | '\'' :: '\'' :: '\'' :: cs => named (multiLiteral? (skipNewline cs))
  | '"' :: cs => named (basic? cs)
  | '\'' :: cs => named (literal? cs)
  | _ => none
where
  named (found : Option (List Char × List Char)) : Option (String × List Char) := do
    let (content, rest) ← found
    return (String.ofList content, rest)

/-- Digits without the underscores between them; an underscore has a digit on either side. -/
def ungroup? (isDigit : Char → Bool) : List Char → Option (List Char)
  | [] => none
  | [c] => if isDigit c then some [c] else none
  | c :: '_' :: cs => if isDigit c then do return c :: (← ungroup? isDigit cs) else none
  | c :: cs => if isDigit c then do return c :: (← ungroup? isDigit cs) else none

/-- Decimal digits that do not begin with an idle zero. -/
def decimal? (cs : List Char) : Option (List Char) := do
  let digits ← ungroup? Char.isDigit cs
  if digits.head? = some '0' ∧ 1 < digits.length then none else some digits

/-- A word without its sign. -/
def signed : List Char → Bool × List Char
  | '-' :: cs => (true, cs)
  | '+' :: cs => (false, cs)
  | cs => (false, cs)

/-- An integer, if some type of at most 128 bits holds it. -/
def integer (n : Int) : TomlValue :=
  if -(Nat.pow 2 127 : Nat) ≤ n ∧ n < Nat.pow 2 128 then .int n else .tooLarge

/-- The value of digits in a base. -/
def inBase (base : Nat) (digits : List Char) : TomlValue :=
  integer (digits.foldl (fun n c => base * n + (JsonText.hexValue? c).getD 0) 0 : Nat)

/-- Is it a digit of a base up to sixteen? -/
def isDigitOf (base : Nat) (c : Char) : Bool :=
  (JsonText.hexValue? c).any (· < base)

/-- An integer. One in another base than ten has no sign. -/
def integer? : List Char → Option TomlValue
  | '0' :: 'x' :: cs => do return inBase 16 (← ungroup? (isDigitOf 16) cs)
  | '0' :: 'o' :: cs => do return inBase 8 (← ungroup? (isDigitOf 8) cs)
  | '0' :: 'b' :: cs => do return inBase 2 (← ungroup? (isDigitOf 2) cs)
  | cs => do
    let (negative, cs) := signed cs
    let n : Int := digitsValue (← decimal? cs)
    return integer (if negative then -n else n)

/-- The value of a finite float's pieces. -/
def floatOf (negative : Bool) (whole places : List Char) (exponent : Int) : TomlValue :=
  let n := digitsValue (whole ++ places)
  let power := exponent - places.length
  -- beyond these powers the value is zero or too large whatever its digits
  let size : Int := power + (whole ++ places).length
  let x :=
    if n = 0 ∨ size < -400 then Binary64.ofRatio negative 0 1
    else if 400 < power then Binary64.ofParts negative Binary64.infinityBits
    else Binary64.ofRatio negative (n * Nat.pow 10 power.toNat) (Nat.pow 10 (-power).toNat)
  if x.isFinite then .float x else .tooLarge

/-- An exponent, its letter taken. -/
def exponent? (cs : List Char) : Option Int := do
  let (negative, cs) := signed cs
  let n : Int := digitsValue (← ungroup? Char.isDigit cs)
  return if negative then -n else n

/-- The places behind a point, and perhaps an exponent. -/
def fraction? (negative : Bool) (whole : List Char) : List Char → Option TomlValue
  | '.' :: cs => do
    let run := cs.takeWhile fun c => c ≠ 'e' ∧ c ≠ 'E'
    let places ← ungroup? Char.isDigit run
    match cs.drop run.length with
    | [] => return floatOf negative whole places 0
    | _ :: ds => return floatOf negative whole places (← exponent? ds)
  | _ :: cs => do return floatOf negative whole [] (← exponent? cs)
  | [] => none

/-- A number with a point or an exponent, or one of the words for infinity and no number. -/
def float? (cs : List Char) : Option TomlValue := do
  let (negative, cs) := signed cs
  if cs = ['i', 'n', 'f'] then
    return .float (Binary64.ofParts negative Binary64.infinityBits)
  else if cs = ['n', 'a', 'n'] then
    return .float ⟨0x7FF8000000000000⟩
  else
    let run := cs.takeWhile fun c => c ≠ '.' ∧ c ≠ 'e' ∧ c ≠ 'E'
    fraction? negative (← decimal? run) (cs.drop run.length)

/-- A number of exactly two digits below a bound, and the text behind it. -/
def twoDigits? (least bound : Nat) : List Char → Option (Nat × List Char)
  | a :: b :: cs =>
    let n := digitsValue [a, b]
    if a.isDigit ∧ b.isDigit ∧ least ≤ n ∧ n < bound then some (n, cs) else none
  | _ => none

/-- The text behind a character. -/
def after? (mark : Char) : List Char → Option (List Char)
  | c :: cs => if c = mark then some cs else none
  | [] => none

def daysIn (year month : Nat) : Nat :=
  if month = 2 then
    if year % 4 = 0 ∧ (year % 100 ≠ 0 ∨ year % 400 = 0) then 29 else 28
  else if month = 4 ∨ month = 6 ∨ month = 9 ∨ month = 11 then 30
  else 31

/-- The text behind a date. -/
def date? (cs : List Char) : Option (List Char) := do
  let digits := cs.takeWhile Char.isDigit
  guard (digits.length = 4)
  let rest ← after? '-' (cs.drop 4)
  let (month, rest) ← twoDigits? 1 13 rest
  let rest ← after? '-' rest
  let (_, rest) ← twoDigits? 1 (daysIn (digitsValue digits) month + 1) rest
  return rest

/-- The text behind a time; the seconds may be left out, and a minute may have a leap second. -/
def time? (cs : List Char) : Option (List Char) := do
  let (_, rest) ← twoDigits? 0 24 cs
  let rest ← after? ':' rest
  let (_, rest) ← twoDigits? 0 60 rest
  match rest with
  | ':' :: rest => do
    let (_, rest) ← twoDigits? 0 61 rest
    match rest with
    | '.' :: rest =>
      let digits := rest.takeWhile Char.isDigit
      if digits.isEmpty then none else some (rest.drop digits.length)
    | _ => some rest
  | _ => some rest

/-- The text behind an offset from universal time, if there is one. -/
def offset? : List Char → Option (List Char)
  | [] => some []
  | c :: cs =>
    if c = 'Z' ∨ c = 'z' then some cs
    else if c = '+' ∨ c = '-' then do
      let (_, rest) ← twoDigits? 0 24 cs
      let rest ← after? ':' rest
      let (_, rest) ← twoDigits? 0 60 rest
      return rest
    else none

/-- Is the word a time, a date, or a date and a time? -/
def isDatetime (cs : List Char) : Bool :=
  if time? cs = some [] then true
  else match date? cs with
    | none => false
    | some [] => true
    | some (c :: rest) =>
      (c = 'T' || c = 't' || c = ' ') && (time? rest).bind offset? = some []

/-- May the character stand in a word without quotes? -/
def isWordChar (c : Char) : Bool :=
  c.isAlphanum || c = '_' || c = '-' || c = '+' || c = '.' || c = ':'

/-- The word that a text begins with; a date and a time may have a blank between them. -/
def word (cs : List Char) : List Char :=
  let w := cs.takeWhile isWordChar
  match date? w, cs.drop w.length with
  | some [], ' ' :: c :: rest =>
    if c.isDigit then w ++ ' ' :: (c :: rest).takeWhile isWordChar else w
  | _, _ => w

/-- The value of a word without quotes. -/
def scalar? (w : List Char) : Option TomlValue :=
  if w = ['t', 'r', 'u', 'e'] then some (.bool true)
  else if w = ['f', 'a', 'l', 's', 'e'] then some (.bool false)
  else if isDatetime w then some .datetime
  else match integer? w with
    | some v => some v
    | none => float? w

end ScriptLint.TomlText
