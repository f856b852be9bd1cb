import ScriptLint.Token.Basic

/-!
# Names that every script knows

The words of the language and the functions of its library, with what an editor shows for them.

* `Vocabulary.keywords`, `Vocabulary.natives`: the tables.
* `Vocabulary.keyword?`, `Vocabulary.native?`: look-up by exact name.
-/

namespace ScriptLint

/-- A function that the runtime provides. -/
structure Native where
  name : String
  signature : String
  description : String
  sample : String
deriving DecidableEq, Repr

namespace Vocabulary

/-- The words of the language in the order they are presented. -/
def keywords : List Keyword :=
  [.letKw, .ifKw, .elseKw, .returnKw, .trueKw, .falseKw, .nullKw, .andKw, .orKw, .notKw,
    .fnKw, .forKw, .inKw, .whileKw]

/-- What a word of the language is for. -/
def describe : Keyword → String
  | .letKw => "Declare a variable"
  | .ifKw => "Conditional statement"
  | .elseKw => "Alternative branch of an if statement"
  | .returnKw => "Return a value from a function"
  | .trueKw => "Boolean true"
  | .falseKw => "Boolean false"
  | .nullKw => "The absence of a value"
  | .andKw => "Logical and"
  | .orKw => "Logical or"
  | .notKw => "Logical negation"
  | .fnKw => "Function literal"
  | .forKw => "Iterate over a collection"
  | .inKw => "Separates the loop variable from its collection"
  | .whileKw => "Loop while a condition holds"

/-- The functions of the library in the order they are presented. -/
def natives : List Native := [
  { name := "json"
    signature := "json(value: any): string"
    description := "Serialize a value to a JSON string"
    sample := "json(\x7b name: \"Ann\" \x7d)" },
  { name := "parseJson"
    signature := "parseJson(text: string): any"
    description := "Parse a JSON string into a value"
    sample := "parseJson(\"\x7b\\\"a\\\": 1\x7d\")" },
  { name := "base64Encode"
    signature := "base64Encode(text: string): string"
    description := "Encode a string as Base64"
    sample := "base64Encode(\"hello\")" },
  { name := "base64Decode"
    signature := "base64Decode(text: string): string"
    description := "Decode a Base64 string"
    sample := "base64Decode(\"aGVsbG8=\")" },
  { name := "urlEncode"
    signature := "urlEncode(text: string): string"
    description := "Percent-encode a string for use in a URL"
    sample := "urlEncode(\"a b\")" },
  { name := "urlDecode"
    signature := "urlDecode(text: string): string"
    description := "Decode a percent-encoded string"
    sample := "urlDecode(\"a%20b\")" },
  { name := "toString"
    signature := "toString(value: any): string"
    description := "Convert a value to its string form"
    sample := "toString(42)" },
  { name := "toNumber"
    signature := "toNumber(text: string): number"
    description := "Parse a number from a string"
    sample := "toNumber(\"3.14\")" },
  { name := "print"
    signature := "print(...values: any[]): void"
    description := "Print values to the output"
    sample := "print(\"total:\", total)" },
  { name := "length"
    signature := "length(value: string | array): number"
    description := "Length of a string or array"
    sample := "length(items)" },
  { name := "substring"
    signature := "substring(text: string, start: number, end?: number): string"
    description := "Extract part of a string"
    sample := "substring(\"hello\", 1, 3)" },
  { name := "upper"
    signature := "upper(text: string): string"
    description := "Convert a string to upper case"
    sample := "upper(\"abc\")" },
  { name := "lower"
    signature := "lower(text: string): string"
    description := "Convert a string to lower case"
    sample := "lower(\"ABC\")" },
  { name := "trim"
    signature := "trim(text: string): string"
    description := "Remove leading and trailing whitespace"
    sample := "trim(\"  hi  \")" },
  { name := "split"
    signature := "split(text: string, separator: string): string[]"
    description := "Split a string into parts"
    sample := "split(\"a,b\", \",\")" },
  { name := "join"
    signature := "join(items: array, separator: string): string"
    description := "Join array items into a string"
    sample := "join([\"a\", \"b\"], \"-\")" },
  { name := "keys"
    signature := "keys(object: object): string[]"
    description := "Keys of an object"
    sample := "keys(user)" },
  { name := "values"
    signature := "values(object: object): any[]"
    description := "Values of an object"
    sample := "values(user)" },
  { name := "contains"
    signature := "contains(haystack: string | array, needle: any): boolean"
    description := "Whether a string or array contains a value"
    sample := "contains(tags, \"new\")" },
  { name := "replace"
    signature := "replace(text: string, search: string, replacement: string): string"
    description := "Replace occurrences of a substring"
    sample := "replace(\"a-b\", \"-\", \"+\")" },
  { name := "abs"
    signature := "abs(n: number): number"
    description := "Absolute value"
    sample := "abs(-3)" },
  { name := "round"
    signature := "round(n: number): number"
    description := "Round to the nearest integer"
    sample := "round(2.5)" },
  { name := "floor"
    signature := "floor(n: number): number"
    description := "Round down"
    sample := "floor(2.7)" },
  { name := "ceil"
    signature := "ceil(n: number): number"
    description := "Round up"
    sample := "ceil(2.1)" }]

/-- The keyword of exactly this name. -/
def keyword? (name : String) : Option Keyword :=
  keywords.find? fun k => k.spelling == name

/-- The library function of exactly this name. -/
def native? (name : String) : Option Native :=
  natives.find? fun f => f.name == name

def isKeyword (name : String) : Bool :=
  (keyword? name).isSome

def isNative (name : String) : Bool :=
  (native? name).isSome

end Vocabulary

end ScriptLint
