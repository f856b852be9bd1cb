import ScriptLint.Decimal.Shortest
import ScriptLint.Source.Position

/-!
# Tokens of KodiScript

The words and marks that a script is made of.

* `Token`: identifiers, literals, keywords and symbols.
* `Token.spelling`: how a token is named in messages.
* `Lexeme`: a token with the stretch of text it stands for.
-/

namespace ScriptLint

/-- The reserved words. -/
inductive Keyword
  | letKw | ifKw | elseKw | returnKw | fnKw | forKw | inKw | whileKw
  | andKw | orKw | notKw | trueKw | falseKw | nullKw
deriving DecidableEq, Repr

/-- Operators and punctuation. -/
inductive Symbol
  | eq | ne | le | ge | lt | gt | assign
  | plus | minus | star | slash | percent
  | andAnd | orOr | bang | safeDot | coalesce | elvis | question
  | colon | dot | comma | semicolon
  | openParen | closeParen | openBrace | closeBrace | openBracket | closeBracket
deriving DecidableEq, Repr

namespace Keyword

def all : List Keyword :=
  [letKw, ifKw, elseKw, returnKw, fnKw, forKw, inKw, whileKw, andKw, orKw, notKw, trueKw, falseKw,
    nullKw]

def spelling : Keyword → String
  | letKw => "let"
  | ifKw => "if"
  | elseKw => "else"
  | returnKw => "return"
  | fnKw => "fn"
  | forKw => "for"
  | inKw => "in"
  | whileKw => "while"
  | andKw => "and"
  | orKw => "or"
  | notKw => "not"
  | trueKw => "true"
  | falseKw => "false"
  | nullKw => "null"

/-- The keyword that a word spells, if any. -/
def ofWord? (word : String) : Option Keyword :=
  all.find? fun k => k.spelling == word

end Keyword

namespace Symbol

def spelling : Symbol → String
  | eq => "=="
  | ne => "!="
  | le => "<="
  | ge => ">="
  | lt => "<"
  | gt => ">"
  | assign => "="
  | plus => "+"
  | minus => "-"
  | star => "*"
  | slash => "/"
  | percent => "%"
  | andAnd => "&&"
  | orOr => "||"
  | bang => "!"
  | safeDot => "?."
  | coalesce => "??"
  | elvis => "?:"
  | question => "?"
  | colon => ":"
  | dot => "."
  | comma => ","
  | semicolon => ";"
  | openParen => "("
  | closeParen => ")"
  | openBrace => "\x7b"
  | closeBrace => "\x7d"
  | openBracket => "["
  | closeBracket => "]"

/-- The symbol of two characters, if they make one. -/
def ofPair? : Char → Char → Option Symbol
  | '=', '=' => some eq
  | '!', '=' => some ne
  | '<', '=' => some le
  | '>', '=' => some ge
  | '&', '&' => some andAnd
  | '|', '|' => some orOr
  | '?', '.' => some safeDot
  | '?', '?' => some coalesce
  | '?', ':' => some elvis
  | _, _ => none

/-- The symbol of one character, if it is one. -/
def ofChar? : Char → Option Symbol
  | '<' => some lt
  | '>' => some gt
  | '=' => some assign
  | '+' => some plus
  | '-' => some minus
  | '*' => some star
  | '/' => some slash
  | '%' => some percent
  | '!' => some bang
  | '?' => some question
  | ':' => some colon
  | '.' => some dot
  | ',' => some comma
  | ';' => some semicolon
  | '(' => some openParen
  | ')' => some closeParen
  | '\x7b' => some openBrace
  | '\x7d' => some closeBrace
  | '[' => some openBracket
  | ']' => some closeBracket
  | _ => none

end Symbol

/-- A token. Integers are below `2 ^ 63`. A string literal that is not closed has no token of its
own: no list of tokens contains one, since reading a text ends there with a fault. -/
inductive Token
  | ident (name : String)
  | int (value : Nat)
  | float (value : Binary64)
  | str (content : String)
  | keyword (k : Keyword)
  | symbol (s : Symbol)
deriving DecidableEq, Repr

namespace Token

/-- How a token is named in a message: a string in double quotes, its content as it is. -/
def spelling : Token → String
  | ident name => name
  | int value => toString value
  | float value => value.positional
  | str content => "\"" ++ content ++ "\""
  | keyword k => k.spelling
  | symbol s => s.spelling

/-- A word is a keyword or an identifier. -/
def ofWord (word : String) : Token :=
  match Keyword.ofWord? word with
  | some k => keyword k
  | none => ident word

end Token

/-- A token and where it stands. -/
structure Lexeme where
  token : Token
  span : Span
deriving DecidableEq, Repr

end ScriptLint
