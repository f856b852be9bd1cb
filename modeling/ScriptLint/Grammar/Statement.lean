import ScriptLint.Grammar.Expression
import ScriptLint.Token.Scan

/-!
# Statements and programs

A program is any number of statements, and any number of semicolons may follow each.

* `Grammar.Rules`: parsers for expressions, statements and conditionals that work up to some
  depth of nesting; `Rules.next` goes one level deeper. Whatever is nested has a token before it,
  so a text of `n` tokens never nests deeper than `n`.
* `parseTokens`: the program that tokens spell, or the index of the token to blame.
* `parse`: the same with the fault placed in the source text.
-/

namespace ScriptLint

namespace Grammar

open ScriptLint.Parser

/-- Parsers for what can be nested. -/
structure Rules where
  expr : Parser Expr
  stmt : Parser Stmt
  conditional : Parser Stmt

def condition (expr : Parser Expr) : Parser Expr :=
  between .openParen .closeParen expr

def letBind (expr : Parser Expr) : Parser Stmt := do
  keyword .letKw
  let name ← identifier
  symbol .assign
  let value ← expr
  return .letBind name value

/-- `nested` reads the conditional of an `else if`. -/
def conditional (expr : Parser Expr) (stmt nested : Parser Stmt) : Parser Stmt := do
  keyword .ifKw
  let test ← condition expr
  let body ← block stmt
  let orElse ← optional (do
    keyword .elseKw
    Parser.orElse (do return [← nested]) (block stmt))
  return .ifElse test body orElse

def forIn (expr : Parser Expr) (stmt : Parser Stmt) : Parser Stmt := do
  keyword .forKw
  let (name, items) ← between .openParen .closeParen (do
    let name ← identifier
    keyword .inKw
    let items ← expr
    return (name, items))
  let body ← block stmt
  return .forIn name items body

def whileDo (expr : Parser Expr) (stmt : Parser Stmt) : Parser Stmt := do
  keyword .whileKw
  let test ← condition expr
  let body ← block stmt
  return .whileDo test body

def ret (expr : Parser Expr) : Parser Stmt := do
  keyword .returnKw
  let value ← optional expr
  return .ret value

/-- An expression, or an assignment to one. -/
def assignment (expr : Parser Expr) : Parser Stmt := do
  let target ← expr
  let value ← optional (do symbol .assign; expr)
  match value with
  | some value => return .assign target value
  | none => return .expr target

/-- A statement and the semicolons behind it. -/
def statement (expr : Parser Expr) (stmt conditional : Parser Stmt) : Parser Stmt := do
  let s ← choice [letBind expr, conditional, forIn expr stmt, whileDo expr stmt, ret expr,
    assignment expr]
  let _ ← many (symbol .semicolon)
  return s

namespace Rules

/-- No nesting at all: nothing can be read. -/
def none : Rules :=
  ⟨fail, fail, fail⟩

/-- One level deeper. -/
def next (inner : Rules) : Rules :=
  let expr := expression inner.expr inner.stmt
  let branch := Grammar.conditional expr inner.stmt inner.conditional
  ⟨expr, statement expr inner.stmt branch, branch⟩

/-- The rules for texts that nest less than `depth` deep. -/
def upTo (depth : Nat) : Rules :=
  depth.repeat next none

end Rules

end Grammar

/-- The program that the tokens spell, or the index of the token that no way of reading them can
take; that index is the number of tokens if it is their end that comes too soon. -/
def parseTokens (ts : Array Token) : Except Nat Program :=
  let reply := Parser.many (Grammar.Rules.upTo (ts.size + 1)).stmt ts 0
  match reply.found with
  | some (program, i) => if i = ts.size then .ok program else .error reply.reach
  | none => .error reply.reach

/-- Where a text ends too soon: at its end, the stretch leading back to its last token. -/
def endSpan (text : List Char) (lexemes : Array Lexeme) : Span :=
  let stop := Source.byteLength text
  ⟨stop, (lexemes.back?.map fun lexeme => lexeme.span.stop).getD stop⟩

/-- The fault of blaming the token at an index. -/
def blame (text : List Char) (lexemes : Array Lexeme) (i : Nat) : Fault :=
  match lexemes[i]? with
  | some lexeme => Fault.inText text lexeme.span (.unexpectedToken lexeme.token.spelling)
  | none => Fault.inText text (endSpan text lexemes) .unexpectedEnd

/-- The program of a source text, given its tokens. -/
def parse (source : String) (lexemes : Array Lexeme) : Except Fault Program :=
  match parseTokens (lexemes.map Lexeme.token) with
  | .ok program => .ok program
  | .error i => .error (blame source.toList lexemes i)

/-- The program of a source text, or its first fault. -/
def parseSource (source : String) : Except Fault Program := do
  parse source (← tokenize source)

end ScriptLint
