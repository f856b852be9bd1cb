import ScriptLint.Grammar.Parser
import ScriptLint.Tree

/-!
# Expressions

The levels of an expression, loosest first: ternary, coalescing, `or`, `and`, equality,
comparison, sum, product, unary, and what follows a primary expression (calls, members and
indices). The binary levels associate to the left.

Each parser takes the parsers for the expressions and statements inside it as arguments.
-/

namespace ScriptLint.Grammar

open ScriptLint.Parser

/-- The operators that may stand before an operand. -/
def unaryOp? : Token → Option UnaryOp
  | .symbol .bang => some .not
  | .keyword .notKw => some .not
  | .symbol .minus => some .neg
  | _ => none

def productOp? : Token → Option BinaryOp
  | .symbol .star => some .mul
  | .symbol .slash => some .div
  | .symbol .percent => some .mod
  | _ => none

def sumOp? : Token → Option BinaryOp
  | .symbol .plus => some .add
  | .symbol .minus => some .sub
  | _ => none

def comparisonOp? : Token → Option BinaryOp
  | .symbol .lt => some .lt
  | .symbol .le => some .le
  | .symbol .gt => some .gt
  | .symbol .ge => some .ge
  | _ => none

def equalityOp? : Token → Option BinaryOp
  | .symbol .eq => some .eq
  | .symbol .ne => some .ne
  | _ => none

def andOp? : Token → Option BinaryOp
  | .symbol .andAnd => some .and
  | .keyword .andKw => some .and
  | _ => none

def orOp? : Token → Option BinaryOp
  | .symbol .orOr => some .or
  | .keyword .orKw => some .or
  | _ => none

def coalesceOp? : Token → Option BinaryOp
  | .symbol .coalesce => some .coalesce
  | .symbol .elvis => some .elvis
  | _ => none

/-- The binary levels, tightest first. -/
def binaryLevels : List (Token → Option BinaryOp) :=
  [productOp?, sumOp?, comparisonOp?, equalityOp?, andOp?, orOp?, coalesceOp?]

/-- The tokens that are an expression by themselves. -/
def atom? : Token → Option Expr
  | .keyword .nullKw => some .null
  | .keyword .trueKw => some (.bool true)
  | .keyword .falseKw => some (.bool false)
  | .int n => some (.int n)
  | .float x => some (.float x)
  | .str s => some (.str s)
  | .ident name => some (.ident name)
  | _ => none

/-- The tokens that name an entry of an object. -/
def entryKey? : Token → Option String
  | .ident name => some name
  | .str s => some s
  | _ => none

/-- What can follow a primary expression. -/
inductive Trailer
  | call (args : List Expr)
  | member (property : String) (safe : Bool)
  | index (key : Expr)

def Trailer.apply (object : Expr) : Trailer → Expr
  | call args => .call object args
  | member property safe => .member object property safe
  | index key => .index object key

/-- Statements between braces. -/
def block (stmt : Parser Stmt) : Parser (List Stmt) :=
  between .openBrace .closeBrace (many stmt)

def entry (expr : Parser Expr) : Parser (String × Expr) := do
  let key ← accept entryKey?
  symbol .colon
  let value ← expr
  return (key, value)

def function (stmt : Parser Stmt) : Parser Expr := do
  keyword .fnKw
  let params ← between .openParen .closeParen (listOf identifier)
  let body ← block stmt
  return .fn params body

def primary (expr : Parser Expr) (stmt : Parser Stmt) : Parser Expr :=
  choice [
    accept atom?,
    function stmt,
    .array <$> between .openBracket .closeBracket (listOf expr),
    .object <$> between .openBrace .closeBrace (listOf (entry expr)),
    between .openParen .closeParen expr]

def member (mark : Symbol) (safe : Bool) : Parser Trailer := do
  symbol mark
  let property ← identifier
  return .member property safe

def trailer (expr : Parser Expr) : Parser Trailer :=
  choice [
    .call <$> between .openParen .closeParen (listOf expr),
    member .dot false,
    member .safeDot true,
    .index <$> between .openBracket .closeBracket expr]

/-- A primary expression and what follows it. -/
def chain (expr : Parser Expr) (stmt : Parser Stmt) : Parser Expr := do
  let head ← primary expr stmt
  let trailers ← many (trailer expr)
  return trailers.foldl Trailer.apply head

/-- Operators before an operand, the innermost last. -/
def unary (operand : Parser Expr) : Parser Expr := do
  let ops ← many (accept unaryOp?)
  let e ← operand
  return ops.foldr .unary e

/-- Operands with the operators of one level between them. -/
def binaryLevel (op? : Token → Option BinaryOp) (operand : Parser Expr) : Parser Expr := do
  let head ← operand
  let rest ← many (do
    let op ← accept op?
    let right ← operand
    return (op, right))
  return rest.foldl (fun left (op, right) => .binary op left right) head

/-- All binary levels over the given operand. -/
def binary (operand : Parser Expr) : Parser Expr :=
  binaryLevels.foldl (fun p op? => binaryLevel op? p) operand

def ternary (expr operand : Parser Expr) : Parser Expr := do
  let test ← operand
  let branches ← optional (do
    symbol .question
    let yes ← expr
    symbol .colon
    let no ← expr
    return (yes, no))
  match branches with
  | some (yes, no) => return .ternary test yes no
  | none => return test

/-- An expression, given how to read those inside it. -/
def expression (expr : Parser Expr) (stmt : Parser Stmt) : Parser Expr :=
  ternary expr (binary (unary (chain expr stmt)))

end ScriptLint.Grammar
