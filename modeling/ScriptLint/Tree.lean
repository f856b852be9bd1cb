import ScriptLint.Decimal.Binary64

/-!
# Syntax trees

What a script says once its spelling is forgotten: parentheses, the two spellings of an operator
and semicolons leave no trace.

* `Expr`, `Stmt`: expressions and statements.
* `Program`: a list of statements.
-/

namespace ScriptLint

inductive UnaryOp
  | not | neg
deriving DecidableEq, Repr

inductive BinaryOp
  | add | sub | mul | div | mod
  | eq | ne | lt | le | gt | ge
  | and | or | coalesce | elvis
deriving DecidableEq, Repr

mutual

/-- An expression. -/
inductive Expr
  | null
  | bool (value : Bool)
  | int (value : Nat)
  | float (value : Binary64)
  | str (value : String)
  | ident (name : String)
  | array (items : List Expr)
  | object (entries : List (String × Expr))
  | fn (params : List String) (body : List Stmt)
  | unary (op : UnaryOp) (operand : Expr)
  | binary (op : BinaryOp) (left right : Expr)
  | ternary (test yes no : Expr)
  | call (callee : Expr) (args : List Expr)
  /-- `safe` if written with `?.` -/
  | member (object : Expr) (property : String) (safe : Bool)
  | index (object key : Expr)

/-- A statement. An `else if` is an `orElse` of one statement. -/
inductive Stmt
  | letBind (name : String) (value : Expr)
  | assign (target value : Expr)
  | expr (value : Expr)
  | ifElse (test : Expr) (body : List Stmt) (orElse : Option (List Stmt))
  | forIn (name : String) (items : Expr) (body : List Stmt)
  | whileDo (test : Expr) (body : List Stmt)
  | ret (value : Option Expr)

end

abbrev Program :=
  List Stmt

end ScriptLint
