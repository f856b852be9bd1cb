import ScriptLint.Proofs.Combinators
import ScriptLint.Tree

/-!
# The grammar of scripts

Which tokens spell which trees, said without a parser. Expressions have ten levels, loosest first:

    expr       = coalesce [ "?" expr ":" expr ]
    coalesce   = or { ("??" | "?:") or }
    or         = and { ("||" | "or") and }
    and        = equality { ("&&" | "and") equality }
    equality   = comparison { ("==" | "!=") comparison }
    comparison = sum { ("<" | "<=" | ">" | ">=") sum }
    sum        = product { ("+" | "-") product }
    product    = unary { ("*" | "/" | "%") unary }
    unary      = { "!" | "not" | "-" } chain
    chain      = primary { call | "." ident | "?." ident | "[" expr "]" }

* `Phrase`: what a stretch of tokens can stand for.
* `Spells next`: the derivations. Each of a level's operators takes all that stands to its left
  as its left operand. Two statements of one block with no semicolon between them must satisfy
  `next`, which relates the former to the first token of the latter.
* `Derives`: the grammar as it is documented, where statements need nothing between them.
* `BinaryOp.tokens`, `BinaryOp.level`: how the binary operators are spelled and how they bind.
-/

namespace ScriptLint

/-- The spellings of an operator that stands before its operand. -/
def UnaryOp.tokens : UnaryOp → List Token
  | not => [.symbol .bang, .keyword .notKw]
  | neg => [.symbol .minus]

namespace BinaryOp

/-- The spellings of an operator that stands between its operands. -/
def tokens : BinaryOp → List Token
  | mul => [.symbol .star]
  | div => [.symbol .slash]
  | mod => [.symbol .percent]
  | add => [.symbol .plus]
  | sub => [.symbol .minus]
  | lt => [.symbol .lt]
  | le => [.symbol .le]
  | gt => [.symbol .gt]
  | ge => [.symbol .ge]
  | eq => [.symbol .eq]
  | ne => [.symbol .ne]
  | and => [.symbol .andAnd, .keyword .andKw]
  | or => [.symbol .orOr, .keyword .orKw]
  | coalesce => [.symbol .coalesce]
  | elvis => [.symbol .elvis]

/-- How loosely the operator binds. -/
def level : BinaryOp → ℕ
  | mul | div | mod => 0
  | add | sub => 1
  | lt | le | gt | ge => 2
  | eq | ne => 3
  | and => 4
  | or => 5
  | coalesce | elvis => 6

end BinaryOp

namespace Grammar

open ScriptLint.Parser (enclosed Commas)

/-- The number of binary levels. -/
def levels : ℕ := 7

/-- A token that is an expression by itself. -/
inductive Atom : Token → Expr → Prop
  | null : Atom (.keyword .nullKw) .null
  | true : Atom (.keyword .trueKw) (.bool true)
  | false : Atom (.keyword .falseKw) (.bool false)
  | int (n : ℕ) : Atom (.int n) (.int n)
  | float (x : Binary64) : Atom (.float x) (.float x)
  | str (s : String) : Atom (.str s) (.str s)
  | ident (name : String) : Atom (.ident name) (.ident name)

/-- What a stretch of tokens can stand for. -/
inductive Phrase
  | primary (e : Expr)
  | chain (e : Expr)
  /-- What stands behind `head` and makes `e` of it: calls, members, indices. -/
  | trailers (head e : Expr)
  /-- An expression whose operators are of the first `k` binary levels. -/
  | operand (k : ℕ) (e : Expr)
  /-- What stands behind `left` and makes `e` of it: operators of level `k` and their operands. -/
  | operators (k : ℕ) (left e : Expr)
  | expr (e : Expr)
  | entry (key : String) (value : Expr)
  | conditional (s : Stmt)
  /-- A statement without the semicolons behind it. -/
  | bare (s : Stmt)
  | stmts (ss : List Stmt)

/-- The tokens spell the phrase. -/
inductive Spells (next : Stmt → Token → Prop) : Phrase → List Token → Prop
  | atom {t e} (h : Atom t e) : Spells next (.primary e) [t]
  | fn {params body us vs} (hparams : Commas (params.map fun name => [.ident name]) us)
      (hbody : Spells next (.stmts body) vs) :
      Spells next (.primary (.fn params body))
        (.keyword .fnKw :: enclosed .openParen .closeParen us ++
          enclosed .openBrace .closeBrace vs)
  | array {us} {items : List (Expr × List Token)}
      (hitems : ∀ x ∈ items, Spells next (.expr x.1) x.2) (hus : Commas (items.map Prod.snd) us) :
      Spells next (.primary (.array (items.map Prod.fst)))
        (enclosed .openBracket .closeBracket us)
  | object {us} {items : List ((String × Expr) × List Token)}
      (hitems : ∀ x ∈ items, Spells next (.entry x.1.1 x.1.2) x.2)
      (hus : Commas (items.map Prod.snd) us) :
      Spells next (.primary (.object (items.map Prod.fst))) (enclosed .openBrace .closeBrace us)
  | paren {e us} (he : Spells next (.expr e) us) :
      Spells next (.primary e) (enclosed .openParen .closeParen us)
  | entry {t key value us} (ht : t = .ident key ∨ t = .str key)
      (hvalue : Spells next (.expr value) us) :
      Spells next (.entry key value) (t :: .symbol .colon :: us)
  | chain {head e us vs} (hhead : Spells next (.primary head) us)
      (hrest : Spells next (.trailers head e) vs) : Spells next (.chain e) (us ++ vs)
  | noTrailer {e} : Spells next (.trailers e e) []
  | call {head e us vs} {args : List (Expr × List Token)}
      (hargs : ∀ x ∈ args, Spells next (.expr x.1) x.2) (hus : Commas (args.map Prod.snd) us)
      (hrest : Spells next (.trailers (.call head (args.map Prod.fst)) e) vs) :
      Spells next (.trailers head e) (enclosed .openParen .closeParen us ++ vs)
  | member {head property safe e us}
      (hrest : Spells next (.trailers (.member head property safe) e) us) :
      Spells next (.trailers head e)
        (.symbol (if safe then .safeDot else .dot) :: .ident property :: us)
  | index {head key e us vs} (hkey : Spells next (.expr key) us)
      (hrest : Spells next (.trailers (.index head key) e) vs) :
      Spells next (.trailers head e) (enclosed .openBracket .closeBracket us ++ vs)
  | innermost {e us} (he : Spells next (.chain e) us) : Spells next (.operand 0 e) us
  | unary {op t e us} (ht : t ∈ op.tokens) (he : Spells next (.operand 0 e) us) :
      Spells next (.operand 0 (.unary op e)) (t :: us)
  | binary {k left e us vs} (hleft : Spells next (.operand k left) us)
      (hrest : Spells next (.operators k left e) vs) : Spells next (.operand (k + 1) e) (us ++ vs)
  | noOperator {k e} : Spells next (.operators k e e) []
  | operator {op t left right e us vs} (ht : t ∈ op.tokens)
      (hright : Spells next (.operand op.level right) us)
      (hrest : Spells next (.operators op.level (.binary op left right) e) vs) :
      Spells next (.operators op.level left e) (t :: us ++ vs)
  | plain {e us} (he : Spells next (.operand levels e) us) : Spells next (.expr e) us
  | ternary {test yes no us vs ws} (htest : Spells next (.operand levels test) us)
      (hyes : Spells next (.expr yes) vs) (hno : Spells next (.expr no) ws) :
      Spells next (.expr (.ternary test yes no))
        (us ++ .symbol .question :: vs ++ .symbol .colon :: ws)
  | letBind {name value us} (hvalue : Spells next (.expr value) us) :
      Spells next (.bare (.letBind name value))
        (.keyword .letKw :: .ident name :: .symbol .assign :: us)
  | assign {target value us vs} (htarget : Spells next (.expr target) us)
      (hvalue : Spells next (.expr value) vs) :
      Spells next (.bare (.assign target value)) (us ++ .symbol .assign :: vs)
  | expr {e us} (he : Spells next (.expr e) us) : Spells next (.bare (.expr e)) us
  | ifElse {s us} (hs : Spells next (.conditional s) us) : Spells next (.bare s) us
  | forIn {name items body us vs} (hitems : Spells next (.expr items) us)
      (hbody : Spells next (.stmts body) vs) :
      Spells next (.bare (.forIn name items body))
        (.keyword .forKw :: enclosed .openParen .closeParen (.ident name :: .keyword .inKw :: us) ++
          enclosed .openBrace .closeBrace vs)
  | whileDo {test body us vs} (htest : Spells next (.expr test) us)
      (hbody : Spells next (.stmts body) vs) :
      Spells next (.bare (.whileDo test body))
        (.keyword .whileKw :: enclosed .openParen .closeParen us ++
          enclosed .openBrace .closeBrace vs)
  | ret : Spells next (.bare (.ret none)) [.keyword .returnKw]
  | retValue {e us} (he : Spells next (.expr e) us) :
      Spells next (.bare (.ret (some e))) (.keyword .returnKw :: us)
  | noElse {test body us vs} (htest : Spells next (.expr test) us)
      (hbody : Spells next (.stmts body) vs) :
      Spells next (.conditional (.ifElse test body none))
        (.keyword .ifKw :: enclosed .openParen .closeParen us ++ enclosed .openBrace .closeBrace vs)
  | withElse {test body orElse us vs ws} (htest : Spells next (.expr test) us)
      (hbody : Spells next (.stmts body) vs) (helse : Spells next (.stmts orElse) ws) :
      Spells next (.conditional (.ifElse test body (some orElse)))
        (.keyword .ifKw :: enclosed .openParen .closeParen us ++
          enclosed .openBrace .closeBrace vs ++
          .keyword .elseKw :: enclosed .openBrace .closeBrace ws)
  | elseIf {test body s us vs ws} (htest : Spells next (.expr test) us)
      (hbody : Spells next (.stmts body) vs) (helse : Spells next (.conditional s) ws) :
      Spells next (.conditional (.ifElse test body (some [s])))
        (.keyword .ifKw :: enclosed .openParen .closeParen us ++
          enclosed .openBrace .closeBrace vs ++ .keyword .elseKw :: ws)
  | noStmt : Spells next (.stmts []) []
  | stmt {s ss us vs} (n : ℕ) (hs : Spells next (.bare s) us) (hss : Spells next (.stmts ss) vs)
      (hnext : n = 0 → ∀ t ∈ vs.head?, next s t) :
      Spells next (.stmts (s :: ss)) (us ++ List.replicate n (.symbol .semicolon) ++ vs)

/-- The tokens spell the phrase, any two statements standing side by side. -/
abbrev Derived : Phrase → List Token → Prop :=
  Spells fun _ _ => True

/-- The tokens spell the program. -/
def Derives (program : Program) (ts : List Token) : Prop :=
  Derived (.stmts program) ts

end Grammar

end ScriptLint
