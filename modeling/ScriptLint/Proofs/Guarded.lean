import Mathlib.Data.Nat.Notation
import ScriptLint.Grammar.Statement

/-!
# Guarded recursion

One level of the rules, taken apart into the combinators that it is made of. Each rule takes a token
before it enters a rule inside it, each repetition is of a parser that takes a token, and no test of
a token tells the two spellings of a logical operator apart. Whatever the combinators preserve under
these conditions, one level of the rules preserves.

* `Token.respelled`: the other spelling of a logical operator.
* `Guarded r r' n g p q`: `q` is made of the rules `r'` as `p` is of `r`; they take `n` tokens at
  least, and `g` tokens before they enter a rule.
* `guarded_expression`, `guarded_conditional`, `guarded_statement`: **the recursion is guarded.**
-/

namespace ScriptLint

/-! ## Spellings of the logical operators -/

namespace Token

/-- A logical operator as a symbol if it is a word, and as a word if it is a symbol. -/
def respelled : Token → Token
  | keyword .andKw => symbol .andAnd
  | symbol .andAnd => keyword .andKw
  | keyword .orKw => symbol .orOr
  | symbol .orOr => keyword .orKw
  | keyword .notKw => symbol .bang
  | symbol .bang => keyword .notKw
  | t => t

@[simp]
theorem respelled_respelled (t : Token) : t.respelled.respelled = t := by
  cases t with
  | keyword w => cases w <;> rfl
  | symbol s => cases s <;> rfl
  | _ => rfl

theorem respelled_eq_iff {t u : Token} : t.respelled = u ↔ t = u.respelled := by
  constructor
  · rintro rfl
    exact (respelled_respelled t).symm
  · rintro rfl
    exact respelled_respelled u

end Token

namespace Grammar

open ScriptLint.Parser

/-- The test says the same of both spellings of an operator. -/
def Tolerant {α : Type} (f : Token → Option α) : Prop :=
  ∀ t, f t.respelled = f t

theorem tolerant_of_pairs {α : Type} {f : Token → Option α}
    (hand : f (.keyword .andKw) = f (.symbol .andAnd))
    (hor : f (.keyword .orKw) = f (.symbol .orOr))
    (hnot : f (.keyword .notKw) = f (.symbol .bang)) : Tolerant f := by
  intro t
  unfold Token.respelled
  split
  · exact hand.symm
  · exact hand
  · exact hor.symm
  · exact hor
  · exact hnot.symm
  · exact hnot
  · rfl

theorem tolerant_token {t : Token} (ht : t.respelled = t) :
    Tolerant fun u => if u = t then some () else none := by
  intro u
  simp only [Token.respelled_eq_iff, ht]

theorem tolerant_of_mem_binaryLevels :
    ∀ op? ∈ binaryLevels, Tolerant op? := by
  simp only [binaryLevels, List.forall_mem_cons]
  exact ⟨tolerant_of_pairs rfl rfl rfl, tolerant_of_pairs rfl rfl rfl,
    tolerant_of_pairs rfl rfl rfl, tolerant_of_pairs rfl rfl rfl, tolerant_of_pairs rfl rfl rfl,
    tolerant_of_pairs rfl rfl rfl, tolerant_of_pairs rfl rfl rfl, nofun⟩

/-! ## Parsers made of rules -/

/-- The parser `q` is made of the rules `r'` as `p` is made of `r`. They take `n` tokens at least,
and before they enter a rule they take `g`. -/
inductive Guarded (r r' : Rules) : {α : Type} → ℕ → ℕ → Parser α → Parser α → Prop
  | expr : Guarded r r' 1 0 r.expr r'.expr
  | stmt : Guarded r r' 1 0 r.stmt r'.stmt
  | conditional : Guarded r r' 1 0 r.conditional r'.conditional
  | pure {α : Type} {g : ℕ} (a : α) : Guarded r r' 0 g (pure a) (pure a)
  | fail {α : Type} {n g : ℕ} : Guarded r r' n g (fail : Parser α) fail
  | accept {α : Type} {g : ℕ} {f : Token → Option α} (hf : Tolerant f) :
      Guarded r r' 1 g (accept f) (accept f)
  | bind {α β : Type} {m n g : ℕ} {p q : Parser α} {f f' : α → Parser β}
      (hp : Guarded r r' m g p q) (hf : ∀ a, Guarded r r' n (g - m) (f a) (f' a)) :
      Guarded r r' (m + n) g (p >>= f) (q >>= f')
  | orElse {α : Type} {n g : ℕ} {p p' q q' : Parser α} (hp : Guarded r r' n g p q)
      (hp' : Guarded r r' n g p' q') : Guarded r r' n g (p.orElse p') (q.orElse q')
  | many {α : Type} {g : ℕ} {p q : Parser α} (hp : Guarded r r' 1 g p q) :
      Guarded r r' 0 g (many p) (many q)
  | mono {α : Type} {n n' g g' : ℕ} {p q : Parser α} (hp : Guarded r r' n g p q) (hn : n' ≤ n)
      (hg : g' ≤ g) : Guarded r r' n' g' p q

namespace Guarded

variable {r r' : Rules} {α β : Type} {m n g : ℕ} {p q : Parser α} {f f' : α → Parser β}

/-! ### Derived parsers -/

theorem seq (hp : Guarded r r' m g p q) (hf : ∀ a, Guarded r r' n g (f a) (f' a)) :
    Guarded r r' m g (p >>= f) (q >>= f') :=
  (hp.bind fun a => (hf a).mono (Nat.le_refl n) (Nat.sub_le g m)).mono (Nat.le_add_right m n)
    (Nat.le_refl g)

theorem seq_right (hp : Guarded r r' m g p q) (hf : ∀ a, Guarded r r' n g (f a) (f' a)) :
    Guarded r r' n g (p >>= f) (q >>= f') :=
  (hp.bind fun a => (hf a).mono (Nat.le_refl n) (Nat.sub_le g m)).mono (Nat.le_add_left n m)
    (Nat.le_refl g)

/-- What stands behind a token may enter a rule at once. -/
theorem nest (hp : Guarded r r' 1 1 p q) (hf : ∀ a, Guarded r r' n 0 (f a) (f' a)) :
    Guarded r r' 1 1 (p >>= f) (q >>= f') :=
  (hp.bind hf).mono (Nat.le_add_right 1 n) (Nat.le_refl 1)

theorem loose (hp : Guarded r r' n g p q) : Guarded r r' n 0 p q :=
  hp.mono (Nat.le_refl n) (Nat.zero_le g)

theorem map {h : α → β} (hp : Guarded r r' n g p q) : Guarded r r' n g (h <$> p) (h <$> q) :=
  hp.seq fun a => .pure (h a)

theorem optional (hp : Guarded r r' n g p q) : Guarded r r' 0 g (optional p) (optional q) :=
  (hp.map.mono (Nat.zero_le n) (Nat.le_refl g)).orElse (.pure none)

theorem keyword (w : Keyword) (hw : (Token.keyword w).respelled = .keyword w) :
    Guarded r r' 1 g (keyword w) (keyword w) :=
  .accept (tolerant_token hw)

theorem symbol (s : Symbol) (hs : (Token.symbol s).respelled = .symbol s) :
    Guarded r r' 1 g (symbol s) (symbol s) :=
  .accept (tolerant_token hs)

theorem identifier : Guarded r r' 1 g identifier identifier :=
  .accept (tolerant_of_pairs rfl rfl rfl)

theorem between {opening closing : Symbol}
    (ho : (Token.symbol opening).respelled = .symbol opening)
    (hc : (Token.symbol closing).respelled = .symbol closing) (hp : Guarded r r' n 0 p q) :
    Guarded r r' 1 1 (between opening closing p) (between opening closing q) :=
  (symbol opening ho).nest fun _ => hp.seq fun a => (symbol closing hc).seq fun _ => .pure a

theorem item (hp : Guarded r r' n g p q) :
    Guarded r r' 1 g (do Parser.symbol .comma; p) (do Parser.symbol .comma; q) :=
  (symbol .comma rfl).seq fun _ => hp

theorem listOf (hp : Guarded r r' n g p q) : Guarded r r' 0 g (listOf p) (listOf q) := by
  refine hp.optional.seq (n := 0) fun o => ?_
  cases o with
  | none => exact .pure []
  | some a =>
    exact hp.item.many.seq fun as => (symbol .comma rfl).optional.seq fun _ => .pure (a :: as)

end Guarded

/-! ## One level of the rules -/

section Level

variable {r r' : Rules} {g : ℕ}

theorem guarded_block : Guarded r r' 1 1 (block r.stmt) (block r'.stmt) :=
  Guarded.stmt.many.between rfl rfl

theorem guarded_entry : Guarded r r' 1 0 (entry r.expr) (entry r'.expr) :=
  (Guarded.accept (tolerant_of_pairs rfl rfl rfl)).seq fun key =>
    (Guarded.symbol .colon rfl).seq fun _ => Guarded.expr.seq fun value => .pure (key, value)

theorem guarded_function : Guarded r r' 1 1 (function r.stmt) (function r'.stmt) :=
  (Guarded.keyword .fnKw rfl).seq fun _ =>
    (Guarded.identifier.listOf.between rfl rfl).seq fun params =>
      guarded_block.seq fun body => .pure (Expr.fn params body)

theorem guarded_primary : Guarded r r' 1 1 (primary r.expr r.stmt) (primary r'.expr r'.stmt) :=
  (Guarded.accept (tolerant_of_pairs rfl rfl rfl)).orElse <| guarded_function.orElse <|
    (Guarded.expr.listOf.between rfl rfl).map.orElse <|
      (guarded_entry.listOf.between rfl rfl).map.orElse <|
        (Guarded.expr.between rfl rfl).orElse .fail

theorem guarded_trailer : Guarded r r' 1 1 (trailer r.expr) (trailer r'.expr) := by
  have hmember : ∀ mark safe, (Token.symbol mark).respelled = .symbol mark →
      Guarded r r' 1 1 (member mark safe) (member mark safe) :=
    fun mark safe hmark => (Guarded.symbol mark hmark).seq fun _ =>
      Guarded.identifier.seq fun property => .pure (Trailer.member property safe)
  exact (Guarded.expr.listOf.between rfl rfl).map.orElse <| (hmember .dot false rfl).orElse <|
    (hmember .safeDot true rfl).orElse <| (Guarded.expr.between rfl rfl).map.orElse .fail

theorem guarded_chain : Guarded r r' 1 1 (chain r.expr r.stmt) (chain r'.expr r'.stmt) :=
  guarded_primary.seq fun head => guarded_trailer.many.seq fun trailers =>
    .pure (trailers.foldl Trailer.apply head)

theorem guarded_unaryOp : Guarded r r' 1 g (accept unaryOp?) (accept unaryOp?) :=
  .accept (tolerant_of_pairs rfl rfl rfl)

section Operators

variable {operand operand' : Parser Expr} (ho : Guarded r r' 1 g operand operand')

include ho

theorem guarded_unary : Guarded r r' 1 g (unary operand) (unary operand') :=
  guarded_unaryOp.many.seq_right fun ops => ho.seq fun e => .pure (ops.foldr Expr.unary e)

theorem guarded_operation {op? : Token → Option BinaryOp} (hop : Tolerant op?) :
    Guarded r r' 1 g
      (do let op ← accept op?; let right ← operand; return (op, right))
      (do let op ← accept op?; let right ← operand'; return (op, right)) :=
  (Guarded.accept hop).seq fun op => ho.seq fun right => .pure (op, right)

theorem guarded_binaryLevel {op? : Token → Option BinaryOp} (hop : Tolerant op?) :
    Guarded r r' 1 g (binaryLevel op? operand) (binaryLevel op? operand') :=
  ho.seq fun _ => (guarded_operation ho hop).many.seq fun _ => .pure _

end Operators

theorem guarded_binary {operand operand' : Parser Expr} (ho : Guarded r r' 1 g operand operand') :
    Guarded r r' 1 g (binary operand) (binary operand') := by
  have hops := tolerant_of_mem_binaryLevels
  unfold binary
  generalize binaryLevels = levels at hops ⊢
  induction levels generalizing operand operand' with
  | nil => exact ho
  | cons op? ops ih =>
    obtain ⟨hop, hops⟩ := List.forall_mem_cons.1 hops
    exact ih (guarded_binaryLevel ho hop) hops

theorem guarded_ternary {operand operand' : Parser Expr} (ho : Guarded r r' 1 1 operand operand') :
    Guarded r r' 1 1 (ternary r.expr operand) (ternary r'.expr operand') := by
  have hbranches : Guarded r r' 1 1
      (do symbol .question; let yes ← r.expr; symbol .colon; let no ← r.expr; return (yes, no))
      (do symbol .question; let yes ← r'.expr; symbol .colon; let no ← r'.expr; return (yes, no)) :=
    (Guarded.symbol .question rfl).nest fun _ => Guarded.expr.seq fun yes =>
      (Guarded.symbol .colon rfl).seq fun _ => Guarded.expr.seq fun no => .pure (yes, no)
  refine ho.seq fun test => hbranches.optional.seq (n := 0) fun branches => ?_
  cases branches with
  | none => exact .pure test
  | some x => exact .pure (Expr.ternary test x.1 x.2)

/-- **An expression takes a token before it enters a rule.** -/
theorem guarded_expression : Guarded r r' 1 1 r.next.expr r'.next.expr :=
  guarded_ternary (guarded_binary (guarded_unary guarded_chain))

section Statements

variable {expr expr' : Parser Expr} (he : Guarded r r' 1 g expr expr')

include he

theorem guarded_letBind : Guarded r r' 1 g (letBind expr) (letBind expr') :=
  (Guarded.keyword .letKw rfl).seq fun _ => Guarded.identifier.seq fun name =>
    (Guarded.symbol .assign rfl).seq fun _ => he.seq fun value => .pure (Stmt.letBind name value)

theorem guarded_condition : Guarded r r' 1 1 (condition expr) (condition expr') :=
  he.loose.between rfl rfl

theorem guarded_branch : Guarded r r' 1 1 (conditional expr r.stmt r.conditional)
    (conditional expr' r'.stmt r'.conditional) := by
  have helse : Guarded r r' 1 1
      (do keyword .elseKw; Parser.orElse (do return [← r.conditional]) (block r.stmt))
      (do keyword .elseKw; Parser.orElse (do return [← r'.conditional]) (block r'.stmt)) :=
    (Guarded.keyword .elseKw rfl).nest fun _ =>
      (Guarded.conditional.seq fun s => .pure [s]).orElse guarded_block.loose
  exact (Guarded.keyword .ifKw rfl).seq fun _ => (guarded_condition he).seq fun test =>
    guarded_block.seq fun body => helse.optional.seq fun orElse =>
      .pure (Stmt.ifElse test body orElse)

theorem guarded_forIn : Guarded r r' 1 1 (forIn expr r.stmt) (forIn expr' r'.stmt) := by
  have hheader : Guarded r r' 1 0
      (do let name ← identifier; keyword .inKw; let items ← expr; return (name, items))
      (do let name ← identifier; keyword .inKw; let items ← expr'; return (name, items)) :=
    Guarded.identifier.seq fun name => (Guarded.keyword .inKw rfl).seq fun _ =>
      he.loose.seq fun items => .pure (name, items)
  exact (Guarded.keyword .forKw rfl).seq fun _ => (hheader.between rfl rfl).seq fun x =>
    guarded_block.seq fun body => .pure (Stmt.forIn x.1 x.2 body)

theorem guarded_whileDo : Guarded r r' 1 1 (whileDo expr r.stmt) (whileDo expr' r'.stmt) :=
  (Guarded.keyword .whileKw rfl).seq fun _ => (guarded_condition he).seq fun test =>
    guarded_block.seq fun body => .pure (Stmt.whileDo test body)

theorem guarded_ret : Guarded r r' 1 g (ret expr) (ret expr') :=
  (Guarded.keyword .returnKw rfl).seq fun _ => he.optional.seq fun value => .pure (Stmt.ret value)

theorem guarded_assignment : Guarded r r' 1 g (assignment expr) (assignment expr') := by
  have hvalue : Guarded r r' 1 g (do symbol .assign; expr) (do symbol .assign; expr') :=
    (Guarded.symbol .assign rfl).seq fun _ => he
  refine he.seq fun target => hvalue.optional.seq (n := 0) fun value => ?_
  cases value with
  | none => exact .pure (Stmt.expr target)
  | some value => exact .pure (Stmt.assign target value)

end Statements

/-- **A conditional takes a token before it enters a rule.** -/
theorem guarded_conditional : Guarded r r' 1 1 r.next.conditional r'.next.conditional :=
  guarded_branch guarded_expression

/-- **A statement takes a token before it enters a rule.** -/
theorem guarded_statement : Guarded r r' 1 1 r.next.stmt r'.next.stmt := by
  have he : Guarded r r' 1 1 r.next.expr r'.next.expr := guarded_expression
  have hbare : Guarded r r' 1 1
      (choice [letBind r.next.expr, r.next.conditional, forIn r.next.expr r.stmt,
        whileDo r.next.expr r.stmt, ret r.next.expr, assignment r.next.expr])
      (choice [letBind r'.next.expr, r'.next.conditional, forIn r'.next.expr r'.stmt,
        whileDo r'.next.expr r'.stmt, ret r'.next.expr, assignment r'.next.expr]) :=
    (guarded_letBind he).orElse <| guarded_conditional.orElse <| (guarded_forIn he).orElse <|
      (guarded_whileDo he).orElse <| (guarded_ret he).orElse <| (guarded_assignment he).orElse .fail
  exact hbare.seq fun s => (Guarded.symbol .semicolon rfl).many.seq fun _ => .pure s

end Level

end Grammar

end ScriptLint
