import ScriptLint.Proofs.Completeness

/-!
# Writing trees as tokens

Every tree can be written so that it is read back. A part of an expression is put in parentheses
where its outermost form is looser than its place allows (`rank`, `guarded`), and nowhere else;
every statement is followed by one semicolon.

* `exprTokens`, `stmtTokens`, `stmtsTokens`: the rendering, by recursion on the tree.
* `Spells.chain_append`, `Spells.operand_append`: derivations grow to the right, as chains and
  left-associative levels do.
* `rendered_stmts`: the rendering derives its tree.
* `parse_complete`: what derives a program is read as that program, its rendering in particular.
-/

namespace ScriptLint

/-- The first spelling of an operator. -/
def UnaryOp.token : UnaryOp → Token
  | not => .symbol .bang
  | neg => .symbol .minus

/-- The first spelling of an operator. -/
def BinaryOp.token : BinaryOp → Token
  | mul => .symbol .star
  | div => .symbol .slash
  | mod => .symbol .percent
  | add => .symbol .plus
  | sub => .symbol .minus
  | lt => .symbol .lt
  | le => .symbol .le
  | gt => .symbol .gt
  | ge => .symbol .ge
  | eq => .symbol .eq
  | ne => .symbol .ne
  | and => .symbol .andAnd
  | or => .symbol .orOr
  | coalesce => .symbol .coalesce
  | elvis => .symbol .elvis

theorem UnaryOp.token_mem (op : UnaryOp) : op.token ∈ op.tokens := by
  cases op <;> decide

theorem BinaryOp.token_mem (op : BinaryOp) : op.token ∈ op.tokens := by
  cases op <;> decide

theorem BinaryOp.level_lt (op : BinaryOp) : op.level < Grammar.levels := by
  cases op <;> decide

namespace Grammar

open ScriptLint.Parser (enclosed Commas)

/-- How loose the outermost form of an expression is: calls, members, indices and what needs no
operand at all; unary operators; the binary levels; the ternary form. -/
def rank : Expr → ℕ
  | .unary _ _ => 1
  | .binary op _ _ => op.level + 2
  | .ternary _ _ _ => 9
  | _ => 0

/-- The tokens of an expression where forms up to a rank can stand, in parentheses if its own is
looser. -/
def guarded (n : ℕ) (e : Expr) (us : List Token) : List Token :=
  if rank e ≤ n then us else enclosed .openParen .closeParen us

/-- Pieces with commas between them. -/
def commaJoin : List (List Token) → List Token
  | [] => []
  | us :: uss => us ++ uss.flatMap (Token.symbol .comma :: ·)

mutual

/-- The tokens of an expression, with parentheses only where its parts are looser than their
places. -/
def exprTokens : Expr → List Token
  | .null => [.keyword .nullKw]
  | .bool true => [.keyword .trueKw]
  | .bool false => [.keyword .falseKw]
  | .int n => [.int n]
  | .float x => [.float x]
  | .str s => [.str s]
  | .ident name => [.ident name]
  | .array items => enclosed .openBracket .closeBracket (commaJoin (itemTokens items))
  | .object entries => enclosed .openBrace .closeBrace (commaJoin (entryTokens entries))
  | .fn params body =>
    .keyword .fnKw :: enclosed .openParen .closeParen
      (commaJoin (params.map fun name => [.ident name])) ++
      enclosed .openBrace .closeBrace (stmtsTokens body)
  | .unary op e => op.token :: guarded 1 e (exprTokens e)
  | .binary op left right =>
    guarded (op.level + 2) left (exprTokens left) ++
      op.token :: guarded (op.level + 1) right (exprTokens right)
  | .ternary test yes no =>
    guarded 8 test (exprTokens test) ++ .symbol .question :: exprTokens yes ++
      .symbol .colon :: exprTokens no
  | .call callee args =>
    guarded 0 callee (exprTokens callee) ++
      enclosed .openParen .closeParen (commaJoin (itemTokens args))
  | .member object property safe =>
    guarded 0 object (exprTokens object) ++
      [.symbol (if safe then .safeDot else .dot), .ident property]
  | .index object key =>
    guarded 0 object (exprTokens object) ++ enclosed .openBracket .closeBracket (exprTokens key)

def itemTokens : List Expr → List (List Token)
  | [] => []
  | e :: es => exprTokens e :: itemTokens es

def entryTokens : List (String × Expr) → List (List Token)
  | [] => []
  | (key, e) :: entries => (.str key :: .symbol .colon :: exprTokens e) :: entryTokens entries

/-- The tokens of a statement without a semicolon. -/
def stmtTokens : Stmt → List Token
  | .letBind name value => .keyword .letKw :: .ident name :: .symbol .assign :: exprTokens value
  | .assign target value => exprTokens target ++ .symbol .assign :: exprTokens value
  | .expr e => exprTokens e
  | .ifElse test body none =>
    .keyword .ifKw :: enclosed .openParen .closeParen (exprTokens test) ++
      enclosed .openBrace .closeBrace (stmtsTokens body)
  | .ifElse test body (some orElse) =>
    .keyword .ifKw :: enclosed .openParen .closeParen (exprTokens test) ++
      enclosed .openBrace .closeBrace (stmtsTokens body) ++
      .keyword .elseKw :: enclosed .openBrace .closeBrace (stmtsTokens orElse)
  | .forIn name items body =>
    .keyword .forKw ::
      enclosed .openParen .closeParen (.ident name :: .keyword .inKw :: exprTokens items) ++
      enclosed .openBrace .closeBrace (stmtsTokens body)
  | .whileDo test body =>
    .keyword .whileKw :: enclosed .openParen .closeParen (exprTokens test) ++
      enclosed .openBrace .closeBrace (stmtsTokens body)
  | .ret none => [.keyword .returnKw]
  | .ret (some e) => .keyword .returnKw :: exprTokens e

/-- The tokens of statements, a semicolon behind each. -/
def stmtsTokens : List Stmt → List Token
  | [] => []
  | s :: ss => stmtTokens s ++ .symbol .semicolon :: stmtsTokens ss

end

theorem commas_commaJoin (uss : List (List Token)) : Commas uss (commaJoin uss) := by
  cases uss with
  | nil => exact .nil
  | cons us uss =>
    have h := Commas.cons us uss (.inl rfl)
    rwa [List.append_nil] at h

theorem itemTokens_eq (es : List Expr) : itemTokens es = es.map exprTokens := by
  induction es with
  | nil => rfl
  | cons e es ih => rw [itemTokens, ih]; rfl

theorem entryTokens_eq (entries : List (String × Expr)) :
    entryTokens entries =
      entries.map fun x => .str x.1 :: .symbol .colon :: exprTokens x.2 := by
  induction entries with
  | nil => rfl
  | cons x entries ih => rw [entryTokens, ih]; rfl

/-! ## Derivations that go on to the right -/

section Append

variable {next : Stmt → Token → Prop}

theorem Spells.trailers_append {ph : Phrase} {us : List Token} (h : Spells next ph us) :
    ∀ {head mid e : Expr} {vs : List Token}, ph = .trailers head mid →
      Spells next (.trailers mid e) vs → Spells next (.trailers head e) (us ++ vs) := by
  induction h with
  | noTrailer =>
    intro head mid e vs heq hvs
    cases heq
    exact hvs
  | call hargs hus _ _ ih =>
    intro head mid e vs heq hvs
    cases heq
    rw [List.append_assoc]
    exact .call hargs hus (ih rfl hvs)
  | member _ ih =>
    intro head mid e vs heq hvs
    cases heq
    exact .member (ih rfl hvs)
  | index hkey _ _ ih =>
    intro head mid e vs heq hvs
    cases heq
    rw [List.append_assoc]
    exact .index hkey (ih rfl hvs)
  | _ => intro head mid e vs heq; cases heq

theorem Spells.operators_append {ph : Phrase} {us : List Token} (h : Spells next ph us) :
    ∀ {k : ℕ} {left mid e : Expr} {vs : List Token}, ph = .operators k left mid →
      Spells next (.operators k mid e) vs → Spells next (.operators k left e) (us ++ vs) := by
  induction h with
  | noOperator =>
    intro k left mid e vs heq hvs
    cases heq
    exact hvs
  | operator ht hright _ _ ih =>
    intro k left mid e vs heq hvs
    cases heq
    rw [List.append_assoc]
    exact .operator ht hright (ih rfl hvs)
  | _ => intro k left mid e vs heq; cases heq

/-- A chain goes on with a trailer. -/
theorem Spells.chain_append {head e : Expr} {us vs : List Token}
    (h : Spells next (.chain head) us) (hvs : Spells next (.trailers head e) vs) :
    Spells next (.chain e) (us ++ vs) := by
  cases h with
  | chain hprimary htrailers =>
    rw [List.append_assoc]
    exact .chain hprimary (htrailers.trailers_append rfl hvs)

/-- An operand goes on with an operator of its loosest level. -/
theorem Spells.operand_append {k : ℕ} {left e : Expr} {us vs : List Token}
    (h : Spells next (.operand (k + 1) left) us) (hvs : Spells next (.operators k left e) vs) :
    Spells next (.operand (k + 1) e) (us ++ vs) := by
  cases h with
  | binary hleft hrest =>
    rw [List.append_assoc]
    exact .binary hleft (hrest.operators_append rfl hvs)

theorem Spells.lift {j k : ℕ} {e : Expr} {us : List Token} (h : Spells next (.operand j e) us)
    (hjk : j ≤ k) : Spells next (.operand k e) us := by
  induction k with
  | zero =>
    rw [Nat.le_zero.1 hjk] at h
    exact h
  | succ k ih =>
    rcases Nat.eq_or_lt_of_le hjk with rfl | hlt
    · exact h
    · -- one level up, with no operator of that level
      have h' := Spells.binary (ih (Nat.le_of_lt_succ hlt)) .noOperator
      rwa [List.append_nil] at h'

theorem Spells.chain_of_primary {e : Expr} {us : List Token} (h : Spells next (.primary e) us) :
    Spells next (.chain e) us := by
  have h' := Spells.chain h .noTrailer
  rwa [List.append_nil] at h'

end Append

/-! ## The rendering derives its tree -/

section Rendering

variable {next : Stmt → Token → Prop}

/-- The tokens spell the expression at every place that its rank allows. -/
structure Rendered (next : Stmt → Token → Prop) (e : Expr) (us : List Token) : Prop where
  chain : rank e = 0 → Spells next (.chain e) us
  operand : ∀ k ≤ levels, rank e ≤ k + 1 → Spells next (.operand k e) us
  expr : Spells next (.expr e) us

theorem Rendered.of_operand {e : Expr} {us : List Token} {k : ℕ} (hk : k ≤ levels)
    (hrank : rank e = k + 1) (h : Spells next (.operand k e) us) : Rendered next e us where
  chain h0 := by omega
  operand _ _ hj := h.lift (by omega)
  expr := .plain (h.lift hk)

theorem Rendered.of_expr {e : Expr} {us : List Token} (hrank : levels + 1 < rank e)
    (h : Spells next (.expr e) us) : Rendered next e us where
  chain h0 := by omega
  operand _ _ _ := by omega
  expr := h

theorem Rendered.of_chain {e : Expr} {us : List Token} (h : Spells next (.chain e) us) :
    Rendered next e us where
  chain _ := h
  operand k _ _ := (Spells.innermost h).lift (Nat.zero_le k)
  expr := .plain ((Spells.innermost h).lift (Nat.zero_le levels))

theorem Rendered.of_primary {e : Expr} {us : List Token} (h : Spells next (.primary e) us) :
    Rendered next e us :=
  .of_chain h.chain_of_primary

theorem Rendered.guarded_zero {e : Expr} {us : List Token} (h : Rendered next e us) :
    Spells next (.chain e) (guarded 0 e us) := by
  unfold guarded
  split
  next h0 => exact h.chain (Nat.le_zero.1 h0)
  next => exact Spells.chain_of_primary (.paren h.expr)

theorem Rendered.guarded_succ {e : Expr} {us : List Token} (h : Rendered next e us) {k : ℕ}
    (hk : k ≤ levels) : Spells next (.operand k e) (guarded (k + 1) e us) := by
  unfold guarded
  split
  next hrank => exact h.operand k hk hrank
  next => exact (Spells.innermost (Spells.chain_of_primary (.paren h.expr))).lift (Nat.zero_le k)

/-- Items and the tokens of each, as derivations pair them. -/
theorem exists_items {α : Type} {P : α → List Token → Prop} {tokens : α → List Token}
    {xs : List α} (h : ∀ x ∈ xs, P x (tokens x)) :
    ∃ items : List (α × List Token), items.map Prod.fst = xs ∧ (∀ x ∈ items, P x.1 x.2) ∧
      Commas (items.map Prod.snd) (commaJoin (xs.map tokens)) := by
  refine ⟨xs.map fun x => (x, tokens x), ?_, ?_, ?_⟩
  · simp [Function.comp_def]
  · simpa using h
  · simpa [Function.comp_def] using commas_commaJoin (xs.map tokens)

mutual

theorem rendered_expr : (e : Expr) → Rendered next e (exprTokens e)
  | .null => .of_primary (.atom .null)
  | .bool true => .of_primary (.atom .true)
  | .bool false => .of_primary (.atom .false)
  | .int n => .of_primary (.atom (.int n))
  | .float x => .of_primary (.atom (.float x))
  | .str s => .of_primary (.atom (.str s))
  | .ident name => .of_primary (.atom (.ident name))
  | .array es => by
    obtain ⟨items, hfst, hitems, hcommas⟩ := exists_items (rendered_items es)
    rw [exprTokens, itemTokens_eq, ← hfst]
    exact .of_primary (.array hitems (hfst ▸ hcommas))
  | .object entries => by
    obtain ⟨items, hfst, hitems, hcommas⟩ := exists_items (rendered_entries entries)
    rw [exprTokens, entryTokens_eq, ← hfst]
    exact .of_primary (.object hitems (hfst ▸ hcommas))
  | .fn params body => .of_primary (.fn (commas_commaJoin _) (rendered_stmts body))
  | .unary op e =>
    .of_operand (k := 0) (by decide) rfl
      (.unary op.token_mem ((rendered_expr e).guarded_succ (by decide)))
  | .binary op left right => by
    -- the left operand may have operators of the same level, the right one may not
    have hleft := (rendered_expr left).guarded_succ op.level_lt
    have hright := (rendered_expr right).guarded_succ (Nat.le_of_lt op.level_lt)
    have hbinary := hleft.operand_append (.operator op.token_mem hright .noOperator)
    rw [List.append_nil] at hbinary
    exact .of_operand op.level_lt rfl hbinary
  | .ternary test yes no =>
    .of_expr (Nat.lt_succ_self (levels + 1))
      (.ternary ((rendered_expr test).guarded_succ (Nat.le_refl levels)) (rendered_expr yes).expr
        (rendered_expr no).expr)
  | .call callee args => by
    obtain ⟨items, hfst, hitems, hcommas⟩ := exists_items (rendered_items args)
    have h := (rendered_expr callee).guarded_zero.chain_append
      (.call hitems hcommas .noTrailer)
    rw [List.append_nil, hfst] at h
    rw [exprTokens, itemTokens_eq]
    exact .of_chain h
  | .member object property safe =>
    .of_chain ((rendered_expr object).guarded_zero.chain_append (.member .noTrailer))
  | .index object key => by
    have hindex := (rendered_expr object).guarded_zero.chain_append
      (.index (rendered_expr key).expr .noTrailer)
    rw [List.append_nil] at hindex
    exact .of_chain hindex

theorem rendered_items : (es : List Expr) → ∀ e ∈ es, Spells next (.expr e) (exprTokens e)
  | [] => fun _ h => nomatch h
  | e :: es => List.forall_mem_cons.2 ⟨(rendered_expr e).expr, rendered_items es⟩

theorem rendered_entries : (entries : List (String × Expr)) →
    ∀ x ∈ entries, Spells next (.entry x.1 x.2) (.str x.1 :: .symbol .colon :: exprTokens x.2)
  | [] => fun _ h => nomatch h
  | (_, e) :: entries =>
    List.forall_mem_cons.2 ⟨.entry (.inr rfl) (rendered_expr e).expr, rendered_entries entries⟩

theorem rendered_stmt : (s : Stmt) → Spells next (.bare s) (stmtTokens s)
  | .letBind _ value => .letBind (rendered_expr value).expr
  | .assign target value => .assign (rendered_expr target).expr (rendered_expr value).expr
  | .expr e => .expr (rendered_expr e).expr
  | .ifElse test body none => .ifElse (.noElse (rendered_expr test).expr (rendered_stmts body))
  | .ifElse test body (some orElse) =>
    .ifElse (.withElse (rendered_expr test).expr (rendered_stmts body) (rendered_stmts orElse))
  | .forIn _ items body => .forIn (rendered_expr items).expr (rendered_stmts body)
  | .whileDo test body => .whileDo (rendered_expr test).expr (rendered_stmts body)
  | .ret none => .ret
  | .ret (some e) => .retValue (rendered_expr e).expr

theorem rendered_stmts : (ss : List Stmt) → Spells next (.stmts ss) (stmtsTokens ss)
  | [] => .noStmt
  | s :: ss => by
    -- the semicolon keeps the statements apart, whatever they are
    have h := Spells.stmt 1 (rendered_stmt s) (rendered_stmts ss) (fun h => nomatch h)
    rwa [List.append_assoc] at h

end

end Rendering

/-- **Completeness.** Tokens that derive a program are read as that program, if no two of its
statements run into each other. So every program is read back from its own rendering. -/
theorem parse_complete (source : String) (lexemes : Array Lexeme) (program : Program) :
    (Spells Adjacent (.stmts program) (lexemes.toList.map Lexeme.token) →
      parse source lexemes = .ok program) ∧
    (lexemes.toList.map Lexeme.token = stmtsTokens program →
      parse source lexemes = .ok program) := by
  refine ⟨fun h => parse_of_spells h source, fun h => parse_of_spells ?_ source⟩
  rw [h]
  exact rendered_stmts program

/-- Four statements with nothing between them: `return`, then `let r = a - b - (c)`, then
`if (not p and q) { } else if (q) { }`, then `[a,]`. -/
def unseparated : List Token :=
  [.keyword .returnKw,
    .keyword .letKw, .ident "r", .symbol .assign, .ident "a", .symbol .minus, .ident "b",
    .symbol .minus, .symbol .openParen, .ident "c", .symbol .closeParen,
    .keyword .ifKw, .symbol .openParen, .keyword .notKw, .ident "p", .keyword .andKw, .ident "q",
    .symbol .closeParen, .symbol .openBrace, .symbol .closeBrace,
    .keyword .elseKw, .keyword .ifKw, .symbol .openParen, .ident "q", .symbol .closeParen,
    .symbol .openBrace, .symbol .closeBrace,
    .symbol .openBracket, .ident "a", .symbol .comma, .symbol .closeBracket]

def unseparatedProgram : Program :=
  [.ret none,
    .letBind "r" (.binary .sub (.binary .sub (.ident "a") (.ident "b")) (.ident "c")),
    .ifElse (.binary .and (.unary .not (.ident "p")) (.ident "q")) []
      (some [.ifElse (.ident "q") [] none]),
    .expr (.array [.ident "a"])]

theorem spells_unseparated : Spells Adjacent (.stmts unseparatedProgram) unseparated := by
  have hname (name : String) : Rendered Adjacent (.ident name) [.ident name] :=
    rendered_expr (.ident name)
  have hdifference : Spells Adjacent
      (.operand 2 (.binary .sub (.binary .sub (.ident "a") (.ident "b")) (.ident "c")))
      [.ident "a", .symbol .minus, .ident "b", .symbol .minus, .symbol .openParen, .ident "c",
        .symbol .closeParen] :=
    have hc : Rendered Adjacent (.ident "c") (enclosed .openParen .closeParen [.ident "c"]) :=
      .of_primary (.paren (hname "c").expr)
    .binary ((hname "a").operand 1 (by decide) (by decide))
      (.operator (BinaryOp.token_mem .sub) ((hname "b").operand 1 (by decide) (by decide))
        (.operator (BinaryOp.token_mem .sub) (hc.operand 1 (by decide) (by decide)) .noOperator))
  have hlet : Spells Adjacent (.bare (.letBind "r" _)) _ :=
    .letBind (.plain (hdifference.lift (by decide)))
  have htest : Spells Adjacent
      (.operand 5 (.binary .and (.unary .not (.ident "p")) (.ident "q")))
      [.keyword .notKw, .ident "p", .keyword .andKw, .ident "q"] :=
    have hnot : Spells Adjacent (.operand 0 (.unary .not (.ident "p")))
        [.keyword .notKw, .ident "p"] :=
      .unary (by decide) ((hname "p").operand 0 (by decide) (by decide))
    have hand : Token.keyword .andKw ∈ BinaryOp.and.tokens := by decide
    .binary (hnot.lift (by decide))
      (.operator hand ((hname "q").operand 4 (by decide) (by decide)) .noOperator)
  have hif := Spells.ifElse (.elseIf (.plain (htest.lift (by decide))) .noStmt
    (.noElse (hname "q").expr .noStmt))
  have hitems : ∀ x ∈ [(Expr.ident "a", [Token.ident "a"])], Spells Adjacent (.expr x.1) x.2 := by
    simpa using (hname "a").expr
  have harray := Spells.array hitems (.cons [.ident "a"] [] (.inr rfl))
  have h3 := Spells.stmt 0 (.expr (Rendered.of_primary harray).expr) .noStmt (by simp)
  have h2 := Spells.stmt 0 hif h3 (by simp [Adjacent, isBraced])
  have h1 := Spells.stmt 0 hlet h2 (by simp [Adjacent])
  exact Spells.stmt 0 .ret h1 (by simp [Adjacent])

theorem parse_complete_unseparated :
    parse "" (unseparated.map fun t => ⟨t, ⟨0, 0⟩⟩).toArray = .ok unseparatedProgram ∧
    parse "" ((stmtsTokens unseparatedProgram).map fun t => ⟨t, ⟨0, 0⟩⟩).toArray =
      .ok unseparatedProgram := by
  constructor
  · refine (parse_complete _ _ _).1 ?_
    rw [List.map_map]
    exact spells_unseparated
  · refine (parse_complete _ _ _).2 ?_
    rw [List.map_map]
    exact List.map_id _

end Grammar

end ScriptLint
