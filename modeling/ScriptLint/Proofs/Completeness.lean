import ScriptLint.Proofs.Soundness

/-!
# Completeness of the parser

Whatever derives a program is read as that program. The parser is greedy and takes the first
alternative that fits, so each derivation is followed through it together with the tokens behind
it, which must not continue what was derived.

* `Adjacent`: which statements may stand side by side without a semicolon.
* `Spells.begins`: the first token of a phrase, by which alternatives are told apart.
* `Ends`, `EndsExpr`, `EndsStmt`, `EndsBlock`: what may stand behind a phrase.
* `Complete`: the phrase is taken whole, before every continuation that its follow set admits.
* `Spells.complete`: every derivation is complete, by induction on it.
-/

namespace ScriptLint.Grammar

open ScriptLint.Parser

/-- Does the statement end with a closing brace of its own? -/
def isBraced : Stmt → Bool
  | .ifElse _ _ _ | .forIn _ _ _ | .whileDo _ _ => true
  | _ => false

/-- May a statement that begins with `t` stand behind `s` with no semicolon between them? It must
not be read as the rest of an expression that `s` ends with, nor as the value of a return that has
none. -/
def Adjacent (s : Stmt) (t : Token) : Prop :=
  (isBraced s = true ∨ t ∉ [.symbol .openParen, .symbol .openBracket, .symbol .minus]) ∧
    (s = .ret none → t ∈ [.keyword .letKw, .keyword .ifKw, .keyword .forKw, .keyword .whileKw,
      .keyword .returnKw])

/-! ## What phrases begin with -/

def startsPrimary : Token → Bool
  | .ident _ | .int _ | .float _ | .str _ => true
  | .keyword .nullKw | .keyword .trueKw | .keyword .falseKw | .keyword .fnKw => true
  | .symbol .openParen | .symbol .openBracket | .symbol .openBrace => true
  | _ => false

def startsExpr (t : Token) : Bool :=
  startsPrimary t || (unaryOp? t).isSome

/-- The keywords that statements begin with. -/
def startsRuled : Token → Bool
  | .keyword .letKw | .keyword .ifKw | .keyword .forKw | .keyword .whileKw => true
  | .keyword .returnKw => true
  | _ => false

def startsStmt (t : Token) : Bool :=
  startsExpr t || startsRuled t

def startsTrailer : Token → Bool
  | .symbol .openParen | .symbol .dot | .symbol .safeDot | .symbol .openBracket => true
  | _ => false

/-- What the tokens of a phrase begin with. -/
def Phrase.Begins : Phrase → List Token → Prop
  | .primary _, us | .chain _, us => ∃ t vs, us = t :: vs ∧ startsPrimary t = true
  | .operand _ _, us | .expr _, us => ∃ t vs, us = t :: vs ∧ startsExpr t = true
  | .entry _ _, us => ∃ t vs, us = t :: vs ∧ (entryKey? t).isSome = true
  | .conditional _, us => ∃ vs, us = .keyword .ifKw :: vs
  | .bare _, us => ∃ t vs, us = t :: vs ∧ startsStmt t = true
  | .stmts _, us => us = [] ∨ ∃ t vs, us = t :: vs ∧ startsStmt t = true
  | .trailers _ _, us => us = [] ∨ ∃ t vs, us = t :: vs ∧ startsTrailer t = true
  | .operators k _ _, us => us = [] ∨ ∃ (op : BinaryOp) (t : Token) (vs : List Token),
      us = t :: vs ∧ t ∈ op.tokens ∧ op.level = k

variable {next : Stmt → Token → Prop}

theorem startsExpr_of_startsPrimary {t : Token} (h : startsPrimary t = true) :
    startsExpr t = true := by
  rw [startsExpr, h]; rfl

theorem startsStmt_of_startsExpr {t : Token} (h : startsExpr t = true) : startsStmt t = true := by
  rw [startsStmt, h]; rfl

theorem Spells.begins {ph : Phrase} {us : List Token} (h : Spells next ph us) : ph.Begins us := by
  induction h with
  | atom h => exact ⟨_, _, rfl, by cases h <;> rfl⟩
  | fn | array | object | paren => exact ⟨_, _, rfl, rfl⟩
  | entry ht => exact ⟨_, _, rfl, by rcases ht with rfl | rfl <;> rfl⟩
  | chain _ _ ihhead _ =>
    obtain ⟨t, vs, rfl, ht⟩ := ihhead
    exact ⟨t, _, rfl, ht⟩
  | noTrailer | noOperator | noStmt => exact .inl rfl
  | call | index => exact .inr ⟨_, _, rfl, rfl⟩
  | @member _ _ safe => exact .inr ⟨_, _, rfl, by cases safe <;> rfl⟩
  | innermost _ ih =>
    obtain ⟨t, vs, rfl, ht⟩ := ih
    exact ⟨t, vs, rfl, startsExpr_of_startsPrimary ht⟩
  | unary ht _ _ =>
    refine ⟨_, _, rfl, ?_⟩
    rw [startsExpr, unaryOp?_iff.2 ht, Option.isSome_some, Bool.or_true]
  | binary _ _ ihleft _ =>
    obtain ⟨t, vs, rfl, ht⟩ := ihleft
    exact ⟨t, _, rfl, ht⟩
  | operator ht _ _ _ _ => exact .inr ⟨_, _, _, rfl, ht, rfl⟩
  | plain _ ih => exact ih
  | ternary _ _ _ ihtest _ _ =>
    obtain ⟨t, vs, rfl, ht⟩ := ihtest
    exact ⟨t, _, rfl, ht⟩
  | letBind | forIn | whileDo | ret | retValue => exact ⟨_, _, rfl, rfl⟩
  | assign _ _ ihtarget _ =>
    obtain ⟨t, vs, rfl, ht⟩ := ihtarget
    exact ⟨t, _, rfl, startsStmt_of_startsExpr ht⟩
  | expr _ ih =>
    obtain ⟨t, vs, rfl, ht⟩ := ih
    exact ⟨t, vs, rfl, startsStmt_of_startsExpr ht⟩
  | ifElse _ ih =>
    obtain ⟨vs, rfl⟩ := ih
    exact ⟨_, vs, rfl, rfl⟩
  | noElse | withElse | elseIf => exact ⟨_, rfl⟩
  | stmt n _ _ _ ihs _ =>
    obtain ⟨t, vs, rfl, ht⟩ := ihs
    exact .inr ⟨t, _, rfl, ht⟩

/-! ## What parsers refuse -/

section Refusals

variable {us : List Token} (d : ℕ)

theorem expr_refuses (h : ∀ t ∈ us.head?, startsExpr t = false) :
    (Rules.upTo d).expr.Refuses us :=
  Refuses.of_sound (rules_sound d).expr (fun _ _ hus => hus.begins) h

theorem entry_refuses (h : ∀ t ∈ us.head?, (entryKey? t).isSome = false) :
    (entry (Rules.upTo d).expr).Refuses us :=
  Refuses.of_sound (sound_entry (rules_sound d).expr) (fun _ _ hus => hus.begins) h

theorem stmt_refuses (h : ∀ t ∈ us.head?, startsStmt t = false) :
    (Rules.upTo d).stmt.Refuses us := by
  refine Refuses.of_sound (rules_sound d).stmt ?_ h
  rintro s _ ⟨vs, n, rfl, hvs⟩
  obtain ⟨t, ws, rfl, ht⟩ := hvs.begins
  exact ⟨t, _, rfl, ht⟩

theorem conditional_refuses (h : us.head? ≠ some (.keyword .ifKw)) :
    (Rules.upTo d).conditional.Refuses us := by
  refine Refuses.of_sound (g := fun t => t = .keyword .ifKw) (rules_sound d).conditional ?_ ?_
  · intro s us hus
    obtain ⟨vs, rfl⟩ := hus.begins
    exact ⟨_, vs, rfl, by simp⟩
  · intro t ht
    simp only [decide_eq_false_iff_not]
    rintro rfl
    exact h ht

theorem trailer_refuses {expr : Parser Expr} (h : ∀ t ∈ us.head?, startsTrailer t = false) :
    (trailer expr).Refuses us := by
  have hne : ∀ t, startsTrailer t = true → us.head? ≠ some t := by
    intro t ht hus
    rw [h t hus] at ht
    cases ht
  refine Refuses.choice ?_
  simp only [List.mem_cons, List.not_mem_nil, or_false]
  rintro p (rfl | rfl | rfl | rfl)
  · exact (Refuses.between (hne _ rfl)).map
  · exact Refuses.bind (Refuses.token (hne _ rfl))
  · exact Refuses.bind (Refuses.token (hne _ rfl))
  · exact (Refuses.between (hne _ rfl)).map

end Refusals

/-! ## What can stand behind a phrase -/

/-- Nothing that could go on with an operand of the first `k` binary levels. -/
def Ends (k : ℕ) (rest : List Token) : Prop :=
  ∀ t ∈ rest.head?, startsTrailer t = false ∧ ∀ j < k, levelOp? j t = none

/-- The tokens that could go on with an expression. -/
def continuesExpr (t : Token) : Bool :=
  startsTrailer t || (List.range levels).any (fun k => (levelOp? k t).isSome) ||
    t = .symbol .question

/-- Nothing that could go on with an expression. -/
def EndsExpr (rest : List Token) : Prop :=
  ∀ t ∈ rest.head?, continuesExpr t = false

theorem Ends.mono {j k : ℕ} {rest : List Token} (h : Ends k rest) (hjk : j ≤ k) : Ends j rest :=
  fun t ht => ⟨(h t ht).1, fun m hm => (h t ht).2 m (by omega)⟩

theorem EndsExpr.ends {rest : List Token} (h : EndsExpr rest) : Ends levels rest := by
  intro t ht
  have := h t ht
  simp only [continuesExpr, Bool.or_eq_false_iff, List.any_eq_false, List.mem_range,
    Option.not_isSome_iff_eq_none] at this
  exact this.1

theorem EndsExpr.head_ne {rest : List Token} (h : EndsExpr rest) :
    rest.head? ≠ some (.symbol .question) := by
  intro hq
  cases h _ hq

theorem endsExpr_cons {t : Token} (h : continuesExpr t = false) (rest : List Token) :
    EndsExpr (t :: rest) := by
  intro u hu
  cases hu
  exact h

theorem levelOp?_of_lt {op : BinaryOp} {t : Token} (ht : t ∈ op.tokens) {j : ℕ}
    (hj : j < op.level) : levelOp? j t = none := by
  revert j
  revert t
  cases op <;> decide

theorem startsTrailer_of_mem {op : BinaryOp} {t : Token} (ht : t ∈ op.tokens) :
    startsTrailer t = false := by
  revert t
  cases op <;> decide

/-- Behind an operand come its level's operators, or what may come behind all of them. -/
theorem ends_operators {k : ℕ} {left e : Expr} {us rest : List Token}
    (h : Spells next (.operators k left e) us) (hrest : Ends (k + 1) rest) :
    Ends k (us ++ rest) := by
  rcases h.begins with rfl | ⟨op, t, vs, rfl, ht, rfl⟩
  · exact hrest.mono (Nat.le_succ k)
  · intro u hu
    cases hu
    exact ⟨startsTrailer_of_mem ht, fun j hj => levelOp?_of_lt ht hj⟩

/-- Nothing that could go on with the statement. -/
def EndsStmt : Stmt → List Token → Prop
  | .letBind _ _, rest | .assign _ _, rest | .ret (some _), rest => EndsExpr rest
  | .expr _, rest => EndsExpr rest ∧ rest.head? ≠ some (.symbol .assign)
  | .ifElse _ _ _, rest => rest.head? ≠ some (.keyword .elseKw)
  | .forIn _ _ _, _ | .whileDo _ _, _ => True
  | .ret none, rest => ∀ t ∈ rest.head?, startsExpr t = false

theorem endsStmt_of_head {s : Stmt} {rest : List Token}
    (h : ∀ t ∈ rest.head?, (isBraced s = true ∨ continuesExpr t = false) ∧
      t ≠ .symbol .assign ∧ t ≠ .keyword .elseKw ∧ (s = .ret none → startsExpr t = false)) :
    EndsStmt s rest := by
  have hexpr : isBraced s = false → EndsExpr rest := by
    intro hs t ht
    rcases (h t ht).1 with h' | h'
    · rw [hs] at h'; cases h'
    · exact h'
  cases s with
  | letBind | assign => exact hexpr rfl
  | expr => exact ⟨hexpr rfl, fun ht => (h _ ht).2.1 rfl⟩
  | ifElse => exact fun ht => (h _ ht).2.2.1 rfl
  | forIn | whileDo => trivial
  | ret value =>
    cases value with
    | none => exact fun t ht => (h t ht).2.2.2 rfl
    | some e => exact hexpr rfl

theorem continuesExpr_of_startsStmt {t : Token} (ht : startsStmt t = true)
    (hne : t ∉ [.symbol .openParen, .symbol .openBracket, .symbol .minus]) :
    continuesExpr t = false := by
  cases t with
  | ident | int | float | str => rfl
  | keyword k => cases k <;> first | rfl | exact absurd ht (by decide)
  | symbol s =>
    cases s <;> first | rfl | exact absurd ht (by decide) | exact absurd (by decide) hne

theorem endsStmt_of_adjacent {s : Stmt} {t : Token} (ht : startsStmt t = true)
    (h : Adjacent s t) (rest : List Token) : EndsStmt s (t :: rest) := by
  apply endsStmt_of_head
  intro u hu
  cases hu
  refine ⟨h.1.imp_right (continuesExpr_of_startsStmt ht), ?_, ?_, fun hs => ?_⟩
  · rintro rfl; cases ht
  · rintro rfl; cases ht
  · have hmem := h.2 hs
    simp only [List.mem_cons, List.not_mem_nil, or_false] at hmem
    rcases hmem with rfl | rfl | rfl | rfl | rfl <;> rfl

/-- The end of a block or of the program. -/
def EndsBlock (rest : List Token) : Prop :=
  ∀ t ∈ rest.head?, t = .symbol .closeBrace

theorem EndsBlock.endsStmt {rest : List Token} (h : EndsBlock rest) (s : Stmt) :
    EndsStmt s rest := by
  apply endsStmt_of_head
  intro t ht
  rw [h t ht]
  exact ⟨.inr rfl, by decide, by decide, fun _ => rfl⟩

/-- Behind a statement come semicolons, or the next statement if it may stand there, or the end of
the block. -/
theorem endsStmt_stmts {s : Stmt} {ss : List Stmt} {vs rest : List Token} (n : ℕ)
    (hss : Spells next (.stmts ss) vs) (hnext : n = 0 → ∀ t ∈ vs.head?, Adjacent s t)
    (hrest : EndsBlock rest) :
    EndsStmt s (List.replicate n (.symbol .semicolon) ++ (vs ++ rest)) := by
  cases n with
  | zero =>
    -- nothing in between: the next statement's first token decides
    rcases hss.begins with rfl | ⟨t, ws, rfl, ht⟩
    · exact hrest.endsStmt s
    · exact endsStmt_of_adjacent ht (hnext rfl t rfl) _
  | succ n =>
    apply endsStmt_of_head
    intro t ht
    cases ht
    exact ⟨.inr rfl, by decide, by decide, fun _ => rfl⟩

/-! ## Expressions -/

/-- The parser of the innermost operands, the operators before them included. -/
def innermost (r : Rules) : Parser Expr :=
  unary (chain r.expr r.stmt)

section Expressions

variable {d : ℕ} {us vs ws rest : List Token}

/-- The rules take the tokens as the expression, whatever may stand behind an expression. -/
def TakesExpr (d : ℕ) (e : Expr) (us : List Token) : Prop :=
  ∀ rest, EndsExpr rest → (Rules.upTo d).expr.Takes us e rest

/-- The rules take the tokens as the statements of a block. -/
def TakesStmts (d : ℕ) (ss : List Stmt) (us : List Token) : Prop :=
  ∀ rest, EndsBlock rest → Repeats (Rules.upTo d).stmt us ss rest

theorem takes_block {ss : List Stmt} (h : TakesStmts d ss us) :
    (block (Rules.upTo d).stmt).Takes (enclosed .openBrace .closeBrace us) ss rest :=
  Takes.between (Takes.many (h _ fun t ht => by cases ht; rfl))

theorem takes_exprs {closing : Symbol} {items : List (Expr × List Token)}
    (hc : closing = .closeParen ∨ closing = .closeBracket)
    (hitems : ∀ x ∈ items, TakesExpr d x.1 x.2) (hus : Commas (items.map Prod.snd) us) :
    (listOf (Rules.upTo d).expr).Takes us (items.map Prod.fst) (.symbol closing :: rest) := by
  refine Takes.listOf (by rcases hc with rfl | rfl <;> decide) ?_ ?_ hus
  · rintro x hx s rest (rfl | rfl)
    · exact hitems x hx _ (endsExpr_cons rfl rest)
    · exact hitems x hx _ (endsExpr_cons (by rcases hc with rfl | rfl <;> rfl) rest)
  · refine expr_refuses d fun t ht => ?_
    cases ht
    rcases hc with rfl | rfl <;> rfl

theorem takes_entries {items : List ((String × Expr) × List Token)}
    (hitems : ∀ x ∈ items, ∀ rest, EndsExpr rest →
      (entry (Rules.upTo d).expr).Takes x.2 x.1 rest) (hus : Commas (items.map Prod.snd) us) :
    (listOf (entry (Rules.upTo d).expr)).Takes us (items.map Prod.fst)
      (.symbol .closeBrace :: rest) := by
  refine Takes.listOf (by decide) ?_ (entry_refuses d fun t ht => by cases ht; rfl) hus
  rintro x hx s rest (rfl | rfl)
  · exact hitems x hx _ (endsExpr_cons rfl rest)
  · exact hitems x hx _ (endsExpr_cons rfl rest)

theorem takes_params {params : List String}
    (hparams : Commas (params.map fun name => [.ident name]) us) :
    (listOf identifier).Takes us params (.symbol .closeParen :: rest) := by
  have h : (listOf identifier).Takes us
      ((params.map fun name => (name, [Token.ident name])).map Prod.fst)
      (.symbol .closeParen :: rest) := by
    refine Takes.listOf (by decide) ?_ (Refuses.accept fun t ht => by cases ht; rfl) ?_
    · intro x hx s rest _
      obtain ⟨name, -, rfl⟩ := List.mem_map.1 hx
      exact Takes.identifier name
    · simpa [Function.comp_def] using hparams
  simpa [Function.comp_def] using h

theorem takes_entry {t : Token} {key : String} {value : Expr} (ht : t = .ident key ∨ t = .str key)
    (hvalue : TakesExpr d value us) (hrest : EndsExpr rest) :
    (entry (Rules.upTo d).expr).Takes (t :: .symbol .colon :: us) (key, value) rest := by
  have hkey : entryKey? t = some key := by rcases ht with rfl | rfl <;> rfl
  have hcolon : (do
      symbol .colon
      let value ← (Rules.upTo d).expr
      return (key, value)).Takes (.symbol .colon :: us) (key, value) rest :=
    Takes.token_bind (hvalue rest hrest).bind_pure
  exact (Takes.accept hkey).bind hcolon

/-! ### Primary expressions -/

section Primary

variable (d)

/-- The parser of primary expressions. -/
abbrev primaryAt : Parser Expr :=
  primary (Rules.upTo d).expr (Rules.upTo d).stmt

variable {d}

theorem refuses_atom {s : Symbol} : (accept atom?).Refuses (.symbol s :: us) :=
  Refuses.accept fun t ht => by cases ht; rfl

theorem refuses_function {stmt : Parser Stmt} {s : Symbol} :
    (function stmt).Refuses (.symbol s :: us) :=
  Refuses.bind (Refuses.token (by simp))

theorem takes_atom {t : Token} {e : Expr} (h : Atom t e) : (primaryAt d).Takes [t] e rest :=
  (Takes.accept (atom?_iff.2 h)).orElse_left

theorem takes_fn {params : List String} {body : List Stmt}
    (hparams : Commas (params.map fun name => [.ident name]) us) (hbody : TakesStmts d body vs) :
    (primaryAt d).Takes (.keyword .fnKw :: enclosed .openParen .closeParen us ++
      enclosed .openBrace .closeBrace vs) (.fn params body) rest := by
  have hfn : (function (Rules.upTo d).stmt).Takes (.keyword .fnKw ::
      (enclosed .openParen .closeParen us ++ enclosed .openBrace .closeBrace vs))
      (.fn params body) rest :=
    Takes.token_bind ((Takes.between (takes_params hparams)).bind (takes_block hbody).bind_pure)
  exact Takes.orElse_right (Refuses.accept fun t ht => by cases ht; rfl) (Takes.orElse_left hfn)

theorem takes_array {items : List (Expr × List Token)}
    (hitems : ∀ x ∈ items, TakesExpr d x.1 x.2) (hus : Commas (items.map Prod.snd) us) :
    (primaryAt d).Takes (enclosed .openBracket .closeBracket us) (.array (items.map Prod.fst))
      rest :=
  Takes.orElse_right refuses_atom (Takes.orElse_right refuses_function
    (Takes.orElse_left (Takes.between (takes_exprs (.inr rfl) hitems hus)).map))

theorem takes_object {items : List ((String × Expr) × List Token)}
    (hitems : ∀ x ∈ items, ∀ rest, EndsExpr rest →
      (entry (Rules.upTo d).expr).Takes x.2 x.1 rest) (hus : Commas (items.map Prod.snd) us) :
    (primaryAt d).Takes (enclosed .openBrace .closeBrace us) (.object (items.map Prod.fst))
      rest :=
  Takes.orElse_right refuses_atom (Takes.orElse_right refuses_function
    (Takes.orElse_right (Refuses.between (by simp [enclosed])).map
      (Takes.orElse_left (Takes.between (takes_entries hitems hus)).map)))

theorem takes_paren {e : Expr} (he : TakesExpr d e us) :
    (primaryAt d).Takes (enclosed .openParen .closeParen us) e rest :=
  Takes.orElse_right refuses_atom (Takes.orElse_right refuses_function
    (Takes.orElse_right (Refuses.between (by simp [enclosed])).map
      (Takes.orElse_right (Refuses.between (by simp [enclosed])).map
        (Takes.orElse_left (Takes.between (he _ (endsExpr_cons rfl rest)))))))

end Primary

/-! ### Calls, members and indices -/

/-- The rules take the tokens as what makes `e` of `head`. -/
def TakesTrailers (d : ℕ) (head e : Expr) (us : List Token) : Prop :=
  ∀ rest, Ends 0 rest → ∃ xs : List Trailer, xs.foldl Trailer.apply head = e ∧
    Repeats (trailer (Rules.upTo d).expr) us xs rest

theorem takesTrailers_nil {e : Expr} : TakesTrailers d e e [] :=
  fun _ hrest => ⟨[], rfl, Repeats.nil (trailer_refuses fun t ht => (hrest t ht).1)⟩

theorem takesTrailers_cons {head e : Expr} {x : Trailer}
    (hx : ∀ rest, (trailer (Rules.upTo d).expr).Takes us x rest) (hne : us ≠ [])
    (hrest : TakesTrailers d (x.apply head) e vs) : TakesTrailers d head e (us ++ vs) := by
  intro rest hends
  obtain ⟨xs, hxs, hrep⟩ := hrest rest hends
  exact ⟨x :: xs, hxs, Repeats.cons (hx _) hne hrep⟩

theorem takes_call {args : List (Expr × List Token)} (hargs : ∀ x ∈ args, TakesExpr d x.1 x.2)
    (hus : Commas (args.map Prod.snd) us) :
    (trailer (Rules.upTo d).expr).Takes (enclosed .openParen .closeParen us)
      (.call (args.map Prod.fst)) rest :=
  Takes.orElse_left (Takes.between (takes_exprs (.inl rfl) hargs hus)).map

theorem takes_member {property : String} (safe : Bool) :
    (trailer (Rules.upTo d).expr).Takes
      [.symbol (if safe then .safeDot else .dot), .ident property] (.member property safe)
      rest := by
  have hmember : ∀ mark, (member mark safe).Takes [.symbol mark, .ident property]
      (.member property safe) rest :=
    fun mark => Takes.token_bind (Takes.identifier property).bind_pure
  cases safe with
  | false =>
    exact Takes.orElse_right (Refuses.between (by simp)).map (Takes.orElse_left (hmember .dot))
  | true =>
    exact Takes.orElse_right (Refuses.between (by simp)).map
      (Takes.orElse_right (Refuses.bind (Refuses.token (by simp)))
        (Takes.orElse_left (hmember .safeDot)))

theorem takes_index {key : Expr} (hkey : TakesExpr d key us) :
    (trailer (Rules.upTo d).expr).Takes (enclosed .openBracket .closeBracket us) (.index key)
      rest :=
  Takes.orElse_right (Refuses.between (by simp [enclosed])).map
    (Takes.orElse_right (Refuses.bind (Refuses.token (by simp [enclosed])))
      (Takes.orElse_right (Refuses.bind (Refuses.token (by simp [enclosed])))
        (Takes.orElse_left (Takes.between (hkey _ (endsExpr_cons rfl rest))).map)))

theorem takes_chain {head e : Expr} (hhead : ∀ rest, (primaryAt d).Takes us head rest)
    (htrailers : TakesTrailers d head e vs) (hrest : Ends 0 rest) :
    (chain (Rules.upTo d).expr (Rules.upTo d).stmt).Takes (us ++ vs) e rest := by
  obtain ⟨xs, rfl, hxs⟩ := htrailers rest hrest
  exact (hhead _).bind (Takes.many hxs).bind_pure

/-! ### Operators -/

theorem unaryOp?_of_startsPrimary {t : Token} (h : startsPrimary t = true) :
    unaryOp? t = none := by
  cases t with
  | ident | int | float | str => rfl
  | keyword k => cases k <;> first | rfl | exact absurd h (by decide)
  | symbol s => cases s <;> first | rfl | exact absurd h (by decide)

theorem takes_unary_chain {operand : Parser Expr} {e : Expr} (ho : operand.Takes us e rest)
    (hstart : ∃ t vs, us = t :: vs ∧ startsPrimary t = true) : (unary operand).Takes us e rest := by
  have hnone : (accept unaryOp?).Refuses (us ++ rest) := by
    obtain ⟨t, vs, rfl, ht⟩ := hstart
    refine Refuses.accept fun u hu => ?_
    cases hu
    exact unaryOp?_of_startsPrimary ht
  exact (Takes.many (Repeats.nil hnone)).bind ho.bind_pure

/-- One more operator in front of an operand. -/
theorem takes_unary_op {operand : Parser Expr} {e : Expr} {op : UnaryOp} {t : Token}
    (ht : t ∈ op.tokens) (ho : (unary operand).Takes us e rest) :
    (unary operand).Takes (t :: us) (.unary op e) rest := by
  -- all operators are read by one repetition, so the one in front is one more round of it and the
  -- lemmas on sequences do not apply
  intro ts i hts
  have hi : i < ts.size := by
    have := congrArg List.length hts
    rw [List.length_drop, Array.length_toList, List.cons_append, List.length_cons] at this
    omega
  have hop : (accept unaryOp? ts i).found = some (op, i + 1) :=
    Takes.accept (unaryOp?_iff.2 ht) ts i hts
  have hsplit : ts.toList.drop i = [t] ++ (us ++ rest) := hts
  have hrest := ho ts (i + 1) (drop_add_length hsplit)
  have hfound : ∀ j, (unary operand ts j).found = (many (accept unaryOp?) ts j).found.bind
      fun x => (operand ts x.2).found.map fun y => (x.1.foldr .unary y.1, y.2) := by
    intro j
    show ((many (accept unaryOp?) >>= _) ts j).found = _
    rw [found_bind]
    congr 1
    funext x
    show ((operand >>= _) ts x.2).found = _
    rw [found_bind]
    cases (operand ts x.2).found <;> rfl
  rw [hfound] at hrest ⊢
  rw [found_many_cons hi hop]
  obtain ⟨x, hx, hy⟩ := Option.bind_eq_some_iff.1 hrest
  obtain ⟨y, hy, heq⟩ := Option.map_eq_some_iff.1 hy
  rw [hx]
  simp only [Option.map_some, Option.bind_some, hy, List.foldr_cons, List.length_cons]
  simp only [Prod.mk.injEq] at heq
  rw [heq.1, heq.2, Nat.add_assoc, Nat.add_comm 1]

/-- An operator of a level and its right operand. -/
def operation (k : ℕ) (operand : Parser Expr) : Parser (BinaryOp × Expr) := do
  let op ← accept (levelOp? k)
  let right ← operand
  return (op, right)

/-- The rules take the tokens as what makes `e` of `left`. -/
def TakesOperators (d k : ℕ) (left e : Expr) (us : List Token) : Prop :=
  ∀ rest, Ends (k + 1) rest → ∃ xs : List (BinaryOp × Expr),
    xs.foldl (fun left x => .binary x.1 left x.2) left = e ∧
      Repeats (operation k (operandParser (innermost (Rules.upTo d)) k)) us xs rest

theorem takesOperators_nil {k : ℕ} {e : Expr} : TakesOperators d k e e [] := by
  intro rest hrest
  refine ⟨[], rfl, Repeats.nil (Refuses.bind (Refuses.accept fun t ht => ?_))⟩
  exact (hrest t ht).2 k (Nat.lt_succ_self k)

theorem takesOperators_cons {op : BinaryOp} {t : Token} {left right e : Expr} (ht : t ∈ op.tokens)
    (hright : ∀ rest, Ends op.level rest →
      (operandParser (innermost (Rules.upTo d)) op.level).Takes us right rest)
    (hends : ∀ rest, Ends (op.level + 1) rest → Ends op.level (vs ++ rest))
    (hrest : TakesOperators d op.level (.binary op left right) e vs) :
    TakesOperators d op.level left e (t :: us ++ vs) := by
  intro rest hr
  obtain ⟨xs, hxs, hrep⟩ := hrest rest hr
  -- the right operand stops where the next operator of the level begins
  refine ⟨(op, right) :: xs, hxs, Repeats.cons ?_ (by simp) hrep⟩
  exact (Takes.accept (levelOp?_of_mem ht)).bind (hright _ (hends rest hr)).bind_pure

theorem takes_binary {k : ℕ} {left e : Expr}
    (hleft : ∀ rest, Ends k rest →
      (operandParser (innermost (Rules.upTo d)) k).Takes us left rest)
    (hends : ∀ rest, Ends (k + 1) rest → Ends k (vs ++ rest))
    (hrest : TakesOperators d k left e vs) (hr : Ends (k + 1) rest) :
    (operandParser (innermost (Rules.upTo d)) (k + 1)).Takes (us ++ vs) e rest := by
  obtain ⟨xs, rfl, hxs⟩ := hrest rest hr
  exact (hleft _ (hends rest hr)).bind (Takes.many hxs).bind_pure

/-! ### Whole expressions -/

theorem takes_plain {e : Expr}
    (he : ∀ rest, Ends levels rest →
      (operandParser (innermost (Rules.upTo d)) levels).Takes us e rest) :
    TakesExpr (d + 1) e us := by
  intro rest hrest
  have hnone : (do
      symbol .question
      let yes ← (Rules.upTo d).expr
      symbol .colon
      let no ← (Rules.upTo d).expr
      return (yes, no)).Refuses rest := Refuses.bind (Refuses.token hrest.head_ne)
  have h : (Rules.upTo (d + 1)).expr.Takes (us ++ ([] ++ [])) e rest :=
    Takes.bind (he _ hrest.ends) (Takes.bind (Takes.optional_none hnone) Takes.pure)
  simpa using h

theorem takes_ternary {test yes no : Expr}
    (htest : ∀ rest, Ends levels rest →
      (operandParser (innermost (Rules.upTo d)) levels).Takes us test rest)
    (hyes : TakesExpr d yes vs) (hno : TakesExpr d no ws) :
    TakesExpr (d + 1) (.ternary test yes no)
      (us ++ .symbol .question :: vs ++ .symbol .colon :: ws) := by
  intro rest hrest
  have hbranches : (do
      symbol .question
      let yes ← (Rules.upTo d).expr
      symbol .colon
      let no ← (Rules.upTo d).expr
      return (yes, no)).Takes (.symbol .question :: (vs ++ Token.symbol .colon :: ws)) (yes, no)
        rest :=
    Takes.token_bind ((hyes _ (endsExpr_cons rfl _)).bind
      (Takes.token_bind (hno rest hrest).bind_pure))
  have hq : Ends levels (.symbol .question :: (vs ++ .symbol .colon :: ws) ++ rest) := by
    intro t ht
    cases ht
    exact ⟨rfl, by decide⟩
  have h : (Rules.upTo (d + 1)).expr.Takes
      (us ++ (.symbol .question :: (vs ++ .symbol .colon :: ws) ++ [])) (.ternary test yes no)
      rest :=
    Takes.bind (htest _ (by simpa using hq)) (Takes.bind (Takes.optional_some hbranches) Takes.pure)
  simpa using h

end Expressions

/-! ## Statements -/

section Statements

variable {d : ℕ} {us vs ws rest : List Token}

/-- The parser of a statement without its semicolons. -/
def bareAt (d : ℕ) : Parser Stmt :=
  choice [letBind (Rules.upTo (d + 1)).expr, (Rules.upTo (d + 1)).conditional,
    forIn (Rules.upTo (d + 1)).expr (Rules.upTo d).stmt,
    whileDo (Rules.upTo (d + 1)).expr (Rules.upTo d).stmt, ret (Rules.upTo (d + 1)).expr,
    assignment (Rules.upTo (d + 1)).expr]

theorem upTo_stmt (d : ℕ) : (Rules.upTo (d + 1)).stmt = (do
    let s ← bareAt d
    let _ ← many (symbol .semicolon)
    return s) := rfl

theorem takes_letBind {name : String} {value : Expr} (hvalue : TakesExpr (d + 1) value us)
    (hrest : EndsExpr rest) : (bareAt d).Takes
      (.keyword .letKw :: .ident name :: .symbol .assign :: us) (.letBind name value) rest := by
  have hassign : (do
      symbol .assign
      let value ← (Rules.upTo (d + 1)).expr
      return Stmt.letBind name value).Takes (.symbol .assign :: us) (.letBind name value) rest :=
    Takes.token_bind (hvalue rest hrest).bind_pure
  exact Takes.orElse_left (Takes.token_bind ((Takes.identifier name).bind hassign))

theorem takes_ifElse {s : Stmt}
    (hs : (Rules.upTo (d + 1)).conditional.Takes us s rest)
    (hstart : ∃ vs, us = .keyword .ifKw :: vs) : (bareAt d).Takes us s rest := by
  obtain ⟨vs, rfl⟩ := hstart
  exact Takes.orElse_right (Refuses.bind (Refuses.token (by simp))) (Takes.orElse_left hs)

theorem takes_forIn {name : String} {items : Expr} {body : List Stmt}
    (hitems : TakesExpr (d + 1) items us) (hbody : TakesStmts d body vs) :
    (bareAt d).Takes
      (.keyword .forKw :: enclosed .openParen .closeParen (.ident name :: .keyword .inKw :: us) ++
        enclosed .openBrace .closeBrace vs) (.forIn name items body) rest := by
  have hheader : ∀ rest, EndsExpr rest → (do
      let name ← identifier
      keyword .inKw
      let items ← (Rules.upTo (d + 1)).expr
      return (name, items)).Takes (.ident name :: .keyword .inKw :: us) (name, items) rest :=
    fun rest hrest => (Takes.identifier name).bind (Takes.token_bind (hitems rest hrest).bind_pure)
  have hfor : (forIn (Rules.upTo (d + 1)).expr (Rules.upTo d).stmt).Takes (.keyword .forKw ::
      (enclosed .openParen .closeParen (.ident name :: .keyword .inKw :: us) ++
        enclosed .openBrace .closeBrace vs)) (.forIn name items body) rest :=
    Takes.token_bind ((Takes.between (hheader _ (endsExpr_cons rfl _))).bind
      (takes_block hbody).bind_pure)
  exact Takes.orElse_right (Refuses.bind (Refuses.token (by simp)))
    (Takes.orElse_right (conditional_refuses (d + 1) (by simp)) (Takes.orElse_left hfor))

theorem takes_whileDo {test : Expr} {body : List Stmt} (htest : TakesExpr (d + 1) test us)
    (hbody : TakesStmts d body vs) :
    (bareAt d).Takes (.keyword .whileKw :: enclosed .openParen .closeParen us ++
      enclosed .openBrace .closeBrace vs) (.whileDo test body) rest := by
  have hwhile : (whileDo (Rules.upTo (d + 1)).expr (Rules.upTo d).stmt).Takes (.keyword .whileKw ::
      (enclosed .openParen .closeParen us ++ enclosed .openBrace .closeBrace vs))
      (.whileDo test body) rest :=
    Takes.token_bind ((Takes.between (htest _ (endsExpr_cons rfl _))).bind
      (takes_block hbody).bind_pure)
  exact Takes.orElse_right (Refuses.bind (Refuses.token (by simp)))
    (Takes.orElse_right (conditional_refuses (d + 1) (by simp))
      (Takes.orElse_right (Refuses.bind (Refuses.token (by simp))) (Takes.orElse_left hwhile)))

theorem takes_ret {value : Option Expr}
    (hvalue : (optional (Rules.upTo (d + 1)).expr).Takes us value rest) :
    (bareAt d).Takes (.keyword .returnKw :: us) (.ret value) rest := by
  have hret : (ret (Rules.upTo (d + 1)).expr).Takes (.keyword .returnKw :: us) (.ret value) rest :=
    Takes.token_bind hvalue.bind_pure
  exact Takes.orElse_right (Refuses.bind (Refuses.token (by simp)))
    (Takes.orElse_right (conditional_refuses (d + 1) (by simp))
      (Takes.orElse_right (Refuses.bind (Refuses.token (by simp)))
        (Takes.orElse_right (Refuses.bind (Refuses.token (by simp))) (Takes.orElse_left hret))))

/-- No statement that begins with a keyword of its own begins like an expression. -/
theorem takes_bare_assignment {s : Stmt} (hstart : ∃ t vs, us = t :: vs ∧ startsExpr t = true)
    (h : (assignment (Rules.upTo (d + 1)).expr).Takes us s rest) : (bareAt d).Takes us s rest := by
  have hne : ∀ k, startsExpr (.keyword k) = false →
      (us ++ rest).head? ≠ some (.keyword k) := by
    obtain ⟨t, vs, rfl, ht⟩ := hstart
    intro k hk heq
    cases heq
    rw [hk] at ht
    cases ht
  exact Takes.orElse_right (Refuses.bind (Refuses.token (hne .letKw rfl)))
    (Takes.orElse_right (conditional_refuses (d + 1) (hne .ifKw rfl))
      (Takes.orElse_right (Refuses.bind (Refuses.token (hne .forKw rfl)))
        (Takes.orElse_right (Refuses.bind (Refuses.token (hne .whileKw rfl)))
          (Takes.orElse_right (Refuses.bind (Refuses.token (hne .returnKw rfl)))
            (Takes.orElse_left h)))))

theorem takes_assign {target value : Expr} (htarget : TakesExpr (d + 1) target us)
    (hvalue : TakesExpr (d + 1) value vs) (hrest : EndsExpr rest) :
    (assignment (Rules.upTo (d + 1)).expr).Takes (us ++ .symbol .assign :: vs)
      (.assign target value) rest := by
  have hassign : (do symbol .assign; (Rules.upTo (d + 1)).expr).Takes (.symbol .assign :: vs)
      value rest := Takes.token_bind (hvalue rest hrest)
  have h : (assignment (Rules.upTo (d + 1)).expr).Takes (us ++ (.symbol .assign :: vs ++ []))
      (.assign target value) rest :=
    Takes.bind (htarget _ (endsExpr_cons rfl _))
      (Takes.bind (Takes.optional_some hassign) Takes.pure)
  simpa using h

theorem takes_expr {e : Expr} (he : TakesExpr (d + 1) e us) (hrest : EndsExpr rest)
    (hne : rest.head? ≠ some (.symbol .assign)) :
    (assignment (Rules.upTo (d + 1)).expr).Takes us (.expr e) rest := by
  have hnone : (do symbol .assign; (Rules.upTo (d + 1)).expr).Refuses rest :=
    Refuses.bind (Refuses.token hne)
  have h : (assignment (Rules.upTo (d + 1)).expr).Takes (us ++ ([] ++ [])) (.expr e) rest :=
    Takes.bind (he _ hrest) (Takes.bind (Takes.optional_none hnone) Takes.pure)
  simpa using h

/-! ### Conditionals -/

/-- The parser of what stands behind the block of an `if`. -/
def elseAt (d : ℕ) : Parser (List Stmt) := do
  keyword .elseKw
  Parser.orElse (do return [← (Rules.upTo d).conditional]) (block (Rules.upTo d).stmt)

theorem takes_conditional {test : Expr} {body : List Stmt} {orElse : Option (List Stmt)}
    (htest : TakesExpr (d + 1) test us) (hbody : TakesStmts d body vs)
    (helse : (optional (elseAt d)).Takes ws orElse rest) :
    (Rules.upTo (d + 1)).conditional.Takes (.keyword .ifKw :: (enclosed .openParen .closeParen us ++
      (enclosed .openBrace .closeBrace vs ++ ws))) (.ifElse test body orElse) rest :=
  Takes.token_bind ((Takes.between (htest _ (endsExpr_cons rfl _))).bind
    ((takes_block hbody).bind helse.bind_pure))

theorem takes_noElse (hrest : rest.head? ≠ some (.keyword .elseKw)) :
    (optional (elseAt d)).Takes [] none rest :=
  Takes.optional_none (Refuses.bind (Refuses.token hrest))

theorem takes_withElse {ss : List Stmt} (hss : TakesStmts d ss us) :
    (optional (elseAt d)).Takes (.keyword .elseKw :: enclosed .openBrace .closeBrace us) (some ss)
      rest :=
  Takes.optional_some (Takes.token_bind (Takes.orElse_right
    (Refuses.bind (conditional_refuses d (by simp [enclosed]))) (takes_block hss)))

theorem takes_elseIf {s : Stmt} (hs : (Rules.upTo d).conditional.Takes us s rest) :
    (optional (elseAt d)).Takes (.keyword .elseKw :: us) (some [s]) rest :=
  Takes.optional_some (Takes.token_bind (Takes.orElse_left hs.bind_pure))

/-! ### Blocks -/

theorem repeats_token {t : Token} (hrest : rest.head? ≠ some t) (n : ℕ) :
    Repeats (token t) (List.replicate n t) (List.replicate n ()) rest := by
  induction n with
  | zero => exact Repeats.nil (Refuses.token hrest)
  | succ n ih => exact Repeats.cons (Takes.token t) (List.cons_ne_nil t []) ih

theorem takesStmts_nil : TakesStmts d [] [] := by
  intro rest hrest
  refine Repeats.nil (stmt_refuses d fun t ht => ?_)
  rw [hrest t ht]
  rfl

theorem takesStmts_cons {s : Stmt} {ss : List Stmt} (n : ℕ)
    (hs : ∀ rest, EndsStmt s rest → (bareAt d).Takes us s rest) (hne : us ≠ [])
    (hss : Spells Adjacent (.stmts ss) vs) (hnext : n = 0 → ∀ t ∈ vs.head?, Adjacent s t)
    (hrest : TakesStmts (d + 1) ss vs) :
    TakesStmts (d + 1) (s :: ss) (us ++ List.replicate n (.symbol .semicolon) ++ vs) := by
  intro rest hends
  -- no statement begins with a semicolon, so none is left over
  have hsemi : (vs ++ rest).head? ≠ some (.symbol .semicolon) := by
    rcases hss.begins with rfl | ⟨t, ws, rfl, ht⟩
    · intro h
      cases hends _ h
    · intro h
      cases h
      cases ht
  refine Repeats.cons ?_ (by simp [hne]) (hrest rest hends)
  rw [upTo_stmt]
  exact (hs _ (endsStmt_stmts n hss hnext hends)).bind
    (Takes.many (repeats_token hsemi n)).bind_pure

end Statements

/-! ## Every derivation -/

/-- The rules of any sufficient depth take the tokens as the phrase. -/
def Complete : Phrase → List Token → Prop
  | .primary e, us => ∀ d, us.length ≤ d + 1 → ∀ rest, (primaryAt d).Takes us e rest
  | .chain e, us => ∀ d, us.length ≤ d + 1 → ∀ rest, Ends 0 rest →
      (chain (Rules.upTo d).expr (Rules.upTo d).stmt).Takes us e rest
  | .trailers head e, us => ∀ d, us.length ≤ d + 1 → TakesTrailers d head e us
  | .operand k e, us => ∀ d, us.length ≤ d + 1 → ∀ rest, Ends k rest →
      (operandParser (innermost (Rules.upTo d)) k).Takes us e rest
  | .operators k left e, us => ∀ d, us.length ≤ d + 1 → TakesOperators d k left e us
  | .expr e, us => ∀ d, us.length ≤ d → TakesExpr d e us
  | .entry key value, us => ∀ d, us.length ≤ d + 1 → ∀ rest, EndsExpr rest →
      (entry (Rules.upTo d).expr).Takes us (key, value) rest
  | .conditional s, us => ∀ d, us.length ≤ d → ∀ rest, rest.head? ≠ some (.keyword .elseKw) →
      (Rules.upTo d).conditional.Takes us s rest
  | .bare s, us => ∀ d, us.length ≤ d + 1 → ∀ rest, EndsStmt s rest → (bareAt d).Takes us s rest
  | .stmts ss, us => ∀ d, us.length ≤ d → TakesStmts d ss us

theorem length_le_of_commas {uss : List (List Token)} {us vs : List Token} (h : Commas uss us)
    (hvs : vs ∈ uss) : vs.length ≤ us.length := by
  cases h with
  | nil => cases hvs
  | cons ws uss hc =>
    rcases List.mem_cons.1 hvs with rfl | hvs
    · simp only [List.length_append]; omega
    · have hmem := List.mem_map_of_mem (f := (Token.symbol .comma :: ·)) hvs
      have := (List.sublist_flatten_of_mem hmem).length_le
      simp only [List.length_append, List.length_cons, List.flatMap] at this ⊢
      omega

theorem length_enclosed (opening closing : Symbol) (us : List Token) :
    (enclosed opening closing us).length = us.length + 2 := by
  simp [enclosed]

theorem Spells.isIfElse {s : Stmt} {us : List Token} (h : Spells next (.conditional s) us) :
    ∃ test body orElse, s = .ifElse test body orElse := by
  cases h <;> exact ⟨_, _, _, rfl⟩

/-- **Every derivation is taken as such**, where two statements stand side by side only if they
may. -/
theorem Spells.complete {ph : Phrase} {us : List Token} (h : Spells Adjacent ph us) :
    Complete ph us := by
  -- the depth is bounded by the number of tokens: what is nested has a token before it, which pays
  -- for the level it is nested in
  induction h with
  | atom h => exact fun d _ rest => takes_atom h
  | fn hparams _ ih =>
    intro d hd rest
    simp only [List.length_append, List.length_cons, length_enclosed] at hd
    exact takes_fn hparams (ih d (by omega))
  | array _ hus ih =>
    intro d hd rest
    rw [length_enclosed] at hd
    refine takes_array (fun x hx => ih x hx d ?_) hus
    have := length_le_of_commas hus (List.mem_map_of_mem hx)
    omega
  | object _ hus ih =>
    intro d hd rest
    rw [length_enclosed] at hd
    refine takes_object (fun x hx => ih x hx d ?_) hus
    have := length_le_of_commas hus (List.mem_map_of_mem hx)
    omega
  | paren _ ih =>
    intro d hd rest
    rw [length_enclosed] at hd
    exact takes_paren (ih d (by omega))
  | entry ht _ ih =>
    intro d hd rest hrest
    simp only [List.length_cons] at hd
    exact takes_entry ht (ih d (by omega)) hrest
  | chain _ _ ihhead ihrest =>
    intro d hd rest hrest
    rw [List.length_append] at hd
    exact takes_chain (ihhead d (by omega)) (ihrest d (by omega)) hrest
  | noTrailer => exact fun d _ => takesTrailers_nil
  | call _ hus _ ihargs ihrest =>
    intro d hd
    rw [List.length_append, length_enclosed] at hd
    refine takesTrailers_cons (fun rest => takes_call (fun x hx => ihargs x hx d ?_) hus)
      (List.cons_ne_nil _ _) (ihrest d (by omega))
    have := length_le_of_commas hus (List.mem_map_of_mem hx)
    omega
  | member _ ih =>
    intro d hd
    simp only [List.length_cons] at hd
    exact takesTrailers_cons (fun rest => takes_member _) (List.cons_ne_nil _ _) (ih d (by omega))
  | index _ _ ihkey ihrest =>
    intro d hd
    rw [List.length_append, length_enclosed] at hd
    exact takesTrailers_cons (fun rest => takes_index (ihkey d (by omega)))
      (List.cons_ne_nil _ _) (ihrest d (by omega))
  | innermost he ih =>
    intro d hd rest hrest
    exact takes_unary_chain (ih d hd rest hrest) he.begins
  | unary ht _ ih =>
    intro d hd rest hrest
    rw [List.length_cons] at hd
    exact takes_unary_op ht (ih d (by omega) rest hrest)
  | binary _ hrest ihleft ihrest =>
    intro d hd rest hr
    rw [List.length_append] at hd
    exact takes_binary (ihleft d (by omega)) (fun _ h => ends_operators hrest h)
      (ihrest d (by omega)) hr
  | noOperator => exact fun d _ => takesOperators_nil
  | operator ht _ hrest ihright ihrest =>
    intro d hd
    simp only [List.length_append, List.length_cons] at hd
    exact takesOperators_cons ht (ihright d (by omega)) (fun _ h => ends_operators hrest h)
      (ihrest d (by omega))
  | plain he ih =>
    intro d hd
    -- an expression has a token, so there is a level to spend
    obtain ⟨t, vs, rfl, -⟩ := he.begins
    obtain ⟨d, rfl⟩ : ∃ m, d = m + 1 := ⟨d - 1, by rw [List.length_cons] at hd; omega⟩
    exact takes_plain (ih d hd)
  | ternary _ _ _ ihtest ihyes ihno =>
    intro d hd
    simp only [List.length_append, List.length_cons] at hd
    obtain ⟨d, rfl⟩ : ∃ m, d = m + 1 := ⟨d - 1, by omega⟩
    exact takes_ternary (ihtest d (by omega)) (ihyes d (by omega)) (ihno d (by omega))
  | letBind _ ih =>
    intro d hd rest hrest
    simp only [List.length_cons] at hd
    exact takes_letBind (ih (d + 1) (by omega)) hrest
  | assign htarget _ ihtarget ihvalue =>
    intro d hd rest hrest
    simp only [List.length_append, List.length_cons] at hd
    refine takes_bare_assignment ?_
      (takes_assign (ihtarget (d + 1) (by omega)) (ihvalue (d + 1) (by omega)) hrest)
    obtain ⟨t, vs, rfl, ht⟩ := htarget.begins
    exact ⟨t, _, rfl, ht⟩
  | expr he ih =>
    intro d hd rest hrest
    exact takes_bare_assignment he.begins (takes_expr (ih (d + 1) hd) hrest.1 hrest.2)
  | ifElse hs ih =>
    intro d hd rest hrest
    obtain ⟨test, body, orElse, rfl⟩ := hs.isIfElse
    exact takes_ifElse (ih (d + 1) hd rest hrest) hs.begins
  | forIn _ _ ihitems ihbody =>
    intro d hd rest _
    simp only [List.length_append, List.length_cons, length_enclosed] at hd
    exact takes_forIn (ihitems (d + 1) (by omega)) (ihbody d (by omega))
  | whileDo _ _ ihtest ihbody =>
    intro d hd rest _
    simp only [List.length_append, List.length_cons, length_enclosed] at hd
    exact takes_whileDo (ihtest (d + 1) (by omega)) (ihbody d (by omega))
  | ret => exact fun d _ rest hrest => takes_ret (Takes.optional_none (expr_refuses (d + 1) hrest))
  | retValue _ ih =>
    intro d hd rest hrest
    rw [List.length_cons] at hd
    exact takes_ret (Takes.optional_some (ih (d + 1) (by omega) rest hrest))
  | noElse _ _ ihtest ihbody =>
    intro d hd rest hrest
    simp only [List.length_append, List.length_cons, length_enclosed] at hd
    obtain ⟨d, rfl⟩ : ∃ m, d = m + 1 := ⟨d - 1, by omega⟩
    have h := takes_conditional (ihtest (d + 1) (by omega)) (ihbody d (by omega))
      (takes_noElse hrest)
    simpa using h
  | withElse _ _ _ ihtest ihbody ihelse =>
    intro d hd rest _
    simp only [List.length_append, List.length_cons, length_enclosed] at hd
    obtain ⟨d, rfl⟩ : ∃ m, d = m + 1 := ⟨d - 1, by omega⟩
    have helse : (optional (elseAt d)).Takes _ _ rest := takes_withElse (ihelse d (by omega))
    have h := takes_conditional (ihtest (d + 1) (by omega)) (ihbody d (by omega)) helse
    simpa using h
  | elseIf _ _ _ ihtest ihbody ihelse =>
    intro d hd rest hrest
    simp only [List.length_append, List.length_cons, length_enclosed] at hd
    obtain ⟨d, rfl⟩ : ∃ m, d = m + 1 := ⟨d - 1, by omega⟩
    have h := takes_conditional (ihtest (d + 1) (by omega)) (ihbody d (by omega))
      (takes_elseIf (ihelse d (by omega) rest hrest))
    simpa using h
  | noStmt => exact fun d _ => takesStmts_nil
  | stmt n hs hss hnext ihs ihss =>
    intro d hd
    obtain ⟨t, vs, rfl, -⟩ := hs.begins
    simp only [List.length_append, List.length_cons] at hd
    obtain ⟨d, rfl⟩ : ∃ m, d = m + 1 := ⟨d - 1, by omega⟩
    exact takesStmts_cons n (ihs d (by rw [List.length_cons]; omega)) (List.cons_ne_nil t vs) hss
      hnext (ihss (d + 1) (by omega))

theorem parse_of_spells {lexemes : Array Lexeme} {program : Program}
    (h : Spells Adjacent (.stmts program) (lexemes.toList.map Lexeme.token)) (source : String) :
    parse source lexemes = .ok program := by
  have hstart : (lexemes.map Lexeme.token).toList.drop 0 =
      lexemes.toList.map Lexeme.token ++ [] := by
    rw [List.drop_zero, Array.toList_map, List.append_nil]
  have hlen : (lexemes.toList.map Lexeme.token).length = (lexemes.map Lexeme.token).size := by simp
  have hfound := Takes.many (h.complete ((lexemes.map Lexeme.token).size + 1) (by omega) []
    (by simp [EndsBlock])) _ 0 hstart
  -- every token is taken, so nothing is left to blame
  rw [Nat.zero_add, hlen] at hfound
  have hts : parseTokens (lexemes.map Lexeme.token) = .ok program := by
    simp only [parseTokens]
    rw [hfound]
    exact if_pos rfl
  simp only [parse, hts]

end ScriptLint.Grammar
