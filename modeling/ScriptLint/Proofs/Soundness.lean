import ScriptLint.Grammar.Statement
import ScriptLint.Proofs.Derivation

/-!
# Soundness of the parser

Whatever the parser makes of tokens, those tokens spell it: none is left out, added, used twice or
moved, whichever alternatives were tried before.

* `levelOp?_of_mem`, `mem_of_levelOp?`: the operators of a level are read by their spellings.
* `rules_sound`: soundness at every depth of nesting, from one level of nesting to the next.
* `parse_sound`: **the tokens of a program that was read derive that program.**
-/

namespace ScriptLint.Grammar

open ScriptLint.Parser

/-! ## Operators and atoms -/

/-- The operators of a binary level. -/
def levelOp? (k : ℕ) : Token → Option BinaryOp :=
  binaryLevels.getD k fun _ => none

theorem unaryOp?_iff {t : Token} {op : UnaryOp} : unaryOp? t = some op ↔ t ∈ op.tokens := by
  constructor
  · intro h
    unfold unaryOp? at h
    split at h <;> cases h <;> simp [UnaryOp.tokens]
  · intro h
    cases op <;> simp only [UnaryOp.tokens, List.mem_cons, List.not_mem_nil, or_false] at h
    · rcases h with rfl | rfl <;> rfl
    · rw [h]; rfl

theorem levelOp?_of_mem {t : Token} {op : BinaryOp} (h : t ∈ op.tokens) :
    levelOp? op.level t = some op := by
  cases op <;> simp only [BinaryOp.tokens, List.mem_cons, List.not_mem_nil, or_false] at h <;>
    first
    | (rw [h]; rfl)
    | (rcases h with rfl | rfl <;> rfl)

theorem mem_of_levelOp? {k : ℕ} {t : Token} {op : BinaryOp} (h : levelOp? k t = some op) :
    t ∈ op.tokens ∧ op.level = k := by
  rcases k with _ | _ | _ | _ | _ | _ | _ | k
  all_goals
    simp only [levelOp?, binaryLevels, List.getD_cons_zero, List.getD_cons_succ, List.getD_nil,
      productOp?, sumOp?, comparisonOp?, equalityOp?, andOp?, orOp?, coalesceOp?] at h
  case succ.succ.succ.succ.succ.succ.succ => cases h
  all_goals
    split at h <;> cases h <;> simp [BinaryOp.tokens, BinaryOp.level]

theorem atom?_iff {t : Token} {e : Expr} : atom? t = some e ↔ Atom t e := by
  constructor
  · intro h
    unfold atom? at h
    split at h <;> cases h <;> constructor
  · intro h
    cases h <;> rfl

/-- The parser of an expression whose operators are of the first `k` binary levels. -/
def operandParser (innermost : Parser Expr) : ℕ → Parser Expr
  | 0 => innermost
  | k + 1 => binaryLevel (levelOp? k) (operandParser innermost k)

theorem binary_eq (innermost : Parser Expr) :
    binary innermost = operandParser innermost levels := rfl

/-! ## One level of nesting -/

/-- What a statement's parser reads: a statement and the semicolons behind it. -/
def Statement (s : Stmt) (us : List Token) : Prop :=
  ∃ vs n, us = vs ++ List.replicate n (.symbol .semicolon) ∧ Derived (.bare s) vs

/-- The rules read nothing but what the grammar derives. -/
structure Rules.Sound (r : Rules) : Prop where
  expr : Parser.Sound r.expr fun e => Derived (.expr e)
  stmt : Parser.Sound r.stmt Statement
  conditional : Parser.Sound r.conditional fun s => Derived (.conditional s)

section Nested

variable {expr : Parser Expr} {stmt nested : Parser Stmt}

theorem sound_block (hs : Sound stmt Statement) :
    Sound (block stmt) fun ss us => ∃ vs, us = enclosed .openBrace .closeBrace vs ∧
      Derived (.stmts ss) vs := by
  refine Sound.between (hs.many .noStmt ?_)
  rintro s us ss vs ⟨us, n, rfl, hs⟩ hss
  exact .stmt n hs hss fun _ _ _ => trivial

theorem sound_entry (he : Sound expr fun e => Derived (.expr e)) :
    Sound (entry expr) fun x => Derived (.entry x.1 x.2) := by
  have hkey : Sound (accept entryKey?) fun key us =>
      ∃ t, us = [t] ∧ (t = .ident key ∨ t = .str key) := by
    refine Sound.accept fun t key h => ⟨t, rfl, ?_⟩
    unfold entryKey? at h
    split at h <;> cases h <;> simp
  refine hkey.bind fun key us hus => (Sound.symbol .colon).bind fun _ vs hvs =>
    he.bind fun value ws hvalue => Sound.pure ?_
  obtain ⟨t, rfl, ht⟩ := hus
  subst hvs
  simpa using Spells.entry ht hvalue

theorem sound_function (hs : Sound stmt Statement) :
    Sound (function stmt) fun e => Derived (.primary e) := by
  refine (Sound.keyword .fnKw).bind fun _ _ hfn => Sound.identifier.listOf.between.bind
    fun params _ hparams => (sound_block hs).bind fun body _ hbody => Sound.pure ?_
  obtain ⟨us, rfl, items, rfl, hitems, hus⟩ := hparams
  obtain ⟨vs, rfl, hbody⟩ := hbody
  subst hfn
  have hnames : items.map Prod.snd = (items.map Prod.fst).map fun name => [Token.ident name] := by
    rw [List.map_map]
    exact List.map_congr_left hitems
  rw [hnames] at hus
  simpa using Spells.fn hus hbody

theorem sound_primary (he : Sound expr fun e => Derived (.expr e))
    (hs : Sound stmt Statement) :
    Sound (primary expr stmt) fun e => Derived (.primary e) := by
  refine Sound.choice ?_
  simp only [List.mem_cons, List.not_mem_nil, or_false]
  rintro p (rfl | rfl | rfl | rfl | rfl)
  · exact Sound.accept fun t e h => .atom (atom?_iff.1 h)
  · exact sound_function hs
  · refine he.listOf.between.map ?_
    rintro es _ ⟨us, rfl, items, rfl, hitems, hus⟩
    exact .array hitems hus
  · refine (sound_entry he).listOf.between.map ?_
    rintro es _ ⟨us, rfl, items, rfl, hitems, hus⟩
    exact .object hitems hus
  · refine he.between.mono ?_
    rintro e _ ⟨us, rfl, he⟩
    exact .paren he

/-- A trailer's tokens go before those that stand behind what it makes. -/
theorem sound_trailer (he : Sound expr fun e => Derived (.expr e)) :
    Sound (trailer expr) fun x us => ∀ head e vs,
      Derived (.trailers (x.apply head) e) vs →
        Derived (.trailers head e) (us ++ vs) := by
  have hmember : ∀ safe : Bool, Sound (member (if safe then .safeDot else .dot) safe)
      fun x us => ∀ head e vs, Derived (.trailers (x.apply head) e) vs →
        Derived (.trailers head e) (us ++ vs) := by
    intro safe
    refine (Sound.symbol _).bind fun _ _ hdot => Sound.identifier.bind fun property _ hname =>
      Sound.pure ?_
    subst hdot hname
    intro head e vs hrest
    exact .member hrest
  refine Sound.choice ?_
  simp only [List.mem_cons, List.not_mem_nil, or_false]
  rintro p (rfl | rfl | rfl | rfl)
  · refine he.listOf.between.map ?_
    rintro es _ ⟨us, rfl, items, rfl, hitems, hus⟩ head e vs hrest
    exact .call hitems hus hrest
  · exact hmember false
  · exact hmember true
  · refine he.between.map ?_
    rintro key _ ⟨us, rfl, hkey⟩ head e vs hrest
    exact .index hkey hrest

theorem sound_chain (he : Sound expr fun e => Derived (.expr e))
    (hs : Sound stmt Statement) :
    Sound (chain expr stmt) fun e => Derived (.chain e) := by
  have hmany : Sound (many (trailer expr)) fun xs us => ∀ head,
      Derived (.trailers head (xs.foldl Trailer.apply head)) us := by
    refine (sound_trailer he).many (fun head => .noTrailer) ?_
    intro x us xs vs hx hxs head
    exact hx head _ vs (hxs (x.apply head))
  refine (sound_primary he hs).bind fun head us hhead => hmany.bind fun xs vs hxs => Sound.pure ?_
  rw [List.append_nil]
  exact .chain hhead (hxs head)

theorem sound_unary {operand : Parser Expr}
    (ho : Sound operand fun e => Derived (.chain e)) :
    Sound (unary operand) fun e => Derived (.operand 0 e) := by
  have hmany : Sound (many (accept unaryOp?)) fun ops us => ∀ e vs,
      Derived (.operand 0 e) vs →
        Derived (.operand 0 (ops.foldr .unary e)) (us ++ vs) := by
    have hop : Sound (accept unaryOp?) fun op us => ∃ t, us = [t] ∧ t ∈ op.tokens :=
      Sound.accept fun t op h => ⟨t, rfl, unaryOp?_iff.1 h⟩
    refine hop.many (fun e vs h => h) ?_
    rintro op _ ops vs ⟨t, rfl, ht⟩ hops e ws he
    exact .unary ht (hops e ws he)
  refine hmany.bind fun ops us hops => ho.bind fun e vs he => Sound.pure ?_
  rw [List.append_nil]
  exact hops e vs (.innermost he)

theorem sound_binaryLevel {operand : Parser Expr} {k : ℕ}
    (ho : Sound operand fun e => Derived (.operand k e)) :
    Sound (binaryLevel (levelOp? k) operand) fun e =>
      Derived (.operand (k + 1) e) := by
  -- what an operator and its operand add to a derivation that goes on behind them
  have hstep : Sound (do
      let op ← accept (levelOp? k)
      let right ← operand
      return (op, right)) fun x us => ∀ left e vs,
        Derived (.operators k (.binary x.1 left x.2) e) vs →
          Derived (.operators k left e) (us ++ vs) := by
    have hop : Sound (accept (levelOp? k)) fun op us =>
        ∃ t, us = [t] ∧ t ∈ op.tokens ∧ op.level = k :=
      Sound.accept fun t op h => ⟨t, rfl, mem_of_levelOp? h⟩
    refine hop.bind fun op _ ht => ho.bind fun right us hright => Sound.pure ?_
    obtain ⟨t, rfl, ht, rfl⟩ := ht
    intro left e vs hrest
    rw [List.append_nil]
    exact .operator ht hright hrest
  have hmany := hstep.many (T := fun xs us => ∀ left, Derived
    (.operators k left (xs.foldl (fun left x => .binary x.1 left x.2) left)) us)
    (fun left => .noOperator) fun x us xs vs hx hxs left => hx left _ vs (hxs _)
  refine ho.bind fun head us hhead => hmany.bind fun xs vs hxs => Sound.pure ?_
  rw [List.append_nil]
  exact .binary hhead (hxs head)

theorem sound_operandParser {innermost : Parser Expr}
    (hi : Sound innermost fun e => Derived (.operand 0 e)) (k : ℕ) :
    Sound (operandParser innermost k) fun e => Derived (.operand k e) := by
  induction k with
  | zero => exact hi
  | succ k ih => exact sound_binaryLevel ih

theorem sound_ternary {operand : Parser Expr}
    (he : Sound expr fun e => Derived (.expr e))
    (ho : Sound operand fun e => Derived (.operand levels e)) :
    Sound (ternary expr operand) fun e => Derived (.expr e) := by
  have hbranches : Sound (do
      symbol .question
      let yes ← expr
      symbol .colon
      let no ← expr
      return (yes, no)) fun x us => ∃ vs ws, us = .symbol .question :: vs ++ .symbol .colon :: ws ∧
        Derived (.expr x.1) vs ∧ Derived (.expr x.2) ws := by
    refine (Sound.symbol .question).bind fun _ _ hq => he.bind fun yes vs hyes =>
      (Sound.symbol .colon).bind fun _ _ hc => he.bind fun no ws hno => Sound.pure ?_
    subst hq hc
    exact ⟨vs, ws, by simp, hyes, hno⟩
  refine ho.bind fun test us htest => hbranches.optional.bind fun o vs ho => ?_
  cases o with
  | none =>
    refine Sound.pure ?_
    rw [show vs = [] from ho, List.append_nil, List.append_nil]
    exact .plain htest
  | some x =>
    obtain ⟨vs, ws, rfl, hyes, hno⟩ := ho
    refine Sound.pure ?_
    simpa using Spells.ternary htest hyes hno

theorem sound_expression (he : Sound expr fun e => Derived (.expr e))
    (hs : Sound stmt Statement) :
    Sound (expression expr stmt) fun e => Derived (.expr e) := by
  have hbinary : Sound (binary (unary (chain expr stmt))) fun e => Derived (.operand levels e) := by
    rw [binary_eq]
    exact sound_operandParser (sound_unary (sound_chain he hs)) levels
  exact sound_ternary he hbinary

/-! ### Statements -/

theorem sound_condition (he : Sound expr fun e => Derived (.expr e)) :
    Sound (condition expr) fun e us => ∃ vs, us = enclosed .openParen .closeParen vs ∧
      Derived (.expr e) vs :=
  he.between

theorem sound_letBind (he : Sound expr fun e => Derived (.expr e)) :
    Sound (letBind expr) fun s => Derived (.bare s) := by
  refine (Sound.keyword .letKw).bind fun _ _ hlet => Sound.identifier.bind fun name _ hname =>
    (Sound.symbol .assign).bind fun _ _ hassign => he.bind fun value us hvalue => Sound.pure ?_
  subst hlet hname hassign
  simpa using Spells.letBind hvalue

theorem sound_conditional (he : Sound expr fun e => Derived (.expr e)) (hs : Sound stmt Statement)
    (hn : Sound nested fun s => Derived (.conditional s)) :
    Sound (conditional expr stmt nested) fun s => Derived (.conditional s) := by
  have hbranch : Sound (do
      keyword .elseKw
      Parser.orElse (do return [← nested]) (block stmt)) fun ss us =>
        (∃ s vs, ss = [s] ∧ us = .keyword .elseKw :: vs ∧ Derived (.conditional s) vs) ∨
        ∃ vs, us = .keyword .elseKw :: enclosed .openBrace .closeBrace vs ∧
          Derived (.stmts ss) vs := by
    refine (Sound.keyword .elseKw).bind fun _ _ helse => Sound.orElse ?_ ?_
    · refine hn.bind fun s vs hvs => Sound.pure (.inl ⟨s, vs, rfl, ?_, hvs⟩)
      rw [helse, List.append_nil]; rfl
    · refine (sound_block hs).mono ?_
      rintro ss _ ⟨vs, rfl, hvs⟩
      exact .inr ⟨vs, by rw [helse]; rfl, hvs⟩
  refine (Sound.keyword .ifKw).bind fun _ _ hif => (sound_condition he).bind fun test _ htest =>
    (sound_block hs).bind fun body _ hbody => hbranch.optional.bind fun o ws ho => Sound.pure ?_
  obtain ⟨us, rfl, htest⟩ := htest
  obtain ⟨vs, rfl, hbody⟩ := hbody
  subst hif
  cases o with
  | none =>
    rw [show ws = [] from ho]
    simpa using Spells.noElse htest hbody
  | some ss =>
    rcases ho with ⟨s, ws, rfl, rfl, hs⟩ | ⟨ws, rfl, hss⟩
    · simpa using Spells.elseIf htest hbody hs
    · simpa using Spells.withElse htest hbody hss

theorem sound_forIn (he : Sound expr fun e => Derived (.expr e)) (hs : Sound stmt Statement) :
    Sound (forIn expr stmt) fun s => Derived (.bare s) := by
  have hheader : Sound (do
      let name ← identifier
      keyword .inKw
      let items ← expr
      return (name, items)) fun x us => ∃ vs, us = .ident x.1 :: .keyword .inKw :: vs ∧
        Derived (.expr x.2) vs := by
    refine Sound.identifier.bind fun name _ hname => (Sound.keyword .inKw).bind fun _ _ hin =>
      he.bind fun items vs hitems => Sound.pure ⟨vs, ?_, hitems⟩
    subst hname hin
    simp
  refine (Sound.keyword .forKw).bind fun _ _ hfor => hheader.between.bind fun x _ hx =>
    (sound_block hs).bind fun body _ hbody => Sound.pure ?_
  obtain ⟨_, rfl, us, rfl, hitems⟩ := hx
  obtain ⟨vs, rfl, hbody⟩ := hbody
  subst hfor
  simpa using Spells.forIn hitems hbody

theorem sound_whileDo (he : Sound expr fun e => Derived (.expr e)) (hs : Sound stmt Statement) :
    Sound (whileDo expr stmt) fun s => Derived (.bare s) := by
  refine (Sound.keyword .whileKw).bind fun _ _ hwhile => (sound_condition he).bind
    fun test _ htest => (sound_block hs).bind fun body _ hbody => Sound.pure ?_
  obtain ⟨us, rfl, htest⟩ := htest
  obtain ⟨vs, rfl, hbody⟩ := hbody
  subst hwhile
  simpa using Spells.whileDo htest hbody

theorem sound_ret (he : Sound expr fun e => Derived (.expr e)) :
    Sound (ret expr) fun s => Derived (.bare s) := by
  refine (Sound.keyword .returnKw).bind fun _ _ hret => he.optional.bind fun o us ho =>
    Sound.pure ?_
  subst hret
  cases o with
  | none =>
    rw [show us = [] from ho]
    exact .ret
  | some e =>
    rw [List.append_nil]
    exact .retValue ho

theorem sound_assignment (he : Sound expr fun e => Derived (.expr e)) :
    Sound (assignment expr) fun s => Derived (.bare s) := by
  have hvalue : Sound (do symbol .assign; expr) fun e us => ∃ vs, us = .symbol .assign :: vs ∧
      Derived (.expr e) vs :=
    (Sound.symbol .assign).bind fun _ _ h => he.mono fun e us he => ⟨us, by rw [h]; rfl, he⟩
  refine he.bind fun target us htarget => hvalue.optional.bind fun o vs ho => ?_
  cases o with
  | none =>
    refine Sound.pure ?_
    rw [show vs = [] from ho, List.append_nil, List.append_nil]
    exact .expr htarget
  | some e =>
    obtain ⟨vs, rfl, he⟩ := ho
    refine Sound.pure ?_
    rw [List.append_nil]
    exact .assign htarget he

theorem sound_statement (he : Sound expr fun e => Derived (.expr e)) (hs : Sound stmt Statement)
    (hc : Sound nested fun s => Derived (.conditional s)) :
    Sound (statement expr stmt nested) Statement := by
  have hbare : Sound (choice [letBind expr, nested, forIn expr stmt, whileDo expr stmt, ret expr,
      assignment expr]) fun s => Derived (.bare s) := by
    refine Sound.choice ?_
    simp only [List.mem_cons, List.not_mem_nil, or_false]
    rintro p (rfl | rfl | rfl | rfl | rfl | rfl)
    · exact sound_letBind he
    · exact hc.mono fun s us h => .ifElse h
    · exact sound_forIn he hs
    · exact sound_whileDo he hs
    · exact sound_ret he
    · exact sound_assignment he
  have hsemis : Sound (many (symbol .semicolon)) fun (_ : List Unit) us =>
      ∃ n, us = List.replicate n (.symbol .semicolon) := by
    refine (Sound.symbol .semicolon).many ⟨0, rfl⟩ ?_
    rintro _ _ _ _ rfl ⟨n, rfl⟩
    exact ⟨n + 1, rfl⟩
  refine hbare.bind fun s us hs => hsemis.bind fun _ _ hn => Sound.pure ?_
  obtain ⟨n, rfl⟩ := hn
  exact ⟨us, n, by rw [List.append_nil], hs⟩

end Nested

/-! ## Every depth of nesting -/

theorem Rules.Sound.next {r : Rules} (hr : r.Sound) : r.next.Sound := by
  have he := sound_expression hr.expr hr.stmt
  have hc := sound_conditional he hr.stmt hr.conditional
  exact ⟨he, sound_statement he hr.stmt hc, hc⟩

/-- **The rules are sound**, however deep they may go. -/
theorem rules_sound (depth : ℕ) : (Rules.upTo depth).Sound := by
  induction depth with
  | zero => exact ⟨Sound.fail, Sound.fail, Sound.fail⟩
  | succ depth ih => exact ih.next

theorem derives_of_parseTokens {ts : Array Token} {program : Program}
    (h : parseTokens ts = .ok program) : Derives program ts.toList := by
  -- at the outermost level, too, statements need nothing between them
  have hsound : Sound (many (Rules.upTo (ts.size + 1)).stmt) fun ss => Derived (.stmts ss) := by
    refine (rules_sound _).stmt.many .noStmt ?_
    rintro s _ ss vs ⟨us, n, rfl, hs⟩ hss
    exact .stmt n hs hss fun _ _ _ => trivial
  simp only [parseTokens] at h
  split at h
  · rename_i i hfound
    split at h
    · rename_i hi
      cases h
      obtain ⟨us, hus, hdrop, -⟩ := hsound ts 0 program i hfound
      rw [List.drop_zero, hi, List.drop_of_length_le (by simp), List.append_nil] at hdrop
      rw [hdrop]
      exact hus
    · cases h
  · cases h

/-- **Soundness.** The tokens of a program that was read derive that program, each of them used
once and in its place. -/
theorem parse_sound (source : String) (lexemes : Array Lexeme) (program : Program)
    (h : parse source lexemes = .ok program) :
    Derives program (lexemes.toList.map Lexeme.token) := by
  unfold parse at h
  split at h
  · rename_i hts
    cases h
    have := derives_of_parseTokens hts
    rwa [Array.toList_map] at this
  · cases h

/-- `return a - b - c; [x,]`: the value of the return is tried and taken, and the comma is tried
as one between two items before it is taken as the last. -/
def subtractions : List Token :=
  [.keyword .returnKw, .ident "a", .symbol .minus, .ident "b", .symbol .minus, .ident "c",
    .symbol .semicolon, .symbol .openBracket, .ident "x", .symbol .comma, .symbol .closeBracket]

theorem parse_sound_subtractions :
    parse "" (subtractions.map fun t => ⟨t, ⟨0, 0⟩⟩).toArray =
      .ok [.ret (some (.binary .sub (.binary .sub (.ident "a") (.ident "b")) (.ident "c"))),
        .expr (.array [.ident "x"])] ∧
    Derives [.ret (some (.binary .sub (.binary .sub (.ident "a") (.ident "b")) (.ident "c"))),
      .expr (.array [.ident "x"])] subtractions := by
  have hparse : parse "" (subtractions.map fun t => ⟨t, ⟨0, 0⟩⟩).toArray =
      .ok [.ret (some (.binary .sub (.binary .sub (.ident "a") (.ident "b")) (.ident "c"))),
        .expr (.array [.ident "x"])] := by cbv
  exact ⟨hparse, parse_sound "" _ _ hparse⟩

end ScriptLint.Grammar
