import ScriptLint.Proofs.Completeness
import ScriptLint.Proofs.Lookahead

/-!
# Where a text can still be mended

The tokens in front of the blamed one are the beginning of a program. However far the parser came,
and on whatever way that it gave up afterwards, what it stands behind can be completed: the first
way that came this far is completed, and those tried before it fail as they did, since they never
looked that far.

* `Viable m n F us p`: the tokens up to the reach of `p` can be completed so that `p` takes them all
  before any continuation in `F`; `us` is a phrase of `p`.
* `rules_viable`: the rules are viable, by induction on the number of tokens left.
* `parse_viable_prefix`: **the tokens before the blamed one begin a program.**
-/

namespace ScriptLint

namespace Parser

variable {α β : Type} {p q : Parser α} {f : α → Parser β} {ts : Array Token} {i j : ℕ} {a : α}
  {us vs rest : List Token}

/-! ## Cutting and continuing a text -/

/-- The first `r` tokens, continued by others. -/
def graft (ts : Array Token) (r : ℕ) (us : List Token) : Array Token :=
  (ts.toList.take r ++ us).toArray

theorem getElem?_graft {r : ℕ} (hr : r ≤ ts.size) (us : List Token) (hj : j < r) :
    (graft ts r us)[j]? = ts[j]? := by
  have hlen : j < (ts.toList.take r).length := by
    rw [List.length_take, Array.length_toList]
    omega
  rw [graft, List.getElem?_toArray, List.getElem?_append_left hlen,
    List.getElem?_take_of_lt hj, Array.getElem?_toList]

theorem drop_graft {r : ℕ} (hr : r ≤ ts.size) (us : List Token) :
    (graft ts r us).toList.drop r = us := by
  have hlen : (ts.toList.take r).length = r := by
    rw [List.length_take, Array.length_toList]
    omega
  rw [graft, List.drop_left' hlen]

theorem size_graft {r : ℕ} (hr : r ≤ ts.size) (us : List Token) :
    (graft ts r us).size = r + us.length := by
  rw [graft, List.size_toArray, List.length_append, List.length_take, Array.length_toList]
  omega

/-! ## Viability -/

/-- The parser takes `us` before any continuation in `F`. -/
def Starts (F : List Token → Prop) (us : List Token) (p : Parser α) : Prop :=
  ∃ a, ∀ rest, F rest → p.Takes us a rest

/-- The parser takes at least `m` tokens and looks no further than its reach; it can take `us`.
Where fewer than `n` tokens are left, the tokens up to its reach can be completed so that it takes
them all, before any continuation in `F`. -/
structure Viable (m n : ℕ) (F : List Token → Prop) (us : List Token) (p : Parser α) : Prop where
  steady : Local m 0 p p
  starts : Starts F us p
  completes : ∀ ts i, i ≤ ts.size → ts.size < i + n → ∃ vs a, ∀ rest, F rest →
    (p (graft ts (p ts i).reach (vs ++ rest)) i).found = some (a, (p ts i).reach + vs.length)

namespace Viable

variable {m m' n : ℕ} {F G : List Token → Prop}

theorem reach_le (h : Viable m n F us p) (hi : i ≤ ts.size) : (p ts i).reach ≤ ts.size := by
  have := h.steady.reach_le ts i
  omega

/-- A text that is cut behind the reach gets the same reply. -/
theorem graft_eq (h : Viable m n F us p) {r : ℕ} (hr : r ≤ ts.size)
    (hlt : (p ts i).reach < r) (vs : List Token) : p (graft ts r vs) i = p ts i :=
  h.steady.congr ts _ i fun j hj => getElem?_graft hr vs (by omega)

theorem mono (h : Viable m n F us p) {m' n' : ℕ} (hm : m' ≤ m) (hn : n' ≤ n)
    (hG : ∀ rest, G rest → F rest) : Viable m' n' G us p where
  steady := h.steady.mono hm (le_refl 0)
  starts := by
    obtain ⟨a, ha⟩ := h.starts
    exact ⟨a, fun rest hrest => ha rest (hG rest hrest)⟩
  completes ts i hi hlt := by
    obtain ⟨vs, a, ha⟩ := h.completes ts i hi (by omega)
    exact ⟨vs, a, fun rest hrest => ha rest (hG rest hrest)⟩

theorem of_le {n' : ℕ} (h : Viable m n F us p) (hn : n' ≤ n) : Viable m n' F us p :=
  h.mono (le_refl m) hn fun _ h => h

theorem follow (h : Viable m n F us p) (hG : ∀ rest, G rest → F rest) : Viable m n G us p :=
  h.mono (le_refl m) (le_refl n) hG

theorem pure (a : α) : Viable 0 n F [] (pure a) where
  steady := Local.pure a
  starts := ⟨a, fun _ _ => Takes.pure⟩
  completes _ _ _ _ := ⟨[], a, fun _ _ => rfl⟩

theorem accept {g : Token → Option α} {t : Token} (h : g t = some a) :
    Viable 1 n F [t] (accept g) where
  steady := Local.accept g
  starts := ⟨a, fun _ _ => Takes.accept h⟩
  completes ts i hi _ := by
    rcases accept_cases g ts i with ⟨b, hb, hreply⟩ | hreply <;> rw [hreply]
    · -- the token is there
      obtain ⟨u, hu, -⟩ := Option.bind_eq_some_iff.1 hb
      obtain ⟨hlt, -⟩ := Array.getElem?_eq_some_iff.1 hu
      refine ⟨[], b, fun rest _ => ?_⟩
      rw [found_accept, getElem?_graft hlt _ (Nat.lt_succ_self i), hb]
      rfl
    · exact ⟨[t], a, fun rest _ => Takes.accept h _ i (drop_graft hi _)⟩

theorem bind (hp : Viable m n F us p) (hf : ∀ a, Viable m' (n - m) G vs (f a))
    (hF : ∀ rest, G rest → F (vs ++ rest)) : Viable m n G (us ++ vs) (p >>= f) where
  steady := hp.steady.seq fun a => (hf a).steady
  starts := by
    obtain ⟨a, ha⟩ := hp.starts
    obtain ⟨b, hb⟩ := (hf a).starts
    exact ⟨b, fun rest hrest => (ha _ (hF rest hrest)).bind (hb rest hrest)⟩
  completes ts i hi hlt := by
    -- completing the first part, and then some phrase of the second
    have hfirst : ∃ vs b, ∀ rest, G rest →
        ((p >>= f) (graft ts (p ts i).reach (vs ++ rest)) i).found =
          some (b, (p ts i).reach + vs.length) := by
      obtain ⟨ws, a, ha⟩ := hp.completes ts i hi hlt
      obtain ⟨b, hb⟩ := (hf a).starts
      refine ⟨ws ++ vs, b, fun rest hrest => ?_⟩
      have hdrop := drop_graft (hp.reach_le hi) (ws ++ (vs ++ rest))
      rw [List.append_assoc, found_bind, ha _ (hF rest hrest), Option.bind_some,
        hb rest hrest _ _ (drop_add_length hdrop), List.length_append, Nat.add_assoc]
    cases h : (p ts i).found with
    | none =>
      rw [bind_of_none h]
      exact hfirst
    | some x =>
      rw [bind_of_some h]
      have hx := hp.steady.found_le_size hi h
      rcases Nat.lt_or_ge (p ts i).reach (f x.1 ts x.2).reach with hlt' | hge
      · -- the second part came further, and the first never saw what is cut off
        obtain ⟨ws, b, hb⟩ := (hf x.1).completes ts x.2 hx.2 (by omega)
        refine ⟨ws, b, fun rest hrest => ?_⟩
        rw [max_eq_right (le_of_lt hlt'), found_bind,
          hp.graft_eq ((hf x.1).reach_le hx.2) hlt', h, Option.bind_some]
        exact hb rest hrest
      · rw [max_eq_left hge]
        exact hfirst

theorem orElse {us' : List Token} (hp : Viable m n F us p) (hq : Viable m n F us' q) :
    Viable m n F us (p.orElse q) where
  steady := hp.steady.orElse hq.steady
  starts := by
    obtain ⟨a, ha⟩ := hp.starts
    exact ⟨a, fun rest hrest => (ha rest hrest).orElse_left⟩
  completes ts i hi hlt := by
    have hfirst : ∃ vs a, ∀ rest, F rest →
        (p.orElse q (graft ts (p ts i).reach (vs ++ rest)) i).found =
          some (a, (p ts i).reach + vs.length) := by
      obtain ⟨vs, a, ha⟩ := hp.completes ts i hi hlt
      refine ⟨vs, a, fun rest hrest => ?_⟩
      rw [found_orElse, ha rest hrest]
      rfl
    cases h : (p ts i).found with
    | some x =>
      rw [orElse_of_some h]
      exact hfirst
    | none =>
      rw [orElse_of_none h]
      rcases Nat.lt_or_ge (p ts i).reach (q ts i).reach with hlt' | hge
      · obtain ⟨vs, a, ha⟩ := hq.completes ts i hi hlt
        refine ⟨vs, a, fun rest hrest => ?_⟩
        rw [max_eq_right (le_of_lt hlt'), found_orElse,
          hp.graft_eq (hq.reach_le hi) hlt', h, Option.none_or]
        exact ha rest hrest
      · rw [max_eq_left hge]
        exact hfirst

theorem orElse_fail (hp : Viable m n F us p) : Viable m n F us (p.orElse Parser.fail) where
  steady := hp.steady.orElse Local.fails
  starts := by
    obtain ⟨a, ha⟩ := hp.starts
    exact ⟨a, fun rest hrest => (ha rest hrest).orElse_left⟩
  completes ts i hi hlt := by
    have hreach : (p.orElse Parser.fail ts i).reach = (p ts i).reach := by
      cases h : (p ts i).found with
      | some x => rw [orElse_of_some h]
      | none =>
        rw [orElse_of_none h]
        exact max_eq_left (hp.steady.le_reach ts i)
    obtain ⟨vs, a, ha⟩ := hp.completes ts i hi hlt
    refine ⟨vs, a, fun rest hrest => ?_⟩
    rw [hreach, found_orElse, ha rest hrest]
    rfl

/-! ### Derived parsers -/

theorem seq (hp : Viable m n F us p) (hf : ∀ a, Viable m' n G vs (f a))
    (hF : ∀ rest, G rest → F (vs ++ rest)) : Viable m n G (us ++ vs) (p >>= f) :=
  hp.bind (fun a => (hf a).of_le (Nat.sub_le n m)) hF

/-- What stands behind a token has fewer tokens left. -/
theorem accept_bind {g : Token → Option α} {t : Token} (h : g t = some a)
    (hf : ∀ a, Viable m' n G vs (f a)) : Viable 1 (n + 1) G (t :: vs) (Parser.accept g >>= f) :=
  (accept (F := fun _ => True) h).bind hf fun _ _ => trivial

theorem token_bind {t : Token} {f : Unit → Parser β} (hf : Viable m' n G vs (f ())) :
    Viable 1 (n + 1) G (t :: vs) (Parser.token t >>= f) :=
  accept_bind (if_pos rfl) fun _ => hf

theorem identifier : Viable 1 n F [.ident "x"] identifier :=
  accept rfl

theorem identifier_bind {f : String → Parser β} (hf : ∀ name, Viable m' n G vs (f name)) :
    Viable 1 (n + 1) G (.ident "x" :: vs) (Parser.identifier >>= f) :=
  accept_bind rfl hf

theorem bind_of_pure (hp : Viable m n F us p) {g : α → β} (hf : ∀ a, f a = Pure.pure (g a)) :
    Viable m n F us (p >>= f) := by
  have h : Viable m n F (us ++ []) (p >>= f) :=
    hp.seq (fun a => by rw [hf a]; exact Viable.pure (g a)) fun _ h => h
  rwa [List.append_nil] at h

theorem bind_pure {g : α → β} (hp : Viable m n F us p) :
    Viable m n F us (p >>= fun a => Pure.pure (g a)) :=
  hp.bind_of_pure fun _ => rfl

theorem map {g : α → β} (hp : Viable m n F us p) : Viable m n F us (g <$> p) :=
  hp.bind_pure

theorem optional (hp : Viable m n F us p) (hF : ∀ rest, F rest → p.Refuses rest) :
    Viable 0 n F [] (optional p) where
  steady := hp.steady.optional
  starts := ⟨none, fun rest hrest => Takes.optional_none (hF rest hrest)⟩
  completes :=
    ((hp.map.mono (Nat.zero_le m) (le_refl n) fun _ h => h).orElse (Viable.pure none)).completes

/-- A repetition can stop before what its parser refuses. -/
theorem many (hp : Viable 1 n F us p) (hG : ∀ rest, G rest → F rest ∧ p.Refuses rest) :
    Viable 0 n G [] (many p) := by
  have hsteady : Local 0 0 (Parser.many p) (Parser.many p) := hp.steady.many
  have hstarts : Starts G [] (Parser.many p) :=
    ⟨[], fun rest hrest => Takes.many (Repeats.nil (hG rest hrest).2)⟩
  induction n with
  | zero => exact ⟨hsteady, hstarts, fun ts i hi hlt => absurd hlt (by omega)⟩
  | succ n ih =>
    refine ⟨hsteady, hstarts, ?_⟩
    -- a round takes a token, so fewer are left for the others
    have hrest := ih (hp.of_le (Nat.le_succ n))
    have hround : Viable 1 (n + 1) G (us ++ []) (do
        let a ← p
        let as ← Parser.many p
        return a :: as) :=
      hp.bind (fun a => hrest.bind_pure) fun rest hrest => (hG rest hrest).1
    have hcomplete := ((hround.mono (Nat.zero_le 1) (le_refl _) fun _ h => h).orElse
      (Viable.pure [])).completes
    rw [← hp.steady.many_eq] at hcomplete
    exact hcomplete

theorem between {opening closing : Symbol} (hp : Viable m n F us p)
    (hF : ∀ rest, F (.symbol closing :: rest)) :
    Viable 1 (n + 1) G (.symbol opening :: (us ++ [.symbol closing]))
      (between opening closing p) := by
  have hclose (a : α) : Viable 1 n G [.symbol closing] (do symbol closing; return a) :=
    (token_bind (Viable.pure a)).of_le (Nat.le_succ n)
  exact token_bind (hp.seq hclose fun rest _ => hF rest)

/-- The text goes on with the symbol. -/
def Begins (s : Symbol) (rest : List Token) : Prop :=
  rest.head? = some (.symbol s)

theorem listOf {closing : Symbol} (hp : Viable 1 n F us p) (hc : closing ≠ .comma)
    (hF : ∀ rest, Begins closing rest → F rest ∧ p.Refuses rest) :
    Viable 0 n (Begins closing) [] (listOf p) := by
  have hcomma : ∀ rest, Begins closing rest → (Parser.symbol .comma).Refuses rest := by
    intro rest hrest
    refine Refuses.token ?_
    rw [hrest]
    simpa using hc
  have hitem : Viable 1 n (Begins closing) (.symbol .comma :: us)
      (do Parser.symbol .comma; p) :=
    (token_bind (hp.follow fun rest h => (hF rest h).1)).of_le (Nat.le_succ n)
  have hitems := hitem.many fun rest hrest => ⟨hrest, Refuses.bind (hcomma rest hrest)⟩
  have hlast : Viable 0 n (Begins closing) [] (Parser.optional (Parser.symbol .comma)) :=
    (accept (if_pos rfl)).optional hcomma
  have hfirst := (hp.follow fun rest h => (hF rest h).1).optional
    fun rest h => (hF rest h).2
  unfold Parser.listOf
  refine hfirst.seq (fun o => (?_ : Viable 0 _ _ _ _)) fun _ h => h
  cases o with
  | none => exact Viable.pure []
  | some a => exact hitems.seq (fun as => hlast.bind_pure) fun _ h => h

end Viable

end Parser

/-! ## The grammar -/

namespace Grammar

open ScriptLint.Parser
open ScriptLint.Parser.Viable (Begins)

/-- Nothing that could go on with a conditional. -/
def EndsConditional (rest : List Token) : Prop :=
  rest.head? ≠ some (.keyword .elseKw)

theorem EndsBlock.endsExpr {rest : List Token} (h : EndsBlock rest) : EndsExpr rest := by
  intro t ht
  rw [h t ht]
  rfl

theorem endsExpr_of_begins {s : Symbol} {rest : List Token} (h : Begins s rest)
    (hs : continuesExpr (.symbol s) = false) : EndsExpr rest := by
  intro t ht
  rw [h] at ht
  cases ht
  exact hs

section Nested

variable {n : ℕ} {F : List Token → Prop} {us vs : List Token} {expr : Parser Expr}
  {stmt nested : Parser Stmt}

theorem refuses_expr (hse : Sound expr fun e => Derived (.expr e)) {rest : List Token}
    (h : ∀ t ∈ rest.head?, startsExpr t = false) : expr.Refuses rest :=
  Refuses.of_sound hse (fun _ _ hus => hus.begins) h

theorem refuses_stmt (hss : Sound stmt Statement) {rest : List Token} (h : EndsBlock rest) :
    stmt.Refuses rest := by
  refine Refuses.of_sound (g := startsStmt) hss ?_ fun t ht => by rw [h t ht]; rfl
  rintro s _ ⟨vs, n, rfl, hvs⟩
  obtain ⟨t, ws, rfl, ht⟩ := hvs.begins
  exact ⟨t, _, rfl, ht⟩

theorem viable_block (hss : Sound stmt Statement) (hs : Viable 1 n EndsBlock us stmt) :
    Viable 1 (n + 1) F [.symbol .openBrace, .symbol .closeBrace] (block stmt) :=
  (hs.many fun _ hrest => ⟨hrest, refuses_stmt hss hrest⟩).between
    fun rest t ht => by cases ht; rfl

/-- Expressions between two symbols, with commas. -/
theorem viable_exprs {opening closing : Symbol} (hse : Sound expr fun e => Derived (.expr e))
    (he : Viable 1 n EndsExpr us expr) (hc : closing = .closeParen ∨ closing = .closeBracket) :
    Viable 1 (n + 1) F [.symbol opening, .symbol closing]
      (between opening closing (listOf expr)) := by
  refine (he.listOf (by rcases hc with rfl | rfl <;> decide) fun rest hrest => ⟨?_, ?_⟩).between
    fun rest => rfl
  · exact endsExpr_of_begins hrest (by rcases hc with rfl | rfl <;> rfl)
  · refine refuses_expr hse fun t ht => ?_
    rw [hrest] at ht
    cases ht
    rcases hc with rfl | rfl <;> rfl

theorem viable_entry (he : Viable 1 n EndsExpr us expr) :
    Viable 1 n EndsExpr (.ident "x" :: .symbol .colon :: us) (entry expr) := by
  have hcolon (key : String) : Viable 1 (n + 1) EndsExpr (.symbol .colon :: us) (do
      symbol .colon
      let value ← expr
      return (key, value)) := Viable.token_bind he.bind_pure
  have hentry : Viable 1 (n + 1 + 1) EndsExpr (.ident "x" :: .symbol .colon :: us) (entry expr) :=
    Viable.accept_bind (a := "x") rfl hcolon
  exact hentry.of_le (by omega)

theorem viable_function (hss : Sound stmt Statement) (hs : Viable 1 n EndsBlock us stmt) :
    Viable 1 (n + 1) F [.keyword .fnKw, .symbol .openParen, .symbol .closeParen,
      .symbol .openBrace, .symbol .closeBrace] (function stmt) := by
  have hnames : Viable 0 n (Begins .closeParen) [] (listOf identifier) := by
    refine Viable.identifier.listOf (by decide) fun rest hrest =>
      ⟨trivial, Refuses.accept fun t ht => ?_⟩
    rw [hrest] at ht
    cases ht
    rfl
  have hparams : Viable 1 (n + 1) (fun _ => True) [.symbol .openParen, .symbol .closeParen]
      (between .openParen .closeParen (listOf identifier)) := hnames.between fun _ => rfl
  have hfunction : Viable 1 (n + 1 + 1) F _ (function stmt) := Viable.token_bind <|
    hparams.seq (fun params => (viable_block hss hs).bind_pure) fun _ _ => trivial
  exact hfunction.of_le (Nat.le_succ _)

theorem viable_primary (hse : Sound expr fun e => Derived (.expr e)) (hss : Sound stmt Statement)
    (he : Viable 1 n EndsExpr us expr) (hs : Viable 1 n EndsBlock vs stmt) :
    Viable 1 (n + 1) F [.ident "x"] (primary expr stmt) := by
  have hentries : Viable 0 n (Begins .closeBrace) [] (listOf (entry expr)) := by
    refine (viable_entry he).listOf (by decide) fun rest hrest => ⟨?_, ?_⟩
    · exact endsExpr_of_begins hrest rfl
    · refine Refuses.bind (Refuses.accept fun t ht => ?_)
      rw [hrest] at ht
      cases ht
      rfl
  have hobject : Viable 1 (n + 1) F [.symbol .openBrace, .symbol .closeBrace]
      (between .openBrace .closeBrace (listOf (entry expr))) := hentries.between fun _ => rfl
  have hparen : Viable 1 (n + 1) F _ (between .openParen .closeParen expr) :=
    he.between fun rest => endsExpr_cons rfl rest
  have hatom : Viable 1 (n + 1) F [.ident "x"] (accept atom?) :=
    Viable.accept (a := .ident "x") rfl
  exact hatom.orElse <| (viable_function hss hs).orElse <|
    (viable_exprs hse he (.inr rfl)).map.orElse <| hobject.map.orElse hparen.orElse_fail

theorem viable_trailer (hse : Sound expr fun e => Derived (.expr e))
    (he : Viable 1 n EndsExpr us expr) :
    Viable 1 (n + 1) F [.symbol .openParen, .symbol .closeParen] (trailer expr) := by
  have hmember (mark : Symbol) (safe : Bool) : Viable 1 (n + 1) F [.symbol mark, .ident "x"]
      (member mark safe) := Viable.token_bind Viable.identifier.bind_pure
  have hindex : Viable 1 (n + 1) F _ (between .openBracket .closeBracket expr) :=
    he.between fun rest => endsExpr_cons rfl rest
  exact (viable_exprs hse he (.inl rfl)).map.orElse <| (hmember .dot false).orElse <|
    (hmember .safeDot true).orElse hindex.map.orElse_fail

theorem viable_chain (hse : Sound expr fun e => Derived (.expr e)) (hss : Sound stmt Statement)
    (he : Viable 1 n EndsExpr us expr) (hs : Viable 1 n EndsBlock vs stmt) :
    Viable 1 (n + 1) (Ends 0) [.ident "x"] (chain expr stmt) := by
  have hhead : Viable 1 (n + 1) (fun _ => True) [.ident "x"] (primary expr stmt) :=
    viable_primary hse hss he hs
  have htrailers : Viable 0 (n + 1) (Ends 0) [] (many (trailer expr)) :=
    (viable_trailer hse he).many fun rest hrest =>
      ⟨trivial, trailer_refuses fun t ht => (hrest t ht).1⟩
  exact hhead.seq (fun head => htrailers.bind_pure) fun _ _ => trivial

theorem viable_unary {operand : Parser Expr} {F : List Token → Prop}
    (ho : Viable 1 n F [.ident "x"] operand) : Viable 1 n F [.ident "x"] (unary operand) := by
  have hop : Viable 1 n (fun _ => True) [.symbol .minus] (accept unaryOp?) :=
    Viable.accept (a := .neg) rfl
  have hops : Viable 0 n (fun rest => ∀ t ∈ rest.head?, unaryOp? t = none) []
      (many (accept unaryOp?)) := hop.many fun rest hrest => ⟨trivial, Refuses.accept hrest⟩
  have hrest (ops : List UnaryOp) : Viable 1 n F [.ident "x"]
      (operand >>= fun e => pure (ops.foldr .unary e)) := ho.bind_pure
  have h := hops.seq hrest fun rest _ t ht => by cases ht; rfl
  have hsteady : Local 1 0 (unary operand) (unary operand) :=
    (Local.accept unaryOp?).many.seq_right fun ops => ho.steady.seq fun e => Local.pure _
  exact ⟨hsteady, h.starts, h.completes⟩

/-- Every level has an operator. -/
theorem exists_levelOp {k : ℕ} (hk : k < levels) : ∃ t op, levelOp? k t = some op :=
  match k, hk with
  | 0, _ => ⟨.symbol .star, .mul, rfl⟩
  | 1, _ => ⟨.symbol .plus, .add, rfl⟩
  | 2, _ => ⟨.symbol .lt, .lt, rfl⟩
  | 3, _ => ⟨.symbol .eq, .eq, rfl⟩
  | 4, _ => ⟨.symbol .andAnd, .and, rfl⟩
  | 5, _ => ⟨.symbol .orOr, .or, rfl⟩
  | 6, _ => ⟨.symbol .coalesce, .coalesce, rfl⟩

theorem viable_operand {innermost : Parser Expr} (hi : Viable 1 n (Ends 0) [.ident "x"] innermost)
    {k : ℕ} (hk : k ≤ levels) : Viable 1 n (Ends k) [.ident "x"] (operandParser innermost k) := by
  induction k with
  | zero => exact hi
  | succ k ih =>
    have ho := ih (by omega)
    obtain ⟨t, op, ht⟩ := exists_levelOp hk
    have hround : Viable 1 (n + 1) (Ends k) [t, .ident "x"]
        (operation k (operandParser innermost k)) := Viable.accept_bind ht fun op => ho.bind_pure
    have hrounds : Viable 0 n (Ends (k + 1)) [] (many (operation k (operandParser innermost k))) :=
      (hround.of_le (Nat.le_succ n)).many fun rest hrest =>
        ⟨hrest.mono (Nat.le_succ k), Refuses.bind (Refuses.accept fun u hu =>
          (hrest u hu).2 k (Nat.lt_succ_self k))⟩
    exact ho.seq (fun head => hrounds.bind_pure) fun rest hrest => hrest.mono (Nat.le_succ k)

theorem viable_ternary {operand : Parser Expr} (he : Viable 1 n EndsExpr us expr)
    (ho : Viable 1 (n + 1) (Ends levels) [.ident "x"] operand) :
    Viable 1 (n + 1) EndsExpr [.ident "x"] (ternary expr operand) := by
  have hno (yes : Expr) : Viable 1 (n + 1) EndsExpr (.symbol .colon :: us) (do
      symbol .colon
      let no ← expr
      return (yes, no)) := Viable.token_bind he.bind_pure
  have hbranches : Viable 1 (n + 1) EndsExpr _ (do
      symbol .question
      let yes ← expr
      symbol .colon
      let no ← expr
      return (yes, no)) :=
    Viable.token_bind <| he.seq (fun yes => (hno yes).of_le (Nat.le_succ n))
      fun rest _ => endsExpr_cons rfl _
  have hbranches := hbranches.optional fun rest hrest => Refuses.bind (Refuses.token hrest.head_ne)
  unfold ternary
  refine ho.seq (fun test => (?_ : Viable 0 _ _ _ _)) fun _ hrest => hrest.ends
  exact hbranches.bind_of_pure (g := fun o => o.elim test fun x => .ternary test x.1 x.2)
    fun o => by cases o <;> rfl

theorem viable_expression (hse : Sound expr fun e => Derived (.expr e))
    (hss : Sound stmt Statement) (he : Viable 1 n EndsExpr us expr)
    (hs : Viable 1 n EndsBlock vs stmt) :
    Viable 1 (n + 1) EndsExpr [.ident "x"] (expression expr stmt) := by
  refine viable_ternary he ?_
  rw [binary_eq]
  exact viable_operand (viable_unary (viable_chain hse hss he hs)) (le_refl levels)

/-! ### Statements -/

theorem viable_condition (he : Viable 1 n EndsExpr us expr) :
    Viable 1 n F (.symbol .openParen :: (us ++ [.symbol .closeParen])) (condition expr) :=
  (he.between fun rest => endsExpr_cons rfl rest).of_le (Nat.le_succ n)

theorem viable_letBind (he : Viable 1 n EndsExpr us expr) :
    Viable 1 n EndsExpr (.keyword .letKw :: .ident "x" :: .symbol .assign :: us)
      (letBind expr) := by
  have hvalue (name : String) : Viable 1 (n + 1) EndsExpr (.symbol .assign :: us) (do
      symbol .assign
      let value ← expr
      return Stmt.letBind name value) := Viable.token_bind he.bind_pure
  have h : Viable 1 (n + 1 + 1 + 1) EndsExpr _ (letBind expr) :=
    Viable.token_bind (Viable.identifier_bind hvalue)
  exact h.of_le (by omega)

theorem viable_conditional (hss : Sound stmt Statement) (he : Viable 1 (n + 1) EndsExpr us expr)
    (hs : Viable 1 n EndsBlock vs stmt) {ws : List Token}
    (hn : Viable 1 n EndsConditional ws nested) :
    ∃ us, Viable 1 (n + 1) EndsConditional us (conditional expr stmt nested) := by
  have hblock {F : List Token → Prop} : Viable 1 (n + 1) F _ (block stmt) := viable_block hss hs
  have hbranch : Viable 1 (n + 1) EndsConditional (.keyword .elseKw :: ws) (do
      keyword .elseKw
      Parser.orElse (do return [← nested]) (block stmt)) :=
    Viable.token_bind (hn.bind_pure.orElse (hblock.of_le (Nat.le_succ n)))
  have helse := hbranch.optional fun rest hrest => Refuses.bind (Refuses.token hrest)
  have hbody (test : Expr) : Viable 1 (n + 1) EndsConditional
      [.symbol .openBrace, .symbol .closeBrace] (do
        let body ← block stmt
        let orElse ← optional (do
          keyword .elseKw
          Parser.orElse (do return [← nested]) (block stmt))
        return Stmt.ifElse test body orElse) :=
    (hblock (F := fun _ => True)).seq (fun body => helse.bind_pure) fun _ _ => trivial
  have h : Viable 1 (n + 1 + 1) EndsConditional _ (conditional expr stmt nested) :=
    Viable.token_bind <| (viable_condition (F := fun _ => True) he).seq hbody fun _ _ => trivial
  exact ⟨_, h.of_le (Nat.le_succ _)⟩

theorem viable_forIn (hss : Sound stmt Statement) (he : Viable 1 (n + 1) EndsExpr us expr)
    (hs : Viable 1 n EndsBlock vs stmt) : ∃ us, Viable 1 (n + 1) F us (forIn expr stmt) := by
  have hitems (name : String) : Viable 1 (n + 1 + 1) EndsExpr (.keyword .inKw :: us) (do
      keyword .inKw
      let items ← expr
      return (name, items)) := Viable.token_bind he.bind_pure
  have hheader := Viable.identifier_bind hitems
  have hbody (x : String × Expr) : Viable 1 (n + 1) F [.symbol .openBrace, .symbol .closeBrace]
      (block stmt >>= fun body => pure (Stmt.forIn x.1 x.2 body)) :=
    (viable_block hss hs).bind_pure
  have hparen : Viable 1 (n + 1) (fun _ => True) _ (between .openParen .closeParen (do
      let name ← identifier
      keyword .inKw
      let items ← expr
      return (name, items))) :=
    (hheader.between fun rest => endsExpr_cons rfl rest).of_le (by omega)
  have h : Viable 1 (n + 1 + 1) F _ (forIn expr stmt) :=
    Viable.token_bind (hparen.seq hbody fun _ _ => trivial)
  exact ⟨_, h.of_le (Nat.le_succ _)⟩

theorem viable_whileDo (hss : Sound stmt Statement) (he : Viable 1 (n + 1) EndsExpr us expr)
    (hs : Viable 1 n EndsBlock vs stmt) : ∃ us, Viable 1 (n + 1) F us (whileDo expr stmt) := by
  have hbody (test : Expr) : Viable 1 (n + 1) F [.symbol .openBrace, .symbol .closeBrace]
      (block stmt >>= fun body => pure (Stmt.whileDo test body)) :=
    (viable_block hss hs).bind_pure
  have h : Viable 1 (n + 1 + 1) F _ (whileDo expr stmt) := Viable.token_bind <|
    (viable_condition (F := fun _ => True) he).seq hbody fun _ _ => trivial
  exact ⟨_, h.of_le (Nat.le_succ _)⟩

theorem viable_ret (hse : Sound expr fun e => Derived (.expr e))
    (he : Viable 1 n EndsExpr us expr) : Viable 1 n EndsBlock [.keyword .returnKw] (ret expr) := by
  have hvalue : Viable 0 n EndsBlock [] (optional expr) := by
    refine (he.follow fun _ h => EndsBlock.endsExpr h).optional
      fun rest hrest => refuses_expr hse fun t ht => ?_
    rw [hrest t ht]
    rfl
  have h : Viable 1 (n + 1) EndsBlock _ (ret expr) := Viable.token_bind hvalue.bind_pure
  exact h.of_le (Nat.le_succ n)

theorem viable_assignment (he : Viable 1 n EndsExpr us expr) :
    Viable 1 n EndsBlock us (assignment expr) := by
  have hassign : Viable 1 (n + 1) EndsBlock (.symbol .assign :: us) (do symbol .assign; expr) :=
    Viable.token_bind (he.follow fun _ h => EndsBlock.endsExpr h)
  have hvalue := (hassign.of_le (Nat.le_succ n)).optional
    fun rest hrest => Refuses.bind (Refuses.token fun h => by cases hrest _ h)
  rw [← List.append_nil us]
  unfold assignment
  refine he.seq (fun target => (?_ : Viable 0 _ _ _ _)) fun _ hrest => EndsBlock.endsExpr hrest
  exact hvalue.bind_of_pure (g := fun o => o.elim (.expr target) (.assign target))
    fun o => by cases o <;> rfl

theorem viable_statement (hse : Sound expr fun e => Derived (.expr e)) (hss : Sound stmt Statement)
    (he : Viable 1 (n + 1) EndsExpr us expr) (hs : Viable 1 n EndsBlock vs stmt)
    {ws : List Token} (hc : Viable 1 (n + 1) EndsConditional ws nested) :
    ∃ us, Viable 1 (n + 1) EndsBlock us (statement expr stmt nested) := by
  obtain ⟨_, hfor⟩ := viable_forIn (F := EndsBlock) hss he hs
  obtain ⟨_, hwhile⟩ := viable_whileDo (F := EndsBlock) hss he hs
  have hlet := (viable_letBind he).follow fun _ h => EndsBlock.endsExpr h
  have hif : Viable 1 (n + 1) EndsBlock ws nested :=
    hc.follow fun rest hrest h => by cases hrest _ h
  have hbare : Viable 1 (n + 1) EndsBlock _ (choice [letBind expr, nested, forIn expr stmt,
      whileDo expr stmt, ret expr, assignment expr]) :=
    hlet.orElse <| hif.orElse <| hfor.orElse <| hwhile.orElse <| (viable_ret hse he).orElse
      (viable_assignment he).orElse_fail
  have hsemi : Viable 1 (n + 1) (fun _ => True) [.symbol .semicolon] (symbol .semicolon) :=
    Viable.accept (if_pos rfl)
  have hsemis : Viable 0 (n + 1) EndsBlock [] (many (symbol .semicolon)) :=
    hsemi.many fun rest hrest => ⟨trivial, Refuses.token fun h => by cases hrest _ h⟩
  exact ⟨_, hbare.seq (fun s => hsemis.bind_pure) fun _ h => h⟩

end Nested

/-! ## Any number of tokens -/

theorem sound_limit {α : Type} {P : ℕ → Parser α} {R : α → List Token → Prop}
    (h : ∀ d, Sound (P d) R) : Sound (limit P) R :=
  fun ts => h (ts.size + 1) ts

theorem sound_full : Rules.full.Sound :=
  ⟨sound_limit fun d => (rules_sound d).expr, sound_limit fun d => (rules_sound d).stmt,
    sound_limit fun d => (rules_sound d).conditional⟩

/-- The rules without a depth are viable where fewer than `n` tokens are left. -/
structure ViableRules (n : ℕ) : Prop where
  expr : Viable 1 n EndsExpr [.ident "x"] Rules.full.expr
  stmt : Viable 1 n EndsBlock [.ident "x"] Rules.full.stmt
  conditional : Viable 1 n EndsConditional (.keyword .ifKw ::
    enclosed .openParen .closeParen [.ident "x"] ++ enclosed .openBrace .closeBrace [])
    Rules.full.conditional

theorem spells_operand {next : Stmt → Token → Prop} (k : ℕ) :
    Spells next (.operand k (.ident "x")) [.ident "x"] := by
  induction k with
  | zero => exact .innermost (.chain (.atom (.ident "x")) .noTrailer)
  | succ k ih => exact .binary ih .noOperator

theorem spells_name {next : Stmt → Token → Prop} :
    Spells next (.expr (.ident "x")) [.ident "x"] :=
  .plain (spells_operand levels)

theorem starts_of_upTo {α : Type} {P : ℕ → Parser α} {F : List Token → Prop} {us : List Token}
    {a : α} (h : ∀ d, us.length ≤ d → ∀ rest, F rest → (P (d + 1)).Takes us a rest) :
    Starts F us (limit P) := by
  refine ⟨a, fun rest hrest ts i hts => ?_⟩
  have hlen := congrArg List.length hts
  rw [List.length_drop, List.length_append, Array.length_toList] at hlen
  exact h ts.size (by omega) rest hrest ts i hts

/-- What the same parser in another form completes, the parser completes. -/
theorem viable_of_same {α : Type} {m n : ℕ} {F : List Token → Prop} {us vs : List Token}
    {p q : Parser α} (hpq : ∀ k, Local m k p q) (hp : Starts F us p) (hq : Viable m n F vs q) :
    Viable m n F us p where
  steady := (hpq 0).self 0
  starts := hp
  completes ts i hi hlt := by
    have hsame {ts : Array Token} (hi : i ≤ ts.size) : q ts i = p ts i :=
      (hpq (ts.size + 1)).same ts i hi (by omega)
    obtain ⟨ws, a, ha⟩ := hq.completes ts i hi hlt
    refine ⟨ws, a, fun rest hrest => ?_⟩
    have hreach := hq.reach_le hi
    have hle := hq.steady.le_reach ts i
    have hfound := ha rest hrest
    rw [hsame (by rw [size_graft hreach]; omega), hsame hi] at hfound
    exact hfound

theorem starts_expr : Starts EndsExpr [.ident "x"] Rules.full.expr :=
  starts_of_upTo fun d hd => spells_name.complete (d + 1) (Nat.le_succ_of_le hd)

theorem starts_stmt : Starts EndsBlock [.ident "x"] Rules.full.stmt := by
  refine starts_of_upTo (a := .expr (.ident "x")) fun d hd rest hrest => ?_
  have hbare := (Spells.expr spells_name).complete d (Nat.le_succ_of_le hd) rest
    (hrest.endsStmt _)
  have hsemi : rest.head? ≠ some (.symbol .semicolon) := fun h => by cases hrest _ h
  have hsemis : (many (symbol .semicolon) >>= fun _ => pure (Stmt.expr (.ident "x"))).Takes []
      (.expr (.ident "x")) rest := (Takes.many (repeats_token hsemi 0)).bind_pure
  have h : (Rules.upTo (d + 1)).stmt.Takes ([.ident "x"] ++ []) (.expr (.ident "x")) rest := by
    rw [upTo_stmt]
    exact Takes.bind hbare hsemis
  exact h

theorem starts_conditional : Starts EndsConditional (.keyword .ifKw ::
    enclosed .openParen .closeParen [.ident "x"] ++ enclosed .openBrace .closeBrace [])
    Rules.full.conditional :=
  starts_of_upTo fun d hd => (Spells.noElse spells_name .noStmt).complete (d + 1)
    (Nat.le_succ_of_le hd)

/-- **However far the rules come, what they stand behind can be completed.** -/
theorem rules_viable (n : ℕ) : ViableRules n := by
  induction n with
  | zero =>
    have hlocal := local_full 0
    exact ⟨⟨hlocal.expr, starts_expr, fun _ _ _ h => absurd h (by omega)⟩,
      ⟨hlocal.stmt, starts_stmt, fun _ _ _ h => absurd h (by omega)⟩,
      ⟨hlocal.conditional, starts_conditional, fun _ _ _ h => absurd h (by omega)⟩⟩
  | succ n ih =>
    have hsound := sound_full
    have hnext := hsound.next
    have he := viable_expression hsound.expr hsound.stmt ih.expr ih.stmt
    obtain ⟨_, hc⟩ := viable_conditional hsound.stmt he ih.stmt ih.conditional
    obtain ⟨_, hs⟩ := viable_statement hnext.expr hsound.stmt he ih.stmt hc
    exact ⟨viable_of_same (fun k => (local_full_next k).expr) starts_expr he,
      viable_of_same (fun k => (local_full_next k).stmt) starts_stmt hs,
      viable_of_same (fun k => (local_full_next k).conditional) starts_conditional hc⟩

theorem exists_completion {ts : Array Token} {k : ℕ} (h : parseTokens ts = .error k) :
    ∃ us program, parseTokens (graft ts k us) = .ok program := by
  have hviable : Viable 0 (ts.size + 1) EndsBlock [] (many Rules.full.stmt) :=
    (rules_viable _).stmt.many fun _ hrest => ⟨hrest, refuses_stmt sound_full.stmt hrest⟩
  obtain ⟨us, program, hus⟩ := hviable.completes ts 0 (Nat.zero_le _) (by omega)
  have hreach : (many Rules.full.stmt ts 0).reach = k := reach_of_parseTokens h
  rw [hreach] at hus
  have hfound := hus [] (by simp [EndsBlock])
  rw [List.append_nil] at hfound
  refine ⟨us, program, parseTokens_of_reply ?_⟩
  rw [size_graft (blamed_le h)]
  exact hfound

/-- Blaming a token and blaming the end are said in different words. -/
theorem unexpectedToken_ne {spelling : String}
    (h : "Unexpected token '" ++ spelling ++ "'" = "Unexpected end of input") : False := by
  -- one of them ends with a quote
  have hlast := congrArg (fun s => s.toList.getLast?) h
  have hend : "Unexpected end of input".toList.getLast? = some 't' := by decide +kernel
  have hquote : "'".toList = ['\''] := by decide +kernel
  simp only [String.toList_append, hquote, List.getLast?_append, List.getLast?_singleton,
    Option.some_or, hend] at hlast
  cases hlast

/-- **The tokens before the blamed one begin a program.** If no token is blamed, all of them do. -/
theorem parse_viable_prefix (source : String) (lexemes : Array Lexeme) (fault : Fault)
    (h : parse source lexemes = .error fault) :
    ∃ k ≤ lexemes.size, parseTokens (lexemes.map Lexeme.token) = .error k ∧
      fault = blame source.toList lexemes k ∧
      (fault.message = "Unexpected end of input" ↔ k = lexemes.size) ∧
      ∃ (more : Array Lexeme) (program : Program), ∀ source',
        parse source' (lexemes.take k ++ more) = .ok program := by
  obtain ⟨k, hk, hts, rfl⟩ := error_of_parse h
  obtain ⟨us, program, hus⟩ := exists_completion hts
  refine ⟨k, hk, hts, rfl, ?_, (us.map fun t => ⟨t, ⟨0, 0⟩⟩).toArray, program, fun source' => ?_⟩
  · rcases Nat.lt_or_eq_of_le hk with hlt | rfl
    · rw [blame_of_lt _ hlt]
      exact iff_of_false (fun h => unexpectedToken_ne h) (Nat.ne_of_lt hlt)
    · rw [blame_size]
      exact iff_of_true rfl rfl
  · have hmap : (lexemes.take k ++ (us.map fun t => (⟨t, ⟨0, 0⟩⟩ : Lexeme)).toArray).map
        Lexeme.token = graft (lexemes.map Lexeme.token) k us := by
      apply Array.toList_inj.1
      simp [graft, Function.comp_def]
    simp only [parse, hmap, hus]

/-- `if (a) { b = [c } else`: the array is left open, so the brace is to blame, though the `else`
fits the `if`. -/
def openArray : Array Lexeme :=
  #[⟨.keyword .ifKw, ⟨0, 2⟩⟩, ⟨.symbol .openParen, ⟨3, 4⟩⟩, ⟨.ident "a", ⟨4, 5⟩⟩,
    ⟨.symbol .closeParen, ⟨5, 6⟩⟩, ⟨.symbol .openBrace, ⟨7, 8⟩⟩, ⟨.ident "b", ⟨9, 10⟩⟩,
    ⟨.symbol .assign, ⟨11, 12⟩⟩, ⟨.symbol .openBracket, ⟨13, 14⟩⟩, ⟨.ident "c", ⟨14, 15⟩⟩,
    ⟨.symbol .closeBrace, ⟨16, 17⟩⟩, ⟨.keyword .elseKw, ⟨18, 22⟩⟩]

theorem parse_viable_prefix_open_array :
    parse "if (a) \x7b b = [c \x7d else" openArray =
      .error ⟨.unexpectedToken "\x7d", some ⟨⟨16, 17⟩, ⟨1, 17⟩⟩⟩ ∧
    ∃ (more : Array Lexeme) (program : Program), ∀ source',
      parse source' (openArray.take 9 ++ more) = .ok program := by
  have hparse : parse "if (a) \x7b b = [c \x7d else" openArray =
      .error ⟨.unexpectedToken "\x7d", some ⟨⟨16, 17⟩, ⟨1, 17⟩⟩⟩ := by cbv
  obtain ⟨k, -, hk, -, -, hmore⟩ := parse_viable_prefix _ openArray _ hparse
  have hindex : parseTokens (openArray.map Lexeme.token) = .error 9 := by cbv
  obtain rfl : k = 9 := Except.error.inj (hk.symm.trans hindex)
  exact ⟨hparse, hmore⟩

end Grammar

end ScriptLint
