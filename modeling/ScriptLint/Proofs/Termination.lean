import ScriptLint.Proofs.Completeness
import ScriptLint.Proofs.Lockstep

/-!
# Progress and termination

Whatever a rule finds takes a token, and whatever a rule enters stands behind a token that it has
taken. So the equations of the grammar, in which nothing is counted, have exactly one solution, and
the depth of nesting and the number of rounds that the parser is given make no difference.

* `Advances`: what is found takes a token; `Repeated`: the parsers that the grammar repeats.
* `Local.eq_many_iff`: a repetition without a bound on its rounds.
* `Rules.Enters`: a rule is entered at a position on the way of another.
* `Rules.Enters.lt`: **no rule is entered again without a token in between.**
* `replies_repeat`: levels enough reply the same, whatever is put at their bottom.
* `parse_unbounded`: **the parser is total, and no budget shows in its answers.**
-/

namespace ScriptLint

namespace Parser

variable {α : Type} {p q : Parser α} {ts : Array Token} {i k : ℕ}

/-! ## Repetitions -/

/-- Whatever is found takes a token, and ends within the text. -/
def Advances (p : Parser α) : Prop :=
  ∀ ts i a j, (p ts i).found = some (a, j) → i < j ∧ j ≤ ts.size

/-- One round of `p` and then the rounds of `X`, or nothing. -/
def round (p : Parser α) (X : Parser (List α)) : Parser (List α) :=
  (do let a ← p; let as ← X; return a :: as).orElse (pure [])

theorem Local.advances (h : Local 1 k p q) : p.Advances := by
  intro ts i a j hj
  have hle := h.found_le ts i a j hj
  have hsize := h.reach_le ts i
  omega

theorem round_congr {X Y : Parser (List α)}
    (h : ∀ a j, (p ts i).found = some (a, j) → X ts j = Y ts j) :
    round p X ts i = round p Y ts i := by
  have hbind : (do let a ← p; let as ← X; return a :: as : Parser (List α)) ts i =
      (do let a ← p; let as ← Y; return a :: as : Parser (List α)) ts i :=
    bind_congr rfl fun a j hj => bind_congr (h a j hj) fun _ _ _ => rfl
  simp only [round, Parser.orElse, hbind]

/-- A repetition is the only parser that is one round and then itself, or nothing: no bound on the
rounds is needed to say what it is. -/
theorem Local.eq_many_iff (h : Local 1 k p q) {X : Parser (List α)} :
    X = round p X ↔ X = Parser.many p := by
  have hmany : Parser.many p = round p (Parser.many p) := h.many_eq
  constructor
  · intro hX
    have hstep : ∀ n ts i, ts.size - i < n → X ts i = Parser.many p ts i := by
      intro n
      -- each round leaves fewer tokens
      induction n with
      | zero => intro ts i hi; omega
      | succ n ih =>
        intro ts i hi
        rw [hX, hmany]
        refine round_congr fun a j hj => ih ts j ?_
        have := h.advances ts i a j hj
        omega
    exact funext₂ fun ts i => hstep _ ts i (Nat.lt_succ_self _)
  · rintro rfl
    exact hmany

end Parser

namespace Grammar

open ScriptLint.Parser

variable {r r' : Rules} {ts : Array Token} {i j : ℕ}

/-- The parsers that the grammar repeats. -/
inductive Repeated (r : Rules) : {α : Type} → Parser α → Prop
  | statement : Repeated r r.stmt
  | semicolon : Repeated r (symbol .semicolon)
  | trailer : Repeated r (trailer r.expr)
  | unaryOp : Repeated r (accept unaryOp?)
  | operation (k : ℕ) : Repeated r (operation k (operandParser (innermost r) k))
  | item : Repeated r (do symbol .comma; r.expr)
  | entry : Repeated r (do symbol .comma; entry r.expr)
  | parameter : Repeated r (do symbol .comma; identifier)

theorem tolerant_levelOp (k : ℕ) : Tolerant (levelOp? k) := by
  unfold levelOp?
  rw [List.getD_eq_getElem?_getD]
  cases h : binaryLevels[k]? with
  | none => exact fun _ => rfl
  | some op? => exact tolerant_of_mem_binaryLevels op? (List.mem_of_getElem? h)

theorem guarded_operandParser (k : ℕ) :
    Guarded r r' 1 1 (operandParser (innermost r) k) (operandParser (innermost r') k) := by
  induction k with
  | zero => exact guarded_unary guarded_chain
  | succ k ih => exact guarded_binaryLevel ih (tolerant_levelOp k)

theorem Repeated.guarded {α : Type} {p : Parser α} (h : Repeated r p) : Guarded r r 1 0 p p := by
  cases h with
  | statement => exact .stmt
  | semicolon => exact .symbol .semicolon rfl
  | trailer => exact guarded_trailer.loose
  | unaryOp => exact guarded_unaryOp
  | operation k => exact (guarded_operation (guarded_operandParser k) (tolerant_levelOp k)).loose
  | item => exact Guarded.expr.item
  | entry => exact guarded_entry.item
  | parameter => exact Guarded.identifier.item

/-! ## Entering a rule -/

/-- Rules whose finds take a token each. -/
structure Rules.Advance (r : Rules) : Prop where
  expr : r.expr.Advances
  stmt : r.stmt.Advances
  conditional : r.conditional.Advances

/-- What the rules reply at a position. -/
def Rules.replies (r : Rules) (ts : Array Token) (i : ℕ) : Reply Expr × Reply Stmt × Reply Stmt :=
  (r.expr ts i, r.stmt ts i, r.conditional ts i)

/-- On its way from the position `i`, a rule enters a rule inside it at `j`. This shows in its reply:
how far a rule has come takes in how far the rules inside have come. So for some rules inside, the
reply at `i` changes when theirs changes at `j` alone. -/
def Rules.Enters (ts : Array Token) (i j : ℕ) : Prop :=
  ∃ r r' : Rules, r.Advance ∧ (∀ k ≠ j, r'.replies ts k = r.replies ts k) ∧
    r'.next.replies ts i ≠ r.next.replies ts i

theorem Rules.InStep.of_replies {m : ℕ} (hr : r.Advance)
    (h : ∀ k, m ≤ k → k ≤ ts.size → r'.replies ts k = r.replies ts k) :
    Rules.InStep ts ts m r r' := by
  have hstep {α : Type} {p q : Parser α} (hp : p.Advances)
      (hsame : ∀ k, m ≤ k → k ≤ ts.size → q ts k = p ts k) : Parser.InStep ts ts m 1 0 p q := by
    intro k hk hend
    refine ⟨hsame k hk (hend rfl), fun a j hj => ?_⟩
    have := hp ts k a j hj
    omega
  exact ⟨hstep hr.expr fun k hk hend => (Prod.mk.inj (h k hk hend)).1,
    hstep hr.stmt fun k hk hend => (Prod.mk.inj (Prod.mk.inj (h k hk hend)).2).1,
    hstep hr.conditional fun k hk hend => (Prod.mk.inj (Prod.mk.inj (h k hk hend)).2).2⟩

/-- One level more replies the same one position earlier, and behind the end as well. -/
theorem Rules.InStep.replies_next {m : ℕ} (h : Rules.InStep ts ts m r r') (hi : m ≤ i + 1) :
    r'.next.replies ts i = r.next.replies ts i := by
  have hend : 1 = 0 → i ≤ ts.size := fun h => absurd h Nat.one_ne_zero
  have hexpr := (guarded_expression.inStep (.refl ts) h i hi hend).1
  have hstmt := (guarded_statement.inStep (.refl ts) h i hi hend).1
  have hconditional := (guarded_conditional.inStep (.refl ts) h i hi hend).1
  rw [Rules.replies, Rules.replies, hexpr, hstmt, hconditional]

/-- **A rule that is entered stands further on**, and not behind the end of the text. -/
theorem Rules.Enters.lt (h : Rules.Enters ts i j) : i < j ∧ j ≤ ts.size := by
  obtain ⟨r, r', hr, hsame, hdiffer⟩ := h
  constructor
  · by_contra hij
    have hstep : Rules.InStep ts ts (j + 1) r r' :=
      .of_replies hr fun k hk _ => hsame k (by omega)
    exact hdiffer (hstep.replies_next (by omega))
  · by_contra hj
    have hstep : Rules.InStep ts ts 0 r r' := .of_replies hr fun k _ hk => hsame k (by omega)
    exact hdiffer (hstep.replies_next (Nat.zero_le _))

/-- So are all that are entered on the way of it. -/
theorem Rules.Enters.lt_of_transGen (h : Relation.TransGen (Rules.Enters ts) i j) :
    i < j ∧ j ≤ ts.size := by
  induction h with
  | single h => exact h.lt
  | tail _ h ih => exact ⟨ih.1.trans h.lt.1, h.lt.2⟩

/-! ## Depth -/

theorem inStep_repeat (ts : Array Token) (r r' : Rules) (d : ℕ) :
    Rules.InStep ts ts (ts.size + 1 - d) (d.repeat Rules.next r) (d.repeat Rules.next r') := by
  induction d with
  | zero =>
    -- there is no position to reply at
    have hnone {α : Type} {p q : Parser α} : InStep ts ts (ts.size + 1 - 0) 1 0 p q :=
      fun k hk hend => absurd (hend rfl) (by omega)
    exact ⟨hnone, hnone, hnone⟩
  | succ d ih => exact ih.next (.refl ts)

/-- Levels enough reply the same, whatever is put at their bottom. -/
theorem replies_repeat (r r' : Rules) {d : ℕ} (hd : ts.size < d) (i : ℕ) :
    (d.repeat Rules.next r').replies ts i = (d.repeat Rules.next r).replies ts i := by
  obtain ⟨d, rfl⟩ : ∃ e, d = e + 1 := ⟨d - 1, by omega⟩
  exact (inStep_repeat ts r r' d).replies_next (by omega)

theorem repeat_next_comm (r : Rules) (d : ℕ) :
    d.repeat Rules.next r.next = (d.repeat Rules.next r).next := by
  induction d with
  | zero => rfl
  | succ d ih => exact congrArg Rules.next ih

theorem repeat_next_of_eq (h : r.next = r) (d : ℕ) : d.repeat Rules.next r = r := by
  induction d with
  | zero => rfl
  | succ d ih => rw [Nat.repeat, ih, h]

theorem Rules.eq_of_replies (h : ∀ ts i, r'.replies ts i = r.replies ts i) : r' = r := by
  obtain ⟨expr, stmt, conditional⟩ := r
  obtain ⟨expr', stmt', conditional'⟩ := r'
  simp only [Rules.replies, Prod.mk.injEq] at h
  rw [Rules.mk.injEq]
  exact ⟨funext₂ fun ts i => (h ts i).1, funext₂ fun ts i => (h ts i).2.1,
    funext₂ fun ts i => (h ts i).2.2⟩

/-- The equations of the grammar have no two solutions. -/
theorem eq_of_next_eq (h : r.next = r) (h' : r'.next = r') : r' = r := by
  refine Rules.eq_of_replies fun ts i => ?_
  have hsame := replies_repeat r r' (Nat.lt_succ_self ts.size) i
  rwa [repeat_next_of_eq h, repeat_next_of_eq h'] at hsame

theorem advance_full : Rules.full.Advance :=
  ⟨(local_full 0).expr.advances, (local_full 0).stmt.advances, (local_full 0).conditional.advances⟩

theorem replies_full (ts : Array Token) (i : ℕ) :
    Rules.full.replies ts i = (Rules.upTo (ts.size + 1)).replies ts i := by
  simp only [Rules.replies, Rules.full, limit]

/-- The rules without a depth solve the equations of the grammar. -/
theorem full_next : Rules.full.next = Rules.full := by
  refine Rules.eq_of_replies fun ts i => ?_
  have hstep : Rules.InStep ts ts 0 Rules.full (Rules.upTo (ts.size + 1)) :=
    .of_replies advance_full fun k _ _ => (replies_full ts k).symm
  calc Rules.full.next.replies ts i
      = (Rules.upTo (ts.size + 1)).next.replies ts i := (hstep.replies_next (Nat.zero_le _)).symm
    _ = ((ts.size + 1).repeat Rules.next Rules.none.next).replies ts i := by
        rw [repeat_next_comm]
        rfl
    _ = (Rules.upTo (ts.size + 1)).replies ts i :=
        replies_repeat Rules.none Rules.none.next (Nat.lt_succ_self _) i
    _ = Rules.full.replies ts i := (replies_full ts i).symm

/-! ## Whole texts -/

/-- Statements are read alike at any depth and in any number of rounds beyond the tokens. -/
theorem upTo_repeat (bottom : Rules) {depth rounds : ℕ} (hdepth : ts.size < depth)
    (hrounds : ts.size < rounds) :
    upTo (depth.repeat Rules.next bottom).stmt rounds ts 0 = many Rules.full.stmt ts 0 := by
  have hstep := inStep_repeat ts Rules.full bottom depth
  rw [repeat_next_of_eq full_next] at hstep
  rw [(hstep.stmt.upTo rounds 0 (by omega) fun _ => Nat.zero_le _).1]
  exact ((local_full 0).stmt.many_eq_upTo (by omega)).symm

/-- **The parser is total, and no budget shows in its answers.** The equations of the grammar have
exactly one solution. Its rules take a token whenever they find something, and so does each parser
that is repeated; a repetition is the only solution of its own equation, and the same in any number
of rounds beyond the tokens left. Whatever is entered on the way of a rule stands behind a token
that was taken. The answer to a text is that of the solution, and the same at any depth and in any
number of rounds beyond its tokens, whatever rules are put at the bottom. -/
theorem parse_unbounded :
    ∃ r : Rules, (r.next = r ∧ ∀ r' : Rules, r'.next = r' → r' = r) ∧
      (r.Advance ∧ (entry r.expr).Advances ∧ ∀ (α : Type) (p : Parser α), Repeated r p →
        p.Advances ∧ (∀ X, X = round p X ↔ X = many p) ∧
          ∀ ts i rounds, ts.size < i + rounds → upTo p rounds ts i = many p ts i) ∧
      (∀ ts i j, Relation.TransGen (Rules.Enters ts) i j → i < j ∧ j ≤ ts.size) ∧
      (∀ ts, parseTokens ts = outcome ts (many r.stmt ts 0) ∧
        ∀ (bottom : Rules) (depth rounds : ℕ), ts.size < depth → ts.size < rounds →
          upTo (depth.repeat Rules.next bottom).stmt rounds ts 0 = many r.stmt ts 0) ∧
      ∀ source lexemes, (∃ program, parse source lexemes = .ok program) ∨
        ∃ k ≤ lexemes.size, parse source lexemes = .error (blame source.toList lexemes k) := by
  refine ⟨Rules.full, ⟨full_next, fun r' hr' => eq_of_next_eq full_next hr'⟩,
    ⟨advance_full, (guarded_entry.toLocal (local_full 0)).advances, ?_⟩,
    fun ts i j => Rules.Enters.lt_of_transGen,
    fun ts => ⟨parseTokens_eq ts, fun bottom _ _ => upTo_repeat bottom⟩, ?_⟩
  · intro α p hp
    have hlocal := hp.guarded.toLocal (local_full 0)
    exact ⟨hlocal.advances, fun X => hlocal.eq_many_iff,
      fun ts i rounds h => (hlocal.many_eq_upTo h).symm⟩
  · intro source lexemes
    cases h : parse source lexemes with
    | ok program => exact .inl ⟨program, rfl⟩
    | error fault =>
      obtain ⟨k, hk, -, rfl⟩ := error_of_parse h
      exact .inr ⟨k, hk, rfl⟩

/-- An expression is entered behind each of two parentheses. -/
theorem parse_unbounded_parens :
    Relation.TransGen (Rules.Enters #[.symbol .openParen, .symbol .openParen]) 0 2 ∧
      0 < 2 ∧ 2 ≤ (#[.symbol .openParen, .symbol .openParen] : Array Token).size := by
  -- rules that find nothing, and the same with another reach at one position
  have hfirst : Rules.Enters #[.symbol .openParen, .symbol .openParen] 0 1 := by
    refine ⟨Rules.none, ⟨fun _ i => ⟨none, if i = 1 then 9 else i⟩, fail, fail⟩,
      ⟨nofun, nofun, nofun⟩, fun k hk => ?_, fun h => ?_⟩
    · simp [Rules.replies, Rules.none, fail, hk]
    · exact absurd (congrArg (fun x => x.1.reach) h) (by decide)
  have hsecond : Rules.Enters #[.symbol .openParen, .symbol .openParen] 1 2 := by
    refine ⟨Rules.none, ⟨fun _ i => ⟨none, if i = 2 then 9 else i⟩, fail, fail⟩,
      ⟨nofun, nofun, nofun⟩, fun k hk => ?_, fun h => ?_⟩
    · simp [Rules.replies, Rules.none, fail, hk]
    · exact absurd (congrArg (fun x => x.1.reach) h) (by decide)
  have hchain := Relation.TransGen.tail (.single hfirst) hsecond
  obtain ⟨_, _, _, hlt, _⟩ := parse_unbounded
  exact ⟨hchain, hlt _ _ _ hchain⟩

end Grammar

end ScriptLint
