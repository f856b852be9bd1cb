import ScriptLint.Proofs.Lookahead

/-!
# Parsers in step

Two runs of the grammar go side by side, position by position: over the same tokens with different
rules inside, or over tokens that differ in the spelling of logical operators. They reply the same,
on every way that is tried and given up.

* `InStep ts ts' m n g p q`: `q` replies over `ts'` as `p` does over `ts`, from the position `m` on
  if `g` tokens are taken first.
* `Guarded.inStep`: what is made of rules that are in step is in step.
* `Rules.InStep.next`: one level more of the rules is in step one position earlier.
* `parse_respell`: **the spelling of a logical operator makes no difference.**
-/

namespace ScriptLint

namespace Parser

variable {α β : Type} {p p' q q' : Parser α} {f f' : α → Parser β} {ts ts' : Array Token}
  {m n g : ℕ}

/-! ## Two parsers -/

/-- As many tokens, and where they differ, two spellings of one operator. -/
def Alike (ts ts' : Array Token) : Prop :=
  ts'.size = ts.size ∧ ∀ i : ℕ, ts'[i]? = ts[i]? ∨ ts'[i]? = ts[i]?.map Token.respelled

theorem Alike.refl (ts : Array Token) : Alike ts ts :=
  ⟨rfl, fun _ => .inl rfl⟩

/-- At each position from which `g` tokens lead to `m` or further, `q` replies over `ts'` as `p`
does over `ts`, and what they find takes `n` tokens at least and ends within the text. If no token
is to be taken first, the positions behind the end of the text do not count. -/
def InStep (ts ts' : Array Token) (m n g : ℕ) (p q : Parser α) : Prop :=
  ∀ i, m ≤ i + g → (g = 0 → i ≤ ts.size) →
    q ts' i = p ts i ∧ ∀ a j, (p ts i).found = some (a, j) → i + n ≤ j ∧ j ≤ max i ts.size

namespace InStep

theorem mono {m' n' g' : ℕ} (h : InStep ts ts' m n g p q) (hm : m + g' ≤ m' + g) (hn : n' ≤ n)
    (hg : g' ≤ g) : InStep ts ts' m' n' g' p q := by
  intro i hi hend
  obtain ⟨heq, hfound⟩ := h i (by omega) fun h0 => hend (by omega)
  refine ⟨heq, fun a j hj => ?_⟩
  have := hfound a j hj
  omega

theorem pure (a : α) : InStep ts ts' m 0 g (pure a) (Pure.pure a) := by
  intro i _ _
  refine ⟨rfl, fun b j hj => ?_⟩
  obtain ⟨-, rfl⟩ : a = b ∧ i = j := by simpa using hj
  omega

theorem fail : InStep ts ts' m n g (fail : Parser α) Parser.fail :=
  fun _ _ _ => ⟨rfl, nofun⟩

theorem accept (hts : Alike ts ts') {f : Token → Option α} (hf : Grammar.Tolerant f) :
    InStep ts ts' m 1 g (accept f) (Parser.accept f) := by
  intro i _ _
  have hbind : ts'[i]?.bind f = ts[i]?.bind f := by
    rcases hts.2 i with h | h
    · rw [h]
    · rw [h, Option.bind_map]
      exact congrArg (Option.bind ts[i]?) (funext hf)
  refine ⟨by rw [Parser.accept, Parser.accept, hbind], fun a j hj => ?_⟩
  have hle := (Local.accept (k := 0) f).found_le ts i a j hj
  have hsize := (Local.accept (k := 0) f).reach_le ts i
  exact ⟨hle.1, hle.2.trans hsize⟩

theorem bind {m' : ℕ} (hp : InStep ts ts' m m' g p q)
    (hf : ∀ a, InStep ts ts' m n (g - m') (f a) (f' a)) :
    InStep ts ts' m (m' + n) g (p >>= f) (q >>= f') := by
  intro i hi hend
  obtain ⟨heq, hfound⟩ := hp i hi hend
  cases h : (p ts i).found with
  | none =>
    rw [bind_of_none h, bind_of_none (by rw [heq, h]), heq]
    exact ⟨rfl, nofun⟩
  | some x =>
    have hx := hfound x.1 x.2 h
    obtain ⟨heq', hfound'⟩ := hf x.1 x.2 (by omega) (by omega)
    rw [bind_of_some h, bind_of_some (by rw [heq, h]), heq, heq']
    refine ⟨rfl, fun b j hj => ?_⟩
    have := hfound' b j hj
    omega

theorem orElse (hp : InStep ts ts' m n g p q) (hp' : InStep ts ts' m n g p' q') :
    InStep ts ts' m n g (p.orElse p') (q.orElse q') := by
  intro i hi hend
  obtain ⟨heq, hfound⟩ := hp i hi hend
  obtain ⟨heq', hfound'⟩ := hp' i hi hend
  cases h : (p ts i).found with
  | none =>
    rw [orElse_of_none h, orElse_of_none (by rw [heq, h]), heq, heq']
    exact ⟨rfl, hfound'⟩
  | some x =>
    rw [orElse_of_some h, orElse_of_some (by rw [heq, h]), heq]
    exact ⟨rfl, hfound⟩

theorem upTo (hp : InStep ts ts' m 1 g p q) (c : ℕ) :
    InStep ts ts' m 0 g (upTo p c) (Parser.upTo q c) := by
  induction c with
  | zero => exact InStep.pure []
  | succ c ih =>
    intro i hi hend
    obtain ⟨heq, hfound⟩ := hp i hi hend
    cases h : (p ts i).found with
    | none =>
      rw [upTo_of_none h, upTo_of_none (by rw [heq, h]), heq]
      refine ⟨rfl, fun as j hj => ?_⟩
      obtain ⟨-, rfl⟩ : [] = as ∧ i = j := by simpa using hj
      omega
    | some x =>
      have hx := hfound x.1 x.2 h
      obtain ⟨heq', hfound'⟩ := ih x.2 (by omega) (by omega)
      rw [upTo_of_some h, upTo_of_some (by rw [heq, h]), heq, heq']
      refine ⟨rfl, fun as j hj => ?_⟩
      obtain ⟨y, hy, hyj⟩ := Option.map_eq_some_iff.1 hj
      have := hfound' y.1 y.2 hy
      obtain ⟨-, rfl⟩ : x.1 :: y.1 = as ∧ y.2 = j := by simpa using hyj
      omega

theorem many (hts : Alike ts ts') (hp : InStep ts ts' m 1 g p q) :
    InStep ts ts' m 0 g (many p) (Parser.many q) := by
  intro i hi hend
  rw [Parser.many, Parser.many, hts.1]
  exact hp.upTo _ i hi hend

end InStep

end Parser

/-! ## The grammar -/

namespace Grammar

open ScriptLint.Parser

variable {r r' : Rules} {ts ts' : Array Token} {m : ℕ}

/-- The rules are in step from the position `m` to the end of the text. -/
structure Rules.InStep (ts ts' : Array Token) (m : ℕ) (r r' : Rules) : Prop where
  expr : Parser.InStep ts ts' m 1 0 r.expr r'.expr
  stmt : Parser.InStep ts ts' m 1 0 r.stmt r'.stmt
  conditional : Parser.InStep ts ts' m 1 0 r.conditional r'.conditional

theorem Guarded.inStep (hts : Alike ts ts') (h : Rules.InStep ts ts' m r r') {α : Type} {n g : ℕ}
    {p q : Parser α} (hpq : Guarded r r' n g p q) : InStep ts ts' m n g p q := by
  induction hpq with
  | expr => exact h.expr
  | stmt => exact h.stmt
  | conditional => exact h.conditional
  | pure a => exact InStep.pure a
  | fail => exact InStep.fail
  | accept hf => exact InStep.accept hts hf
  | bind _ _ ihp ihf => exact ihp.bind ihf
  | orElse _ _ ihp ihp' => exact ihp.orElse ihp'
  | many _ ihp => exact ihp.many hts
  | mono _ hn hg ihp => exact ihp.mono (by omega) hn hg

/-- One level more of the rules is in step one position earlier. -/
theorem Rules.InStep.next (hts : Alike ts ts') (h : Rules.InStep ts ts' m r r') :
    Rules.InStep ts ts' (m - 1) r.next r'.next where
  expr := (guarded_expression.inStep hts h).mono (by omega) (le_refl 1) (Nat.zero_le 1)
  stmt := (guarded_statement.inStep hts h).mono (by omega) (le_refl 1) (Nat.zero_le 1)
  conditional := (guarded_conditional.inStep hts h).mono (by omega) (le_refl 1) (Nat.zero_le 1)

/-! ## Spellings -/

theorem rules_inStep (hts : Alike ts ts') (d : ℕ) :
    Rules.InStep ts ts' 0 (Rules.upTo d) (Rules.upTo d) := by
  induction d with
  | zero => exact ⟨InStep.fail, InStep.fail, InStep.fail⟩
  | succ d ih => exact ih.next hts

theorem parseTokens_alike (hts : Alike ts ts') : parseTokens ts' = parseTokens ts := by
  have hstmt := (rules_inStep hts (ts.size + 1)).stmt
  have hreply := ((hstmt.many hts) 0 (Nat.zero_le _) fun _ => Nat.zero_le _).1
  rw [parseTokens, parseTokens, hts.1, hreply]

/-- The lexemes with the operators at the given spots respelled, each where it was. -/
def respell (spots : ℕ → Bool) (lexemes : Array Lexeme) : Array Lexeme :=
  lexemes.mapIdx fun i x => if spots i then { x with token := x.token.respelled } else x

section Respell

variable (spots : ℕ → Bool) (lexemes : Array Lexeme)

theorem getElem?_respell (i : ℕ) : (respell spots lexemes)[i]? =
    lexemes[i]?.map fun x => if spots i then { x with token := x.token.respelled } else x := by
  simp [respell]

theorem size_respell : (respell spots lexemes).size = lexemes.size :=
  Array.size_mapIdx

theorem map_span_respell :
    (respell spots lexemes).map Lexeme.span = lexemes.map Lexeme.span := by
  refine Array.ext_getElem? fun i => ?_
  rw [Array.getElem?_map, Array.getElem?_map, getElem?_respell, Option.map_map]
  congr 1
  funext x
  cases spots i <;> simp

theorem alike_respell :
    Alike (lexemes.map Lexeme.token) ((respell spots lexemes).map Lexeme.token) := by
  refine ⟨by rw [Array.size_map, Array.size_map, size_respell], fun i => ?_⟩
  rw [Array.getElem?_map, Array.getElem?_map, getElem?_respell, Option.map_map, Option.map_map]
  cases h : spots i with
  | false => exact .inl (by simp [Function.comp_def])
  | true => exact .inr (by simp [Function.comp_def])

end Respell

/-- Where a token is blamed depends on the spans alone. -/
theorem place_blame (text : List Char) {lexemes lexemes' : Array Lexeme}
    (h : lexemes'.map Lexeme.span = lexemes.map Lexeme.span) (i : ℕ) :
    (blame text lexemes' i).place = (blame text lexemes i).place := by
  have hspan : lexemes'[i]?.map Lexeme.span = lexemes[i]?.map Lexeme.span := by
    rw [← Array.getElem?_map, ← Array.getElem?_map, h]
  have hstop (xs : Array Lexeme) : (xs.back?.map fun x => x.span.stop) =
      (xs.map Lexeme.span).back?.map Span.stop := by
    rw [Array.back?_map, Option.map_map]
    rfl
  have hend : endSpan text lexemes' = endSpan text lexemes := by
    rw [endSpan, endSpan, hstop, hstop, h]
  rw [blame, blame, hend]
  cases hi : lexemes[i]? with
  | none =>
    rw [hi] at hspan
    rw [Option.map_eq_none_iff.1 hspan]
  | some x =>
    rw [hi] at hspan
    obtain ⟨y, hy, hyx⟩ := Option.map_eq_some_iff.1 hspan
    rw [hy]
    show some _ = some _
    rw [hyx]

/-- **The spelling of a logical operator makes no difference.** With operators respelled wherever
one likes, the tokens spell the same program, or they are blamed at the same token and place. -/
theorem parse_respell (source : String) (lexemes : Array Lexeme) (spots : ℕ → Bool) :
    (∃ program, parse source lexemes = .ok program ∧
      parse source (respell spots lexemes) = .ok program) ∨
    ∃ k ≤ lexemes.size, ∃ fault fault',
      parseTokens (lexemes.map Lexeme.token) = .error k ∧
      parseTokens ((respell spots lexemes).map Lexeme.token) = .error k ∧
      parse source lexemes = .error fault ∧ fault = blame source.toList lexemes k ∧
      parse source (respell spots lexemes) = .error fault' ∧
      fault' = blame source.toList (respell spots lexemes) k ∧ fault'.place = fault.place := by
  have htokens := parseTokens_alike (alike_respell spots lexemes)
  cases h : parseTokens (lexemes.map Lexeme.token) with
  | ok program =>
    rw [h] at htokens
    exact .inl ⟨program, by simp only [parse, h], by simp only [parse, htokens]⟩
  | error k =>
    rw [h] at htokens
    have hk := blamed_le h
    rw [Array.size_map] at hk
    exact .inr ⟨k, hk, _, _, rfl, htokens, parse_of_error source h, rfl,
      parse_of_error source htokens, rfl, place_blame _ (map_span_respell spots lexemes) k⟩

end Grammar

end ScriptLint
