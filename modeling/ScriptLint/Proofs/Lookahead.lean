import Mathlib
import ScriptLint.Proofs.Combinators
import ScriptLint.Proofs.Guarded

/-!
# How far parsers look

A parser's reply depends on the tokens up to its reach and on no others: whoever takes a token looks
at the next one before giving up. So a text that is blamed at a token is blamed there whatever
follows that token.

* `Local n k p q`: `p` takes `n` tokens at least and looks no further than its reach, and `q`
  replies as `p` does where fewer than `k` tokens are left.
* `Guarded.toLocal`: what is made of local rules is local.
* `rules_local`: the rules are local at every depth of nesting, and at any depth that suffices they
  are the same.
* `Rules.full`: the rules without a depth, which are their own next level.
* `parse_fault_local`: **nothing behind the blamed token matters.**
-/

namespace ScriptLint

namespace Parser

variable {α β : Type} {p p' q q' : Parser α} {f g : α → Parser β} {ts : Array Token} {i j : ℕ}
  {a : α}

/-! ## Replies -/

theorem bind_of_none (h : (p ts i).found = none) : (p >>= f) ts i = ⟨none, (p ts i).reach⟩ := by
  show Parser.bind p f ts i = _
  rcases hp : p ts i with ⟨_ | ⟨a, j⟩, r⟩
  · simp [Parser.bind, hp]
  · simp [hp] at h

theorem bind_of_some (h : (p ts i).found = some (a, j)) :
    (p >>= f) ts i = ⟨(f a ts j).found, max (p ts i).reach (f a ts j).reach⟩ := by
  show Parser.bind p f ts i = _
  rcases hp : p ts i with ⟨_ | ⟨b, l⟩, r⟩
  · simp [hp] at h
  · obtain ⟨rfl, rfl⟩ : b = a ∧ l = j := by simpa [hp] using h
    simp [Parser.bind, hp]

theorem bind_congr (h : p ts i = q ts i)
    (hf : ∀ a j, (p ts i).found = some (a, j) → f a ts j = g a ts j) :
    (p >>= f) ts i = (q >>= g) ts i := by
  cases hp : (p ts i).found with
  | none => rw [bind_of_none hp, bind_of_none (by rw [← h, hp]), h]
  | some x => rw [bind_of_some hp, bind_of_some (by rw [← h, hp]), h, hf x.1 x.2 hp]

theorem orElse_of_some {x : α × ℕ} (h : (p ts i).found = some x) : p.orElse q ts i = p ts i := by
  rcases hp : p ts i with ⟨_ | y, r⟩
  · simp [hp] at h
  · simp [Parser.orElse, hp]

theorem orElse_of_none (h : (p ts i).found = none) :
    p.orElse q ts i = ⟨(q ts i).found, max (p ts i).reach (q ts i).reach⟩ := by
  rcases hp : p ts i with ⟨_ | y, r⟩
  · simp [Parser.orElse, hp]
  · simp [hp] at h

theorem accept_cases (g : Token → Option α) (ts : Array Token) (i : ℕ) :
    (∃ a, ts[i]?.bind g = some a ∧ accept g ts i = ⟨some (a, i + 1), i + 1⟩) ∨
      accept g ts i = ⟨none, i⟩ := by
  cases h : ts[i]?.bind g with
  | none => exact .inr (by simp [accept, h])
  | some a => exact .inl ⟨a, rfl, by simp [accept, h]⟩

theorem upTo_of_none {n : ℕ} (h : (p ts i).found = none) :
    upTo p (n + 1) ts i = ⟨some ([], i), max i (p ts i).reach⟩ := by
  rcases hp : p ts i with ⟨_ | ⟨b, l⟩, r⟩
  · simp [upTo, hp]
  · simp [hp] at h

theorem upTo_of_some {n : ℕ} (h : (p ts i).found = some (a, j)) :
    upTo p (n + 1) ts i = ⟨(upTo p n ts j).found.map fun x => (a :: x.1, x.2),
      max (p ts i).reach (upTo p n ts j).reach⟩ := by
  rcases hp : p ts i with ⟨_ | ⟨b, l⟩, r⟩
  · simp [hp] at h
  · obtain ⟨rfl, rfl⟩ : b = a ∧ l = j := by simpa [hp] using h
    simp [upTo, hp]

/-! ## Locality -/

/-- The parser `p` takes `n` tokens at least, goes forward within the text, and its reply depends on
no token behind its reach. Where fewer than `k` tokens are left, `q` is the same. -/
structure Local (n k : ℕ) (p q : Parser α) : Prop where
  le_reach : ∀ ts i, i ≤ (p ts i).reach
  found_le : ∀ ts i a j, (p ts i).found = some (a, j) → i + n ≤ j ∧ j ≤ (p ts i).reach
  reach_le : ∀ ts i, (p ts i).reach ≤ max i ts.size
  congr : ∀ ts ts' i, (∀ j ≤ (p ts i).reach, ts'[j]? = ts[j]?) → p ts' i = p ts i
  same : ∀ ts i, i ≤ ts.size → ts.size < i + k → q ts i = p ts i

namespace Local

variable {m n k : ℕ}

theorem mono {n' k' : ℕ} (h : Local n k p q) (hn : n' ≤ n) (hk : k' ≤ k) : Local n' k' p q where
  le_reach := h.le_reach
  found_le ts i a j hf := by
    have := h.found_le ts i a j hf
    omega
  reach_le := h.reach_le
  congr := h.congr
  same ts i hi hlt := h.same ts i hi (by omega)

/-- What is found ends within the text. -/
theorem found_le_size (h : Local n k p q) (hi : i ≤ ts.size)
    (hf : (p ts i).found = some (a, j)) : i + n ≤ j ∧ j ≤ ts.size := by
  have hle := h.found_le ts i a j hf
  have hsize := h.reach_le ts i
  omega

/-- What is local by itself is local beside whatever is the same. -/
theorem of_same {k' : ℕ} (h : Local n k p q)
    (hsame : ∀ ts i, i ≤ ts.size → ts.size < i + k' → q' ts i = p ts i) : Local n k' p q' :=
  { h with same := hsame }

theorem self (h : Local n k p q) (k' : ℕ) : Local n k' p p :=
  h.of_same fun _ _ _ _ => rfl

theorem pure (a : α) : Local 0 k (pure a) (Pure.pure a) where
  le_reach _ i := le_refl i
  found_le ts i b j hf := by
    obtain ⟨-, rfl⟩ : a = b ∧ i = j := by simpa using hf
    exact ⟨le_refl _, le_refl _⟩
  reach_le _ i := le_max_left i _
  congr _ _ _ _ := rfl
  same _ _ _ _ := rfl

theorem fail : Local n 0 fail q where
  le_reach _ i := le_refl i
  found_le _ _ _ _ hf := by cases hf
  reach_le _ i := le_max_left i _
  congr _ _ _ _ := rfl
  same _ _ hi hlt := absurd hlt (by omega)

theorem fails : Local n k (Parser.fail : Parser α) Parser.fail :=
  (fail (q := Parser.fail)).self k

theorem accept (g : Token → Option α) : Local 1 k (accept g) (Parser.accept g) := by
  constructor
  · intro ts i
    rcases accept_cases g ts i with ⟨a, -, h⟩ | h <;> rw [h]
    exact Nat.le_succ i
  · intro ts i b j hf
    rcases accept_cases g ts i with ⟨a, -, h⟩ | h <;> rw [h] at hf ⊢
    · obtain ⟨-, rfl⟩ : a = b ∧ i + 1 = j := by simpa using hf
      exact ⟨le_refl _, le_refl _⟩
    · cases hf
  · intro ts i
    rcases accept_cases g ts i with ⟨a, ha, h⟩ | h <;> rw [h]
    · -- a token that is accepted is there
      obtain ⟨t, ht, -⟩ := Option.bind_eq_some_iff.1 ha
      obtain ⟨hi, -⟩ := Array.getElem?_eq_some_iff.1 ht
      exact le_max_of_le_right hi
    · exact le_max_left i _
  · intro ts ts' i heq
    have hle : i ≤ (Parser.accept g ts i).reach := by
      rcases accept_cases g ts i with ⟨a, -, h⟩ | h <;> rw [h]
      exact Nat.le_succ i
    simp only [Parser.accept, heq i hle]
  · exact fun _ _ _ _ => rfl

theorem bind (hp : Local m k p q) (hf : ∀ a, Local n (k - m) (f a) (g a)) :
    Local (m + n) k (p >>= f) (q >>= g) := by
  constructor
  · intro ts i
    cases h : (p ts i).found with
    | none => rw [bind_of_none h]; exact hp.le_reach ts i
    | some x => rw [bind_of_some h]; exact le_max_of_le_left (hp.le_reach ts i)
  · intro ts i b l hb
    cases h : (p ts i).found with
    | none => rw [bind_of_none h] at hb; cases hb
    | some x =>
      rw [bind_of_some h] at hb ⊢
      have h₁ := hp.found_le ts i _ _ h
      have h₂ := (hf x.1).found_le ts x.2 b l hb
      exact ⟨by omega, le_max_of_le_right h₂.2⟩
  · intro ts i
    cases h : (p ts i).found with
    | none => rw [bind_of_none h]; exact hp.reach_le ts i
    | some x =>
      rw [bind_of_some h]
      have h₁ := hp.found_le ts i _ _ h
      have h₂ := hp.reach_le ts i
      have h₃ := (hf x.1).reach_le ts x.2
      show max _ _ ≤ _
      omega
  · intro ts ts' i heq
    cases h : (p ts i).found with
    | none =>
      rw [bind_of_none h] at heq ⊢
      have hreply := hp.congr ts ts' i heq
      rw [bind_of_none (by rw [hreply, h]), hreply]
    | some x =>
      rw [bind_of_some h] at heq ⊢
      have hreply := hp.congr ts ts' i fun j hj => heq j (le_max_of_le_left hj)
      have hrest := (hf x.1).congr ts ts' x.2 fun j hj => heq j (le_max_of_le_right hj)
      rw [bind_of_some (by rw [hreply, h]), hreply, hrest]
  · intro ts i hi hlt
    have hreply := hp.same ts i hi hlt
    cases h : (p ts i).found with
    | none => rw [bind_of_none h, bind_of_none (by rw [hreply, h]), hreply]
    | some x =>
      have h₁ := hp.found_le_size hi h
      have hrest := (hf x.1).same ts x.2 h₁.2 (by omega)
      rw [bind_of_some h, bind_of_some (by rw [hreply, h]), hreply, hrest]

theorem orElse (hp : Local n k p q) (hp' : Local n k p' q') :
    Local n k (p.orElse p') (q.orElse q') := by
  constructor
  · intro ts i
    cases h : (p ts i).found with
    | none => rw [orElse_of_none h]; exact le_max_of_le_left (hp.le_reach ts i)
    | some x => rw [orElse_of_some h]; exact hp.le_reach ts i
  · intro ts i a j ha
    cases h : (p ts i).found with
    | none =>
      rw [orElse_of_none h] at ha ⊢
      have h' := hp'.found_le ts i a j ha
      exact ⟨h'.1, le_max_of_le_right h'.2⟩
    | some x => rw [orElse_of_some h] at ha ⊢; exact hp.found_le ts i a j ha
  · intro ts i
    cases h : (p ts i).found with
    | none => rw [orElse_of_none h]; exact max_le (hp.reach_le ts i) (hp'.reach_le ts i)
    | some x => rw [orElse_of_some h]; exact hp.reach_le ts i
  · intro ts ts' i heq
    cases h : (p ts i).found with
    | none =>
      rw [orElse_of_none h] at heq ⊢
      have hreply := hp.congr ts ts' i fun j hj => heq j (le_max_of_le_left hj)
      have hreply' := hp'.congr ts ts' i fun j hj => heq j (le_max_of_le_right hj)
      rw [orElse_of_none (by rw [hreply, h]), hreply, hreply']
    | some x =>
      rw [orElse_of_some h] at heq ⊢
      have hreply := hp.congr ts ts' i heq
      rw [orElse_of_some (by rw [hreply, h]), hreply]
  · intro ts i hi hlt
    have hreply := hp.same ts i hi hlt
    cases h : (p ts i).found with
    | none =>
      rw [orElse_of_none h, orElse_of_none (by rw [hreply, h]), hreply, hp'.same ts i hi hlt]
    | some x => rw [orElse_of_some h, orElse_of_some (by rw [hreply, h]), hreply]

/-! ### Repetitions -/

theorem exists_found_upTo (p : Parser α) (c : ℕ) (ts : Array Token) (i : ℕ) :
    ∃ x, (upTo p c ts i).found = some x := by
  induction c generalizing i with
  | zero => exact ⟨_, rfl⟩
  | succ c ih =>
    cases h : (p ts i).found with
    | none => rw [upTo_of_none h]; exact ⟨_, rfl⟩
    | some x =>
      obtain ⟨y, hy⟩ := ih x.2
      rw [upTo_of_some h, hy]
      exact ⟨_, rfl⟩

/-- One round more is the parser and then the other rounds, or nothing. -/
theorem upTo_succ {c : ℕ} (hc : Local 0 k (upTo p c) (upTo p c)) :
    upTo p (c + 1) = (do
      let a ← p
      let as ← upTo p c
      return a :: as).orElse (Pure.pure []) := by
  funext ts i
  cases h : (p ts i).found with
  | none =>
    rw [upTo_of_none h, orElse_of_none (by rw [bind_of_none h]), bind_of_none h, max_comm]
    rfl
  | some x =>
    obtain ⟨⟨as, l⟩, hl⟩ := exists_found_upTo p c ts x.2
    have hle := (hc.found_le ts x.2 as l hl).2
    have hrest : ((upTo p c >>= fun as => Pure.pure (x.1 :: as)) ts x.2 : Reply (List α)) =
        ⟨some (x.1 :: as, l), (upTo p c ts x.2).reach⟩ := by
      rw [bind_of_some hl]
      exact congrArg _ (max_eq_left hle)
    rw [upTo_of_some h, orElse_of_some (by rw [bind_of_some h, hrest]), bind_of_some h, hrest, hl]
    rfl

theorem upTo_self (hp : Local n k p q) (c : ℕ) : Local 0 k (upTo p c) (Parser.upTo p c) := by
  induction c with
  | zero => exact Local.pure []
  | succ c ih =>
    rw [upTo_succ ih]
    have hround : Local (n + (0 + 0)) k (do
        let a ← p
        let as ← Parser.upTo p c
        return a :: as) _ :=
      (hp.self k).bind fun a => (ih.mono (le_refl 0) (Nat.sub_le k n)).bind fun as => Local.pure _
    exact (hround.mono (Nat.zero_le _) (le_refl k)).orElse (Local.pure [])

theorem upTo_same (hp : Local n k p q) (c : ℕ) (hi : i ≤ ts.size) (hlt : ts.size < i + k) :
    Parser.upTo q c ts i = Parser.upTo p c ts i := by
  induction c generalizing i with
  | zero => rfl
  | succ c ih =>
    have hreply := hp.same ts i hi hlt
    cases h : (p ts i).found with
    | none => rw [upTo_of_none h, upTo_of_none (by rw [hreply, h]), hreply]
    | some x =>
      have hx := hp.found_le_size hi h
      rw [upTo_of_some h, upTo_of_some (by rw [hreply, h]), hreply, ih hx.2 (by omega)]

/-- More rounds than there are tokens left make no difference. -/
theorem upTo_stable (hp : Local 1 k p q) {c : ℕ} (hc : ts.size < i + c) (m : ℕ) :
    Parser.upTo p (c + m) ts i = Parser.upTo p c ts i := by
  induction c generalizing i with
  | zero =>
    cases m with
    | zero => rfl
    | succ m =>
      have hreach : (p ts i).reach = i := by
        have h₁ := hp.le_reach ts i
        have h₂ := hp.reach_le ts i
        omega
      have hnone : (p ts i).found = none := by
        refine Option.eq_none_iff_forall_ne_some.2 fun x hx => ?_
        have := hp.found_le ts i _ _ hx
        omega
      rw [Nat.zero_add, upTo_of_none hnone, hreach, max_self]
      rfl
  | succ c ih =>
    rw [Nat.add_right_comm]
    cases h : (p ts i).found with
    | none => rw [upTo_of_none h, upTo_of_none h]
    | some x =>
      have hx := hp.found_le ts i _ _ h
      rw [upTo_of_some h, upTo_of_some h, ih (by omega)]

theorem many_eq_upTo (hp : Local 1 k p q) {c : ℕ} (hc : ts.size < i + c) :
    Parser.many p ts i = Parser.upTo p c ts i := by
  have hsize : ts.size < i + (ts.size - i + 1) := by omega
  rw [Parser.many, ← hp.upTo_stable hsize c, ← hp.upTo_stable hc (ts.size - i + 1), Nat.add_comm]

theorem many (hp : Local 1 k p q) : Local 0 k (many p) (Parser.many q) where
  le_reach ts i := (hp.upTo_self _).le_reach ts i
  found_le ts i := (hp.upTo_self _).found_le ts i
  reach_le ts i := (hp.upTo_self _).reach_le ts i
  congr ts ts' i heq := by
    -- so many rounds are enough for both
    rw [hp.many_eq_upTo (c := ts.size + ts'.size + 1) (by omega)] at heq ⊢
    rw [hp.many_eq_upTo (c := ts.size + ts'.size + 1) (by omega)]
    exact (hp.upTo_self _).congr ts ts' i heq
  same ts i hi hlt := hp.upTo_same _ hi hlt

/-- A repetition is one round and then the repetition, or nothing. -/
theorem many_eq (hp : Local 1 k p q) : Parser.many p = (do
    let a ← p
    let as ← Parser.many p
    return a :: as).orElse (Pure.pure []) := by
  funext ts i
  have hrounds (j : ℕ) : Parser.many p ts j = Parser.upTo p (ts.size + 1) ts j :=
    hp.many_eq_upTo (by omega)
  rw [hp.many_eq_upTo (c := ts.size + 1 + 1) (by omega), upTo_succ (hp.upTo_self _)]
  simp only [Parser.orElse]
  rw [bind_congr rfl fun a j _ => bind_congr (hrounds j).symm fun as l _ => rfl]

/-! ### Derived parsers -/

theorem seq (hp : Local m k p q) (hf : ∀ a, Local n k (f a) (g a)) :
    Local m k (p >>= f) (q >>= g) :=
  (hp.bind fun a => (hf a).mono (le_refl n) (Nat.sub_le k m)).mono
    (Nat.le_add_right m n) (le_refl k)

theorem seq_right (hp : Local m k p q) (hf : ∀ a, Local n k (f a) (g a)) :
    Local n k (p >>= f) (q >>= g) :=
  (hp.bind fun a => (hf a).mono (le_refl n) (Nat.sub_le k m)).mono (Nat.le_add_left n m) (le_refl k)

theorem map {h : α → β} (hp : Local n k p q) : Local n k (h <$> p) (h <$> q) :=
  hp.seq fun a => Local.pure (h a)

theorem optional (hp : Local n k p q) : Local 0 k (optional p) (Parser.optional q) :=
  (hp.map.mono (Nat.zero_le n) (le_refl k)).orElse (Local.pure none)

end Local

/-! ### Parsers without a depth -/

/-- The parser at a depth that suffices for the text. -/
def limit (P : ℕ → Parser α) : Parser α := fun ts i =>
  P (ts.size + 1) ts i

section Limit

variable {P : ℕ → Parser α} {n : ℕ} (h : ∀ d m, Local n d (P d) (P (d + m)))

include h

theorem Local.limit_eq {d : ℕ} (hi : i ≤ ts.size) (hd : ts.size < i + d) :
    limit P ts i = P d ts i := by
  have h₁ := (h (ts.size + 1) d).same ts i hi (by omega)
  have h₂ := (h d (ts.size + 1)).same ts i hi hd
  rw [limit, ← h₁, ← h₂, Nat.add_comm]

theorem Local.toLimit (d : ℕ) : Local n d (P d) (limit P) :=
  (h d 0).of_same fun _ _ hi hd => Local.limit_eq h hi hd

theorem Local.limit (k : ℕ) : Local n k (limit P) (limit P) where
  le_reach ts i := (h _ 0).le_reach ts i
  found_le ts i := (h _ 0).found_le ts i
  reach_le ts i := (h _ 0).reach_le ts i
  congr ts ts' i heq := by
    have hreach := (h (ts.size + 1) 0).le_reach ts i
    have hpresent : ∀ j ≤ i, ts'.size ≤ j ↔ ts.size ≤ j := by
      intro j hj
      rw [← Array.getElem?_eq_none_iff, ← Array.getElem?_eq_none_iff, heq j (hj.trans hreach)]
    rcases Nat.lt_or_ge ts.size i with hi | hi
    · -- behind the end of one text is behind the end of the other
      have hsize : ts'.size = ts.size := by
        have h₁ := hpresent ts.size (le_of_lt hi)
        have h₂ := hpresent (min ts'.size i) (min_le_right _ _)
        omega
      rw [Parser.limit, hsize]
      exact (h _ 0).congr ts ts' i heq
    · have hi' : i ≤ ts'.size := by
        have := hpresent (i - 1) (Nat.sub_le i 1)
        omega
      -- a depth that suffices for both texts
      have hd := Local.limit_eq h (d := ts.size + ts'.size + 1) hi (by omega)
      rw [hd] at heq ⊢
      rw [Local.limit_eq h (d := ts.size + ts'.size + 1) hi' (by omega)]
      exact (h _ 0).congr ts ts' i heq
  same _ _ _ _ := rfl

end Limit

end Parser

/-! ## The grammar -/

namespace Grammar

open ScriptLint.Parser

/-- The first rules are local, and the second are the same where fewer than `k` tokens are left. -/
structure Rules.Local (k : ℕ) (r r' : Rules) : Prop where
  expr : Parser.Local 1 k r.expr r'.expr
  stmt : Parser.Local 1 k r.stmt r'.stmt
  conditional : Parser.Local 1 k r.conditional r'.conditional

/-- What is made of the rules is local where they are, and the tokens that are taken before a rule
is entered do not count. -/
theorem Guarded.toLocal {r r' : Rules} {k : ℕ} (h : r.Local k r') {α : Type} {n g : ℕ}
    {p q : Parser α} (hpq : Guarded r r' n g p q) : Local n (k + g) p q := by
  induction hpq with
  | expr => exact h.expr
  | stmt => exact h.stmt
  | conditional => exact h.conditional
  | pure a => exact Local.pure a
  | fail => exact Local.fails
  | accept _ => exact Local.accept _
  | bind _ _ ihp ihf => exact ihp.bind fun a => (ihf a).mono (le_refl _) (by omega)
  | orElse _ _ ihp ihp' => exact ihp.orElse ihp'
  | many _ ihp => exact ihp.many
  | mono _ hn hg ihp => exact ihp.mono hn (by omega)

/-! ## Every depth of nesting -/

theorem Rules.Local.next {k : ℕ} {r r' : Rules} (h : r.Local k r') :
    Rules.Local (k + 1) r.next r'.next :=
  ⟨guarded_expression.toLocal h, guarded_statement.toLocal h, guarded_conditional.toLocal h⟩

/-- **The rules look no further than they say**, and a depth of as many levels as tokens are left is
as good as any that is greater. -/
theorem rules_local (d m : ℕ) : Rules.Local d (Rules.upTo d) (Rules.upTo (d + m)) := by
  induction d with
  | zero => exact ⟨Local.fail, Local.fail, Local.fail⟩
  | succ d ih =>
    rw [Nat.add_right_comm]
    exact ih.next

/-- The rules without a depth. -/
def Rules.full : Rules where
  expr := limit fun d => (Rules.upTo d).expr
  stmt := limit fun d => (Rules.upTo d).stmt
  conditional := limit fun d => (Rules.upTo d).conditional

theorem local_upTo_full (d : ℕ) : Rules.Local d (Rules.upTo d) Rules.full :=
  ⟨Local.toLimit (fun d m => (rules_local d m).expr) d,
    Local.toLimit (fun d m => (rules_local d m).stmt) d,
    Local.toLimit (fun d m => (rules_local d m).conditional) d⟩

theorem local_full (k : ℕ) : Rules.Local k Rules.full Rules.full :=
  ⟨Local.limit (fun d m => (rules_local d m).expr) k,
    Local.limit (fun d m => (rules_local d m).stmt) k,
    Local.limit (fun d m => (rules_local d m).conditional) k⟩

/-- Without a depth, the rules are their own next level. -/
theorem local_full_next (k : ℕ) : Rules.Local k Rules.full Rules.full.next := by
  have hnext (ts : Array Token) := (local_upTo_full ts.size).next
  exact ⟨(local_full k).expr.of_same fun ts i hi _ => (hnext ts).expr.same ts i hi (by omega),
    (local_full k).stmt.of_same fun ts i hi _ => (hnext ts).stmt.same ts i hi (by omega),
    (local_full k).conditional.of_same fun ts i hi _ =>
      (hnext ts).conditional.same ts i hi (by omega)⟩

/-- The reply to a whole text. -/
def reply (ts : Array Token) : Reply Program :=
  many Rules.full.stmt ts 0

/-- What the reply to a whole text comes to. -/
def outcome (ts : Array Token) (reply : Reply Program) : Except ℕ Program :=
  match reply.found with
  | some (program, i) => if i = ts.size then .ok program else .error reply.reach
  | none => .error reply.reach

theorem parseTokens_eq (ts : Array Token) : parseTokens ts = outcome ts (reply ts) := by
  have hreply : reply ts = many (Rules.upTo (ts.size + 1)).stmt ts 0 :=
    (local_upTo_full (ts.size + 1)).stmt.many.same ts 0 (Nat.zero_le _) (by omega)
  rw [hreply]
  rfl

theorem parseTokens_of_reply {ts : Array Token} {program : Program}
    (h : (reply ts).found = some (program, ts.size)) : parseTokens ts = .ok program := by
  rw [parseTokens_eq, outcome, h]
  exact if_pos rfl

theorem reach_of_parseTokens {ts : Array Token} {k : ℕ} (h : parseTokens ts = .error k) :
    (reply ts).reach = k := by
  rw [parseTokens_eq, outcome] at h
  split at h
  · split at h
    · cases h
    · exact Except.error.inj h
  · exact Except.error.inj h

/-- What is blamed is a token or the end. -/
theorem blamed_le {ts : Array Token} {k : ℕ} (h : parseTokens ts = .error k) : k ≤ ts.size := by
  have hle := (local_full 0).stmt.many.reach_le ts 0
  rw [← reach_of_parseTokens h]
  exact hle.trans (by omega)

/-- Tokens that begin as far as the blamed one like those that are blamed are blamed as well. -/
theorem parseTokens_congr {ts ts' : Array Token} {k : ℕ} (h : parseTokens ts = .error k)
    (hk : k < ts.size) (heq : ∀ j ≤ k, ts'[j]? = ts[j]?) : parseTokens ts' = .error k := by
  have hreach := reach_of_parseTokens h
  have hlocal := (local_full 0).stmt.many
  have hreply : reply ts' = reply ts := hlocal.congr ts ts' 0 fun j hj => heq j (hreach ▸ hj)
  have hk' : k < ts'.size := by
    have hsome := heq k (le_refl k)
    rw [Array.getElem?_eq_getElem hk] at hsome
    exact (Array.getElem?_eq_some_iff.1 hsome).1
  rw [parseTokens_eq, outcome, hreply]
  split
  · rename_i program i hfound
    -- what was read ends before the blamed token, and so before the end
    have hi : i ≤ (reply ts).reach := (hlocal.found_le ts 0 program i hfound).2
    rw [if_neg (by omega), hreach]
  · rw [hreach]

theorem parse_of_error (source : String) {lexemes : Array Lexeme} {k : ℕ}
    (h : parseTokens (lexemes.map Lexeme.token) = .error k) :
    parse source lexemes = .error (blame source.toList lexemes k) := by
  simp only [parse, h]

theorem error_of_parse {source : String} {lexemes : Array Lexeme} {fault : Fault}
    (h : parse source lexemes = .error fault) :
    ∃ k ≤ lexemes.size, parseTokens (lexemes.map Lexeme.token) = .error k ∧
      fault = blame source.toList lexemes k := by
  cases hts : parseTokens (lexemes.map Lexeme.token) with
  | ok program =>
    simp only [parse, hts] at h
    cases h
  | error k =>
    rw [parse_of_error source hts] at h
    have hk := blamed_le hts
    rw [Array.size_map] at hk
    exact ⟨k, hk, rfl, (Except.error.inj h).symm⟩

theorem blame_of_lt (text : List Char) {lexemes : Array Lexeme} {k : ℕ} (hk : k < lexemes.size) :
    blame text lexemes k =
      Fault.inText text lexemes[k].span (.unexpectedToken lexemes[k].token.spelling) := by
  rw [blame, Array.getElem?_eq_getElem hk]

theorem blame_size (text : List Char) (lexemes : Array Lexeme) :
    blame text lexemes lexemes.size = Fault.inText text (endSpan text lexemes) .unexpectedEnd := by
  rw [blame, Array.getElem?_eq_none (le_refl _)]

/-- **Nothing behind the blamed token matters.** Tokens that go on differently behind it are blamed
at the same token, in the same words; none of them is a program. -/
theorem parse_fault_local (source : String) (lexemes : Array Lexeme) (fault : Fault)
    (spelling : String) (h : parse source lexemes = .error fault)
    (hcause : fault.cause = .unexpectedToken spelling) :
    ∃ k < lexemes.size, parseTokens (lexemes.map Lexeme.token) = .error k ∧
      fault = blame source.toList lexemes k ∧
      ∀ (source' : String) (lexemes' : Array Lexeme),
        lexemes'.toList.take (k + 1) = lexemes.toList.take (k + 1) →
        parseTokens (lexemes'.map Lexeme.token) = .error k ∧
        ∃ fault', parse source' lexemes' = .error fault' ∧ fault'.message = fault.message ∧
          fault'.place.map Place.span = fault.place.map Place.span := by
  obtain ⟨k, hle, hts, rfl⟩ := error_of_parse h
  have hk : k < lexemes.size := by
    rcases Nat.lt_or_eq_of_le hle with hk | rfl
    · exact hk
    · rw [blame_size] at hcause
      cases hcause
  refine ⟨k, hk, hts, rfl, fun source' lexemes' htake => ?_⟩
  have heq : ∀ j ≤ k, lexemes'[j]? = lexemes[j]? := by
    intro j hj
    have hget := congrArg (·[j]?) htake
    simpa [List.getElem?_take, Nat.lt_succ_of_le hj] using hget
  have hk' : k < lexemes'.size := by
    have hsome := heq k (le_refl k)
    rw [Array.getElem?_eq_getElem hk] at hsome
    exact (Array.getElem?_eq_some_iff.1 hsome).1
  have hts' : parseTokens (lexemes'.map Lexeme.token) = .error k := by
    refine parseTokens_congr hts (by rwa [Array.size_map]) fun j hj => ?_
    rw [Array.getElem?_map, Array.getElem?_map, heq j hj]
  have hlexeme : lexemes'[k] = lexemes[k] := by
    have hsome := heq k (le_refl k)
    rw [Array.getElem?_eq_getElem hk, Array.getElem?_eq_getElem hk'] at hsome
    exact Option.some.inj hsome
  refine ⟨hts', _, parse_of_error source' hts', ?_, ?_⟩
  · rw [blame_of_lt _ hk, blame_of_lt _ hk', hlexeme]
    rfl
  · rw [blame_of_lt _ hk, blame_of_lt _ hk', hlexeme]
    rfl

/-- `f(a;`: the call is given up at the semicolon, and so is the expression in parentheses. -/
def openCall : Array Lexeme :=
  #[⟨.ident "f", ⟨0, 1⟩⟩, ⟨.symbol .openParen, ⟨1, 2⟩⟩, ⟨.ident "a", ⟨2, 3⟩⟩,
    ⟨.symbol .semicolon, ⟨3, 4⟩⟩]

/-- Closing the call behind the semicolon does not help. -/
theorem parse_fault_local_open_call :
    parse "f(a;" openCall = .error ⟨.unexpectedToken ";", some ⟨⟨3, 4⟩, ⟨1, 4⟩⟩⟩ ∧
    ∃ fault, parse "f(a;)" (openCall.push ⟨.symbol .closeParen, ⟨4, 5⟩⟩) = .error fault ∧
      fault.message = "Unexpected token ';'" ∧ fault.place.map Place.span = some ⟨3, 4⟩ := by
  have hparse : parse "f(a;" openCall =
      .error ⟨.unexpectedToken ";", some ⟨⟨3, 4⟩, ⟨1, 4⟩⟩⟩ := by cbv
  obtain ⟨k, -, hk, -, hlocal⟩ := parse_fault_local "f(a;" openCall _ ";" hparse rfl
  have hindex : parseTokens (openCall.map Lexeme.token) = .error 3 := by cbv
  obtain rfl : k = 3 := Except.error.inj (hk.symm.trans hindex)
  exact ⟨hparse, (hlocal "f(a;)" (openCall.push ⟨.symbol .closeParen, ⟨4, 5⟩⟩) rfl).2⟩

end Grammar

end ScriptLint
