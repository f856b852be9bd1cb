import Mathlib.Data.List.Basic
import Mathlib.Data.Nat.Notation
import ScriptLint.Grammar.Parser

/-!
# What parsers take

Three facts that can hold of a parser, and how each is passed on by the combinators. They speak of
the tokens from a position on as a list.

* `Sound p R`: whatever `p` finds, it stands in the relation `R` to exactly the tokens that `p` has
  taken.
* `Takes p us a rest`: before `us ++ rest`, `p` finds `a` and takes `us`.
* `Refuses p us`: before `us`, `p` finds nothing.

`Sound.bind` and `Takes.bind` walk through a sequence from its front, so that a proof follows the
parser that it is about.
-/

namespace ScriptLint.Parser

variable {α β : Type} {p q : Parser α} {f : α → Parser β} {ts : Array Token} {i : ℕ}

/-! ## What is found -/

@[simp]
theorem found_pure (a : α) : ((pure a : Parser α) ts i).found = some (a, i) := rfl

theorem found_bind :
    ((p >>= f) ts i).found = (p ts i).found.bind fun x => (f x.1 ts x.2).found := by
  show (Parser.bind p f ts i).found = _
  unfold Parser.bind
  split
  · rename_i r h; rw [h]; rfl
  · rename_i a j r h; rw [h]; rfl

theorem found_orElse : ((p.orElse q) ts i).found = (p ts i).found.or (q ts i).found := by
  unfold Parser.orElse
  split
  · rename_i x r h; rw [h]; rfl
  · rename_i r h; rw [h]; rfl

theorem found_accept (g : Token → Option α) :
    (accept g ts i).found = (ts[i]?.bind g).map fun a => (a, i + 1) := by
  unfold accept
  split <;> rename_i h <;> rw [h] <;> rfl

theorem found_upTo_succ (n : ℕ) :
    (upTo p (n + 1) ts i).found =
      match (p ts i).found with
      | none => some ([], i)
      | some (a, j) => (upTo p n ts j).found.map fun x => (a :: x.1, x.2) := by
  rcases h : p ts i with ⟨_ | ⟨a, j⟩, r⟩ <;> simp [upTo, h]

/-! ## Soundness -/

/-- Whatever the parser finds is related to the tokens it has taken. -/
def Sound (p : Parser α) (R : α → List Token → Prop) : Prop :=
  ∀ ts i a j, (p ts i).found = some (a, j) →
    ∃ us, R a us ∧ ts.toList.drop i = us ++ ts.toList.drop j ∧ j = i + us.length

section Sound

variable {R S : α → List Token → Prop} {T : β → List Token → Prop}

theorem Sound.mono (hp : Sound p R) (h : ∀ a us, R a us → S a us) : Sound p S := by
  intro ts i a j hf
  obtain ⟨us, hR, hus⟩ := hp ts i a j hf
  exact ⟨us, h a us hR, hus⟩

theorem Sound.pure {a : α} (h : R a []) : Sound (pure a) R := by
  intro ts i b j hf
  obtain ⟨rfl, rfl⟩ : a = b ∧ i = j := by simpa using hf
  exact ⟨[], h, rfl, rfl⟩

theorem Sound.fail : Sound (fail : Parser α) R := by
  intro ts i a j hf
  cases hf

/-- A sequence is sound if its rest is, whatever its first part has found and taken. -/
theorem Sound.bind (hp : Sound p R)
    (hf : ∀ a us, R a us → Sound (f a) fun b vs => T b (us ++ vs)) : Sound (p >>= f) T := by
  intro ts i b k hb
  rw [found_bind, Option.bind_eq_some_iff] at hb
  obtain ⟨⟨a, j⟩, ha, hb⟩ := hb
  obtain ⟨us, hR, hus, rfl⟩ := hp ts i a j ha
  obtain ⟨vs, hT, hvs, rfl⟩ := hf a us hR ts _ b k hb
  refine ⟨us ++ vs, hT, ?_, ?_⟩
  · rw [hus, hvs, List.append_assoc]
  · rw [List.length_append, Nat.add_assoc]

theorem Sound.map {g : α → β} (hp : Sound p R) (h : ∀ a us, R a us → T (g a) us) :
    Sound (g <$> p) T :=
  hp.bind fun a us hR => Sound.pure (by rw [List.append_nil]; exact h a us hR)

theorem Sound.orElse (hp : Sound p R) (hq : Sound q R) : Sound (p.orElse q) R := by
  intro ts i a j hf
  rw [found_orElse, Option.or_eq_some_iff] at hf
  rcases hf with hf | ⟨-, hf⟩
  · exact hp ts i a j hf
  · exact hq ts i a j hf

theorem Sound.choice {ps : List (Parser α)} (h : ∀ p ∈ ps, Sound p R) : Sound (choice ps) R := by
  induction ps with
  | nil => exact Sound.fail
  | cons p ps ih =>
    exact (h p List.mem_cons_self).orElse (ih fun q hq => h q (List.mem_cons_of_mem p hq))

theorem Sound.accept {g : Token → Option α} (h : ∀ t a, g t = some a → R a [t]) :
    Sound (accept g) R := by
  intro ts i a j hf
  rw [found_accept, Option.map_eq_some_iff] at hf
  obtain ⟨b, hb, heq⟩ := hf
  obtain ⟨rfl, rfl⟩ : b = a ∧ i + 1 = j := by simpa using heq
  obtain ⟨t, ht, hgt⟩ := Option.bind_eq_some_iff.1 hb
  rw [← Array.getElem?_toList] at ht
  obtain ⟨hi, rfl⟩ := List.getElem?_eq_some_iff.1 ht
  exact ⟨_, h _ b hgt, List.drop_eq_getElem_cons hi, rfl⟩

theorem Sound.token (t : Token) : Sound (token t) fun _ us => us = [t] :=
  Sound.accept fun u a h => by
    split at h
    · rename_i hu; rw [hu]
    · cases h

theorem Sound.keyword (k : Keyword) : Sound (keyword k) fun _ us => us = [.keyword k] :=
  Sound.token _

theorem Sound.symbol (s : Symbol) : Sound (symbol s) fun _ us => us = [.symbol s] :=
  Sound.token _

theorem Sound.identifier : Sound identifier fun name us => us = [.ident name] :=
  Sound.accept fun u a h => by
    cases u <;> simp_all

theorem Sound.optional (hp : Sound p R) :
    Sound (optional p) fun o us => o.elim (us = []) (R · us) := by
  have hsome : Sound (some <$> p) fun o us => o.elim (us = []) (R · us) :=
    hp.map fun _ _ hR => hR
  have hnone : Sound (Pure.pure none) fun o us => o.elim (us = []) (R · us) :=
    Sound.pure rfl
  exact hsome.orElse hnone

theorem Sound.upTo (hp : Sound p R) {T : List α → List Token → Prop} (hnil : T [] [])
    (hcons : ∀ a us as vs, R a us → T as vs → T (a :: as) (us ++ vs)) (n : ℕ) :
    Sound (upTo p n) T := by
  induction n with
  | zero => exact Sound.pure hnil
  | succ n ih =>
    intro ts i as k hf
    rw [found_upTo_succ] at hf
    cases hpi : (p ts i).found with
    | none =>
      rw [hpi] at hf
      obtain ⟨rfl, rfl⟩ : [] = as ∧ i = k := by simpa using hf
      exact ⟨[], hnil, rfl, rfl⟩
    | some x =>
      obtain ⟨a, j⟩ := x
      simp only [hpi, Option.map_eq_some_iff] at hf
      obtain ⟨⟨bs, k'⟩, hrest, heq⟩ := hf
      obtain ⟨rfl, rfl⟩ : a :: bs = as ∧ k' = k := by simpa using heq
      obtain ⟨us, hR, hus, rfl⟩ := hp ts i a j hpi
      obtain ⟨vs, hT, hvs, rfl⟩ := ih ts _ bs k' hrest
      refine ⟨us ++ vs, hcons a us bs vs hR hT, ?_, ?_⟩
      · rw [hus, hvs, List.append_assoc]
      · rw [List.length_append, Nat.add_assoc]

/-- A repetition is sound for what holds of nothing and is kept by one more item in front. -/
theorem Sound.many (hp : Sound p R) {T : List α → List Token → Prop} (hnil : T [] [])
    (hcons : ∀ a us as vs, R a us → T as vs → T (a :: as) (us ++ vs)) : Sound (many p) T :=
  fun ts i => hp.upTo hnil hcons _ ts i

/-- Tokens between two symbols. -/
def enclosed (opening closing : Symbol) (us : List Token) : List Token :=
  .symbol opening :: us ++ [.symbol closing]

theorem Sound.between {opening closing : Symbol} (hp : Sound p R) :
    Sound (between opening closing p) fun a us => ∃ vs, us = enclosed opening closing vs ∧ R a vs :=
  (Sound.symbol opening).bind fun _ _ h₁ => hp.bind fun a us hR =>
    (Sound.symbol closing).bind fun _ _ h₂ => Sound.pure ⟨us, by subst h₁ h₂; simp [enclosed], hR⟩

/-- Pieces of text as a list: commas between them, and perhaps one behind the last. -/
inductive Commas : List (List Token) → List Token → Prop
  | nil : Commas [] []
  | cons (us : List Token) (uss : List (List Token)) {c : List Token}
      (hc : c = [] ∨ c = [.symbol .comma]) :
      Commas (us :: uss) (us ++ uss.flatMap (Token.symbol .comma :: ·) ++ c)

theorem Sound.listOf (hp : Sound p R) :
    Sound (listOf p) fun as us => ∃ items : List (α × List Token), as = items.map Prod.fst ∧
      (∀ x ∈ items, R x.1 x.2) ∧ Commas (items.map Prod.snd) us := by
  have hmore : Sound (Parser.many (do Parser.symbol .comma; p)) fun as us =>
      ∃ items : List (α × List Token), as = items.map Prod.fst ∧ (∀ x ∈ items, R x.1 x.2) ∧
        us = (items.map Prod.snd).flatMap (Token.symbol .comma :: ·) := by
    have hitem : Sound (do Parser.symbol .comma; p) fun a us =>
        ∃ vs, us = Token.symbol .comma :: vs ∧ R a vs :=
      (Sound.symbol .comma).bind fun _ _ h => hp.mono fun a us hR => ⟨us, by rw [h]; rfl, hR⟩
    refine hitem.many ⟨[], rfl, by simp, rfl⟩ ?_
    rintro a us as vs ⟨us', rfl, hR⟩ ⟨items, rfl, hitems, rfl⟩
    refine ⟨(a, us') :: items, rfl, ?_, rfl⟩
    intro x hx
    rcases List.mem_cons.1 hx with rfl | hx
    · exact hR
    · exact hitems x hx
  have hcomma : Sound (Parser.optional (Parser.symbol .comma)) fun _ us =>
      us = [] ∨ us = [.symbol .comma] := by
    refine (Sound.symbol .comma).optional.mono fun o us ho => ?_
    cases o with
    | none => exact .inl ho
    | some _ => exact .inr ho
  refine hp.optional.bind fun o us ho => ?_
  cases o with
  | none =>
    refine Sound.pure ⟨[], rfl, by simp, ?_⟩
    rw [show us = [] from ho]; exact Commas.nil
  | some a =>
    refine hmore.bind fun as vs hvs => hcomma.bind fun _ c hc => Sound.pure ?_
    obtain ⟨items, rfl, hitems, rfl⟩ := hvs
    refine ⟨(a, us) :: items, rfl, ?_, ?_⟩
    · intro x hx
      rcases List.mem_cons.1 hx with rfl | hx
      · exact ho
      · exact hitems x hx
    · rw [List.append_nil, ← List.append_assoc]
      exact Commas.cons us _ hc

end Sound

/-! ## Taking and refusing -/

/-- Before `us ++ rest` the parser finds `a` and takes `us`. -/
def Takes (p : Parser α) (us : List Token) (a : α) (rest : List Token) : Prop :=
  ∀ ts i, ts.toList.drop i = us ++ rest → (p ts i).found = some (a, i + us.length)

/-- Before `us` the parser finds nothing. -/
def Refuses (p : Parser α) (us : List Token) : Prop :=
  ∀ ts i, ts.toList.drop i = us → (p ts i).found = none

section Taking

variable {us vs rest : List Token} {a : α} {b : β} {t : Token}

theorem drop_add_length {ts : Array Token} {i : ℕ} (h : ts.toList.drop i = us ++ rest) :
    ts.toList.drop (i + us.length) = rest := by
  rw [← List.drop_drop, h, List.drop_left]

theorem getElem?_of_drop {ts : Array Token} {i : ℕ} (h : ts.toList.drop i = us) :
    ts[i]? = us.head? := by
  rw [← Array.getElem?_toList, ← h, List.head?_drop]

theorem Takes.pure : (pure a : Parser α).Takes [] a rest := fun _ _ _ => rfl

theorem Takes.bind (hp : p.Takes us a (vs ++ rest)) (hf : (f a).Takes vs b rest) :
    (p >>= f).Takes (us ++ vs) b rest := by
  intro ts i h
  rw [List.append_assoc] at h
  rw [found_bind, hp ts i h, Option.bind_some, hf ts _ (drop_add_length h), List.length_append,
    Nat.add_assoc]

theorem Refuses.bind (hp : p.Refuses us) : (p >>= f).Refuses us := by
  intro ts i h
  rw [found_bind, hp ts i h]
  rfl

theorem Refuses.bind_rest (hp : p.Takes us a rest) (hf : (f a).Refuses rest) :
    (p >>= f).Refuses (us ++ rest) := by
  intro ts i h
  rw [found_bind, hp ts i h, Option.bind_some, hf ts _ (drop_add_length h)]

theorem Takes.bind_pure {g : α → β} (hp : p.Takes us a rest) :
    (p >>= fun x => Pure.pure (g x)).Takes us (g a) rest := by
  have h : (p >>= fun x => (Pure.pure (g x) : Parser β)).Takes (us ++ []) (g a) rest :=
    Takes.bind hp Takes.pure
  rwa [List.append_nil] at h

theorem Takes.map {g : α → β} (hp : p.Takes us a rest) : (g <$> p).Takes us (g a) rest :=
  hp.bind_pure

theorem Refuses.map {g : α → β} (hp : p.Refuses us) : (g <$> p).Refuses us :=
  Refuses.bind hp

theorem Takes.orElse_left (hp : p.Takes us a rest) : (p.orElse q).Takes us a rest := by
  intro ts i h
  rw [found_orElse, hp ts i h]
  rfl

theorem Takes.orElse_right (hp : p.Refuses (us ++ rest)) (hq : q.Takes us a rest) :
    (p.orElse q).Takes us a rest := by
  intro ts i h
  rw [found_orElse, hp ts i h, hq ts i h]
  rfl

theorem Refuses.choice {ps : List (Parser α)} (h : ∀ p ∈ ps, p.Refuses us) :
    (choice ps).Refuses us := by
  induction ps with
  | nil => intro ts i _; rfl
  | cons p ps ih =>
    intro ts i hts
    show ((p.orElse (Parser.choice ps)) ts i).found = none
    rw [found_orElse, h p List.mem_cons_self ts i hts,
      ih (fun q hq => h q (List.mem_cons_of_mem p hq)) ts i hts]
    rfl

theorem Takes.accept {g : Token → Option α} (h : g t = some a) :
    (accept g).Takes [t] a rest := by
  intro ts i hts
  rw [found_accept, getElem?_of_drop hts]
  simp [h]

theorem Refuses.accept {g : Token → Option α} (h : ∀ t ∈ us.head?, g t = none) :
    (accept g).Refuses us := by
  intro ts i hts
  rw [found_accept, getElem?_of_drop hts]
  cases hh : us.head? with
  | none => rfl
  | some t => simp [h t hh]

/-- A sound parser refuses what none of its phrases begins with. -/
theorem Refuses.of_sound {R : α → List Token → Prop} {g : Token → Bool} (hp : Sound p R)
    (hR : ∀ a us, R a us → ∃ t vs, us = t :: vs ∧ g t = true)
    (h : ∀ t ∈ us.head?, g t = false) : p.Refuses us := by
  intro ts i hts
  cases hf : (p ts i).found with
  | none => rfl
  | some x =>
    -- what was found would begin with a token that is not there
    obtain ⟨vs, hvs, hdrop, -⟩ := hp ts i x.1 x.2 hf
    obtain ⟨t, ws, rfl, ht⟩ := hR x.1 vs hvs
    rw [hts] at hdrop
    rw [h t (by rw [hdrop]; rfl)] at ht
    cases ht

theorem Takes.token (t : Token) : (token t).Takes [t] () rest :=
  Takes.accept (by simp)

theorem Takes.token_bind {f : Unit → Parser β} (hf : (f ()).Takes vs b rest) :
    (Parser.token t >>= f).Takes (t :: vs) b rest :=
  (Takes.token t).bind hf

theorem Takes.keyword (k : Keyword) : (keyword k).Takes [.keyword k] () rest :=
  Takes.token _

theorem Takes.symbol (s : Symbol) : (symbol s).Takes [.symbol s] () rest :=
  Takes.token _

theorem Refuses.token (h : us.head? ≠ some t) : (token t).Refuses us :=
  Refuses.accept fun u hu => by
    rw [if_neg]
    rintro rfl
    exact h hu

theorem Takes.identifier (name : String) : identifier.Takes [.ident name] name rest :=
  Takes.accept rfl

theorem Takes.optional_some (hp : p.Takes us a rest) : (optional p).Takes us (some a) rest :=
  hp.map.orElse_left

theorem Takes.optional_none (hp : p.Refuses rest) : (optional p).Takes [] none rest :=
  Takes.orElse_right hp.map Takes.pure

theorem found_many_cons (hi : i < ts.size) (hp : (p ts i).found = some (a, i + 1)) :
    (many p ts i).found = (many p ts (i + 1)).found.map fun x => (a :: x.1, x.2) := by
  unfold Parser.many
  rw [found_upTo_succ, hp, show ts.size - i = ts.size - (i + 1) + 1 by omega]

/-- Before `us ++ rest` the parser, repeated often enough, finds the list and takes `us`. -/
def Repeats (p : Parser α) (us : List Token) (as : List α) (rest : List Token) : Prop :=
  ∀ ts i n, ts.toList.drop i = us ++ rest → us.length < n →
    (upTo p n ts i).found = some (as, i + us.length)

theorem Repeats.nil (hp : p.Refuses rest) : Repeats p [] [] rest := by
  intro ts i n h hn
  obtain ⟨n, rfl⟩ : ∃ m, n = m + 1 := ⟨n - 1, by simp at hn; omega⟩
  rw [found_upTo_succ, hp ts i h]
  rfl

theorem Repeats.cons {as : List α} (hp : p.Takes us a (vs ++ rest)) (hne : us ≠ [])
    (hrest : Repeats p vs as rest) : Repeats p (us ++ vs) (a :: as) rest := by
  intro ts i n h hn
  have hpos : 0 < us.length := List.length_pos_iff.2 hne
  rw [List.length_append] at hn ⊢
  -- every round takes a token, so the rounds that are left suffice for the tokens that are left
  obtain ⟨n, rfl⟩ : ∃ m, n = m + 1 := ⟨n - 1, by omega⟩
  rw [List.append_assoc] at h
  rw [found_upTo_succ, hp ts i h]
  simp only
  rw [hrest ts _ n (drop_add_length h) (by omega), Option.map_some, Nat.add_assoc]

theorem Takes.many {as : List α} (h : Repeats p us as rest) : (many p).Takes us as rest := by
  intro ts i hts
  have hlen := congrArg List.length hts
  rw [List.length_drop, List.length_append, Array.length_toList] at hlen
  exact h ts i _ hts (by omega)

theorem Takes.between {opening closing : Symbol} (hp : p.Takes us a (.symbol closing :: rest)) :
    (between opening closing p).Takes (enclosed opening closing us) a rest := by
  exact Takes.token_bind (hp.bind (Takes.symbol closing).bind_pure)

theorem Refuses.between {opening closing : Symbol} (h : us.head? ≠ some (.symbol opening)) :
    (between opening closing p).Refuses us :=
  Refuses.bind (Refuses.token h)

section Lists

variable {closing : Symbol} {c : List Token}

/-- Behind each item of a list stands a comma or the closing symbol. -/
theorem commas_next (closing : Symbol) (rest : List Token) (hcomma : c = [] ∨ c = [.symbol .comma])
    (uss : List (List Token)) : ∃ s rest', (s = .comma ∨ s = closing) ∧
      uss.flatMap (Token.symbol .comma :: ·) ++ (c ++ .symbol closing :: rest) =
        .symbol s :: rest' := by
  cases uss with
  | nil =>
    rcases hcomma with rfl | rfl
    · exact ⟨closing, rest, .inr rfl, rfl⟩
    · exact ⟨.comma, _, .inl rfl, rfl⟩
  | cons us uss => exact ⟨.comma, _, .inl rfl, rfl⟩

theorem Repeats.commas {items : List (α × List Token)} (hc : closing ≠ .comma)
    (hcomma : c = [] ∨ c = [.symbol .comma])
    (hitems : ∀ x ∈ items, ∀ s rest', s = .comma ∨ s = closing →
      p.Takes x.2 x.1 (.symbol s :: rest'))
    (hend : p.Refuses (.symbol closing :: rest)) :
    Repeats (do Parser.symbol .comma; p) ((items.map Prod.snd).flatMap (Token.symbol .comma :: ·))
      (items.map Prod.fst) (c ++ .symbol closing :: rest) := by
  induction items with
  | nil =>
    apply Repeats.nil
    rcases hcomma with rfl | rfl
    · exact Refuses.bind (Refuses.token (by simpa using hc))
    · -- the last comma is tried as one before another item, and given back
      exact Refuses.bind_rest (Takes.symbol .comma) hend
  | cons x items ih =>
    obtain ⟨s, rest', hs, heq⟩ := commas_next closing rest hcomma (items.map Prod.snd)
    have hx : (do Parser.symbol .comma; p).Takes (Token.symbol .comma :: x.2) x.1
        ((items.map Prod.snd).flatMap (Token.symbol .comma :: ·) ++
          (c ++ Token.symbol closing :: rest)) := by
      refine Takes.token_bind ?_
      rw [heq]
      exact hitems x List.mem_cons_self s rest' hs
    exact Repeats.cons hx (by simp) (ih fun y hy => hitems y (List.mem_cons_of_mem x hy))

/-- A list of items before its closing symbol, if every item is taken before a comma and before
that symbol, and none can begin with the symbol. -/
theorem Takes.listOf {items : List (α × List Token)} (hc : closing ≠ .comma)
    (hitems : ∀ x ∈ items, ∀ s rest', s = .comma ∨ s = closing →
      p.Takes x.2 x.1 (.symbol s :: rest'))
    (hend : p.Refuses (.symbol closing :: rest)) (hus : Commas (items.map Prod.snd) us) :
    (listOf p).Takes us (items.map Prod.fst) (.symbol closing :: rest) := by
  cases items with
  | nil =>
    cases hus
    have h : (Parser.listOf p).Takes ([] ++ []) [] (.symbol closing :: rest) :=
      Takes.bind (Takes.optional_none hend) Takes.pure
    exact h
  | cons x items =>
    obtain ⟨c, hcomma, rfl⟩ : ∃ c, (c = [] ∨ c = [Token.symbol .comma]) ∧
        us = x.2 ++ (items.map Prod.snd).flatMap (Token.symbol .comma :: ·) ++ c := by
      cases hus with
      | cons _ _ hcomma => exact ⟨_, hcomma, rfl⟩
    obtain ⟨s, rest', hs, heq⟩ := commas_next closing rest hcomma (items.map Prod.snd)
    have hhead : (Parser.optional p).Takes x.2 (some x.1)
        (((items.map Prod.snd).flatMap (Token.symbol .comma :: ·) ++ c) ++
          .symbol closing :: rest) := by
      rw [List.append_assoc, heq]
      exact Takes.optional_some (hitems x List.mem_cons_self s rest' hs)
    have hmore := Takes.many (Repeats.commas hc hcomma
      (fun y hy => hitems y (List.mem_cons_of_mem x hy)) hend)
    have hlast : ∃ o, (Parser.optional (Parser.symbol .comma)).Takes c o
        (.symbol closing :: rest) := by
      rcases hcomma with rfl | rfl
      · exact ⟨none, Takes.optional_none (Refuses.token (by simpa using hc))⟩
      · exact ⟨some (), Takes.optional_some (Takes.symbol .comma)⟩
    obtain ⟨o, ho⟩ := hlast
    rw [List.append_assoc]
    refine hhead.bind (hmore.bind ?_)
    exact ho.bind_pure

end Lists

end Taking

end ScriptLint.Parser
