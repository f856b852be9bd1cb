import ScriptLint.Token.Basic

/-!
# Parsers over tokens

A parser reads tokens from a position on. Alternatives are ordered and a failed one leaves no
trace but how far it came; repetitions take as much as they can.

* `Reply`: what was read and the position behind it, if anything was, and the furthest position
  that the parser stood at on any way it tried.
* `Parser.accept`, `Parser.orElse`, `Parser.many`, `Parser.optional`, `Parser.listOf`: one token,
  ordered choice, greedy repetition, an optional part, a list with commas.

When a whole text cannot be read, the token at the furthest position is the one to blame: every
way of reading the text stops there or before.
-/

namespace ScriptLint

/-- The outcome of a parser. -/
structure Reply (α : Type) where
  found : Option (α × Nat)
  reach : Nat

/-- Reads an `α` from the tokens at a position. -/
def Parser (α : Type) : Type :=
  Array Token → Nat → Reply α

namespace Parser

variable {α β : Type}

/-- Reads nothing. -/
protected def pure (a : α) : Parser α := fun _ i =>
  ⟨some (a, i), i⟩

/-- Finds nothing. -/
def fail : Parser α := fun _ i =>
  ⟨none, i⟩

/-- One parser after another. -/
protected def bind (p : Parser α) (f : α → Parser β) : Parser β := fun ts i =>
  match p ts i with
  | ⟨none, r⟩ => ⟨none, r⟩
  | ⟨some (a, j), r⟩ =>
    let q := f a ts j
    ⟨q.found, max r q.reach⟩

instance : Monad Parser where
  pure := Parser.pure
  bind := Parser.bind

/-- The second parser where the first finds nothing. -/
protected def orElse (p : Parser α) (q : Parser α) : Parser α := fun ts i =>
  match p ts i with
  | ⟨some x, r⟩ => ⟨some x, r⟩
  | ⟨none, r⟩ =>
    let b := q ts i
    ⟨b.found, max r b.reach⟩

/-- The first of the parsers that finds something. -/
def choice : List (Parser α) → Parser α
  | [] => fail
  | p :: ps => p.orElse (choice ps)

/-- One token, if `f` accepts it. -/
def accept (f : Token → Option α) : Parser α := fun ts i =>
  match ts[i]?.bind f with
  | some a => ⟨some (a, i + 1), i + 1⟩
  | none => ⟨none, i⟩

/-- The token `t`. -/
def token (t : Token) : Parser Unit :=
  accept fun u => if u = t then some () else none

def keyword (k : Keyword) : Parser Unit :=
  token (.keyword k)

def symbol (s : Symbol) : Parser Unit :=
  token (.symbol s)

def identifier : Parser String :=
  accept fun
    | .ident name => some name
    | _ => none

/-- The parser as often as it finds something, but at most `n` times. -/
def upTo (p : Parser α) : Nat → Parser (List α)
  | 0 => Parser.pure []
  | n + 1 => fun ts i =>
    match p ts i with
    | ⟨none, r⟩ => ⟨some ([], i), max i r⟩
    | ⟨some (a, j), r⟩ =>
      let rest := upTo p n ts j
      ⟨rest.found.map fun (as, k) => (a :: as, k), max r rest.reach⟩

/-- The parser as often as it finds something. A parser that takes a token each time does so at
most once for each token left. -/
def many (p : Parser α) : Parser (List α) := fun ts i =>
  upTo p (ts.size - i + 1) ts i

/-- What the parser finds, if anything. -/
def optional (p : Parser α) : Parser (Option α) :=
  (some <$> p).orElse (pure none)

/-- The parser between two symbols. -/
def between (opening closing : Symbol) (p : Parser α) : Parser α := do
  symbol opening
  let a ← p
  symbol closing
  return a

/-- Any number of items with commas between them; a comma may follow the last. -/
def listOf (p : Parser α) : Parser (List α) := do
  match ← optional p with
  | none => return []
  | some a =>
    let as ← many (do symbol .comma; p)
    let _ ← optional (symbol .comma)
    return a :: as

end Parser

end ScriptLint
