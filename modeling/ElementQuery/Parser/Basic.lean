/-
Parsers of predicate text. A parser takes lexemes off the front of those left, may call functions
of the caller on the way, and succeeds with a value or fails with an error; the calls it has made
are kept in either case.
-/
import ElementQuery.Bindings
import ElementQuery.Error
import ElementQuery.Expr.Basic

namespace ElementQuery.Parser

/-- What a parser starts from: the lexemes left and the names of the functions called so far. -/
structure State where
  rest : List Lexeme
  calls : List String
  deriving DecidableEq, Repr

/-- What a parser ends with. -/
inductive Outcome (α : Type) where
  | ok (value : α) (state : State)
  | failed (error : Error) (calls : List String)

end Parser

/-- A parser of an `α`. -/
def Parser (α : Type) : Type := Parser.State → Parser.Outcome α

namespace Parser

instance : Monad Parser where
  pure a := fun s => .ok a s
  bind p f := fun s =>
    match p s with
    | .ok a s => f a s
    | .failed e calls => .failed e calls

@[simp] theorem pure_apply {α : Type} (a : α) (s : State) : (pure a : Parser α) s = .ok a s := rfl

theorem bind_apply {α β : Type} (p : Parser α) (f : α → Parser β) (s : State) :
    (p >>= f) s = match p s with
      | .ok a s => f a s
      | .failed e calls => .failed e calls := rfl

/-- Two parsers in a row succeed exactly if the first does and the second does on what is left. -/
theorem bind_eq_ok {α β : Type} {p : Parser α} {f : α → Parser β} {s s' : State} {b : β} :
    (p >>= f) s = .ok b s' ↔ ∃ a t, p s = .ok a t ∧ f a t = .ok b s' := by
  rw [bind_apply]
  constructor
  · intro h
    split at h
    · rename_i a t hp
      exact ⟨a, t, hp, h⟩
    · cases h
  · rintro ⟨a, t, hp, hf⟩
    rw [hp]
    exact hf

/-- What stays the same while a predicate is parsed: what the caller has bound, the parameter of
the lambda header, and the offset of the end of the text. -/
structure Context where
  bindings : Bindings
  parameter : Option String
  finish : Nat

variable {α : Type}

/-- Fails with an error. -/
def throw (e : Error) : Parser α := fun s => .failed e s.calls

/-- Fails with a fault at an offset. -/
def failAt (offset : Nat) (fault : Fault) : Parser α := throw (.parse fault offset)

/-- The offset of the next lexeme, or of the end of the text. -/
def offset (ctx : Context) : Parser Nat := fun s =>
  .ok ((s.rest.head?.map (·.offset)).getD ctx.finish) s

/-- Fails with a fault at the next lexeme. -/
def fail (ctx : Context) (fault : Fault) : Parser α := do failAt (← offset ctx) fault

/-- The next token. -/
def peek : Parser (Option Token) := fun s => .ok (s.rest.head?.map (·.token)) s

/-- Takes the next token, if there is one. -/
def advance : Parser (Option Token) := fun s =>
  .ok (s.rest.head?.map (·.token)) { s with rest := s.rest.tail }

/-- Takes the next token if it is the one given, and says whether it was. -/
def eat (token : Token) : Parser Bool := fun s =>
  match s.rest with
  | l :: rest => if l.token = token then .ok true { s with rest } else .ok false s
  | [] => .ok false s

/-- Takes the token given. -/
def expect (ctx : Context) (token : Token) : Parser Unit := do
  if ← eat token then return ()
  fail ctx (.expected token (← peek))

/-- Takes an identifier. -/
def identifier (ctx : Context) : Parser String := do
  match ← peek with
  | some (.ident name) => do
    let _ ← advance
    return name
  | _ => fail ctx .expectedIdentifier

/-- Calls a function of the caller. -/
def invoke (name : String) (f : Function) : Parser Json.Value := fun s =>
  .ok (f s.calls) { s with calls := s.calls ++ [name] }

/-- Items joined by an operator, grouped to the left, after the first item. The bound is the number
of lexemes left: a link takes at least one. -/
def links (operator : Token) (join : Expr → Expr → Expr) (item : Parser Expr) :
    Nat → Expr → Parser Expr
  | 0, left, s => .ok left s
  | bound + 1, left, s =>
    match s.rest with
    | [] => .ok left s
    | l :: rest =>
      if l.token = operator then
        match item { s with rest } with
        | .ok right s => links operator join item bound (join left right) s
        | .failed e calls => .failed e calls
      else .ok left s

/-- One or more items joined by an operator, grouped to the left. -/
def chain (operator : Token) (join : Expr → Expr → Expr) (item : Parser Expr) : Parser Expr := do
  let first ← item
  fun s => links operator join item s.rest.length first s

/-- Fields read from a value, one after another. -/
def fieldsFrom (ctx : Context) (object : Expr) : List Lexeme → List String → Outcome Expr
  | ⟨.dot, _⟩ :: ⟨.ident field, _⟩ :: rest, calls => fieldsFrom ctx (.member object field) rest calls
  | ⟨.dot, _⟩ :: rest, calls => fail ctx .expectedIdentifier ⟨rest, calls⟩
  | rest, calls => .ok object ⟨rest, calls⟩

/-- Fields read from a value of the caller. -/
def fields (ctx : Context) (object : Expr) : Parser Expr := fun s =>
  fieldsFrom ctx object s.rest s.calls

end Parser

end ElementQuery
