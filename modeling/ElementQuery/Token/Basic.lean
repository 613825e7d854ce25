/-
The tokens of predicate text, and lexemes: tokens with the place at which they start.
-/
import ElementQuery.Text.Integer

namespace ElementQuery

/-- A token of predicate text. -/
inductive Token where
  | str (s : String)
  | int (i : Int64)
  | ident (name : String)
  | conj
  | disj
  | equals
  | arrow
  | bang
  | leftParen
  | rightParen
  | dot
  | comma
  deriving DecidableEq, Repr

namespace Token

/-- A token as it is shown in messages. -/
def display : Token → String
  | str s => "\"" ++ s ++ "\""
  | int i => Text.ofWord i
  | ident name => name
  | conj => "&&"
  | disj => "||"
  | equals => "=="
  | arrow => "=>"
  | bang => "!"
  | leftParen => "("
  | rightParen => ")"
  | dot => "."
  | comma => ","

end Token

/-- A token and the byte offset at which it starts. -/
structure Lexeme where
  token : Token
  offset : Nat
  deriving DecidableEq, Repr

end ElementQuery
