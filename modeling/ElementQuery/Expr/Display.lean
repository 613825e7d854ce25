/-
The text of a predicate tree. A conjunction or disjunction stands in parentheses, so a chain
nested to the left starts with as many parentheses as it has links. The text is written with the
right-hand sides met on the way down the left side kept as pending text; `displayPlain` writes the
same text by plain recursion.
-/
import ElementQuery.Expr.Basic

namespace ElementQuery.Expr

/-- A text inside the chain links that are pending around it, the innermost first. -/
def enclose (pending : List String) (text : String) : String :=
  String.ofList (List.replicate pending.length '(') ++ text ++ String.join pending

/-- The subject and call of a containment test around its argument. -/
def containsText (subject : Path) (argument : String) : String :=
  (match subject with
    | .attributeText a => a.display
    | p => p.display) ++ ".Contains(" ++ argument ++ ")"

/-- The text of a tree inside pending chain links. -/
def displayIn : List String → Expr → String
  | pending, and l r => displayIn ((" && " ++ displayIn [] r ++ ")") :: pending) l
  | pending, or l r => displayIn ((" || " ++ displayIn [] r ++ ")") :: pending) l
  | pending, not e => enclose pending ("!" ++ displayIn [] e)
  | pending, eq l r => enclose pending (displayIn [] l ++ " == " ++ displayIn [] r)
  | pending, contains p e => enclose pending (containsText p (displayIn [] e))
  | pending, literal l => enclose pending l.display
  | pending, path p => enclose pending p.display
  | pending, captured x _ => enclose pending x
  | pending, call f _ => enclose pending (f ++ "()")
  | pending, member e f => enclose pending (displayIn [] e ++ "." ++ f)
  | pending, convert k e => enclose pending (k.word ++ "(" ++ displayIn [] e ++ ")")

/-- The text of a tree. -/
def display (e : Expr) : String := displayIn [] e

/-- The text of a tree, written by plain recursion. -/
def displayPlain : Expr → String
  | and l r => "(" ++ displayPlain l ++ " && " ++ displayPlain r ++ ")"
  | or l r => "(" ++ displayPlain l ++ " || " ++ displayPlain r ++ ")"
  | not e => "!" ++ displayPlain e
  | eq l r => displayPlain l ++ " == " ++ displayPlain r
  | contains p e => containsText p (displayPlain e)
  | literal l => l.display
  | path p => p.display
  | captured x _ => x
  | call f _ => f ++ "()"
  | member e f => displayPlain e ++ "." ++ f
  | convert k e => k.word ++ "(" ++ displayPlain e ++ ")"

end ElementQuery.Expr
