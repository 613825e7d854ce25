/-
The grammar of predicate text, from the whole down to its operands:

    whole       ::= [name "=>"] disjunction
    disjunction ::= conjunction {"||" conjunction}
    conjunction ::= unary {"&&" unary}
    unary       ::= "!" unary | comparison
    comparison  ::= operand ["==" operand]
    operand     ::= "(" disjunction ")" | string | integer | "true" | "false"
                  | ("int" | "string" | "bool") "(" disjunction ")"
                  | [name "."] vocabulary
                  | name "(" ")" {"." name}
                  | name {"." name}

A name before "=>" is the parameter: it may stand, with a dot, before a path of the vocabulary, and
nowhere else. A name with empty parentheses is a function of the caller, called when it is met; any
other name is a variable, looked up when it is met. Each parser below takes the parser `nested` of
a disjunction one level further in, so nesting is bounded where `unary` is tied to itself.
-/
import ElementQuery.Head
import ElementQuery.Parser.Basic
import ElementQuery.Token.Lexer

namespace ElementQuery

namespace Parser

/-- The deepest nesting of parentheses, negations and arguments. -/
def maxDepth : Nat := 256

variable (ctx : Context) (nested : Parser Expr)

/-! ## The vocabulary -/

/-- The argument of a containment test, in parentheses. -/
def argument : Parser Expr := do
  expect ctx .leftParen
  let e ← nested
  if (← peek) = some .comma then fail ctx .containsArity
  else
    expect ctx .rightParen
    return e

/-- A containment test on a path, after its name. -/
def containsForm (subject : Path) : Parser Expr := do
  return .contains subject (← argument ctx nested)

/-- The name of an attribute: a string, or a variable bound to one. -/
def attributeName : Parser String := do
  match ← advance with
  | some (.str name) => return name
  | some (.ident name) =>
    match ctx.bindings.value? name with
    | some (.string s) => return s
    | some _ => fail ctx (.attributeNameNotString name)
    | none => throw (.unbound (.attributeName name))
  | _ => fail ctx .expectedAttributeName

/-- An attribute after its head: its name in parentheses, then its text or a containment test. -/
def attributeForm (owner : Owner) : Parser Expr := do
  expect ctx .leftParen
  let name ← attributeName ctx
  expect ctx .rightParen
  expect ctx .dot
  match ← identifier ctx with
  | "Text" => return .path (.attributeText ⟨owner, name⟩)
  | "Contains" => containsForm ctx nested (.attributeText ⟨owner, name⟩)
  | member => fail ctx (.unknownAttributeMember member)

/-- The text of an element after its head, or a containment test on it. -/
def textForm (owner : Owner) : Parser Expr := fun s =>
  match s.rest with
  | ⟨.dot, _⟩ :: ⟨.ident "Contains", _⟩ :: rest =>
    containsForm ctx nested (.member (.text owner)) { s with rest }
  | _ => .ok (.path (.member (.text owner))) s

/-- A path of the vocabulary after its head. -/
def vocabulary : Head → Parser Expr
  | .targetName => return .path (.member (.name .target))
  | .position => return .path (.member (.position .target))
  | .text => textForm ctx nested .target
  | .attributes => attributeForm ctx nested .target
  | head => do
    expect ctx .dot
    let field ← identifier ctx
    match head, field with
    | .parent, "Attribute" => attributeForm ctx nested .parent
    | .parent, "Text" => textForm ctx nested .parent
    | head, field =>
      match head.field? field with
      | some m => return .path (.member m)
      | none => fail ctx (.unknownMember (head.word ++ "." ++ field))

/-! ## Operands -/

/-- What follows the parameter of the lambda header. -/
def receiver (start : Nat) : Parser Expr := do
  expect ctx .dot
  let word ← identifier ctx
  match Head.ofWord? word with
  | some head => vocabulary ctx nested head
  | none => failAt start (.unknownMember word)

/-- A name with an opening parenthesis after it: a conversion, or a call. -/
def application (name : String) : Parser Expr :=
  match LiteralKind.ofWord? name with
  | some kind => do
    let operand ← nested
    expect ctx .rightParen
    return .convert kind operand
  | none => do
    expect ctx .rightParen
    match ctx.bindings.function? name with
    | some f => fields ctx (.call name (← invoke name f))
    | none => throw (.unbound (.function name))

/-- A variable of the caller. -/
def captured (name : String) (start : Nat) : Parser Expr :=
  match ctx.bindings.value? name with
  | some value => fields ctx (.captured name value)
  | none => throw (.unbound (.operand name start))

/-- An operand that starts with an identifier. -/
def named (name : String) (start : Nat) : Parser Expr :=
  if ctx.parameter = some name then receiver ctx nested start
  else if name = "true" then return .literal (.bool true)
  else if name = "false" then return .literal (.bool false)
  else match Head.ofWord? name with
    | some head => vocabulary ctx nested head
    | none => do
      if ← eat .leftParen then application ctx nested name
      else captured ctx name start

/-- One side of a comparison. -/
def operand : Parser Expr := do
  let start ← offset ctx
  match ← advance with
  | some .leftParen => do
    let e ← nested
    expect ctx .rightParen
    return e
  | some (.str s) => return .literal (.str s)
  | some (.int i) => return .literal (.int i)
  | some (.ident name) => named ctx nested name start
  | some token => failAt start (.unexpectedToken token)
  | none => failAt start .unexpectedEnd

/-- An operand, or two compared. -/
def comparison : Parser Expr := do
  let left ← operand ctx nested
  if ← eat .equals then return .eq left (← operand ctx nested)
  else return left

/-! ## Connectives -/

/-- Conditions joined by "and" inside conditions joined by "or". -/
def disjunction (unary : Parser Expr) : Parser Expr :=
  chain .disj .or (chain .conj .and unary)

/-- A negation or a comparison, inside at most `depth` levels of nesting. -/
def unary : Nat → Parser Expr
  | 0 => fail ctx .nestedTooDeeply
  | depth + 1 => do
    if ← eat .bang then return .not (← unary depth)
    else comparison ctx (disjunction (unary depth))

/-- A predicate without a lambda header. -/
def body : Parser Expr := disjunction (unary ctx maxDepth)

/-- A predicate up to the end of the text. -/
def whole : Parser Expr := do
  let e ← body ctx
  match ← peek with
  | some token => fail ctx (.afterPredicate token)
  | none => return e

/-! ## Whole texts -/

/-- The parameter of the lambda header, if there is one, and the lexemes after the header. -/
def header : List Lexeme → Option String × List Lexeme
  | ⟨.ident name, _⟩ :: ⟨.arrow, _⟩ :: rest => (some name, rest)
  | lexemes => (none, lexemes)

/-- A parsed predicate or the error, with the functions called. -/
structure Parsed where
  result : Except Error Expr
  calls : List String

/-- Parses lexemes of a text that ends at an offset. -/
def parseLexemes (bindings : Bindings) (finish : Nat) (lexemes : List Lexeme) : Parsed :=
  if lexemes.isEmpty then ⟨.error (.parse .emptyPredicate 0), []⟩
  else
    let (parameter, rest) := header lexemes
    match whole ⟨bindings, parameter, finish⟩ ⟨rest, []⟩ with
    | .ok e s => ⟨.ok e, s.calls⟩
    | .failed e calls => ⟨.error e, calls⟩

/-- Parses characters. -/
def parseChars (bindings : Bindings) (cs : List Char) : Parsed :=
  match Token.tokenize cs with
  | .ok lexemes => parseLexemes bindings (Text.byteLength cs) lexemes
  | .error e => ⟨.error e, []⟩

end Parser

/-- Parses predicate text; names are looked up, and functions called, on the way. -/
def Expr.parse (source : String) (bindings : Bindings) : Parser.Parsed :=
  Parser.parseChars bindings source.toList

end ElementQuery
