/-
What can go wrong, as causes; the wording of each is in one function `message` beside its type.
-/
import ElementQuery.Token.Basic
import ElementQuery.Text.Quoted

namespace ElementQuery

/-- What an operand should have been. -/
inductive Role where
  | integerConversion
  | booleanConversion
  | elementName
  | attributeName
  | position
  deriving DecidableEq, Repr

/-- The words for a role. -/
def Role.words : Role → String
  | integerConversion => "integer conversion"
  | booleanConversion => "boolean conversion"
  | elementName => "element name"
  | attributeName => "attribute name"
  | position => "position"

/-- What is wrong at a place of a predicate text. -/
inductive Fault where
  | unexpectedCharacter (c : Char)
  | integerOutOfRange (lexeme : String)
  | emptyPredicate
  | afterPredicate (token : Token)
  | expected (wanted : Token) (found : Option Token)
  | expectedIdentifier
  | nestedTooDeeply
  | unexpectedToken (token : Token)
  | unexpectedEnd
  | unknownMember (name : String)
  | attributeNameNotString (name : String)
  | expectedAttributeName
  | unknownAttributeMember (name : String)
  | containsArity
  deriving DecidableEq, Repr

namespace Fault

/-- A token between quotes, or the words for the end of the text. -/
def found : Option Token → String
  | some token => "'" ++ token.display ++ "'"
  | none => "end of input"

/-- The wording of a fault. -/
def message : Fault → String
  | unexpectedCharacter c => "unexpected character '" ++ c.toString ++ "'"
  | integerOutOfRange lexeme => "integer out of range: " ++ lexeme
  | emptyPredicate => "empty predicate"
  | afterPredicate token => "unexpected token '" ++ token.display ++ "' after predicate"
  | expected wanted token => "expected '" ++ wanted.display ++ "', found " ++ found token
  | expectedIdentifier => "expected identifier"
  | nestedTooDeeply => "predicate nested too deeply"
  | unexpectedToken token => "unexpected token '" ++ token.display ++ "'"
  | unexpectedEnd => "unexpected end of input"
  | unknownMember name => "unknown vocabulary member '" ++ name ++ "'"
  | attributeNameNotString name => "attribute name '" ++ name ++ "' is not a string"
  | expectedAttributeName => "expected attribute name"
  | unknownAttributeMember name => "unknown attribute member '" ++ name ++ "'"
  | containsArity => "Contains takes a single argument"

end Fault

/-- A name that the caller has not bound: a variable used as an operand at an offset, a function,
or a variable used as an attribute name. -/
inductive Unbound where
  | operand (name : String) (offset : Nat)
  | function (name : String)
  | attributeName (name : String)
  deriving DecidableEq, Repr

/-- The name as it is shown, a function with its parentheses. -/
def Unbound.shown : Unbound → String
  | operand name _ => name
  | function name => name ++ "()"
  | attributeName name => name

/-- Why a predicate cannot be turned into a query. -/
inductive Error where
  /-- An operand that cannot be read as what its condition needs. -/
  | malformed (role : Role) (text : String)
  /-- A condition that no rule recognises. -/
  | unsupported (predicate : String)
  /-- Predicate text with a fault at a byte offset. -/
  | parse (fault : Fault) (position : Nat)
  | unbound (name : Unbound)
  /-- A text that is no JSON form of a predicate. -/
  | json
  deriving DecidableEq, Repr

/-- The wording of an error. -/
def Error.message : Error → String
  | malformed role text => "malformed " ++ role.words ++ ": " ++ Text.quoted text
  | unsupported predicate => "unsupported predicate: " ++ predicate
  | parse fault position => "parse error at position " ++ toString position ++ ": " ++ fault.message
  | unbound name => "unbound variable '" ++ name.shown ++ "'"
  | json => "invalid predicate JSON"

end ElementQuery
