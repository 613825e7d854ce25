/-
Cutting predicate text into lexemes. White space separates lexemes and is dropped. At each other
place a string literal, an integer, an operator or an identifier is cut off, as long as it can be;
a place where none starts is a fault, and so is an integer that does not fit a word.

A string literal stands between two quotes of one kind. A backslash keeps the character after it,
which may be anything but a line feed.
-/
import ElementQuery.Error
import ElementQuery.Text.Blank
import ElementQuery.Text.Bytes

namespace ElementQuery.Token

/-! ## String literals -/

/-- The text before the closing quote, put after that already passed in reverse, and what follows
the quote. -/
def quotedBody? (quote : Char) (passed : List Char) : List Char → Option (List Char × List Char)
  | [] => none
  | '\\' :: c :: cs => if c = '\n' then none else quotedBody? quote (c :: '\\' :: passed) cs
  | c :: cs =>
    if c = quote then some (passed.reverse, cs)
    else if c = '\\' then none
    else quotedBody? quote (c :: passed) cs

/-- The text that the body of a string literal stands for: a backslash keeps the next
character. -/
def unescape : List Char → List Char
  | '\\' :: c :: cs => c :: unescape cs
  | ['\\'] => []
  | c :: cs => c :: unescape cs
  | [] => []

/-! ## Lexemes -/

/-- A lexeme cut off a text: what it says, its characters, and what follows them. -/
structure Cut where
  token : Except Fault Token
  lexeme : List Char
  rest : List Char

/-- A string literal. -/
def string? : List Char → Option Cut
  | [] => none
  | quote :: cs =>
    if quote = '"' ∨ quote = '\x27' then
      (quotedBody? quote [] cs).map fun (body, rest) =>
        ⟨.ok (.str (String.ofList (unescape body))), quote :: (body ++ [quote]), rest⟩
    else none

/-- The token of an integer lexeme. -/
def ofInteger (lexeme : List Char) : Except Fault Token :=
  match Text.readWord? lexeme with
  | some i => .ok (.int i)
  | none => .error (.integerOutOfRange (String.ofList lexeme))

/-- An integer: digits after an optional minus sign. -/
def integer? (cs : List Char) : Option Cut :=
  let (sign, cs) := match cs with
    | '-' :: cs => (['-'], cs)
    | cs => ([], cs)
  let digits := cs.takeWhile Char.isDigit
  if digits.isEmpty then none
  else some ⟨ofInteger (sign ++ digits), sign ++ digits, cs.dropWhile Char.isDigit⟩

/-- The operators, a longer one before those it starts with. -/
def operators : List Token := [conj, disj, equals, arrow, bang, leftParen, rightParen, dot, comma]

/-- An operator. -/
def operator? (cs : List Char) : Option Cut :=
  (operators.find? (·.display.toList.isPrefixOf cs)).map fun token =>
    let lexeme := token.display.toList
    ⟨.ok token, lexeme, cs.drop lexeme.length⟩

/-- Whether a character can start an identifier. -/
def isIdentStart (c : Char) : Bool := c.isAlpha || c == '_'

/-- Whether a character can stand in an identifier. -/
def isIdentRest (c : Char) : Bool := c.isAlphanum || c == '_'

/-- An identifier. -/
def identifier? : List Char → Option Cut
  | [] => none
  | c :: cs =>
    if isIdentStart c then
      let name := c :: cs.takeWhile isIdentRest
      some ⟨.ok (.ident (String.ofList name)), name, cs.dropWhile isIdentRest⟩
    else none

/-- The lexeme at the front of a text. -/
def cut? (cs : List Char) : Option Cut :=
  (string? cs).or ((integer? cs).or ((operator? cs).or (identifier? cs)))

/-! ## Scanning -/

/-- The lexemes of a text that starts at an offset. Each takes a character, so a bound of the
length of the text is never used up. -/
def scan : Nat → Nat → List Char → Except Error (List Lexeme)
  | 0, _, _ => .ok []
  | bound + 1, offset, cs =>
    let start := offset + Text.byteLength (cs.takeWhile Text.isBlank)
    match cs.dropWhile Text.isBlank with
    | [] => .ok []
    | c :: cs =>
      match cut? (c :: cs) with
      | none => .error (.parse (.unexpectedCharacter c) start)
      | some ⟨.error fault, _, _⟩ => .error (.parse fault start)
      | some ⟨.ok token, lexeme, rest⟩ =>
        match scan bound (start + Text.byteLength lexeme) rest with
        | .error e => .error e
        | .ok lexemes => .ok (⟨token, start⟩ :: lexemes)

/-- The lexemes of a text. -/
def tokenize (cs : List Char) : Except Error (List Lexeme) := scan cs.length 0 cs

end ElementQuery.Token
