/-
Reading JSON text. Each reader takes a part off the front of a text and returns it with what is
left, or fails. The readers of nested parts carry a bound that falls with every step; since every
step but the first takes a character, twice the length of the text is enough.
-/
import ElementQuery.Json.Document

namespace ElementQuery.Json.Reader

open ElementQuery.Json

/-- The white space of JSON. -/
def isSpace (c : Char) : Bool := c == ' ' || c == '\n' || c == '\t' || c == '\r'

/-- What follows the leading white space. -/
def skip (cs : List Char) : List Char := cs.dropWhile isSpace

/-! ## Numbers -/

/-- A run of digits, and what follows it. -/
def digits (cs : List Char) : List Char × List Char :=
  (cs.takeWhile Char.isDigit, cs.dropWhile Char.isDigit)

/-- The digits before the point: a zero that no digit follows, or a run that starts otherwise. -/
def whole? (cs : List Char) : Option (List Char × List Char) :=
  match digits cs with
  | ([], _) => none
  | (['0'], rest) => some (['0'], rest)
  | ('0' :: _, _) => none
  | (ds, rest) => some (ds, rest)

/-- A run of at least one digit. -/
def someDigits? (cs : List Char) : Option (List Char × List Char) :=
  match digits cs with
  | ([], _) => none
  | (ds, rest) => some (ds, rest)

/-- The digits after a point, none if there is no point. -/
def fraction? : List Char → Option (List Char × List Char)
  | '.' :: cs => someDigits? cs
  | cs => some ([], cs)

/-- The digits of an exponent after its optional sign. -/
def exponentDigits? : List Char → Option ((Bool × List Char) × List Char)
  | '-' :: cs => (someDigits? cs).map fun (ds, rest) => ((true, ds), rest)
  | '+' :: cs => (someDigits? cs).map fun (ds, rest) => ((false, ds), rest)
  | cs => (someDigits? cs).map fun (ds, rest) => ((false, ds), rest)

/-- The exponent, if there is one. -/
def exponent? : List Char → Option (Option (Bool × List Char) × List Char)
  | 'e' :: cs => (exponentDigits? cs).map fun (e, rest) => (some e, rest)
  | 'E' :: cs => (exponentDigits? cs).map fun (e, rest) => (some e, rest)
  | cs => some (none, cs)

/-- A number after its sign. -/
def unsigned? (negative : Bool) (cs : List Char) : Option (Numeral × List Char) := do
  let (whole, cs) ← whole? cs
  let (fraction, cs) ← fraction? cs
  let (exponent, cs) ← exponent? cs
  return (⟨negative, whole, fraction, exponent⟩, cs)

/-- A number. -/
def numeral? : List Char → Option (Numeral × List Char)
  | '-' :: cs => unsigned? true cs
  | cs => unsigned? false cs

/-! ## Strings -/

/-- A part of a string: a character, or half of a surrogate pair written by its code. -/
inductive Piece where
  | char (c : Char)
  | half (code : Nat)

/-- The value of a hexadecimal digit. -/
def hexDigit? (c : Char) : Option Nat :=
  if c.isDigit then some (c.toNat - '0'.toNat)
  else if 'a' ≤ c ∧ c ≤ 'f' then some (c.toNat - 'a'.toNat + 10)
  else if 'A' ≤ c ∧ c ≤ 'F' then some (c.toNat - 'A'.toNat + 10)
  else none

/-- The piece that four hexadecimal digits denote. -/
def hexPiece? (a b c d : Char) : Option Piece := do
  let high := (← hexDigit? a) * 16 + (← hexDigit? b)
  let low := (← hexDigit? c) * 16 + (← hexDigit? d)
  let code := high * 256 + low
  return if 0xd800 ≤ code ∧ code ≤ 0xdfff then .half code else .char (Char.ofNat code)

/-- The character that a letter denotes after a backslash. -/
def escape? : Char → Option Char
  | '"' => some '"'
  | '\\' => some '\\'
  | '/' => some '/'
  | 'b' => some '\x08'
  | 'f' => some '\x0c'
  | 'n' => some '\n'
  | 'r' => some '\r'
  | 't' => some '\t'
  | _ => none

/-- The pieces up to the closing quote, put before those already read in reverse. -/
def pieces? (read : List Piece) : List Char → Option (List Piece × List Char)
  | '"' :: cs => some (read.reverse, cs)
  | '\\' :: 'u' :: a :: b :: c :: d :: cs =>
    match hexPiece? a b c d with
    | some piece => pieces? (piece :: read) cs
    | none => none
  | '\\' :: e :: cs =>
    match escape? e with
    | some c => pieces? (.char c :: read) cs
    | none => none
  | c :: cs => if c == '\\' || c.toNat < 0x20 then none else pieces? (.char c :: read) cs
  | [] => none

/-- The characters that pieces stand for, in reverse before those already taken, unless a half
stands alone. -/
def join? (taken : List Char) : List Piece → Option (List Char)
  | [] => some taken.reverse
  | .char c :: ps => join? (c :: taken) ps
  | .half high :: .half low :: ps =>
    if high < 0xdc00 ∧ 0xdc00 ≤ low then
      join? (Char.ofNat (0x10000 + (high - 0xd800) * 0x400 + (low - 0xdc00)) :: taken) ps
    else none
  | .half _ :: _ => none

/-- A string after its opening quote, `none` inside if a half of a pair stands alone. -/
def string? (cs : List Char) : Option (Option String × List Char) :=
  (pieces? [] cs).map fun (ps, rest) => ((join? [] ps).map String.ofList, rest)

/-! ## Documents -/

mutual
/-- A value with the white space before it. -/
def value? : Nat → List Char → Option (Document × List Char)
  | 0, _ => none
  | bound + 1, cs =>
    match skip cs with
    | 'n' :: 'u' :: 'l' :: 'l' :: cs => some (.null, cs)
    | 't' :: 'r' :: 'u' :: 'e' :: cs => some (.bool true, cs)
    | 'f' :: 'a' :: 'l' :: 's' :: 'e' :: cs => some (.bool false, cs)
    | '"' :: cs => (string? cs).map fun (s, rest) => (.string s, rest)
    | '[' :: cs =>
      match skip cs with
      | ']' :: rest => some (.array [], rest)
      | cs => (items? bound cs).map fun (items, rest) => (.array items, rest)
    | '\x7b' :: cs =>
      match skip cs with
      | '\x7d' :: rest => some (.object [], rest)
      | cs => (fields? bound cs).map fun (fields, rest) => (.object fields, rest)
    | cs => (numeral? cs).map fun (x, rest) => (.number x.number?, rest)

/-- The items of an array from the first one to the closing bracket. -/
def items? : Nat → List Char → Option (List Document × List Char)
  | 0, _ => none
  | bound + 1, cs =>
    match value? bound cs with
    | none => none
    | some (item, cs) =>
      match skip cs with
      | ']' :: rest => some ([item], rest)
      | ',' :: cs => (items? bound cs).map fun (items, rest) => (item :: items, rest)
      | _ => none

/-- The fields of an object from the first one to the closing brace. -/
def fields? : Nat → List Char → Option (List (Option String × Document) × List Char)
  | 0, _ => none
  | bound + 1, cs =>
    match skip cs with
    | '"' :: cs =>
      match string? cs with
      | none => none
      | some (name, cs) =>
        match skip cs with
        | ':' :: cs =>
          match value? bound cs with
          | none => none
          | some (value, cs) =>
            match skip cs with
            | '\x7d' :: rest => some ([(name, value)], rest)
            | ',' :: cs =>
              (fields? bound cs).map fun (fields, rest) => ((name, value) :: fields, rest)
            | _ => none
        | _ => none
    | _ => none
end

end Reader

/-- The document that a whole text says. -/
def Document.ofText? (text : String) : Option Document :=
  let cs := text.toList
  match Reader.value? (2 * cs.length + 1) cs with
  | some (document, rest) => if (Reader.skip rest).isEmpty then some document else none
  | none => none

/-- The value that a whole text says. -/
def Value.ofText? (text : String) : Option Value :=
  (Document.ofText? text).bind (Document.value? nestingLimit)

end ElementQuery.Json
