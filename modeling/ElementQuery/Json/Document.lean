/-
JSON documents: what a text says, before it is taken as a value. A document keeps repeated field
names, and it marks a number that is too large for a double and a string with half of a surrogate
pair, which have no value. A document has a value if nothing in it is so marked and it is not
nested too deeply; of repeated fields the last value counts, at the place of the first.
-/
import ElementQuery.Json.Value

namespace ElementQuery.Json

/-- A JSON text as written. -/
inductive Document where
  | null
  | bool (b : Bool)
  /-- A number, or `none` if it is too large. -/
  | number (n : Option Number)
  /-- A string, or `none` if it holds half of a surrogate pair. -/
  | string (s : Option String)
  | array (items : List Document)
  | object (fields : List (Option String × Document))

instance : Inhabited Document := ⟨.null⟩

/-- The greatest nesting of arrays and objects that a text may have. -/
def nestingLimit : Nat := 127

namespace Document

mutual
/-- The value of a document whose arrays and objects are nested at most `limit` deep. -/
def value? (limit : Nat) : Document → Option Value
  | null => some .null
  | bool b => some (.bool b)
  | number n => n.map .number
  | string s => s.map .string
  | array items =>
    match limit with
    | 0 => none
    | limit + 1 => (values? limit items).map .array
  | object fields =>
    match limit with
    | 0 => none
    | limit + 1 => (fieldValues? limit fields).map fun rows =>
        .object (rows.foldl (fun fields row => Rows.put Prod.fst row fields) [])

/-- The values of a list of documents. -/
def values? (limit : Nat) : List Document → Option (List Value)
  | [] => some []
  | d :: ds =>
    match value? limit d, values? limit ds with
    | some v, some vs => some (v :: vs)
    | _, _ => none

/-- The names and values of a list of fields. -/
def fieldValues? (limit : Nat) : List (Option String × Document) → Option (List (String × Value))
  | [] => some []
  | (name, d) :: ds =>
    match name, value? limit d, fieldValues? limit ds with
    | some name, some v, some vs => some ((name, v) :: vs)
    | _, _, _ => none
end

end Document

namespace Value

mutual
/-- The document that says a value. -/
def toDocument : Value → Document
  | null => .null
  | bool b => .bool b
  | number n => .number (some n)
  | string s => .string (some s)
  | array items => .array (itemDocuments items)
  | object fields => .object (fieldDocuments fields)

/-- The documents that say a list of values. -/
def itemDocuments : List Value → List Document
  | [] => []
  | v :: vs => toDocument v :: itemDocuments vs

/-- The fields that say a list of named values. -/
def fieldDocuments : List (String × Value) → List (Option String × Document)
  | [] => []
  | (name, v) :: vs => (some name, toDocument v) :: fieldDocuments vs
end

end Value

end ElementQuery.Json
