/-
JSON values. The fields of an object have distinct names and keep the order in which the names
were first put in; two objects are equal if they have the same fields in any order.
-/
import ElementQuery.Json.Number
import ElementQuery.Rows

namespace ElementQuery.Json

/-- A JSON value. -/
inductive Value where
  | null
  | bool (b : Bool)
  | number (n : Number)
  | string (s : String)
  | array (items : List Value)
  | object (fields : List (String × Value))

instance : Inhabited Value := ⟨.null⟩

namespace Value

/-- The integer value of a word. -/
def int (i : Int64) : Value := .number (.int i)

/-- The value of a field of an object. -/
def get? (name : String) : Value → Option Value
  | object fields => fields.lookup name
  | _ => none

mutual
/-- Whether two values are equal, the order of fields apart. -/
def same : Value → Value → Bool
  | null, null => true
  | bool a, bool b => a == b
  | number a, number b => a.same b
  | string a, string b => a == b
  | array a, array b => sameItems a b
  | object a, object b => a.length == b.length && sameFields a b
  | _, _ => false

/-- Whether two lists of values are equal item by item. -/
def sameItems : List Value → List Value → Bool
  | [], [] => true
  | a :: as, b :: bs => same a b && sameItems as bs
  | _, _ => false

/-- Whether each field of the first list has an equal field in the second. -/
def sameFields : List (String × Value) → List (String × Value) → Bool
  | [], _ => true
  | (name, a) :: as, bs =>
    (match bs.lookup name with
      | some b => same a b
      | none => false) && sameFields as bs
end

mutual
/-- How deep arrays and objects stand in one another. -/
def nesting : Value → Nat
  | array items => nestingItems items + 1
  | object fields => nestingFields fields + 1
  | _ => 0

/-- The greatest nesting of a list of values. -/
def nestingItems : List Value → Nat
  | [] => 0
  | v :: vs => max (nesting v) (nestingItems vs)

/-- The greatest nesting of the values of a list of fields. -/
def nestingFields : List (String × Value) → Nat
  | [] => 0
  | (_, v) :: vs => max (nesting v) (nestingFields vs)
end

end Value

end ElementQuery.Json
