/-
What the caller binds: variables with JSON values, and functions without arguments. A function may
keep state, so its result depends on the functions called before it.
-/
import ElementQuery.Json.Value

namespace ElementQuery

/-- What a call returns, given the names of the functions called before it in order. -/
abbrev Function := List String → Json.Value

/-- The function that returns the given results in turn, and null if there are none. -/
def Function.cycling (name : String) (results : List Json.Value) : Function := fun calls =>
  (results[calls.count name % results.length]?).getD .null

/-- The values and functions that a predicate can name. -/
structure Bindings where
  values : List (String × Json.Value)
  functions : List (String × Function)

namespace Bindings

/-- Nothing bound. -/
def empty : Bindings := ⟨[], []⟩

/-- Binds a variable, in place of an earlier binding of its name. -/
def bind (b : Bindings) (name : String) (value : Json.Value) : Bindings :=
  { b with values := Rows.put Prod.fst (name, value) b.values }

/-- Binds a function, in place of an earlier binding of its name. -/
def bindFunction (b : Bindings) (name : String) (f : Function) : Bindings :=
  { b with functions := Rows.put Prod.fst (name, f) b.functions }

/-- The value of a variable. -/
def value? (b : Bindings) (name : String) : Option Json.Value := b.values.lookup name

/-- The function with a name. -/
def function? (b : Bindings) (name : String) : Option Function := b.functions.lookup name

theorem value?_bind (b : Bindings) (name : String) (v : Json.Value) (x : String) :
    (b.bind name v).value? x = if x = name then some v else b.value? x :=
  Rows.lookup_put x name v b.values

theorem function?_bindFunction (b : Bindings) (name : String) (f : Function) (x : String) :
    (b.bindFunction name f).function? x = if x = name then some f else b.function? x :=
  Rows.lookup_put x name f b.functions

end Bindings

end ElementQuery
