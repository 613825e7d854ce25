/-
From predicates to location paths, given as trees, as text or as JSON. A predicate is taken
strictly or permissively: a condition that no rule recognises is an error or is passed over.
-/
import ElementQuery.Expr.Json
import ElementQuery.Parser.Predicate
import ElementQuery.Query.XPath
import ElementQuery.Walk

namespace ElementQuery

/-- The query that a walk built, or its error. -/
def Walk.built (w : Walk) : Except Error Query := w.result.map fun _ => w.query

namespace Expr

/-- The query of a predicate. -/
def query (strict : Bool) (e : Expr) : Except Error Query := (e.walk strict .empty).built

/-- The location path of a predicate. -/
def xpath (strict : Bool) (e : Expr) : Except Error String := (e.query strict).map Query.xpath

/-- The location path of a predicate given as text. -/
def xpathOfText (strict : Bool) (source : String) (bindings : Bindings) : Except Error String :=
  (Expr.parse source bindings).result.bind (xpath strict)

/-- Reads a tree from a JSON text, or fails. -/
def ofJsonText (text : String) : Except Error Expr :=
  match ofText? text with
  | some e => .ok e
  | none => .error .json

/-- The location path of a predicate given as a JSON text. -/
def xpathOfJson (strict : Bool) (text : String) : Except Error String :=
  (ofJsonText text).bind (xpath strict)

end Expr

end ElementQuery
