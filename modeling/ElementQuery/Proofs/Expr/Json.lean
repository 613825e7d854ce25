/-
Reading the JSON form of a tree gives the tree back. The form is taken as a value, so its nesting
is no obstacle: the limit that the reader is given is that of the value itself, and it goes down
with each bracket that the reader opens.

A value of the caller stands in the form as it is. It is read back if its objects have distinct
field names, at every depth, as the objects of JSON values do.
-/
import ElementQuery.Expr.XPath
import ElementQuery.Proofs.Rows

namespace ElementQuery

/-! ## Values -/

namespace Json.Value

mutual
/-- The objects of a value have distinct field names, at every depth. -/
def Distinct : Value → Prop
  | array items => DistinctItems items
  | object fields => (fields.map Prod.fst).Nodup ∧ DistinctFields fields
  | _ => True

/-- The objects of a list of values have distinct field names. -/
def DistinctItems : List Value → Prop
  | [] => True
  | v :: vs => Distinct v ∧ DistinctItems vs

/-- The objects in the values of a list of fields have distinct field names. -/
def DistinctFields : List (String × Value) → Prop
  | [] => True
  | (_, v) :: vs => Distinct v ∧ DistinctFields vs
end

mutual
/-- The document of a value has that value, if it may be nested as deep. -/
theorem value?_toDocument (v : Value) {limit : Nat} (hv : v.Distinct) (hn : v.nesting ≤ limit) :
    v.toDocument.value? limit = some v := by
  cases v with
  | null | bool | number | string => rfl
  | array items =>
    rw [nesting] at hn
    rw [Distinct] at hv
    obtain ⟨limit, rfl⟩ : ∃ n, limit = n + 1 := ⟨limit - 1, by omega⟩
    rw [toDocument, Document.value?, values?_itemDocuments items hv (by omega)]
    rfl
  | object fields =>
    rw [nesting] at hn
    rw [Distinct] at hv
    obtain ⟨limit, rfl⟩ : ∃ n, limit = n + 1 := ⟨limit - 1, by omega⟩
    rw [toDocument, Document.value?, fieldValues?_fieldDocuments fields hv.2 (by omega)]
    have hput : Rows.putAll Prod.fst [] fields = fields := Rows.putAll_eq_append Prod.fst hv.1
    exact congrArg (fun fields => some (object fields)) hput

theorem values?_itemDocuments (items : List Value) {limit : Nat} (hv : DistinctItems items)
    (hn : nestingItems items ≤ limit) :
    Document.values? limit (itemDocuments items) = some items := by
  cases items with
  | nil => rfl
  | cons v vs =>
    rw [nestingItems] at hn
    rw [DistinctItems] at hv
    rw [itemDocuments, Document.values?, value?_toDocument v hv.1 (by omega),
      values?_itemDocuments vs hv.2 (by omega)]

theorem fieldValues?_fieldDocuments (fields : List (String × Value)) {limit : Nat}
    (hv : DistinctFields fields) (hn : nestingFields fields ≤ limit) :
    Document.fieldValues? limit (fieldDocuments fields) = some fields := by
  cases fields with
  | nil => rfl
  | cons field fields =>
    obtain ⟨name, v⟩ := field
    rw [nestingFields] at hn
    rw [DistinctFields] at hv
    have hvalue : v.toDocument.value? limit = some v := value?_toDocument v hv.1 (by omega)
    have hfields := fieldValues?_fieldDocuments fields hv.2 (by omega : _ ≤ limit)
    simp only [fieldDocuments, Document.fieldValues?, hvalue, hfields]
end

/-! ## The shapes of forms -/

section

variable (x y : String) (a b : Value)

@[simp] theorem nesting_tagged : (object [(x, a)]).nesting = a.nesting + 1 := by
  simp [nesting, nestingFields]

@[simp] theorem nesting_parts :
    (object [(x, a), (y, b)]).nesting = max a.nesting b.nesting + 1 := by
  simp [nesting, nestingFields]

@[simp] theorem nesting_pair : (array [a, b]).nesting = max a.nesting b.nesting + 1 := by
  simp [nesting, nestingItems]

@[simp] theorem toDocument_string : (string x).toDocument = .string (some x) := by rw [toDocument]

@[simp] theorem toDocument_tagged :
    (object [(x, a)]).toDocument = .object [(some x, a.toDocument)] := by
  simp [toDocument, fieldDocuments]

@[simp] theorem toDocument_parts :
    (object [(x, a), (y, b)]).toDocument =
      .object [(some x, a.toDocument), (some y, b.toDocument)] := by
  simp [toDocument, fieldDocuments]

@[simp] theorem toDocument_pair :
    (array [a, b]).toDocument = .array [a.toDocument, b.toDocument] := by
  simp [toDocument, itemDocuments]

end

end Json.Value

open Json (Document Value)

theorem Json.Document.parts?_object {x y : String} (h : x ≠ y) (a b : Document) :
    Document.parts? [x, y] (.object [(some x, a), (some y, b)]) = some [a, b] := by
  have h' : ¬ y = x := fun e => h e.symm
  simp [parts?, onlyField?, h, h']

theorem Expr.twoParts?_object {x y : String} (h : x ≠ y) (a b : Document) :
    twoParts? x y (.object [(some x, a), (some y, b)]) = some (a, b) := by
  rw [twoParts?, Document.parts?_object h]

/-! ## Paths -/

theorem Owner.ofTag?_tag (o : Owner) : ofTag? o.tag = some o := by cases o <;> decide

theorem Path.ofDocument?_toJson (p : Path) {limit : Nat} (hn : p.toJson.nesting ≤ limit) :
    ofDocument? limit p.toJson.toDocument = some p := by
  cases p with
  | member m =>
    simp only [toJson, Value.nesting_tagged] at hn
    obtain ⟨limit, rfl⟩ : ∃ n, limit = n + 1 := ⟨limit - 1, by omega⟩
    simp [toJson, ofDocument?, Document.name?, Member.ofTag?_tag]
  | attributeText a =>
    simp only [toJson, Value.nesting_tagged, Value.nesting_parts] at hn
    obtain ⟨limit, rfl⟩ : ∃ n, limit = n + 2 := ⟨limit - 2, by omega⟩
    simp [toJson, ofDocument?, Document.parts?_object, Document.name?, Document.text?,
      Owner.ofTag?_tag]

/-! ## Trees -/

namespace Expr

/-- The values of the caller in a tree have objects with distinct field names. -/
def Distinct : Expr → Prop
  | and l r | or l r | eq l r => l.Distinct ∧ r.Distinct
  | not e | contains _ e | member e _ | convert _ e => e.Distinct
  | literal _ | path _ => True
  | captured _ v | call _ v => v.Distinct

theorem ofDocument?_toJson (e : Expr) {limit : Nat} (he : e.Distinct)
    (hn : e.toJson.nesting ≤ limit) : ofDocument? limit e.toJson.toDocument = some e := by
  -- an operator or a node with parts opens two brackets before what it holds, any other node one
  induction e generalizing limit with
  | and l r ihl ihr | or l r ihl ihr | eq l r ihl ihr =>
    simp only [toJson, Value.nesting_tagged, Value.nesting_pair] at hn
    obtain ⟨limit, rfl⟩ : ∃ n, limit = n + 2 := ⟨limit - 2, by omega⟩
    simp [toJson, ofDocument?, operands?, ihl he.1 (by omega : _ ≤ limit),
      ihr he.2 (by omega : _ ≤ limit)]
  | not e ih =>
    simp only [toJson, Value.nesting_tagged] at hn
    obtain ⟨limit, rfl⟩ : ∃ n, limit = n + 1 := ⟨limit - 1, by omega⟩
    simp [toJson, ofDocument?, ih he (by omega : _ ≤ limit)]
  | literal l =>
    simp only [toJson, Value.nesting_tagged] at hn
    obtain ⟨limit, rfl⟩ : ∃ n, limit = n + 1 := ⟨limit - 1, by omega⟩
    simp [toJson, ofDocument?, Literal.ofDocument?_toJson]
  | path p =>
    simp only [toJson, Value.nesting_tagged] at hn
    obtain ⟨limit, rfl⟩ : ∃ n, limit = n + 1 := ⟨limit - 1, by omega⟩
    simp [toJson, ofDocument?, Path.ofDocument?_toJson p (by omega : _ ≤ limit)]
  | contains p e ih =>
    simp only [toJson, Value.nesting_tagged, Value.nesting_parts] at hn
    obtain ⟨limit, rfl⟩ : ∃ n, limit = n + 2 := ⟨limit - 2, by omega⟩
    simp [toJson, ofDocument?, twoParts?_object, Path.ofDocument?_toJson p (by omega : _ ≤ limit),
      ih he (by omega : _ ≤ limit)]
  | captured x v | call x v =>
    simp only [toJson, Value.nesting_tagged, Value.nesting_parts] at hn
    obtain ⟨limit, rfl⟩ : ∃ n, limit = n + 2 := ⟨limit - 2, by omega⟩
    simp [toJson, ofDocument?, twoParts?_object, Document.text?,
      v.value?_toDocument he (by omega : _ ≤ limit)]
  | member e f ih =>
    simp only [toJson, Value.nesting_tagged, Value.nesting_parts] at hn
    obtain ⟨limit, rfl⟩ : ∃ n, limit = n + 2 := ⟨limit - 2, by omega⟩
    simp [toJson, ofDocument?, twoParts?_object, Document.text?, ih he (by omega : _ ≤ limit)]
  | convert k e ih =>
    simp only [toJson, Value.nesting_tagged, Value.nesting_parts] at hn
    obtain ⟨limit, rfl⟩ : ∃ n, limit = n + 2 := ⟨limit - 2, by omega⟩
    simp [toJson, ofDocument?, twoParts?_object, Document.name?, LiteralKind.ofWord?_word,
      ih he (by omega : _ ≤ limit)]

theorem ofJson?_toJson {e : Expr} (he : e.Distinct) : ofJson? e.toJson = some e :=
  ofDocument?_toJson e he (Nat.le_refl _)

theorem toJson_injOn {e e' : Expr} (he : e.Distinct) (he' : e'.Distinct)
    (h : e.toJson = e'.toJson) : e = e' := by
  have hread := ofJson?_toJson he
  rw [h, ofJson?_toJson he'] at hread
  exact (Option.some.inj hread).symm

/-- A tree is read back from its JSON form, so it is translated alike when it is given in that
form, no two trees share a form, and a literal keeps its kind. -/
theorem ofJson?_toJson_faithful {e : Expr} (he : e.Distinct) :
    ofJson? e.toJson = some e ∧
    (∀ strict, (ofJson? e.toJson).map (xpath strict) = some (e.xpath strict)) ∧
    (∀ e' : Expr, e'.Distinct → e.toJson = e'.toJson → e = e') ∧
    ∀ l : Literal, ofJson? (literal l).toJson = some (literal l) := by
  refine ⟨ofJson?_toJson he, fun strict => ?_, fun e' he' => toJson_injOn he he', fun l => ?_⟩
  · rw [ofJson?_toJson he, Option.map_some]
  · exact ofJson?_toJson trivial

/-- The least word, a text that reads like a number, and a field of an object of the caller. -/
theorem ofJson?_toJson_faithful_nested :
    ofJson? (toJson (and (eq (literal (.int (-9223372036854775808))) (literal (.str "5")))
        (contains (.attributeText ⟨.parent, "class"⟩)
          (member (captured "row" (.object [("cell", .array [.null, .string "true"]),
            ("index", .null)])) "cell")))) =
      some (and (eq (literal (.int (-9223372036854775808))) (literal (.str "5")))
        (contains (.attributeText ⟨.parent, "class"⟩)
          (member (captured "row" (.object [("cell", .array [.null, .string "true"]),
            ("index", .null)])) "cell"))) := by
  refine (ofJson?_toJson_faithful ?_).1
  simp [Distinct, Value.Distinct, Value.DistinctFields, Value.DistinctItems]

end Expr

end ElementQuery
