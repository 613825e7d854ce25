/-
The order of the conditions of a conjunction. Conditions that write into different slots of a query
commute, so only the order within each slot can show in the query: conjunctions whose conditions
come in the same order slot by slot give the same query. Where no two conditions write into the same
cell, a slot of one value or an attribute of one name, no order shows but that of the lists of
attributes, siblings and relatives.

A slot is the image of the conditions under one of the partial functions that say what a condition
gives to it. Those functions look at the conditions of their slot only, which is all that the first
law needs; the second adds that they give at most one value to a cell.
-/
import ElementQuery.Expr.XPath
import ElementQuery.Proofs.Query.Slots

namespace ElementQuery

/-! ## Slots and cells -/

/-- A part of a query that is written on its own. -/
inductive Slot where
  | name (owner : Owner)
  | position (owner : Owner)
  | text (owner : Owner)
  | attributes (owner : Owner)
  | siblings
  | relatives
  deriving DecidableEq, Repr

/-- A part of a query that holds one value. -/
inductive Cell where
  | name (owner : Owner)
  | position (owner : Owner)
  | text (owner : Owner)
  | attributeTest (owner : Owner) (name : String)
  deriving DecidableEq, Repr

/-- The slot that a cell is in. -/
def Cell.slot : Cell → Slot
  | name owner => .name owner
  | position owner => .position owner
  | text owner => .text owner
  | attributeTest owner _ => .attributes owner

namespace Condition

/-- The cell that a condition fills; siblings and relatives add up and fill none. -/
def cell? : Condition → Option Cell
  | name owner _ => some (.name owner)
  | position owner _ => some (.position owner)
  | text owner _ => some (.text owner)
  | attributeTest owner a => some (.attributeTest owner a.name)
  | sibling _ | relative _ => none

/-- The slot that a condition writes into. -/
def slot : Condition → Slot
  | name owner _ => .name owner
  | position owner _ => .position owner
  | text owner _ => .text owner
  | attributeTest owner _ => .attributes owner
  | sibling _ => .siblings
  | relative _ => .relatives

variable {c : Condition} {o : Owner}

theorem slot_of_cell? {x : Cell} (h : c.cell? = some x) : c.slot = x.slot := by
  cases c with
  | sibling | relative => cases h
  | _ => cases h; rfl

theorem cell_of_name? {n : String} (h : c.name? o = some n) : c.cell? = some (.name o) := by
  cases c <;> simp_all [name?, cell?]

theorem cell_of_position? {p : Position} (h : c.position? o = some p) :
    c.cell? = some (.position o) := by
  cases c <;> simp_all [position?, cell?]

theorem cell_of_text? {t : TextTest} (h : c.text? o = some t) : c.cell? = some (.text o) := by
  cases c <;> simp_all [text?, cell?]

theorem cell_of_attribute? {a : Attribute} (h : c.attribute? o = some a) :
    c.cell? = some (.attributeTest o a.name) := by
  cases c <;> simp_all [attribute?, cell?]

theorem slot_of_sibling? {s : Sibling} (h : c.sibling? = some s) : c.slot = .siblings := by
  cases c <;> simp_all [sibling?, slot]

theorem slot_of_relative? {r : Relative} (h : c.relative? = some r) : c.slot = .relatives := by
  cases c <;> simp_all [relative?, slot]

end Condition

/-! ## What conditions give, in another order -/

section Given

variable {α : Type} (give : Condition → Option α) {cs ds : List Condition}

/-- What conditions give to a slot is fixed by the conditions of the slot and their order. -/
theorem filterMap_eq_of_slot {slot : Slot}
    (h : cs.filter (·.slot = slot) = ds.filter (·.slot = slot))
    (hg : ∀ c a, give c = some a → c.slot = slot) : cs.filterMap give = ds.filterMap give := by
  have hf : ∀ l : List Condition, (l.filter (·.slot = slot)).filterMap give = l.filterMap give := by
    intro l
    rw [List.filterMap_filter]
    congr 1
    funext c
    cases hc : give c with
    | none => simp
    | some a => simp [hg c a hc]
  rw [← hf cs, h, hf ds]

theorem sublist_filterMap {β γ : Type} {f g : β → Option γ} (h : ∀ b x, f b = some x → g b = some x)
    (bs : List β) : (bs.filterMap f).Sublist (bs.filterMap g) := by
  induction bs with
  | nil => exact .slnil
  | cons b bs ih =>
    cases hf : f b with
    | some x =>
      rw [List.filterMap_cons_some hf, List.filterMap_cons_some (h b x hf)]
      exact ih.cons_cons x
    | none =>
      rw [List.filterMap_cons_none hf]
      cases hg : g b with
      | none => rwa [List.filterMap_cons_none hg]
      | some x =>
        rw [List.filterMap_cons_some hg]
        exact ih.cons x

/-- Conditions that fill distinct cells give values for distinct cells. -/
theorem nodup_cells {cell : α → Cell} (hg : ∀ c a, give c = some a → c.cell? = some (cell a))
    (hn : (cs.filterMap Condition.cell?).Nodup) : ((cs.filterMap give).map cell).Nodup := by
  rw [List.map_filterMap]
  refine (sublist_filterMap (fun c x hx => ?_) cs).nodup hn
  obtain ⟨a, ha, rfl⟩ := Option.map_eq_some_iff.1 hx
  exact hg c a ha

/-- Conditions that fill distinct cells give at most one value to a cell, in whatever order. -/
theorem filterMap_eq_of_cell {cell : Cell} (hg : ∀ c a, give c = some a → c.cell? = some cell)
    (hn : (cs.filterMap Condition.cell?).Nodup) (hp : cs.Perm ds) :
    cs.filterMap give = ds.filterMap give := by
  have hperm := hp.filterMap give
  have hone := nodup_cells give hg hn
  match hl : cs.filterMap give, hperm, hone with
  | [], hperm, _ => exact (List.nil_perm.1 hperm).symm
  | [a], hperm, _ => exact List.singleton_perm.1 hperm
  | a :: b :: l, _, hone => simp at hone

end Given

/-! ## Queries -/

/-- The same description, with the attributes perhaps in another order. -/
structure Step.Reordered (s t : Step) : Prop where
  name : s.name = t.name
  attributes : s.attributes.toList.Perm t.attributes.toList
  position : s.position = t.position
  text : s.text = t.text

/-- The same query, with attributes, siblings and relatives perhaps in another order. -/
structure Query.Reordered (q r : Query) : Prop where
  target : q.target.Reordered r.target
  parent : Option.Rel Step.Reordered q.parent r.parent
  siblings : q.siblings.Perm r.siblings
  relatives : q.relatives.Perm r.relatives

namespace Query

variable {q r : Query}

/-- Parent steps are related if both are missing or both are there and are related. -/
theorem rel_parent {R : Step → Step → Prop} (hparent : q.parent = none ↔ r.parent = none)
    (hstep : R (q.step .parent) (r.step .parent)) : Option.Rel R q.parent r.parent := by
  simp only [step] at hstep
  cases hq : q.parent with
  | none =>
    rw [hparent.1 hq]
    exact .none
  | some s =>
    cases hr : r.parent with
    | none => rw [hparent.2 hr] at hq; cases hq
    | some t =>
      rw [hq, hr] at hstep
      exact .some hstep

/-- A query is its steps, whether it has a parent step, and its lists. -/
theorem ext_steps (hstep : ∀ o, q.step o = r.step o) (hparent : q.parent = none ↔ r.parent = none)
    (hsiblings : q.siblings = r.siblings) (hrelatives : q.relatives = r.relatives) : q = r := by
  have hp : Option.Rel Eq q.parent r.parent := rel_parent hparent (hstep .parent)
  obtain ⟨t, p, ss, rs⟩ := q
  obtain ⟨t', p', ss', rs'⟩ := r
  obtain rfl : t = t' := hstep .target
  cases hsiblings
  cases hrelatives
  cases hp with
  | none => rfl
  | some h => rw [h]

theorem siblings_applyAll (q : Query) (cs : List Condition) :
    (q.applyAll cs).siblings = q.siblings ++ cs.filterMap Condition.sibling? :=
  foldl_concat Query.siblings Condition.sibling? (fun q c => c.siblings_apply q) cs q

theorem relatives_applyAll (q : Query) (cs : List Condition) :
    (q.applyAll cs).relatives = q.relatives ++ cs.filterMap Condition.relative? :=
  foldl_concat Query.relatives Condition.relative? (fun q c => c.relatives_apply q) cs q

theorem parent_applyAll_congr {cs ds : List Condition} (q : Query) (h : ∀ c, c ∈ cs ↔ c ∈ ds) :
    (q.applyAll cs).parent = none ↔ (q.applyAll ds).parent = none := by
  simp only [parent_applyAll_eq_none, h]

/-- Conditions that come in the same order slot by slot write the same query. -/
theorem applyAll_eq_of_slots {cs ds : List Condition} (q : Query)
    (h : ∀ slot, cs.filter (·.slot = slot) = ds.filter (·.slot = slot)) :
    q.applyAll cs = q.applyAll ds := by
  have hmem : ∀ c, c ∈ cs ↔ c ∈ ds := by
    intro c
    have hc : c ∈ cs.filter (·.slot = c.slot) ↔ c ∈ ds.filter (·.slot = c.slot) := by rw [h]
    simpa using hc
  refine ext_steps (fun o => ?_) (q.parent_applyAll_congr hmem) ?_ ?_
  · have hc := q.updated_applyAll cs o
    have hd := q.updated_applyAll ds o
    refine Step.ext ?_ ?_ ?_ ?_
    · rw [hc.name, hd.name, filterMap_eq_of_slot (Condition.name? o) (h (.name o))
        fun _ _ ha => Condition.slot_of_cell? (Condition.cell_of_name? ha)]
    · apply AttributeSet.ext
      rw [attributes_applyAll, attributes_applyAll,
        filterMap_eq_of_slot (Condition.attribute? o) (h (.attributes o))
          fun _ _ ha => Condition.slot_of_cell? (Condition.cell_of_attribute? ha)]
    · rw [hc.position, hd.position, filterMap_eq_of_slot (Condition.position? o) (h (.position o))
        fun _ _ ha => Condition.slot_of_cell? (Condition.cell_of_position? ha)]
    · rw [hc.text, hd.text, filterMap_eq_of_slot (Condition.text? o) (h (.text o))
        fun _ _ ha => Condition.slot_of_cell? (Condition.cell_of_text? ha)]
  · rw [siblings_applyAll, siblings_applyAll,
      filterMap_eq_of_slot Condition.sibling? (h .siblings)
        fun _ _ ha => Condition.slot_of_sibling? ha]
  · rw [relatives_applyAll, relatives_applyAll,
      filterMap_eq_of_slot Condition.relative? (h .relatives)
        fun _ _ ha => Condition.slot_of_relative? ha]

/-- Conditions that fill distinct cells give their attributes to the empty query as they come. -/
theorem attributes_applyAll_empty {cs : List Condition} {o : Owner}
    (hn : (cs.filterMap Condition.cell?).Nodup) :
    ((empty.applyAll cs).step o).attributes.toList = cs.filterMap (Condition.attribute? o) := by
  have hnames : ((cs.filterMap (Condition.attribute? o)).map Attribute.name).Nodup := by
    have hcells := nodup_cells (Condition.attribute? o)
      (fun _ _ ha => Condition.cell_of_attribute? ha) hn
    rw [List.Nodup, List.pairwise_map] at hcells ⊢
    exact hcells.imp fun hne e => hne (by rw [e])
  have hempty : (empty.step o).attributes.toList = [] := by cases o <;> rfl
  rw [attributes_applyAll, hempty, Rows.putAll_eq_append _ hnames, List.nil_append]

/-- Conditions that fill distinct cells write the same query in every order, up to the order of its
lists. -/
theorem reordered_applyAll {cs ds : List Condition} (hn : (cs.filterMap Condition.cell?).Nodup)
    (hp : cs.Perm ds) : (empty.applyAll cs).Reordered (empty.applyAll ds) := by
  have hstep : ∀ o, ((empty.applyAll cs).step o).Reordered ((empty.applyAll ds).step o) := by
    intro o
    have hc := empty.updated_applyAll cs o
    have hd := empty.updated_applyAll ds o
    constructor
    · rw [hc.name, hd.name, filterMap_eq_of_cell (Condition.name? o)
        (fun _ _ ha => Condition.cell_of_name? ha) hn hp]
    · rw [attributes_applyAll_empty hn,
        attributes_applyAll_empty ((hp.filterMap _).nodup_iff.1 hn)]
      exact hp.filterMap _
    · rw [hc.position, hd.position, filterMap_eq_of_cell (Condition.position? o)
        (fun _ _ ha => Condition.cell_of_position? ha) hn hp]
    · rw [hc.text, hd.text, filterMap_eq_of_cell (Condition.text? o)
        (fun _ _ ha => Condition.cell_of_text? ha) hn hp]
  refine ⟨hstep .target, ?_, ?_, ?_⟩
  · exact rel_parent (empty.parent_applyAll_congr fun c => hp.mem_iff) (hstep .parent)
  · rw [siblings_applyAll, siblings_applyAll]
    exact (hp.filterMap _).append_left _
  · rw [relatives_applyAll, relatives_applyAll]
    exact (hp.filterMap _).append_left _

end Query

/-! ## Conjunctions -/

namespace Expr

variable {strict : Bool} {e e' : Expr} {q : Query}

/-- The query of a conjunction is there if every conjunct is visited with success, and holds the
conditions in the order of the visits. -/
theorem query_eq_ok_iff :
    e.query strict = .ok q ↔
      (∀ c ∈ e.conjuncts, ∃ found, c.visit strict = .ok found) ∧
      q = Query.empty.applyAll e.conditions := by
  rw [← result_walk_eq_ok_iff, query, Walk.built]
  cases hr : (e.walk strict .empty).result with
  | error err => simp [Except.map]
  | ok u =>
    rw [query_walk hr]
    simp [Except.map, eq_comm]

theorem conditions_perm (h : e.conjuncts.Perm e'.conjuncts) : e.conditions.Perm e'.conditions := by
  have hr : e.conjuncts.reverse.Perm e'.conjuncts.reverse :=
    (List.reverse_perm _).trans (h.trans (List.reverse_perm _).symm)
  exact hr.filterMap condition?

theorem exists_all {cs : List Expr} (h : cs ≠ []) : ∃ e, all cs = some e := by
  cases cs with
  | nil => exact absurd rfl h
  | cons c cs => exact ⟨_, rfl⟩

/-- Conjunctions of the same conditions in any two orders both have a query or both have none. If
the conditions come in the same order slot by slot, the queries and location paths are equal; if no
two conditions fill the same cell, the queries are equal up to the order of their lists. -/
theorem query_all_perm {cs ds : List Expr} (hne : cs ≠ []) (hp : cs.Perm ds) (strict : Bool) :
    ∃ e e', all cs = some e ∧ all ds = some e' ∧
      ((∃ q, e.query strict = .ok q) ↔ ∃ q', e'.query strict = .ok q') ∧
      ∀ q q', e.query strict = .ok q → e'.query strict = .ok q' →
        ((∀ slot, e.conditions.filter (·.slot = slot) = e'.conditions.filter (·.slot = slot)) →
          q = q' ∧ e.xpath strict = e'.xpath strict) ∧
        ((e.conditions.filterMap Condition.cell?).Nodup → q.Reordered q') := by
  obtain ⟨e, he⟩ := exists_all hne
  obtain ⟨e', he'⟩ := exists_all fun hnil => hne (List.perm_nil.1 (hnil ▸ hp))
  have hconj : e.conjuncts.Perm e'.conjuncts := by
    rw [conjuncts_all he, conjuncts_all he']
    exact hp.flatMap_right conjuncts
  refine ⟨e, e', he, he', ?_, ?_⟩
  · simp only [query_eq_ok_iff, exists_and_left, exists_eq, and_true, hconj.mem_iff]
  · intro q q' hq hq'
    have hxq : e.xpath strict = .ok q.xpath := by rw [xpath, hq]; rfl
    have hxq' : e'.xpath strict = .ok q'.xpath := by rw [xpath, hq']; rfl
    obtain ⟨-, rfl⟩ := query_eq_ok_iff.1 hq
    obtain ⟨-, rfl⟩ := query_eq_ok_iff.1 hq'
    constructor
    · intro hslots
      have heq := Query.empty.applyAll_eq_of_slots hslots
      exact ⟨heq, by rw [hxq, hxq', heq]⟩
    · intro hcells
      exact Query.reordered_applyAll hcells (conditions_perm hconj)

/-- Two names in one conjunct and a condition on the parent change places, and the query stays as it
is; two attributes change places, and so do they in the query. -/
theorem query_all_perm_swapped :
    (∃ names parent e e' q,
      names = and (eq (path (.member (.name .target))) (literal (.str "th")))
        (eq (path (.member (.name .target))) (literal (.str "td"))) ∧
      parent = eq (path (.member (.position .parent))) (literal (.int 2)) ∧
      all [names, parent] = some e ∧ all [parent, names] = some e' ∧
      e.query true = .ok q ∧ e'.query true = .ok q ∧ e.xpath true = e'.xpath true) ∧
    ∃ kind ident e e' q q',
      kind = eq (path (.attributeText ⟨.target, "class"⟩)) (literal (.str "a")) ∧
      ident = eq (path (.attributeText ⟨.target, "id"⟩)) (literal (.str "x")) ∧
      all [kind, ident] = some e ∧ all [ident, kind] = some e' ∧
      e.query true = .ok q ∧ e'.query true = .ok q' ∧ q.Reordered q' ∧ q ≠ q' := by
  constructor
  · obtain ⟨e, e', he, he', hiff, h⟩ := query_all_perm (List.cons_ne_nil
        (and (eq (path (.member (.name .target))) (literal (.str "th")))
          (eq (path (.member (.name .target))) (literal (.str "td"))))
        [eq (path (.member (.position .parent))) (literal (.int 2))]) (.swap _ _ _) true
    have hslots : ∀ slot,
        e.conditions.filter (·.slot = slot) = e'.conditions.filter (·.slot = slot) := by
      cases he
      cases he'
      rintro (⟨_ | _⟩ | ⟨_ | _⟩ | ⟨_ | _⟩ | ⟨_ | _⟩ | _ | _) <;> rfl
    obtain ⟨q, hq⟩ : ∃ q, e.query true = .ok q := by
      cases he
      exact ⟨_, by rw [query, walk_eq_visitAll]; rfl⟩
    obtain ⟨q', hq'⟩ := hiff.1 ⟨q, hq⟩
    obtain ⟨rfl, hx⟩ := (h q q' hq hq').1 hslots
    exact ⟨_, _, e, e', q, rfl, rfl, he, he', hq, hq', hx⟩
  · obtain ⟨e, e', he, he', hiff, h⟩ := query_all_perm (List.cons_ne_nil
        (eq (path (.attributeText ⟨.target, "class"⟩)) (literal (.str "a")))
        [eq (path (.attributeText ⟨.target, "id"⟩)) (literal (.str "x"))]) (.swap _ _ _) true
    have hcells : (e.conditions.filterMap Condition.cell?).Nodup := by
      cases he
      decide
    obtain ⟨q, hq⟩ : ∃ q, e.query true = .ok q := by
      cases he
      exact ⟨_, by rw [query, walk_eq_visitAll]; rfl⟩
    obtain ⟨q', hq'⟩ := hiff.1 ⟨q, hq⟩
    have hne : q ≠ q' := by
      rw [(query_eq_ok_iff.1 hq).2, (query_eq_ok_iff.1 hq').2]
      cases he
      cases he'
      decide
    exact ⟨_, _, e, e', q, q', rfl, rfl, he, he', hq, hq', (h q q' hq hq').2 hcells, hne⟩

end Expr

end ElementQuery
