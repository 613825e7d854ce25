/-
Rows with keys, in the order in which the keys were first put in. Putting a row whose key is
present replaces the row in its place; a row with a new key goes to the end.
-/

namespace ElementQuery.Rows

variable {α κ : Type} [DecidableEq κ] (key : α → κ)

/-- Puts a row in the place of the first row with its key, or at the end if there is none. -/
def put (row : α) : List α → List α
  | [] => [row]
  | r :: rows => if key r = key row then row :: rows else r :: put row rows

@[simp] theorem put_nil (row : α) : put key row [] = [row] := rfl

theorem put_ne_nil (row : α) (rows : List α) : put key row rows ≠ [] := by
  cases rows with
  | nil => simp
  | cons r rows =>
    rw [put]
    split <;> simp

/-- The keys stay in place, and a new key goes to the end. -/
theorem map_put (row : α) (rows : List α) :
    (put key row rows).map key =
      if key row ∈ rows.map key then rows.map key else rows.map key ++ [key row] := by
  induction rows with
  | nil => simp
  | cons r rows ih =>
    by_cases h : key r = key row
    · simp [put, h]
    · have h' : ¬ key row = key r := fun e => h e.symm
      simp only [put, h, if_false, List.map_cons, ih, List.mem_cons, h', false_or]
      split <;> simp

theorem put_of_not_mem {row : α} {rows : List α} (h : key row ∉ rows.map key) :
    put key row rows = rows ++ [row] := by
  induction rows with
  | nil => rfl
  | cons r rows ih =>
    rw [List.map_cons, List.mem_cons, not_or] at h
    rw [put, if_neg fun e => h.1 e.symm, ih h.2, List.cons_append]

/-- Putting a row in adds no other row. -/
theorem eq_or_mem_of_mem_put {r row : α} {rows : List α} (h : r ∈ put key row rows) :
    r = row ∨ r ∈ rows := by
  induction rows with
  | nil => exact .inl (List.mem_singleton.1 h)
  | cons r' rows ih =>
    rw [put] at h
    split at h
    · rcases List.mem_cons.1 h with h | h
      · exact .inl h
      · exact .inr (List.mem_cons_of_mem _ h)
    · rcases List.mem_cons.1 h with h | h
      · exact .inr (h ▸ List.mem_cons_self)
      · exact (ih h).imp_right (List.mem_cons_of_mem _)

/-- The row just put in is found by its key. -/
theorem find?_put_self (row : α) (rows : List α) :
    (put key row rows).find? (fun r => key r = key row) = some row := by
  induction rows with
  | nil => simp
  | cons r rows ih => by_cases h : key r = key row <;> simp [put, h, ih]

/-- Rows with other keys are found as before. -/
theorem find?_put_of_ne (row : α) (rows : List α) {k : κ} (hk : k ≠ key row) :
    (put key row rows).find? (fun r => key r = k) = rows.find? (fun r => key r = k) := by
  have hk' : ¬ key row = k := fun e => hk e.symm
  induction rows with
  | nil => simp [hk']
  | cons r rows ih =>
    by_cases h : key r = key row
    · simp [put, h, hk']
    · simp only [put, h, if_false, List.find?_cons, ih]

theorem lookup_eq_find? {β : Type} (k : κ) (rows : List (κ × β)) :
    rows.lookup k = (rows.find? fun r => r.1 = k).map Prod.snd := by
  induction rows with
  | nil => rfl
  | cons r rows ih =>
    obtain ⟨name, v⟩ := r
    rw [List.lookup_cons, List.find?_cons]
    by_cases h : k = name
    · subst h
      simp
    · have h' : ¬ name = k := fun e => h e.symm
      simp only [beq_eq_false_iff_ne.2 h, h', decide_false, ih]

/-- Among pairs, the value just put in is looked up under its name, other names as before. -/
theorem lookup_put {β : Type} (k name : κ) (v : β) (rows : List (κ × β)) :
    (put Prod.fst (name, v) rows).lookup k = if k = name then some v else rows.lookup k := by
  rw [lookup_eq_find?, lookup_eq_find?]
  by_cases hk : k = name
  · subst hk
    rw [find?_put_self Prod.fst (k, v), if_pos rfl, Option.map_some]
  · rw [find?_put_of_ne Prod.fst (name, v) rows hk, if_neg hk]

end ElementQuery.Rows
