/-
Rows put in one after another, in closed form: the keys that were there stay in place, the new keys
follow in the order in which they first came, and each key is found with the last row that was put
in under it. Of two rows with one key the second stays, and two rows with different keys may change
places unless both keys are new.
-/
import ElementQuery.Rows

namespace ElementQuery.Rows

variable {α κ : Type} [DecidableEq κ] (key : α → κ)

/-! ## Two rows -/

/-- Of two rows with one key that are put in, the second stays. -/
theorem put_put_of_key_eq {a b : α} (h : key a = key b) (rows : List α) :
    put key b (put key a rows) = put key b rows := by
  induction rows with
  | nil => simp [put, h]
  | cons r rows ih => by_cases hr : key r = key b <;> simp [put, h, hr, ih]

theorem put_put_of_not_mem {a b : α} {rows : List α} (hne : key a ≠ key b)
    (ha : key a ∉ rows.map key) (hb : key b ∉ rows.map key) :
    put key b (put key a rows) = rows ++ [a, b] := by
  have hb' : key b ∉ (rows ++ [a]).map key := by
    rw [List.map_append, List.mem_append, not_or]
    exact ⟨hb, by simpa using hne.symm⟩
  rw [put_of_not_mem key ha, put_of_not_mem key hb', List.append_assoc, List.singleton_append]

theorem put_comm_of_mem {a b : α} (hne : key a ≠ key b) {rows : List α}
    (h : key a ∈ rows.map key ∨ key b ∈ rows.map key) :
    put key b (put key a rows) = put key a (put key b rows) := by
  induction rows with
  | nil => simp at h
  | cons r rows ih =>
    by_cases ha : key r = key a
    · simp only [put, ha, hne, if_true, if_false]
    · by_cases hb : key r = key b
      · simp only [put, hb, hne.symm, if_true, if_false]
      · have hrows : key a ∈ rows.map key ∨ key b ∈ rows.map key := by
          rw [List.map_cons, List.mem_cons, List.mem_cons] at h
          exact h.imp (Or.resolve_left · (Ne.symm ha)) (Or.resolve_left · (Ne.symm hb))
        simp only [put, ha, hb, if_false, ih hrows]

/-- Two rows with different keys may be put in in either order exactly if one of the keys is there:
two new rows stand at the end in the order in which they came. -/
theorem put_comm_iff {a b : α} (hne : key a ≠ key b) (rows : List α) :
    put key b (put key a rows) = put key a (put key b rows) ↔
      key a ∈ rows.map key ∨ key b ∈ rows.map key := by
  refine ⟨fun h => Decidable.byContradiction fun hnew => ?_, put_comm_of_mem key hne⟩
  obtain ⟨ha, hb⟩ := not_or.1 hnew
  rw [put_put_of_not_mem key hne ha hb, put_put_of_not_mem key hne.symm hb ha,
    List.append_cancel_left_eq] at h
  exact hne (congrArg key (List.cons.inj h).1)

/-! ## Any number of rows -/

/-- Puts rows in, one after another. -/
def putAll (rows news : List α) : List α := news.foldl (fun rows row => put key row rows) rows

@[simp] theorem putAll_nil (rows : List α) : putAll key rows [] = rows := rfl

@[simp] theorem putAll_cons (rows : List α) (row : α) (news : List α) :
    putAll key rows (row :: news) = putAll key (put key row rows) news := rfl

/-- Rows with new and distinct keys are added at the end. -/
theorem putAll_eq_append {rows news : List α} (h : ((rows ++ news).map key).Nodup) :
    putAll key rows news = rows ++ news := by
  induction news generalizing rows with
  | nil => simp
  | cons row news ih =>
    have hrow : key row ∉ rows.map key := by
      intro hmem
      rw [List.map_append, List.nodup_append] at h
      exact h.2.2 _ hmem (key row) (by simp) rfl
    rw [List.append_cons] at h
    rw [putAll_cons, put_of_not_mem key hrow, ih h, ← List.append_cons]

/-- Keys without those of a list and without another key are those without the longer list. -/
theorem removeAll_concat (ks seen : List κ) (k : κ) :
    ks.removeAll (seen ++ [k]) = (ks.removeAll seen).filter fun x => !x == k := by
  simp only [List.removeAll, List.filter_filter]
  refine List.filter_congr fun x _ => ?_
  by_cases hx : x = k <;> by_cases hs : x ∈ seen <;> simp [hx, hs]

/-- The keys in place, then the new keys in the order in which they first came. -/
theorem map_putAll (rows news : List α) :
    (putAll key rows news).map key =
      rows.map key ++ ((news.map key).removeAll (rows.map key)).eraseDups := by
  induction news generalizing rows with
  | nil => simp [List.removeAll]
  | cons row news ih =>
    rw [putAll_cons, ih, map_put]
    by_cases h : key row ∈ rows.map key
    · have hskip : (key row :: news.map key).removeAll (rows.map key) =
          (news.map key).removeAll (rows.map key) := by
        simp only [List.removeAll, List.filter_cons, List.elem_eq_mem, h, decide_true,
          Bool.not_true, Bool.false_eq_true, if_false]
      rw [if_pos h, List.map_cons, hskip]
    · have htake : (key row :: news.map key).removeAll (rows.map key) =
          key row :: (news.map key).removeAll (rows.map key) := by
        simp only [List.removeAll, List.filter_cons, List.elem_eq_mem, h, decide_false,
          Bool.not_false, if_true]
      rw [if_neg h, List.map_cons, htake, List.eraseDups_cons, removeAll_concat,
        List.append_assoc, List.singleton_append]

/-- A key is found with the last row put in under it, or else as before. -/
theorem find?_putAll (rows news : List α) (k : κ) :
    (putAll key rows news).find? (fun r => key r = k) =
      (news.reverse.find? fun r => key r = k).or (rows.find? fun r => key r = k) := by
  induction news generalizing rows with
  | nil => simp
  | cons row news ih =>
    rw [putAll_cons, ih, List.reverse_cons, List.find?_append, Option.or_assoc]
    congr 1
    by_cases h : key row = k
    · subst h
      simp [find?_put_self]
    · rw [find?_put_of_ne key row rows fun e => h e.symm]
      simp [h]

/-- Among pairs, a name has the value that was last put in under it, or else the one it had. -/
theorem lookup_putAll {β : Type} (rows news : List (κ × β)) (k : κ) :
    (putAll Prod.fst rows news).lookup k = (news.reverse.lookup k).or (rows.lookup k) := by
  rw [lookup_eq_find?, find?_putAll, lookup_eq_find?, lookup_eq_find?, Option.map_or]

end ElementQuery.Rows
