/-
Attribute tests as a map in the order of insertion. Tests that are inserted one after another leave
one test for each name: the names stand in the order in which they were first inserted, and each
has the test that was last inserted under it.

Main statement: this determines the tests of the set, whatever was inserted. Inserting a test again
changes nothing, and two insertions under different names commute exactly if one of the names is
there, since two new names stand in the order in which they came.

What the insertions so far leave is an invariant: one more insertion keeps it, and any number of
insertions start from the empty set, where it is trivial.
-/
import ElementQuery.Proofs.Query.Slots
import Mathlib.Data.List.Nodup

namespace ElementQuery.AttributeSet

/-- Inserts tests one after another. -/
def insertAll (set : AttributeSet) (inserts : List Attribute) : AttributeSet :=
  inserts.foldl insert set

/-- How many insertions came before the first one under a name. -/
def firstInsert (inserts : List Attribute) (name : String) : Nat :=
  (inserts.map Attribute.name).idxOf name

/-- Of the insertions under its name, that of a test is the last. -/
def LastInserted (inserts : List Attribute) (a : Attribute) : Prop :=
  ∃ before after, inserts = before ++ a :: after ∧ ∀ b ∈ after, b.name ≠ a.name

/-- The tests that insertions leave: one for each name that was inserted, in the order of the first
insertions, each as it was last inserted. -/
structure LeftBy (inserts attributes : List Attribute) : Prop where
  distinct : (attributes.map Attribute.name).Nodup
  inserted : ∀ n, n ∈ attributes.map Attribute.name ↔ n ∈ inserts.map Attribute.name
  ordered : (attributes.map Attribute.name).Pairwise fun m n =>
    firstInsert inserts m < firstInsert inserts n
  last : ∀ a ∈ attributes, LastInserted inserts a

/-! ## The first and the last insertion of a name -/

section Insertions

variable {inserts : List Attribute} {a b : Attribute} {m n : String}

theorem firstInsert_concat_of_mem (a : Attribute) (hn : n ∈ inserts.map Attribute.name) :
    firstInsert (inserts ++ [a]) n = firstInsert inserts n := by
  rw [firstInsert, List.map_append, List.idxOf_append_of_mem hn, firstInsert]

/-- A new name comes after the names that were inserted before it. -/
theorem firstInsert_concat_lt (hm : m ∈ inserts.map Attribute.name)
    (ha : a.name ∉ inserts.map Attribute.name) :
    firstInsert (inserts ++ [a]) m < firstInsert (inserts ++ [a]) a.name := by
  have hlt : firstInsert inserts m < (inserts.map Attribute.name).length :=
    List.idxOf_lt_length_iff.2 hm
  have hnew : firstInsert (inserts ++ [a]) a.name = (inserts.map Attribute.name).length := by
    rw [firstInsert, List.map_append, List.idxOf_append_of_notMem ha]
    simp
  rwa [firstInsert_concat_of_mem a hm, hnew]

theorem lastInserted_concat_self (inserts : List Attribute) (a : Attribute) :
    LastInserted (inserts ++ [a]) a :=
  ⟨inserts, [], rfl, by simp⟩

theorem LastInserted.concat (hb : LastInserted inserts b) (hne : a.name ≠ b.name) :
    LastInserted (inserts ++ [a]) b := by
  obtain ⟨before, after, rfl, hafter⟩ := hb
  refine ⟨before, after ++ [a], by simp, fun c hc => ?_⟩
  rcases List.mem_append.1 hc with hc | hc
  · exact hafter c hc
  · exact List.mem_singleton.1 hc ▸ hne

/-- The last insertion under a name is the first that is met from the end. -/
theorem LastInserted.find?_reverse (ha : LastInserted inserts a) :
    inserts.reverse.find? (fun b => b.name = a.name) = some a := by
  obtain ⟨before, after, rfl, hafter⟩ := ha
  have hnone : after.reverse.find? (fun b => b.name = a.name) = none :=
    List.find?_eq_none.2 fun b hb => by simpa using hafter b (List.mem_reverse.1 hb)
  simp [List.find?_append, hnone]

theorem LastInserted.eq_of_name_eq (ha : LastInserted inserts a) (hb : LastInserted inserts b)
    (h : a.name = b.name) : a = b := by
  have hfind := ha.find?_reverse
  rw [h, hb.find?_reverse] at hfind
  exact (Option.some.inj hfind).symm

end Insertions

/-! ## One insertion -/

section Insert

variable {set : AttributeSet} {a b : Attribute} {n : String}

theorem names_insert (set : AttributeSet) (a : Attribute) :
    (set.insert a).names = if a.name ∈ set.names then set.names else set.names ++ [a.name] :=
  Rows.map_put Attribute.name a set.toList

theorem mem_names_insert : n ∈ (set.insert a).names ↔ n ∈ set.names ∨ n = a.name := by
  rw [names_insert]
  split
  · rename_i h
    exact ⟨.inl, fun hn => hn.elim id fun e => e ▸ h⟩
  · rw [List.mem_append, List.mem_singleton]

/-- A test is in a set if it is the one found under its name. -/
theorem mem_toList_iff_find? : a ∈ set.toList ↔ set.find? a.name = some a := by
  refine ⟨fun ha => ?_, List.mem_of_find?_eq_some⟩
  obtain ⟨b, hb⟩ : ∃ b, set.find? a.name = some b := by
    rw [← Option.isSome_iff_exists, find?, List.find?_isSome]
    exact ⟨a, ha, by simp⟩
  have hname : b.name = a.name := by simpa using List.find?_some hb
  rw [hb, List.inj_on_of_nodup_map set.distinct (List.mem_of_find?_eq_some hb) ha hname]

/-- An insertion replaces the test with its name and leaves the others. -/
theorem mem_toList_insert :
    b ∈ (set.insert a).toList ↔ b = a ∨ b ∈ set.toList ∧ a.name ≠ b.name := by
  rw [mem_toList_iff_find?, mem_toList_iff_find?]
  by_cases h : b.name = a.name
  · have hself : (set.insert a).find? b.name = some a := by
      rw [h]
      exact Rows.find?_put_self Attribute.name a set.toList
    rw [hself]
    simp [h, eq_comm]
  · have hother : (set.insert a).find? b.name = set.find? b.name :=
      Rows.find?_put_of_ne Attribute.name a set.toList h
    have hne : b ≠ a := fun e => h (e ▸ rfl)
    simp [hother, hne, Ne.symm h]

/-- Of two tests with one name that are inserted, the second stays. -/
theorem insert_insert_of_name_eq (set : AttributeSet) (h : a.name = b.name) :
    (set.insert a).insert b = set.insert b :=
  AttributeSet.ext (Rows.put_put_of_key_eq Attribute.name h set.toList)

theorem insert_comm_iff (set : AttributeSet) (hne : a.name ≠ b.name) :
    (set.insert a).insert b = (set.insert b).insert a ↔
      a.name ∈ set.names ∨ b.name ∈ set.names := by
  rw [AttributeSet.ext_iff]
  exact Rows.put_comm_iff Attribute.name hne set.toList

end Insert

/-! ## Any number of insertions -/

namespace LeftBy

theorem empty : LeftBy [] AttributeSet.empty.toList := by
  constructor <;> simp

/-- One more insertion into a set that insertions left. -/
theorem insert {inserts : List Attribute} {set : AttributeSet} (h : LeftBy inserts set.toList)
    (a : Attribute) : LeftBy (inserts ++ [a]) (set.insert a).toList where
  distinct := (set.insert a).distinct
  inserted n := by
    rw [List.map_append, List.mem_append, ← h.inserted n, List.map_singleton, List.mem_singleton]
    exact mem_names_insert
  ordered := by
    -- names that were inserted before keep their first insertions
    have hold : set.names.Pairwise fun m n =>
        firstInsert (inserts ++ [a]) m < firstInsert (inserts ++ [a]) n := by
      refine h.ordered.imp_of_mem fun hm hn hlt => ?_
      rwa [firstInsert_concat_of_mem a ((h.inserted _).1 hm),
        firstInsert_concat_of_mem a ((h.inserted _).1 hn)]
    change (set.insert a).names.Pairwise _
    rw [names_insert]
    split
    · exact hold
    · rename_i hnew
      refine List.pairwise_append.2 ⟨hold, List.pairwise_singleton _ _, fun m hm n hn => ?_⟩
      rw [List.mem_singleton.1 hn]
      exact firstInsert_concat_lt ((h.inserted m).1 hm) fun ha => hnew ((h.inserted _).2 ha)
  last b hb := by
    rcases mem_toList_insert.1 hb with rfl | ⟨hb, hne⟩
    · exact lastInserted_concat_self inserts b
    · exact (h.last b hb).concat hne

/-- Any number of further insertions. -/
theorem insertAll {before : List Attribute} {set : AttributeSet} (h : LeftBy before set.toList)
    (inserts : List Attribute) : LeftBy (before ++ inserts) (set.insertAll inserts).toList := by
  induction inserts generalizing before set with
  | nil =>
    rw [List.append_nil]
    exact h
  | cons a inserts ih =>
    rw [List.append_cons]
    exact ih (h.insert a)

variable {inserts as bs : List Attribute}

theorem subset (h : LeftBy inserts as) (h' : LeftBy inserts bs) : as ⊆ bs := by
  intro a ha
  have hname : a.name ∈ bs.map Attribute.name :=
    (h'.inserted _).2 ((h.inserted _).1 (List.mem_map_of_mem ha))
  obtain ⟨b, hb, hba⟩ := List.mem_map.1 hname
  rwa [(h.last a ha).eq_of_name_eq (h'.last b hb) hba.symm]

/-- Insertions determine the tests that they leave, and their order. -/
theorem unique (h : LeftBy inserts as) (h' : LeftBy inserts bs) : as = bs := by
  have hperm : as.Perm bs :=
    (List.perm_ext_iff_of_nodup (.of_map _ h.distinct) (.of_map _ h'.distinct)).2
      fun a => ⟨fun ha => h.subset h' ha, fun hb => h'.subset h hb⟩
  have hordered := List.pairwise_map.1 h.ordered
  have hordered' := List.pairwise_map.1 h'.ordered
  exact hperm.eq_of_pairwise (fun a b _ _ hab hba => absurd hab (Nat.lt_asymm hba)) hordered
    hordered'

end LeftBy

/-- A set is a map in the order of insertion. Insertions into the empty set leave one test for each
name that was inserted, in the order of the first insertions, each as it was last inserted, and
nothing else. Inserting a test again changes nothing, and insertions under different names commute
exactly if one of the names is there, so they do if both are. -/
theorem insertAll_ordered_map :
    (∀ inserts attributes,
      (empty.insertAll inserts).toList = attributes ↔ LeftBy inserts attributes) ∧
    (∀ (set : AttributeSet) a, (set.insert a).insert a = set.insert a) ∧
    ∀ (set : AttributeSet) a b, a.name ≠ b.name →
      ((set.insert a).insert b = (set.insert b).insert a ↔
        a.name ∈ set.names ∨ b.name ∈ set.names) := by
  refine ⟨fun inserts attributes => ?_, fun set a => set.insert_insert_of_name_eq rfl,
    fun set a b hne => set.insert_comm_iff hne⟩
  have hleft : LeftBy inserts (empty.insertAll inserts).toList := LeftBy.empty.insertAll inserts
  exact ⟨fun h => h ▸ hleft, hleft.unique⟩

/-- A name that is inserted twice stays in front with its second test; names that are there may be
inserted in either order, new names may not. -/
theorem insertAll_ordered_map_repeated :
    ∃ inserts set, inserts = [⟨"class", "a", .exact⟩, ⟨"id", "main", .exact⟩,
        ⟨"class", "b", .contains⟩] ∧ empty.insertAll inserts = set ∧
      LeftBy inserts [⟨"class", "b", .contains⟩, ⟨"id", "main", .exact⟩] ∧
      ("class" ≠ "id" ∧ "class" ∈ set.names ∧ "id" ∈ set.names ∧
        (set.insert ⟨"class", "c", .exact⟩).insert ⟨"id", "top", .contains⟩ =
          (set.insert ⟨"id", "top", .contains⟩).insert ⟨"class", "c", .exact⟩) ∧
      "href" ≠ "rel" ∧ "href" ∉ set.names ∧ "rel" ∉ set.names ∧
        (set.insert ⟨"href", "c", .exact⟩).insert ⟨"rel", "top", .contains⟩ ≠
          (set.insert ⟨"rel", "top", .contains⟩).insert ⟨"href", "c", .exact⟩ := by
  obtain ⟨hmap, -, hcomm⟩ := insertAll_ordered_map
  refine ⟨_, _, rfl, rfl, (hmap _ _).1 rfl, ⟨by decide, by decide, by decide, ?_⟩, by decide,
    by decide, by decide, ?_⟩
  · exact (hcomm _ _ _ (by decide)).2 (.inl (by decide))
  · exact fun h => absurd ((hcomm _ _ _ (by decide)).1 h) (by decide)

end ElementQuery.AttributeSet
