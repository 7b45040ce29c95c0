import Mathlib
import TraitCheck.Table
import TraitCheck.Ty.Row

/-!
# Tables and rows as lists of entries

`Table.find?` says what a table holds under each key. Here a table is looked at as the list of its
entries: a new key goes to the end, and changing all values of a table does not interfere with
setting and erasing keys. Record rows are tables in ascending order of labels, and the same holds
for changing all their types.
-/

namespace TraitCheck

variable {Other : Type} {fields : List (String × Ty)} {field : String × Ty} {label : String}
  {name : String} {row : Row} {ty : Ty}

namespace Table

variable {Key Value : Type}

/-- The table with all values changed. -/
def mapValues {Other : Type} (change : Value → Other) (table : Table Key Value) :
    Table Key Other :=
  ⟨table.entries.map fun entry => (entry.1, change entry.2)⟩

@[simp]
theorem mapValues_empty (change : Value → Other) :
    (empty : Table Key Value).mapValues change = empty := rfl

@[simp]
theorem keys_mapValues (change : Value → Other) (table : Table Key Value) :
    (table.mapValues change).keys = table.keys := by
  simp [mapValues, keys, Function.comp_def]

theorem values_mapValues (change : Value → Other) (table : Table Key Value) :
    (table.mapValues change).values = table.values.map change := by
  simp [mapValues, values, Function.comp_def]

theorem mapValues_congr {table : Table Key Value} {change change' : Value → Other}
    (agree : ∀ value ∈ table.values, change value = change' value) :
    table.mapValues change = table.mapValues change' := by
  unfold mapValues
  congr 1
  refine List.map_congr_left fun entry member => ?_
  rw [agree entry.2 (List.mem_map_of_mem member)]

variable [DecidableEq Key] {table : Table Key Value} {key : Key} {value : Value}

theorem mem_entries_of_find? (found : table.find? key = some value) :
    (key, value) ∈ table.entries := by
  obtain ⟨entries⟩ := table
  induction entries with
  | nil => cases found
  | cons entry rest ih =>
    obtain ⟨first, old⟩ := entry
    change (if first = key then some old else _) = _ at found
    split at found
    · next same =>
        cases found
        exact same ▸ List.mem_cons_self
    · exact List.mem_cons_of_mem _ (ih found)

theorem mem_keys_of_find? (found : table.find? key = some value) : key ∈ table.keys :=
  List.mem_map_of_mem (mem_entries_of_find? found)

theorem find?_eq_none : table.find? key = none ↔ key ∉ table.keys := by
  obtain ⟨entries⟩ := table
  induction entries with
  | nil => exact iff_of_true rfl List.not_mem_nil
  | cons entry rest ih =>
    obtain ⟨first, old⟩ := entry
    change (if first = key then some old else _) = none ↔ key ∉ first :: _
    rw [List.mem_cons, not_or]
    split
    · next same => simp [same]
    · next other => exact ih.trans (and_iff_right (Ne.symm other)).symm

theorem mem_values_of_find? (found : table.find? key = some value) : value ∈ table.values :=
  List.mem_map_of_mem (mem_entries_of_find? found)

theorem insert_of_find? (found : table.find? key = some value) :
    table.insert key value = table := by
  have same : ∀ entries : List (Key × Value), entryAt? key entries = some value →
      setEntry key value entries = entries := by
    intro entries
    induction entries with
    | nil => simp [entryAt?]
    | cons entry rest ih =>
      obtain ⟨first, old⟩ := entry
      by_cases hit : first = key
      · simp only [entryAt?, setEntry, hit, ↓reduceIte, Option.some.injEq]
        rintro rfl
        rfl
      · simpa [entryAt?, setEntry, hit] using ih
  rw [insert, same table.entries found]

theorem entries_insert_of_new (value : Value) (new : key ∉ table.keys) :
    (table.insert key value).entries = table.entries ++ [(key, value)] := by
  obtain ⟨entries⟩ := table
  induction entries with
  | nil => rfl
  | cons entry rest ih =>
    obtain ⟨other, restNew⟩ := not_or.mp (mt List.mem_cons.mpr new)
    change setEntry key value (entry :: rest) = _
    rw [setEntry, if_neg (Ne.symm other), List.cons_append]
    exact congrArg (entry :: ·) (ih restNew)

theorem size_insert_of_new (value : Value) (new : table.find? key = none) :
    (table.insert key value).size = table.size + 1 := by
  rw [size, entries_insert_of_new value (find?_eq_none.mp new), List.length_append]
  rfl

theorem mem_entries_insert {entry : Key × Value}
    (member : entry ∈ (table.insert key value).entries) :
    entry = (key, value) ∨ entry ∈ table.entries := by
  have split : ∀ entries : List (Key × Value), entry ∈ setEntry key value entries →
      entry = (key, value) ∨ entry ∈ entries := by
    intro entries
    induction entries with
    | nil => simp [setEntry]
    | cons first rest ih =>
      by_cases hit : first.1 = key
      · simp only [setEntry, hit, ↓reduceIte, List.mem_cons]
        tauto
      · simp only [setEntry, hit, ↓reduceIte, List.mem_cons]
        tauto
  exact split table.entries member

theorem mem_values_insert {stored : Value} (member : value ∈ (table.insert key stored).values) :
    value = stored ∨ value ∈ table.values := by
  obtain ⟨entry, entryMember, rfl⟩ := List.mem_map.mp member
  rcases mem_entries_insert entryMember with rfl | old
  · exact .inl rfl
  · exact .inr (List.mem_map_of_mem old)

theorem mem_values_modify {change : Value → Value}
    (member : value ∈ (table.modify key change).values) :
    value ∈ table.values ∨ ∃ old ∈ table.values, value = change old := by
  unfold modify at member
  split at member
  · exact .inl member
  · next old found =>
      rcases mem_values_insert member with rfl | kept
      · exact .inr ⟨old, mem_values_of_find? found, rfl⟩
      · exact .inl kept

section Parts

variable {β : Type} {part : β} {parts : Value → List β}

theorem mem_flatMap_insert (member : part ∈ (table.insert key value).values.flatMap parts) :
    part ∈ parts value ∨ part ∈ table.values.flatMap parts := by
  obtain ⟨stored, isStored, inside⟩ := List.mem_flatMap.mp member
  rcases mem_values_insert isStored with rfl | old
  · exact .inl inside
  · exact .inr (List.mem_flatMap_of_mem old inside)

theorem mem_flatMap_modify {change : Value → Value}
    (member : part ∈ (table.modify key change).values.flatMap parts) :
    part ∈ table.values.flatMap parts ∨ ∃ old ∈ table.values, part ∈ parts (change old) := by
  obtain ⟨stored, isStored, inside⟩ := List.mem_flatMap.mp member
  rcases mem_values_modify isStored with kept | ⟨old, wasStored, rfl⟩
  · exact .inl (List.mem_flatMap_of_mem kept inside)
  · exact .inr ⟨old, wasStored, inside⟩

end Parts

theorem find?_modify (table : Table Key Value) (key other : Key) (change : Value → Value) :
    (table.modify key change).find? other =
      if key = other then (table.find? key).map change else table.find? other := by
  unfold modify
  split
  · next absent =>
      split
      · next same => rw [← same, absent, Option.map_none]
      · rfl
  · next value found => rw [find?_insert, found, Option.map_some]

/-- The table after setting keys in order. -/
def insertAll (table : Table Key Value) (entries : List (Key × Value)) : Table Key Value :=
  entries.foldl (fun table entry => table.insert entry.1 entry.2) table

variable {entries : List (Key × Value)}

theorem find?_insertAll (distinct : (entries.map Prod.fst).Nodup) :
    (table.insertAll entries).find? key = some value ↔
      (key, value) ∈ entries ∨ key ∉ entries.map Prod.fst ∧ table.find? key = some value := by
  induction entries generalizing table with
  | nil => simp [insertAll]
  | cons entry rest ih =>
    obtain ⟨other, stored⟩ := entry
    rw [List.map_cons, List.nodup_cons] at distinct
    change ((table.insert other stored).insertAll rest).find? key = some value ↔ _
    rw [ih distinct.2, find?_insert]
    by_cases same : other = key
    · subst same
      have isNew : other ∉ rest.map Prod.fst := distinct.1
      have notInRest : (other, value) ∉ rest := fun member => isNew (List.mem_map_of_mem member)
      simp only [isNew, notInRest, not_false_eq_true, ↓reduceIte, Option.some.injEq, true_and,
        List.mem_cons, Prod.mk.injEq, List.map_cons, not_true_eq_false, false_and, or_false,
        false_or]
      exact eq_comm
    · have other_ne : key ≠ other := Ne.symm same
      simp [same, other_ne]

theorem find?_insertAll_perm {entries' : List (Key × Value)} (perm : entries.Perm entries')
    (distinct : (entries.map Prod.fst).Nodup) (table : Table Key Value) (key : Key) :
    (table.insertAll entries).find? key = (table.insertAll entries').find? key := by
  have keys := perm.map Prod.fst
  refine Option.ext fun value => ?_
  rw [find?_insertAll distinct, find?_insertAll (keys.nodup_iff.mp distinct), perm.mem_iff,
    keys.mem_iff]

theorem mem_of_find?_insertAll (found : (table.insertAll entries).find? key = some value) :
    (key, value) ∈ entries ∨ table.find? key = some value := by
  induction entries generalizing table with
  | nil => exact .inr found
  | cons entry rest ih =>
    rcases ih found with inRest | before
    · exact .inl (List.mem_cons_of_mem _ inRest)
    · rw [find?_insert] at before
      split at before
      · next same =>
          cases before
          exact .inl (same ▸ List.mem_cons_self)
      · exact .inr before

theorem mem_values_insertAll (member : value ∈ (table.insertAll entries).values) :
    value ∈ entries.map Prod.snd ∨ value ∈ table.values := by
  induction entries generalizing table with
  | nil => exact .inr member
  | cons entry rest ih =>
    rcases ih member with inRest | before
    · exact .inl (List.mem_cons_of_mem _ inRest)
    · rcases mem_values_insert before with rfl | old
      · exact .inl List.mem_cons_self
      · exact .inr old

theorem exists_find?_insertAll
    (given : key ∈ entries.map Prod.fst ∨ ∃ value, table.find? key = some value) :
    ∃ value, (table.insertAll entries).find? key = some value := by
  induction entries generalizing table with
  | nil => exact given.resolve_left List.not_mem_nil
  | cons entry rest ih =>
    refine ih ?_
    rw [find?_insert]
    split
    · exact .inr ⟨_, rfl⟩
    · next other =>
        rw [List.map_cons, List.mem_cons] at given
        exact given.imp_left fun inEntries => inEntries.resolve_left (Ne.symm other)

section MapValues

variable {Other : Type} (change : Value → Other)

theorem find?_mapValues (table : Table Key Value) (key : Key) :
    (table.mapValues change).find? key = (table.find? key).map change := by
  unfold find? mapValues
  induction table.entries with
  | nil => rfl
  | cons entry rest ih =>
    by_cases hit : entry.1 = key
    · simp [entryAt?, hit]
    · simpa [entryAt?, hit] using ih

theorem mapValues_insert (table : Table Key Value) (key : Key) (value : Value) :
    (table.insert key value).mapValues change =
      (table.mapValues change).insert key (change value) := by
  unfold insert mapValues
  congr 1
  induction table.entries with
  | nil => rfl
  | cons entry rest ih =>
    by_cases hit : entry.1 = key
    · simp [setEntry, hit]
    · simpa [setEntry, hit] using ih

theorem mapValues_insertAll (table : Table Key Value) (entries : List (Key × Value)) :
    (table.insertAll entries).mapValues change =
      (table.mapValues change).insertAll (entries.map fun entry => (entry.1, change entry.2)) := by
  induction entries generalizing table with
  | nil => rfl
  | cons entry rest ih =>
    change ((table.insert entry.1 entry.2).insertAll rest).mapValues change = _
    rw [ih, mapValues_insert]
    rfl

theorem mapValues_erase (table : Table Key Value) (key : Key) :
    (table.erase key).mapValues change = (table.mapValues change).erase key := by
  unfold erase mapValues
  congr 1
  rw [List.filter_map]
  rfl

end MapValues

/-- A number for each key that falls along a relation between keys, is positive for the keys of the
table and is at most their number. -/
structure Rank (table : Table Key Value) (step : Key → Key → Prop) where
  /-- The number of a key. -/
  of : Key → Nat
  falls : ∀ {source target}, step source target → of target < of source
  positive : ∀ {key}, key ∈ table.keys → 0 < of key
  bounded : ∀ key, of key ≤ table.size

/-- A relation that starts from keys of a table only and never leads back has a rank, which counts
the keys that can be reached. -/
theorem exists_rank {step : Key → Key → Prop}
    (fromKeys : ∀ {source target}, step source target → source ∈ table.keys)
    (acyclic : ∀ key, ¬Relation.TransGen step key key) : Nonempty (table.Rank step) := by
  classical
  let reached (key : Key) : Finset Key :=
    table.keys.toFinset.filter (Relation.ReflTransGen step key)
  have self_mem : ∀ {key}, key ∈ table.keys → key ∈ reached key := fun isKey =>
    Finset.mem_filter.mpr ⟨List.mem_toFinset.mpr isKey, Relation.ReflTransGen.refl⟩
  refine ⟨⟨fun key => (reached key).card, ?_, ?_, ?_⟩⟩
  · intro source target along
    apply Finset.card_lt_card
    refine Finset.ssubset_iff_of_subset ?_ |>.mpr ⟨source, self_mem (fromKeys along), ?_⟩
    · intro other otherMem
      rw [Finset.mem_filter] at otherMem ⊢
      exact ⟨otherMem.1, Relation.ReflTransGen.head along otherMem.2⟩
    · intro back
      exact acyclic source (Relation.TransGen.head' along (Finset.mem_filter.mp back).2)
  · intro key isKey
    exact Finset.card_pos.mpr ⟨key, self_mem isKey⟩
  · intro key
    calc (reached key).card ≤ table.keys.toFinset.card := Finset.card_filter_le _ _
      _ ≤ table.keys.length := List.toFinset_card_le _
      _ = table.size := List.length_map _

theorem keys_insert (value : Value) :
    (table.insert key value).keys = if key ∈ table.keys then table.keys else
      table.keys ++ [key] := by
  unfold insert keys
  induction table.entries with
  | nil => rfl
  | cons entry rest ih =>
    by_cases same : entry.1 = key
    · simp [setEntry, same]
    · have differ : key ≠ entry.1 := Ne.symm same
      simp only [setEntry, same, ↓reduceIte, List.map_cons, ih, List.mem_cons, differ, false_or]
      split <;> rfl

theorem keys_modify (change : Value → Value) : (table.modify key change).keys = table.keys := by
  unfold modify
  split
  · rfl
  · next value found => rw [keys_insert, if_pos (mem_keys_of_find? found)]

theorem keys_erase : (table.erase key).keys = table.keys.filter (· ≠ key) := by
  rw [keys, keys, List.filter_map]
  rfl

theorem values_eq_find? (distinct : table.keys.Nodup) :
    table.values.map some = table.keys.map table.find? := by
  obtain ⟨entries⟩ := table
  induction entries with
  | nil => rfl
  | cons entry rest ih =>
    obtain ⟨isNew, distinct⟩ := List.nodup_cons.mp distinct
    have others : (rest.map Prod.fst).map (find? ⟨entry :: rest⟩) =
        (rest.map Prod.fst).map (find? ⟨rest⟩) := by
      refine List.map_congr_left fun other member => ?_
      have differ : entry.1 ≠ other := fun same => isNew (same ▸ member)
      simp [find?, entryAt?, differ]
    change some entry.2 :: (rest.map Prod.snd).map some =
      find? _ entry.1 :: (rest.map Prod.fst).map _
    rw [others]
    exact congrArg₂ List.cons (by simp [find?, entryAt?]) (ih distinct)

end Table

namespace Row

theorem find?_insert (name label : String) (ty : Ty) (row : Row) :
    find? name (insert label ty row) = if label = name then some ty else find? name row := by
  induction row with
  | nil => rfl
  | cons field rest ih =>
    obtain ⟨other, old⟩ := field
    unfold insert
    split
    · rfl
    · split
      · next same =>
          subst same
          by_cases hit : label = name <;> simp [find?, hit]
      · next differ =>
          by_cases hit : other = name
          · subst hit
            simp [find?, differ]
          · simpa [find?, hit] using ih

theorem contains_insert (name label : String) (ty : Ty) (row : Row) :
    contains name (insert label ty row) = (decide (label = name) || contains name row) := by
  rw [contains, find?_insert]
  by_cases same : label = name <;> simp [contains, same]

theorem find?_insertAll_of_notMem (row : Row) (other : name ∉ fields.map Prod.fst) :
    find? name (insertAll fields row) = find? name row := by
  induction fields generalizing row with
  | nil => rfl
  | cons field rest ih =>
    rw [List.map_cons, List.mem_cons, not_or] at other
    change find? name (insertAll rest (insert field.1 field.2 row)) = _
    rw [ih _ other.2, find?_insert, if_neg (Ne.symm other.1)]

theorem find?_insertAll (row : Row) (distinct : (fields.map Prod.fst).Nodup)
    (member : field ∈ fields) : find? field.1 (insertAll fields row) = some field.2 := by
  induction fields generalizing row with
  | nil => cases member
  | cons first rest ih =>
    rw [List.map_cons, List.nodup_cons] at distinct
    change find? field.1 (insertAll rest (insert first.1 first.2 row)) = _
    rcases List.mem_cons.mp member with rfl | inRest
    · rw [find?_insertAll_of_notMem _ distinct.1, find?_insert, if_pos rfl]
    · exact ih _ distinct.2 inRest

/-- A row is found in as the table of its fields. -/
theorem find?_eq (name : String) (row : Row) : find? name row = Table.find? ⟨row⟩ name := by
  induction row with
  | nil => rfl
  | cons field rest ih =>
    rw [find?, ih]
    rfl

def mapTypes (change : Ty → Ty) (row : Row) : Row := row.map fun field => (field.1, change field.2)

theorem find?_mapTypes (change : Ty → Ty) (name : String) (row : Row) :
    find? name (mapTypes change row) = (find? name row).map change := by
  rw [find?_eq, find?_eq, ← Table.find?_mapValues]
  rfl

theorem mapTypes_insert (change : Ty → Ty) (label : String) (ty : Ty) (row : Row) :
    mapTypes change (insert label ty row) = insert label (change ty) (mapTypes change row) := by
  unfold mapTypes
  induction row with
  | nil => rfl
  | cons field rest ih =>
    obtain ⟨other, old⟩ := field
    simp only [insert, List.map_cons]
    split
    · rfl
    · split
      · rfl
      · rw [List.map_cons, ih]

theorem mapTypes_insertAll (change : Ty → Ty) (names : List String) (types : List Ty) (row : Row) :
    mapTypes change (insertAll (names.zip types) row) =
      insertAll (names.zip (types.map change)) (mapTypes change row) := by
  induction names generalizing types row with
  | nil => rfl
  | cons name names ih =>
    cases types with
    | nil => rfl
    | cons ty types =>
      change mapTypes change (insertAll (names.zip types) (insert name ty row)) = _
      rw [ih, mapTypes_insert]
      rfl

theorem mem_of_find? (found : find? name row = some ty) : (name, ty) ∈ row := by
  rw [find?_eq] at found
  exact Table.mem_entries_of_find? found

theorem find?_of_mem (distinct : (labels row).Nodup)
    (member : (label, ty) ∈ row) : find? label row = some ty := by
  induction row with
  | nil => cases member
  | cons field rest ih =>
    rcases List.nodup_cons.mp distinct with ⟨new, distinctRest⟩
    rcases List.mem_cons.mp member with rfl | inRest
    · simp [find?]
    · have other : field.1 ≠ label := by
        rintro rfl
        exact new (List.mem_map.mpr ⟨_, inRest, rfl⟩)
      rw [find?, if_neg other]
      exact ih distinctRest inRest

theorem mem_insert (member : field ∈ insert label ty row) : field = (label, ty) ∨ field ∈ row := by
  induction row with
  | nil => exact .inl (List.mem_singleton.mp member)
  | cons first rest ih =>
    obtain ⟨other, old⟩ := first
    unfold insert at member
    split at member
    · exact List.mem_cons.mp member
    · split at member
      · exact (List.mem_cons.mp member).imp id (List.mem_cons_of_mem _)
      · rcases List.mem_cons.mp member with rfl | inRest
        · exact .inr List.mem_cons_self
        · exact (ih inRest).imp id (List.mem_cons_of_mem _)

theorem mem_insertAll (member : field ∈ insertAll fields row) : field ∈ fields ∨ field ∈ row := by
  induction fields generalizing row with
  | nil => exact .inr member
  | cons first rest ih =>
    rcases ih member with inRest | inserted
    · exact .inl (List.mem_cons_of_mem _ inRest)
    · rcases mem_insert inserted with rfl | inRow
      · exact .inl List.mem_cons_self
      · exact .inr inRow

end Row

end TraitCheck
