import TraitCheck.Checker.Locals
import TraitCheck.Proofs.Tables

/-!
# Locals as a table

The two parts of a table of locals amount to one `Table`, which has the entries of the one part in
the order of the other. The operations on locals are those on that table: what is looked up, what is
visited, and what there is after binding, referring to or removing a local.
-/

namespace TraitCheck

namespace Table

variable {Key Value : Type} [DecidableEq Key] {table other : Table Key Value}

/-- A table whose entries are what a function gives for its keys is that function. -/
theorem find?_eq_of_entries {given : Key → Option Value}
    (entries : ∀ entry ∈ table.entries, given entry.1 = some entry.2)
    (keys : ∀ key, (given key).isSome = true → key ∈ table.keys) (key : Key) :
    table.find? key = given key := by
  rcases found : table.find? key with _ | value
  · have isNew := find?_eq_none.mp found
    exact (Option.not_isSome_iff_eq_none.mp (mt (keys key) isNew)).symm
  · exact (entries _ (mem_entries_of_find? found)).symm

/-- Tables without repeated keys are equal if they have the same keys in the same order and the same
values. -/
theorem eq_of_find? (distinct : table.keys.Nodup) (keys : table.keys = other.keys)
    (found : ∀ key, table.find? key = other.find? key) : table = other := by
  have values : table.values = other.values := by
    apply List.map_injective_iff.mpr (Option.some_injective Value)
    rw [values_eq_find? distinct, values_eq_find? (keys ▸ distinct), ← keys]
    exact List.map_congr_left fun key _ => found key
  have entries : table.entries = other.entries := by
    rw [List.zip_of_prod keys values]
    exact (List.zip_of_prod rfl rfl).symm
  cases table
  cases other
  exact congrArg mk entries

end Table

namespace LocalTable

variable {table : LocalTable} {id : LocalId}

@[simp]
theorem entries_bind (table : LocalTable) (id : LocalId) (info : LocalInfo) :
    (table.bind id info).entries = table.entries.insert id info := by
  unfold bind
  split <;> rfl

theorem Agrees.order_bind (agrees : table.Agrees) (info : LocalInfo) :
    (table.bind id info).order = if id ∈ table.order then table.order else table.order ++ [id] := by
  rw [LocalTable.bind]
  rcases found : table.entries.find? id with _ | old
  · exact (if_neg (by simp [agrees.mem_order, found])).symm
  · exact (if_pos (by simp [agrees.mem_order, found])).symm

theorem find?_remove (table : LocalTable) (id other : LocalId) :
    (table.remove id).entries.find? other =
      if id = other then none else table.entries.find? other := by
  rw [← Table.find?_erase, remove]
  split
  · rfl
  · next absent =>
      rw [Table.find?_erase]
      split
      · next same => rw [← same, absent]
      · rfl

theorem Agrees.order_remove (agrees : table.Agrees) :
    (table.remove id).order = table.order.filter (· ≠ id) := by
  rw [LocalTable.remove]
  split
  · rw [agrees.distinct.erase_eq_filter]
    simp only [bne, beq_eq_decide, decide_not]
  · next absent =>
      refine (List.filter_eq_self.mpr fun other member => ?_).symm
      have known := (agrees.mem_order other).mp member
      rw [decide_eq_true_eq]
      rintro rfl
      simp [absent] at known

end LocalTable

namespace Locals

variable {locals : Locals} {id : LocalId} {info : LocalInfo}

/-- The entries in the order in which the locals are visited. -/
def toTable (locals : Locals) : Table LocalId LocalInfo where
  entries := locals.table.order.attach.map fun id => (id.1, locals.entry id)

@[simp]
theorem keys_toTable : locals.toTable.keys = locals.table.order := by
  rw [Table.keys, toTable, List.map_map]
  exact List.attach_map_subtype_val _

@[simp]
theorem values_toTable : locals.toTable.values = locals.values := by
  rw [Table.values, toTable, List.map_map, values]
  rfl

@[simp]
theorem find?_toTable (locals : Locals) (id : LocalId) :
    locals.toTable.find? id = locals.find? id := by
  refine Table.find?_eq_of_entries (fun entry member => ?_) (fun id known => ?_) id
  · obtain ⟨id, _, rfl⟩ := List.mem_map.mp member
    exact (Option.some_get _).symm
  · rw [keys_toTable]
    exact (locals.agrees.mem_order id).mpr known

/-- Locals that are visited in the order of a table and found in it amount to it. -/
theorem toTable_eq {table : Table LocalId LocalInfo} (order : locals.table.order = table.keys)
    (found : ∀ id, locals.find? id = table.find? id) : locals.toTable = table := by
  refine Table.eq_of_find? ?_ (keys_toTable.trans order) fun id => ?_
  · rw [keys_toTable]
    exact locals.agrees.distinct
  · rw [find?_toTable, found]

@[simp]
theorem toTable_bind : (locals.bind id info).toTable = locals.toTable.insert id info := by
  refine toTable_eq ?_ fun other => ?_
  · rw [Table.keys_insert, keys_toTable]
    exact locals.agrees.order_bind info
  · rw [Table.find?_insert, find?_toTable, find?, bind, LocalTable.entries_bind]
    exact Table.find?_insert ..

@[simp]
theorem toTable_refer : (locals.refer id).toTable =
    locals.toTable.modify id fun info => { info with used := true } := by
  refine toTable_eq ?_ fun other => ?_
  · rw [Table.keys_modify, keys_toTable]
    rfl
  · rw [Table.find?_modify, find?_toTable, find?_toTable]
    exact Table.find?_modify locals.table.entries id other _

@[simp]
theorem toTable_remove : (locals.remove id).toTable = locals.toTable.erase id := by
  refine toTable_eq ?_ fun other => ?_
  · rw [Table.keys_erase, keys_toTable]
    exact locals.agrees.order_remove
  · rw [Table.find?_erase, find?_toTable]
    exact locals.table.find?_remove id other

theorem find?_bind (other : LocalId) :
    (locals.bind id info).find? other = if id = other then some info else locals.find? other := by
  rw [← find?_toTable, toTable_bind, Table.find?_insert, find?_toTable]

theorem mem_values_of_find? (found : locals.find? id = some info) : info ∈ locals.values := by
  rw [← values_toTable]
  exact Table.mem_values_of_find? ((find?_toTable locals id).trans found)

theorem mem_values_bind {given : LocalInfo} (member : info ∈ (locals.bind id given).values) :
    info = given ∨ info ∈ locals.values := by
  rw [← values_toTable, toTable_bind] at member
  rw [← values_toTable]
  exact Table.mem_values_insert member

theorem mem_values_refer (member : info ∈ (locals.refer id).values) :
    ∃ old ∈ locals.values, old.ty = info.ty := by
  rw [← values_toTable, toTable_refer] at member
  rw [← values_toTable]
  rcases Table.mem_values_modify member with old | ⟨old, isOld, rfl⟩
  · exact ⟨info, old, rfl⟩
  · exact ⟨old, isOld, rfl⟩

theorem mem_values_remove (member : info ∈ (locals.remove id).values) : info ∈ locals.values := by
  rw [← values_toTable, toTable_remove, Table.values, Table.erase] at member
  rw [← values_toTable]
  obtain ⟨entry, kept, rfl⟩ := List.mem_map.mp member
  exact List.mem_map_of_mem (List.mem_filter.mp kept).1

end Locals

end TraitCheck
