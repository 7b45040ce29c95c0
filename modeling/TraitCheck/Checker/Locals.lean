import TraitCheck.Syntax.Item
import TraitCheck.Table

/-!
# The locals of a function

Locals are looked up by number and visited in order of binding. So there are two parts, a table of
what is known about them and a list of their numbers, and every operation has to keep the two in
step. `LocalTable` has the operations, each as a change of the one part or of both. They never make
the parts disagree, and `Locals` is a table with parts that agree.
-/

namespace TraitCheck

/-- A local variable. Its type is a scheme if a `let` generalised it. -/
structure LocalInfo where
  ty : Ty
  name : String
  span : Span
  used : Bool
  deriving Repr, Inhabited

/-- The locals of a function in two parts. -/
structure LocalTable where
  /-- What is known about each local. -/
  entries : Table LocalId LocalInfo := .empty
  /-- The locals in the order in which they are visited. -/
  order : List LocalId := []
  deriving Repr, Inhabited

namespace LocalTable

/-- Binds a local. One that is there already is only changed, and keeps its place. -/
def bind (table : LocalTable) (id : LocalId) (info : LocalInfo) : LocalTable :=
  let entries := table.entries.insert id info
  match table.entries.find? id with
  | some _ => { table with entries }
  | none => { entries, order := table.order ++ [id] }

/-- Marks a local as used. -/
def refer (table : LocalTable) (id : LocalId) : LocalTable :=
  { table with entries := table.entries.modify id fun info => { info with used := true } }

/-- Forgets a local, if it is there. -/
def remove (table : LocalTable) (id : LocalId) : LocalTable :=
  match table.entries.find? id with
  | some _ => { entries := table.entries.erase id, order := table.order.erase id }
  | none => table

/-- Forgets all locals. -/
def reset (_ : LocalTable) : LocalTable := { entries := .empty, order := [] }

/-- The locals in order, each with its entry. -/
def each (table : LocalTable) : List (LocalId × Option LocalInfo) :=
  table.order.map fun id => (id, table.entries.find? id)

/-- Each local with an entry is visited exactly once, and no other one is. -/
structure Agrees (table : LocalTable) : Prop where
  distinct : table.order.Nodup
  mem_order : ∀ id, id ∈ table.order ↔ (table.entries.find? id).isSome = true

theorem agrees_empty : ({} : LocalTable).Agrees := ⟨.nil, fun _ => by simp⟩

variable {table : LocalTable}

theorem Agrees.bind (agrees : table.Agrees) (id : LocalId) (info : LocalInfo) :
    (table.bind id info).Agrees := by
  have inserted : ∀ other, ((table.entries.insert id info).find? other).isSome = true ↔
      other = id ∨ other ∈ table.order := by
    intro other
    rw [Table.find?_insert, agrees.mem_order]
    by_cases same : id = other
    · simp [same]
    · simp [same, Ne.symm same]
  rw [LocalTable.bind]
  split
  · next old found =>
      refine ⟨agrees.distinct, fun other => ?_⟩
      have known : id ∈ table.order := (agrees.mem_order id).mpr (by rw [found]; rfl)
      rw [inserted]
      exact ⟨Or.inr, fun either => either.elim (fun same => same ▸ known) fun old => old⟩
  · next found =>
      have isNew : id ∉ table.order := by simp [agrees.mem_order, found]
      refine ⟨List.nodup_append.mpr ⟨agrees.distinct, by simp, ?_⟩, fun other => ?_⟩
      · intro other member last isLast same
        cases List.mem_singleton.mp isLast
        exact isNew (same ▸ member)
      · rw [inserted, List.mem_append, List.mem_singleton]
        exact or_comm

theorem Agrees.refer (agrees : table.Agrees) (id : LocalId) : (table.refer id).Agrees := by
  refine ⟨agrees.distinct, fun other => (agrees.mem_order other).trans ?_⟩
  rw [LocalTable.refer, Table.modify]
  cases found : table.entries.find? id with
  | none => rfl
  | some info =>
    rw [Table.find?_insert]
    split
    · next same => simp [← same, found]
    · rfl

theorem Agrees.remove (agrees : table.Agrees) (id : LocalId) : (table.remove id).Agrees := by
  rw [LocalTable.remove]
  split
  · refine ⟨agrees.distinct.erase id, fun other => ?_⟩
    rw [agrees.distinct.mem_erase_iff, agrees.mem_order, Table.find?_erase]
    by_cases same : id = other
    · simp [same]
    · simp [same, Ne.symm same]
  · exact agrees

theorem agrees_reset (table : LocalTable) : table.reset.Agrees := agrees_empty

end LocalTable

/-- The locals of a function. -/
structure Locals where
  table : LocalTable
  agrees : table.Agrees

namespace Locals

/-- No locals. -/
def empty : Locals := ⟨{}, LocalTable.agrees_empty⟩

instance : Inhabited Locals := ⟨empty⟩

/-- What is known about a local. -/
def find? (locals : Locals) (id : LocalId) : Option LocalInfo := locals.table.entries.find? id

def bind (locals : Locals) (id : LocalId) (info : LocalInfo) : Locals :=
  ⟨locals.table.bind id info, locals.agrees.bind id info⟩

def refer (locals : Locals) (id : LocalId) : Locals :=
  ⟨locals.table.refer id, locals.agrees.refer id⟩

def remove (locals : Locals) (id : LocalId) : Locals :=
  ⟨locals.table.remove id, locals.agrees.remove id⟩

def reset (locals : Locals) : Locals := ⟨locals.table.reset, locals.table.agrees_reset⟩

/-- The entry of a local that is visited. None is missing. -/
def entry (locals : Locals) (id : { id // id ∈ locals.table.order }) : LocalInfo :=
  (locals.table.entries.find? id.1).get ((locals.agrees.mem_order id.1).mp id.2)

/-- The entries in the order in which the locals are visited. -/
def values (locals : Locals) : List LocalInfo := locals.table.order.attach.map locals.entry

end Locals

end TraitCheck
