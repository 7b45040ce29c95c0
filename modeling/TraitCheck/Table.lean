/-!
# Finite tables

A table is a finite map that remembers the order in which its keys arrived. Setting a key that is
present replaces its value and keeps its place; a new key goes to the end; a key that was erased
and set again counts as new. The checker keeps declarations and type-variable bindings in such
tables.

Entries are kept in one list, which makes `find?` after `insert` and `erase` a matter of one
induction each.
-/

namespace TraitCheck

/-- Entries in the order in which their keys arrived. -/
structure Table (Key Value : Type) where
  entries : List (Key × Value)
  deriving Repr, DecidableEq

namespace Table

variable {Key Value : Type}

def empty : Table Key Value := ⟨[]⟩

instance : EmptyCollection (Table Key Value) := ⟨empty⟩

instance : Inhabited (Table Key Value) := ⟨empty⟩

def size (table : Table Key Value) : Nat := table.entries.length

def keys (table : Table Key Value) : List Key := table.entries.map Prod.fst

def values (table : Table Key Value) : List Value := table.entries.map Prod.snd

variable [DecidableEq Key]

def entryAt? (key : Key) : List (Key × Value) → Option Value
  | [] => none
  | (other, value) :: rest => if other = key then some value else entryAt? key rest

def setEntry (key : Key) (value : Value) : List (Key × Value) → List (Key × Value)
  | [] => [(key, value)]
  | (other, old) :: rest =>
    if other = key then (key, value) :: rest else (other, old) :: setEntry key value rest

/-- The value of a key. -/
def find? (table : Table Key Value) (key : Key) : Option Value :=
  entryAt? key table.entries

def contains (table : Table Key Value) (key : Key) : Bool := (table.find? key).isSome

/-- Sets the value of a key. -/
def insert (table : Table Key Value) (key : Key) (value : Value) : Table Key Value :=
  ⟨setEntry key value table.entries⟩

/-- Forgets a key. -/
def erase (table : Table Key Value) (key : Key) : Table Key Value :=
  ⟨table.entries.filter fun entry => entry.1 ≠ key⟩

/-- Changes the value of a key that is present. -/
def modify (table : Table Key Value) (key : Key) (change : Value → Value) : Table Key Value :=
  match table.find? key with
  | none => table
  | some value => table.insert key (change value)

theorem entryAt?_setEntry (key other : Key) (value : Value) (entries : List (Key × Value)) :
    entryAt? other (setEntry key value entries) =
      if key = other then some value else entryAt? other entries := by
  induction entries with
  | nil => simp [setEntry, entryAt?]
  | cons entry rest ih =>
    obtain ⟨first, old⟩ := entry
    by_cases same : first = key
    · subst same
      by_cases hit : first = other <;> simp [setEntry, entryAt?, hit]
    · by_cases hit : first = other
      · subst hit
        simp [setEntry, entryAt?, same, Ne.symm same]
      · simp [setEntry, entryAt?, same, hit, ih]

@[simp]
theorem find?_empty (key : Key) : (empty : Table Key Value).find? key = none := rfl

@[simp]
theorem find?_insert (table : Table Key Value) (key other : Key) (value : Value) :
    (table.insert key value).find? other =
      if key = other then some value else table.find? other :=
  entryAt?_setEntry key other value table.entries

theorem entryAt?_filter_ne (key other : Key) (entries : List (Key × Value)) :
    entryAt? other (entries.filter fun entry => entry.1 ≠ key) =
      if key = other then none else entryAt? other entries := by
  induction entries with
  | nil => simp [entryAt?]
  | cons entry rest ih =>
    obtain ⟨first, old⟩ := entry
    by_cases same : first = key
    · subst same
      by_cases hit : first = other
      · subst hit
        simpa [entryAt?] using ih
      · simpa [entryAt?, hit] using ih
    · by_cases hit : first = other
      · subst hit
        simp [entryAt?, same, Ne.symm same]
      · simpa [entryAt?, same, hit] using ih

@[simp]
theorem find?_erase (table : Table Key Value) (key other : Key) :
    (table.erase key).find? other = if key = other then none else table.find? other :=
  entryAt?_filter_ne key other table.entries

end Table

end TraitCheck
