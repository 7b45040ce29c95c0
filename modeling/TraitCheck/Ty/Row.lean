import TraitCheck.Ty.Basic

/-!
# Record rows

The fields of a record type form a row: labels with their types, in strictly ascending order of
labels. Every row is made by `insert` from the empty one, so two rows with the same contents are
the same list, whatever the order in which the labels were set.
-/

namespace TraitCheck

/-- The fields of a record. -/
abbrev Row := List (String × Ty)

namespace Row

/-- Sets a field, in the order of labels. -/
def insert (label : String) (ty : Ty) : Row → Row
  | [] => [(label, ty)]
  | (other, old) :: rest =>
    if label < other then (label, ty) :: (other, old) :: rest
    else if label = other then (label, ty) :: rest
    else (other, old) :: insert label ty rest

/-- The type of a field. -/
def find? (label : String) : Row → Option Ty
  | [] => none
  | (other, ty) :: rest => if other = label then some ty else find? label rest

def contains (label : String) (row : Row) : Bool := (find? label row).isSome

def labels (row : Row) : List String := row.map Prod.fst

def types (row : Row) : List Ty := row.map Prod.snd

/-- Sets several labels one after the other, so the last type given for a label stays. -/
def insertAll (fields : List (String × Ty)) (row : Row) : Row :=
  fields.foldl (fun row field => insert field.1 field.2 row) row

/-- The row with the given contents; of several types for one label the last one stays. -/
def ofList (fields : List (String × Ty)) : Row := insertAll fields []

end Row

end TraitCheck
