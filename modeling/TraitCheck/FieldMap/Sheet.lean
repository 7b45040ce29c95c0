/-!
# Sheets and strips

The pages of a field map are written on sheets of slots. A page owns a strip: a run of slots on one
sheet, with room for more behind it. Several strips may lie on the same slots, and then a change
that is written on one of them shows on the others. A strip without room is moved to a sheet of its
own.
-/

namespace TraitCheck

structure Strip where
  sheet : Nat
  start : Nat
  length : Nat
  /-- The number of slots from the start on that may be written. -/
  room : Nat
  deriving DecidableEq, Repr, Inhabited

/-- Sheets by their numbers, each with the contents of the slots written so far. -/
structure Sheets (Item : Type) where
  sheets : Array (Array Item) := #[]
  deriving Repr, Inhabited

namespace Sheets

variable {Item : Type}

def sizes : List Nat :=
  [2, 4, 6, 8, 10, 12, 14, 16, 17, 19, 21, 23, 27, 31, 35, 39, 43, 47, 55, 63, 71]

/-- The room of a strip that is moved because it is full: at least twice as much. -/
def grownRoom (room : Nat) : Nat := (sizes.find? (2 * room ≤ ·)).getD (2 * room)

def read (sheets : Sheets Item) (strip : Strip) : List Item :=
  ((sheets.sheets.getD strip.sheet #[]).extract strip.start (strip.start + strip.length)).toList

def write (sheets : Sheets Item) (items : List Item) (room : Nat) : Strip × Sheets Item :=
  (⟨sheets.sheets.size, 0, items.length, room⟩, ⟨sheets.sheets.push items.toArray⟩)

def overwrite (sheets : Sheets Item) (strip : Strip) (items : List Item) : Strip × Sheets Item :=
  let place (slots : Array Item) : Array Item :=
    slots.extract 0 strip.start ++ items.toArray ++
      slots.extract (strip.start + items.length) slots.size
  ({ strip with length := items.length }, ⟨sheets.sheets.modify strip.sheet place⟩)

/-- Writes items over a strip, or on a larger sheet if there is no room for them. -/
def update (sheets : Sheets Item) (strip : Strip) (items : List Item) : Strip × Sheets Item :=
  if items.length ≤ strip.room then sheets.overwrite strip items
  else sheets.write items (grownRoom strip.room)

end Sheets

namespace Strip

def front (strip : Strip) (length : Nat) : Strip := { strip with length, room := length }

def back (strip : Strip) (length : Nat) : Strip :=
  ⟨strip.sheet, strip.start + length, strip.length - length, strip.room - length⟩

end Strip

end TraitCheck
