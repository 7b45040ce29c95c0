import TraitCheck.FieldMap.Sheet
import TraitCheck.Ty.Basic

/-!
# Field maps

A field map takes labels to types. Its entries are kept in ascending order of labels on the leaf
pages of a tree, at most `FieldMap.pageSize` on a page; a page that gets fuller is split in two.
`FieldMap.set` writes every page that it changes anew. A builder does so only for its first label,
and then writes in place, on pages that the map it started from may hold as well.
-/

namespace TraitCheck

/-- A page: entries, or other pages with the least label of each. -/
inductive Page where
  | leaf (entries : Strip)
  | branch (children : Strip)
  deriving DecidableEq, Repr, Inhabited

structure PageStore where
  pages : Array Page := #[]
  entries : Sheets (String × Ty) := {}
  children : Sheets (String × Nat) := {}
  deriving Repr, Inhabited

/-- A field map, by its topmost page. -/
structure FieldMap where
  root : Option Nat := none
  size : Nat := 0
  deriving DecidableEq, Repr, Inhabited

namespace PageStore

def pageSize : Nat := 32

def page (store : PageStore) (number : Nat) : Page := store.pages.getD number default

def add (store : PageStore) (page : Page) : Nat × PageStore :=
  (store.pages.size, { store with pages := store.pages.push page })

def put (store : PageStore) (number : Nat) (page : Page) : PageStore :=
  { store with pages := store.pages.set! number page }

def entriesWithin (store : PageStore) : (height : Nat) → (number : Nat) → List (String × Ty)
  | 0, _ => []
  | height + 1, number =>
    match store.page number with
    | .leaf strip => store.entries.read strip
    | .branch strip =>
      (store.children.read strip).flatMap fun child => entriesWithin store height child.2

def leastWithin (store : PageStore) : (height : Nat) → (number : Nat) → String
  | 0, _ => ""
  | height + 1, number =>
    match store.page number with
    | .leaf strip => ((store.entries.read strip).head?.map Prod.fst).getD ""
    | .branch strip =>
      ((store.children.read strip).head?.map fun child => leastWithin store height child.2).getD ""

/-- The first position from `start` on and before `stop` where a test holds, or `stop`. It is found
by halving, so the test has to hold from some position on. Where it does not, as on a page that was
overwritten, the result is where the halving ends. -/
def firstWhere (test : Nat → Bool) (start stop : Nat) : Nat :=
  if start < stop then
    let middle := (start + stop) / 2
    if test middle then firstWhere test start middle else firstWhere test (middle + 1) stop
  else start
termination_by stop - start

def firstIndex {α : Type} (test : α → Bool) (items : List α) : Nat :=
  let items := items.toArray
  firstWhere (fun index => items[index]?.any test) 0 items.size

def childIndex (label : String) (children : List (String × Nat)) : Nat :=
  firstIndex (fun child => label < child.1) children - 1

def entryIndex (label : String) (entries : List (String × Ty)) : Nat :=
  firstIndex (fun entry => label ≤ entry.1) entries

def entryType? (label : String) (entries : List (String × Ty)) : Option Ty :=
  entries[entryIndex label entries]?.bind fun entry =>
    if entry.1 = label then some entry.2 else none

def findWithin (store : PageStore) (label : String) : (height : Nat) → (number : Nat) → Option Ty
  | 0, _ => none
  | height + 1, number =>
    match store.page number with
    | .leaf strip => entryType? label (store.entries.read strip)
    | .branch strip =>
      let children := store.children.read strip
      children[childIndex label children]?.bind fun child => findWithin store label height child.2

/-- What became of a page: its number now, the number of the page split off, if any, and whether an
entry was added. -/
structure Change where
  number : Nat
  splitOff : Option Nat := none
  added : Bool
  deriving Repr, Inhabited

def splitFull (store : PageStore) (strip : Strip) (make : Strip → Page) :
    Option (Nat × Nat × PageStore) :=
  if pageSize < strip.length then
    let middle := strip.length / 2
    let (front, store) := store.add (make (strip.front middle))
    let (back, store) := store.add (make (strip.back middle))
    some (front, back, store)
  else none

def setLeaf (store : PageStore) (inPlace : Bool) (number : Nat) (strip : Strip) (label : String)
    (ty : Ty) : Change × PageStore :=
  let old := store.entries.read strip
  let index := entryIndex label old
  let exists_ := (old[index]?.map Prod.fst) = some label
  let new := old.take index ++ (label, ty) :: old.drop (if exists_ then index + 1 else index)
  let (strip, entries) :=
    if inPlace then store.entries.update strip new else store.entries.write new new.length
  let store := { store with entries }
  let store := if inPlace then store.put number (.leaf strip) else store
  match store.splitFull strip .leaf with
  | some (front, back, store) => (⟨front, some back, !exists_⟩, store)
  | none =>
    if inPlace then (⟨number, none, !exists_⟩, store)
    else
      let (number, store) := store.add (.leaf strip)
      (⟨number, none, !exists_⟩, store)

/-- Takes the change of a child into a branch page. The child stood at the given position. -/
def setBranch (store : PageStore) (height : Nat) (inPlace : Bool) (number : Nat) (strip : Strip)
    (index : Nat) (change : Change) : Change × PageStore :=
  let old := store.children.read strip
  let link (child : Nat) : String × Nat := (store.leastWithin height child, child)
  let new := old.take index ++ link change.number :: (change.splitOff.toList.map link) ++
    old.drop (index + 1)
  let (strip, children) :=
    if inPlace then store.children.update strip new else store.children.write new new.length
  let store := { store with children }
  let store := if inPlace then store.put number (.branch strip) else store
  match store.splitFull strip .branch with
  | some (front, back, store) => (⟨front, some back, change.added⟩, store)
  | none =>
    if inPlace then (⟨number, none, change.added⟩, store)
    else
      let (number, store) := store.add (.branch strip)
      (⟨number, none, change.added⟩, store)

def setWithin (inPlace : Bool) (label : String) (ty : Ty) :
    (height : Nat) → PageStore → (number : Nat) → Change × PageStore
  | 0, store, number => (⟨number, none, false⟩, store)
  | height + 1, store, number =>
    match store.page number with
    | .leaf strip => store.setLeaf inPlace number strip label ty
    | .branch strip =>
      let children := store.children.read strip
      let index := childIndex label children
      match children[index]? with
      | none => (⟨number, none, false⟩, store)
      | some child =>
        let (change, store) := setWithin inPlace label ty height store child.2
        store.setBranch height inPlace number strip index change

def height (store : PageStore) : Nat := store.pages.size + 1

end PageStore

namespace FieldMap

def empty : FieldMap := {}

def entries (map : FieldMap) (store : PageStore) : List (String × Ty) :=
  match map.root with
  | none => []
  | some root => store.entriesWithin store.height root

def labels (map : FieldMap) (store : PageStore) : List String := (map.entries store).map Prod.fst

def find? (map : FieldMap) (store : PageStore) (label : String) : Option Ty :=
  map.root.bind (store.findWithin label store.height)

def contains (map : FieldMap) (store : PageStore) (label : String) : Bool :=
  (map.find? store label).isSome

def setWith (inPlace : Bool) (map : FieldMap) (store : PageStore) (label : String) (ty : Ty) :
    FieldMap × PageStore :=
  match map.root with
  | none =>
    let (strip, entries) := store.entries.write [(label, ty)] 1
    let (root, store) := { store with entries }.add (.leaf strip)
    (⟨some root, 1⟩, store)
  | some root =>
    let (change, store) := PageStore.setWithin inPlace label ty store.height store root
    let size := if change.added then map.size + 1 else map.size
    match change.splitOff with
    | none => (⟨some change.number, size⟩, store)
    | some splitOff =>
      let link (child : Nat) : String × Nat := (store.leastWithin store.height child, child)
      let (strip, children) := store.children.write [link change.number, link splitOff] 2
      let (root, store) := { store with children }.add (.branch strip)
      (⟨some root, size⟩, store)

def set (map : FieldMap) (store : PageStore) (label : String) (ty : Ty) : FieldMap × PageStore :=
  map.setWith false store label ty

structure Builder where
  map : FieldMap := .empty
  /-- Whether a label was set, so that the pages at hand may be written in place. -/
  started : Bool := false
  deriving Repr, Inhabited

def Builder.set (builder : Builder) (store : PageStore) (label : String) (ty : Ty) :
    Builder × PageStore :=
  let (map, store) := builder.map.setWith builder.started store label ty
  (⟨map, true⟩, store)

/-- Sets several labels. Tells for each whether it was there before and how many there are then. -/
def Builder.setAll (builder : Builder) (store : PageStore) :
    List (String × Ty) → (FieldMap × List (Bool × Nat)) × PageStore
  | [] => ((builder.map, []), store)
  | (label, ty) :: rest =>
    let known := builder.map.contains store label
    let (builder, store) := builder.set store label ty
    let ((map, trail), store) := builder.setAll store rest
    ((map, (known, builder.map.size) :: trail), store)

def extend (map : FieldMap) (store : PageStore) (fields : List (String × Ty)) :
    (FieldMap × List (Bool × Nat)) × PageStore :=
  Builder.setAll { map } store fields

end FieldMap

end TraitCheck
