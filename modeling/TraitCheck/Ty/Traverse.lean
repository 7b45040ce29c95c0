import TraitCheck.Ty.Basic

/-!
# Traversals of types

`Ty.collect` picks something from the types met on a walk from the outside inwards, and `Ty.rebuild`
replaces types from the inside outwards. `Ty.rebuildWith` threads a state through the rebuild, from
left to right, for replacements that consume fresh variables.

An absent type may stand anywhere except in a field of a record: a record with such a field cannot
be looked into, and a type is complete if it holds none. Operations whose name ends in a question
mark give nothing where they would have to look into such a record.
-/

namespace TraitCheck.Ty

mutual

/-- The types met on a walk from the outside inwards. Absent types are passed over, and the
components of a type are visited only where `enter` allows it. -/
def preorder (enter : Ty → Bool) : Ty → List Ty
  | .absent => []
  | .named decl args =>
    .named decl args :: (if enter (.named decl args) then preorderList enter args else [])
  | .fn params result =>
    .fn params result ::
      (if enter (.fn params result) then preorderList enter params ++ preorder enter result else [])
  | .tuple elems => .tuple elems :: (if enter (.tuple elems) then preorderList enter elems else [])
  | .record fields =>
    .record fields :: (if enter (.record fields) then preorderRow enter fields else [])
  | .scheme names body =>
    .scheme names body :: (if enter (.scheme names body) then preorder enter body else [])
  | .prim kind => [.prim kind]
  | .var id => [.var id]
  | .param index name => [.param index name]
  | .unknown => [.unknown]
  | .foreign name => [.foreign name]

def preorderList (enter : Ty → Bool) : List Ty → List Ty
  | [] => []
  | ty :: rest => preorder enter ty ++ preorderList enter rest

def preorderRow (enter : Ty → Bool) : List (String × Ty) → List Ty
  | [] => []
  | (_, ty) :: rest => preorder enter ty ++ preorderRow enter rest

end

mutual

/-- Picks from a type and its components, from the outside inwards, and puts what was picked in
front of a list. Absent types are passed over. -/
def collect {α : Type} (pick : Ty → Option α) : Ty → List α → List α
  | .absent, tail => tail
  | .named decl args, tail =>
    (pick (.named decl args)).toList ++ collectList pick args tail
  | .fn params result, tail =>
    (pick (.fn params result)).toList ++ collectList pick params (collect pick result tail)
  | .tuple elems, tail => (pick (.tuple elems)).toList ++ collectList pick elems tail
  | .record fields, tail => (pick (.record fields)).toList ++ collectRow pick fields tail
  | .scheme names body, tail => (pick (.scheme names body)).toList ++ collect pick body tail
  | .prim kind, tail => (pick (.prim kind)).toList ++ tail
  | .var id, tail => (pick (.var id)).toList ++ tail
  | .param index name, tail => (pick (.param index name)).toList ++ tail
  | .unknown, tail => (pick .unknown).toList ++ tail
  | .foreign name, tail => (pick (.foreign name)).toList ++ tail

def collectList {α : Type} (pick : Ty → Option α) : List Ty → List α → List α
  | [], tail => tail
  | ty :: rest, tail => collect pick ty (collectList pick rest tail)

def collectRow {α : Type} (pick : Ty → Option α) : List (String × Ty) → List α → List α
  | [], tail => tail
  | (_, ty) :: rest, tail => collect pick ty (collectRow pick rest tail)

end

def subterms (ty : Ty) : List Ty := ty.collect some []

mutual

/-- Whether some part of a type is accepted. -/
def any (accept : Ty → Bool) : Ty → Bool
  | .absent => false
  | .named decl args => accept (.named decl args) || anyList accept args
  | .fn params result => accept (.fn params result) || anyList accept params || any accept result
  | .tuple elems => accept (.tuple elems) || anyList accept elems
  | .record fields => accept (.record fields) || anyRow accept fields
  | .scheme names body => accept (.scheme names body) || any accept body
  | .prim kind => accept (.prim kind)
  | .var id => accept (.var id)
  | .param index name => accept (.param index name)
  | .unknown => accept .unknown
  | .foreign name => accept (.foreign name)

def anyList (accept : Ty → Bool) : List Ty → Bool
  | [] => false
  | ty :: rest => any accept ty || anyList accept rest

def anyRow (accept : Ty → Bool) : List (String × Ty) → Bool
  | [] => false
  | (_, ty) :: rest => any accept ty || anyRow accept rest

end

/-- Whether a record has a field without a type. -/
def lacksField : Ty → Bool
  | .record fields => fields.any fun field => field.2.isAbsent
  | _ => false

/-- Whether every field of every record in a type has a type. -/
def isComplete (ty : Ty) : Bool := !ty.any lacksField

def complete? (ty : Ty) : Option Ty := if ty.isComplete then some ty else none

mutual

/-- Replaces types from the inside outwards. -/
def rebuild (image : Ty → Ty) : Ty → Ty
  | .named decl args => image (.named decl (rebuildList image args))
  | .fn params result => image (.fn (rebuildList image params) (rebuild image result))
  | .tuple elems => image (.tuple (rebuildList image elems))
  | .record fields => image (.record (rebuildRow image fields))
  | .scheme names body => image (.scheme names (rebuild image body))
  | .absent => image .absent
  | .prim kind => image (.prim kind)
  | .var id => image (.var id)
  | .param index name => image (.param index name)
  | .unknown => image .unknown
  | .foreign name => image (.foreign name)

def rebuildList (image : Ty → Ty) : List Ty → List Ty
  | [] => []
  | ty :: rest => rebuild image ty :: rebuildList image rest

def rebuildRow (image : Ty → Ty) : List (String × Ty) → List (String × Ty)
  | [] => []
  | (label, ty) :: rest => (label, rebuild image ty) :: rebuildRow image rest

end

mutual

/-- Rebuilds a type from the inside outwards, passing a state from left to right. The walk ends
without a result where an image is missing or a record lacks a field type. -/
def rebuildWith {State : Type} (image : Ty → State → Option Ty × State) :
    Ty → State → Option Ty × State
  | .named decl args, state =>
    match rebuildListWith image args state with
    | (some args, state) => image (.named decl args) state
    | (none, state) => (none, state)
  | .fn params result, state =>
    match rebuildListWith image params state with
    | (some params, state) =>
      match rebuildWith image result state with
      | (some result, state) => image (.fn params result) state
      | (none, state) => (none, state)
    | (none, state) => (none, state)
  | .tuple elems, state =>
    match rebuildListWith image elems state with
    | (some elems, state) => image (.tuple elems) state
    | (none, state) => (none, state)
  | .record fields, state =>
    match rebuildRowWith image fields state with
    | (some fields, state) => image (.record fields) state
    | (none, state) => (none, state)
  | .scheme names body, state =>
    match rebuildWith image body state with
    | (some body, state) => image (.scheme names body) state
    | (none, state) => (none, state)
  | .absent, state => image .absent state
  | .prim kind, state => image (.prim kind) state
  | .var id, state => image (.var id) state
  | .param index name, state => image (.param index name) state
  | .unknown, state => image .unknown state
  | .foreign name, state => image (.foreign name) state

def rebuildListWith {State : Type} (image : Ty → State → Option Ty × State) :
    List Ty → State → Option (List Ty) × State
  | [], state => (some [], state)
  | ty :: rest, state =>
    match rebuildWith image ty state with
    | (some ty, state) =>
      match rebuildListWith image rest state with
      | (some rest, state) => (some (ty :: rest), state)
      | (none, state) => (none, state)
    | (none, state) => (none, state)

def rebuildRowWith {State : Type} (image : Ty → State → Option Ty × State) :
    List (String × Ty) → State → Option (List (String × Ty)) × State
  | [], state => (some [], state)
  | (label, ty) :: rest, state =>
    if ty.isAbsent then (none, state)
    else
      match rebuildWith image ty state with
      | (some ty, state) =>
        match rebuildRowWith image rest state with
        | (some rest, state) => (some ((label, ty) :: rest), state)
        | (none, state) => (none, state)
      | (none, state) => (none, state)

end

theorem rebuildList_eq_map (image : Ty → Ty) (types : List Ty) :
    rebuildList image types = types.map (rebuild image) := by
  induction types with
  | nil => rfl
  | cons ty rest ih => simp [rebuildList, ih]

theorem rebuildRow_eq_map (image : Ty → Ty) (fields : List (String × Ty)) :
    rebuildRow image fields = fields.map fun field => (field.1, rebuild image field.2) := by
  induction fields with
  | nil => rfl
  | cons field rest ih => simp [rebuildRow, ih]

/-- Replaces variables. -/
def bindVars (image : VarId → Ty) : Ty → Ty :=
  rebuild fun
    | .var id => image id
    | ty => ty

/-- Replaces parameters. -/
def bindParams (image : Int → String → Ty) : Ty → Ty :=
  rebuild fun
    | .param index name => image index name
    | ty => ty

/-- Replaces each parameter whose index is a position of `args` by the argument there. -/
def substParams (args : List Ty) : Ty → Ty :=
  bindParams fun index name =>
    if index < 0 then .param index name
    else args.getD index.toNat (.param index name)

/-- Replaces `Self`. -/
def substSelf (ty implementer : Ty) : Ty :=
  ty.bindParams fun index name => if index = -1 then implementer else .param index name

/-- `substParams`, where a type is looked into only if there are arguments. -/
def substParams? (args : List Ty) (ty : Ty) : Option Ty :=
  if args.isEmpty then some ty else ty.complete?.map (substParams args)

def substSelf? (ty implementer : Ty) : Option Ty :=
  ty.complete?.map (·.substSelf implementer)

def rebuild? (image : Ty → Ty) (ty : Ty) : Option Ty := ty.complete?.map (rebuild image)

/-- The walk of `preorder`, if every record that is entered has all its field types. -/
def visit? (enter : Ty → Bool) (ty : Ty) : Option (List Ty) :=
  let met := ty.preorder enter
  if met.any fun part => enter part && part.lacksField then none else some met

/-- Whether a type holds a component that is accepted. The walk ends at the first one, and records
before it have to have all their field types. -/
def search? (accept : Ty → Bool) (ty : Ty) : Option Bool :=
  let before := ty.subterms.takeWhile fun part => !accept part
  if before.any lacksField then none else some (ty.any accept)

def var? : Ty → Option VarId
  | .var id => some id
  | _ => none

/-- The variables of a type, with repetitions. -/
def vars (ty : Ty) : List VarId := ty.collect var? []

def insertVar (id : VarId) : List VarId → List VarId
  | [] => [id]
  | other :: rest =>
    if id < other then id :: other :: rest
    else if id = other then other :: rest
    else other :: insertVar id rest

/-- The variables of a type in ascending order, each once. -/
def freeVars (ty : Ty) : List VarId := ty.vars.foldr insertVar []

def freeVars? (ty : Ty) : Option (List VarId) := ty.complete?.map freeVars

def isVar (id : VarId) (ty : Ty) : Bool := ty.var? = some id

/-- Whether a variable occurs in a type. -/
def occurs (id : VarId) (ty : Ty) : Bool := ty.any (isVar id)

def occurs? (id : VarId) (ty : Ty) : Option Bool := ty.search? (isVar id)

def isUnknown : Ty → Bool
  | .unknown => true
  | _ => false

/-- Whether a type has no placeholders. -/
def isKnown (ty : Ty) : Bool := !ty.any isUnknown

def isKnown? (ty : Ty) : Option Bool := (ty.search? isUnknown).map (!·)

mutual

/-- How many parts a type has. -/
def weight : Ty → Nat
  | .absent => 0
  | .named _ args => weightList args + 1
  | .fn params result => weightList params + weight result + 1
  | .tuple elems => weightList elems + 1
  | .record fields => weightRow fields + 1
  | .scheme _ body => weight body + 1
  | .prim _ | .var _ | .param _ _ | .unknown | .foreign _ => 1

def weightList : List Ty → Nat
  | [] => 0
  | ty :: rest => weight ty + weightList rest

def weightRow : List (String × Ty) → Nat
  | [] => 0
  | (_, ty) :: rest => weight ty + weightRow rest

end

end TraitCheck.Ty
