import TraitCheck.Table
import TraitCheck.Ty.Traverse

/-!
# Substitutions

A substitution binds unification variables and, separately, generic parameters. Variable bindings
are triangular: a bound type may itself mention bound variables, and `Subst.apply` follows them to
the end. As long as no variable is reachable from itself, the number of bindings bounds the depth
that `shallow` and `apply` have to follow. A variable bound to an absent type cannot be followed;
`applied?`, `shallow?` and `applyParams?` give nothing then.
-/

namespace TraitCheck

/-- Bindings of variables and of generic parameters. -/
structure Subst where
  vars : Table VarId Ty
  params : Table Int Ty
  deriving Repr, Inhabited

namespace Subst

def empty : Subst := ⟨.empty, .empty⟩

def size (subst : Subst) : Nat := subst.vars.size

/-- The type that a variable is bound to. -/
def lookup (subst : Subst) (id : VarId) : Option Ty := subst.vars.find? id

/-- Binds a variable. -/
def bind (subst : Subst) (id : VarId) (ty : Ty) : Subst :=
  { subst with vars := subst.vars.insert id ty }

def lookupParam (subst : Subst) (index : Int) : Option Ty := subst.params.find? index

/-- Binds a generic parameter. -/
def bindParam (subst : Subst) (index : Int) (ty : Ty) : Subst :=
  { subst with params := subst.params.insert index ty }

def clearParams (subst : Subst) : Subst := { subst with params := .empty }

/-- A type with bindings followed at its head. -/
def follow (subst : Subst) : (limit : Nat) → Ty → Ty
  | 0, ty => ty
  | limit + 1, .var id =>
    match subst.lookup id with
    | none => .var id
    | some ty => follow subst limit ty
  | _ + 1, ty => ty

/-- Follows a chain of bound variables to an unbound variable or a type that is no variable. -/
def shallow (subst : Subst) (ty : Ty) : Ty := subst.follow subst.size ty

/-- `shallow`, if the chain does not end in a variable bound to an absent type. -/
def shallow? (subst : Subst) (ty : Ty) : Option Ty :=
  match subst.shallow ty with
  | .absent => if ty.isAbsent then some .absent else none
  | solved => some solved

/-- The type that a variable stands for, with bindings followed to depth `limit`. -/
def solution (subst : Subst) : (limit : Nat) → VarId → Ty
  | 0, id => .var id
  | limit + 1, id =>
    match subst.lookup id with
    | none => .var id
    | some ty => ty.bindVars (solution subst limit)

/-- A type with all bindings followed to the end. -/
def apply (subst : Subst) (ty : Ty) : Ty := ty.bindVars (subst.solution subst.size)

def replaceParams (subst : Subst) (ty : Ty) : Ty :=
  ty.bindParams fun index name =>
    if index = -1 then .param index name
    else (subst.lookupParam index).getD (.param index name)

/-- A type with bound parameters replaced. -/
def applyParams (subst : Subst) (ty : Ty) : Ty := subst.apply (subst.replaceParams ty)

/-- Whether a type is complete, and so are the types that it reaches through bindings to depth
`limit`, none of them absent. -/
def isSound (subst : Subst) : (limit : Nat) → Ty → Bool
  | 0, ty => ty.isComplete
  | limit + 1, ty =>
    ty.isComplete && ty.vars.all fun id =>
      match subst.lookup id with
      | none => true
      | some bound => !bound.isAbsent && isSound subst limit bound

/-- Whether bindings can be followed from a type to the end. Without bindings there is nothing to
follow, and the type is not looked into. -/
def applies (subst : Subst) (ty : Ty) : Bool :=
  subst.size = 0 || subst.isSound subst.size ty

/-- `apply`, if bindings can be followed to the end. -/
def applied? (subst : Subst) (ty : Ty) : Option Ty :=
  if subst.applies ty then some (subst.apply ty) else none

/-- Whether every parameter of a complete type can be replaced. Without bound parameters the type is
not looked into. -/
def appliesParams (subst : Subst) (ty : Ty) : Bool :=
  subst.params.size = 0 ||
    ty.isComplete && !ty.any fun
      | .param index _ => index ≠ -1 && (subst.lookupParam index).any Ty.isAbsent
      | _ => false

/-- `applyParams`, if parameters can be replaced and bindings followed to the end. -/
def applyParams? (subst : Subst) (ty : Ty) : Option Ty :=
  if subst.appliesParams ty && subst.applies (subst.replaceParams ty) then
    some (subst.applyParams ty)
  else none

@[simp]
theorem lookup_empty (id : VarId) : empty.lookup id = none := rfl

@[simp]
theorem lookup_bind (subst : Subst) (id other : VarId) (ty : Ty) :
    (subst.bind id ty).lookup other = if id = other then some ty else subst.lookup other :=
  Table.find?_insert ..

@[simp]
theorem lookup_bindParam (subst : Subst) (index : Int) (ty : Ty) (id : VarId) :
    (subst.bindParam index ty).lookup id = subst.lookup id := rfl

@[simp]
theorem lookup_clearParams (subst : Subst) (id : VarId) :
    subst.clearParams.lookup id = subst.lookup id := rfl

@[simp]
theorem lookupParam_bind (subst : Subst) (id : VarId) (ty : Ty) (index : Int) :
    (subst.bind id ty).lookupParam index = subst.lookupParam index := rfl

end Subst

end TraitCheck
