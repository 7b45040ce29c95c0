import TraitCheck.Trait.Registry

/-!
# Resolving methods and associated types

A method is looked up for a self type. Inherent impls come first; then the traits that declare the
name are tried in order of registration, and the first impl of such a trait that matches the self
type is taken.

A search gives nothing at all if it comes to an impl for which records without the type of a field
leave open whether it matches; that is the outer option of each result.
-/

namespace TraitCheck

/-- Where a method was found. -/
inductive Resolution where
  | inherent (impl : Impl) (method : ImplMethod)
  | provided (impl : Impl) (method : ImplMethod) (trait : Trait) (decl : MethodDecl)
  /-- In a trait, for an impl that does not provide the method itself. -/
  | declared (impl : Impl) (trait : Trait) (decl : MethodDecl)
  deriving Repr

namespace Resolution

/-- The impl that a method was found in. -/
def impl : Resolution → Impl
  | .inherent impl _ | .provided impl _ _ _ | .declared impl _ _ => impl

def method? : Resolution → Option ImplMethod
  | .inherent _ method | .provided _ method _ _ => some method
  | .declared _ _ _ => none

def declaration? : Resolution → Option (Trait × MethodDecl)
  | .inherent _ _ => none
  | .provided _ _ trait decl | .declared _ trait decl => some (trait, decl)

/-- The type of the method for a self type, if a declared type that it is taken from is complete. -/
def ty? (resolution : Resolution) (self : Ty) : Option Ty :=
  match resolution with
  | .inherent _ method | .provided _ method _ _ => some method.ty
  | .declared _ _ decl => decl.signature? self

end Resolution

namespace Registry

def implsAt (registry : Registry) (ids : List Nat) : List Impl :=
  ids.filterMap fun id => registry.impls[id]?

/-- The impls that match. -/
def allMatching (self : Ty) : List Impl → Option (List Impl)
  | [] => some []
  | impl :: rest =>
    match impl.implementer.isMatch? self with
    | none => none
    | some true => (allMatching self rest).map (impl :: ·)
    | some false => allMatching self rest

/-- The first impl that matches. -/
def firstMatching (self : Ty) : List Impl → Option (Option Impl)
  | [] => some none
  | impl :: rest =>
    match impl.implementer.isMatch? self with
    | none => none
    | some true => some (some impl)
    | some false => firstMatching self rest

def inherentCandidates (registry : Registry) (self : Ty) : List Nat :=
  match self.head? with
  | some head =>
    mergeAscending ((registry.inherentOfHead.find? head).getD []) registry.inherentOpen
  | none => registry.inherentAll

def inherentImpls? (registry : Registry) (self : Ty) : Option (List Impl) :=
  allMatching self (registry.implsAt (registry.inherentCandidates self))

/-- The first impl of a trait that matches a type. -/
def findImpl? (registry : Registry) (self : Ty) (trait : Nat) : Option (Option Impl) :=
  firstMatching self (registry.implsAt (registry.implsOf trait))

/-- The method of an inherent impl. -/
def resolveInherent? (registry : Registry) (self : Ty) (name : String) :
    Option (Option Resolution) :=
  (registry.inherentImpls? self).map fun impls =>
    impls.findSome? fun impl => (impl.method? name).map (.inherent impl)

def resolution? (registry : Registry) (name : String) (trait : Nat) (impl : Impl) :
    Option Resolution := do
  let trait ← registry.traits[trait]?
  let decl ← trait.method? name
  match impl.method? name with
  | some method => some (.provided impl method trait decl)
  | none => some (.declared impl trait decl)

/-- Looks for a method in traits one after the other, each time in the first impl of the trait that
matches a self type. -/
def resolveIn? (registry : Registry) (self : Ty) (name : String) :
    (traits : List Nat) → Option (Option Resolution)
  | [] => some none
  | trait :: rest =>
    match registry.findImpl? self trait with
    | none => none
    | some found =>
      match found.bind (registry.resolution? name trait) with
      | some resolution => some (some resolution)
      | none => resolveIn? registry self name rest

/-- The method of a name for a self type. -/
def resolveMethod? (registry : Registry) (self : Ty) (name : String) :
    Option (Option Resolution) :=
  match registry.resolveInherent? self name with
  | none => none
  | some (some resolution) => some (some resolution)
  | some none => registry.resolveIn? self name ((registry.traitsOfMethod.find? name).getD [])

/-- The associated type as an impl binds it, or else as the trait defaults it. -/
def assocSource? (registry : Registry) (impl : Impl) (trait : Nat) (name : String) : Option Ty :=
  match impl.assocType? name with
  | some binding => some binding.content
  | none => do
    let trait ← registry.traits[trait]?
    let decl ← trait.assocType? name
    if decl.default.isAbsent then none else some decl.default

/-- The associated type of a trait for a self type, taken from the first impl that matches. The
generic parameters of the impl become the parts of the self type that they matched. -/
def resolveAssocType? (registry : Registry) (self : Ty) (trait : Nat) (name : String) :
    Option (Option Ty) :=
  match registry.findImpl? self trait with
  | none => none
  | some none => some none
  | some (some impl) =>
    match registry.assocSource? impl trait name with
    | none => some none
    | some source =>
      match impl.implementer.matchWith self with
      | .ok found => ((source.substMatch found).substSelf? self).map some
      | .error _ => none

end Registry

end TraitCheck
