import TraitCheck.Syntax.Item
import TraitCheck.Trait.Matching

/-!
# Registered traits and impls

Traits and impls are numbered in order of registration. Beside the two lists the registry keeps
indexes, so that looking up a method does not have to scan every impl: the traits that declare a
method name, the impls of each trait, and the inherent impls by the head of their self type.
-/

namespace TraitCheck

/-- A registered trait. -/
structure Trait where
  id : Nat
  decl : DefId
  name : String
  methods : List MethodDecl
  assocTypes : List AssocDecl
  deriving Repr, Inhabited

/-- A method of an impl. -/
structure ImplMethod where
  name : String
  function : DefId
  ty : Ty
  span : Span
  deriving Repr, Inhabited

/-- A registered impl. An inherent impl has no trait. -/
structure Impl where
  id : Nat
  decl : DefId
  trait? : Option Trait
  implementer : Ty
  methods : List ImplMethod
  assocTypes : List (Field Ty)
  span : Span
  deriving Repr, Inhabited

/-- The function type of a declared method for an implementing type, if the declared types are
complete. -/
def MethodDecl.signature? (method : MethodDecl) (implementer : Ty) : Option Ty := do
  let params ← method.params.mapM (·.substSelf? implementer)
  let result ← method.result.substSelf? implementer
  return .fn params result

namespace Trait

/-- The first method of that name. -/
def method? (trait : Trait) (name : String) : Option MethodDecl :=
  trait.methods.find? (·.name = name)

def assocType? (trait : Trait) (name : String) : Option AssocDecl :=
  trait.assocTypes.find? (·.name = name)

end Trait

namespace Impl

/-- Whether the impl belongs to no trait. -/
def isInherent (impl : Impl) : Bool := impl.trait?.isNone

def method? (impl : Impl) (name : String) : Option ImplMethod :=
  impl.methods.find? (·.name = name)

def assocType? (impl : Impl) (name : String) : Option (Field Ty) :=
  impl.assocTypes.find? (·.name = name)

/-- Methods without a default that the impl lacks. -/
def missingMethods (impl : Impl) : List String :=
  match impl.trait? with
  | none => []
  | some trait =>
    (trait.methods.filter fun method =>
      !method.hasDefault && (impl.method? method.name).isNone).map (·.name)

def missingAssocTypes (impl : Impl) : List String :=
  match impl.trait? with
  | none => []
  | some trait =>
    (trait.assocTypes.filter fun assoc =>
      assoc.default.isAbsent && (impl.assocType? assoc.name).isNone).map (·.name)

/-- Methods that the trait does not declare. -/
def extraMethods (impl : Impl) : List ImplMethod :=
  match impl.trait? with
  | none => []
  | some trait => impl.methods.filter fun method => (trait.method? method.name).isNone

def extraAssocTypes (impl : Impl) : List (Field Ty) :=
  match impl.trait? with
  | none => []
  | some trait => impl.assocTypes.filter fun assoc => (trait.assocType? assoc.name).isNone

end Impl

/-- All traits and impls, with indexes into them. -/
structure Registry where
  traits : List Trait := []
  impls : List Impl := []
  /-- The number of the trait that a declaration introduced last. -/
  traitOfDecl : Table DefId Nat := .empty
  /-- The traits that declare a method name, in order of registration. -/
  traitsOfMethod : Table String (List Nat) := .empty
  implsOfTrait : Table Nat (List Nat) := .empty
  inherentOfHead : Table Head (List Nat) := .empty
  inherentOpen : List Nat := []
  inherentAll : List Nat := []
  deriving Repr, Inhabited

def Table.push {Key : Type} [DecidableEq Key] (table : Table Key (List Nat)) (key : Key)
    (number : Nat) : Table Key (List Nat) :=
  table.insert key ((table.find? key).getD [] ++ [number])

def mergeAscending : List Nat → List Nat → List Nat
  | [], second => second
  | first, [] => first
  | a :: first, b :: second =>
    if a < b then a :: mergeAscending first (b :: second)
    else b :: mergeAscending (a :: first) second

namespace Registry

def empty : Registry := {}

/-- The trait that a declaration introduced last. -/
def traitByDecl? (registry : Registry) (decl : DefId) : Option Trait :=
  (registry.traitOfDecl.find? decl).bind fun id => registry.traits[id]?

/-- The numbers of the impls of a trait. -/
def implsOf (registry : Registry) (trait : Nat) : List Nat :=
  (registry.implsOfTrait.find? trait).getD []

/-- Registers a trait under the next number. -/
def addTrait (registry : Registry) (decl : DefId) (name : String) (methods : List MethodDecl)
    (assocTypes : List AssocDecl) : Registry :=
  let id := registry.traits.length
  { registry with
    traits := registry.traits ++ [⟨id, decl, name, methods, assocTypes⟩]
    traitOfDecl := registry.traitOfDecl.insert decl id
    traitsOfMethod := methods.foldl (fun table method => table.push method.name id)
      registry.traitsOfMethod }

/-- Registers an impl under the next number. -/
def addImpl (registry : Registry) (impl : Impl) : Registry :=
  let registry := { registry with impls := registry.impls ++ [impl] }
  match impl.trait? with
  | some trait => { registry with implsOfTrait := registry.implsOfTrait.push trait.id impl.id }
  | none =>
    let registry := { registry with inherentAll := registry.inherentAll ++ [impl.id] }
    match impl.implementer.head? with
    | some head => { registry with inherentOfHead := registry.inherentOfHead.push head impl.id }
    | none => { registry with inherentOpen := registry.inherentOpen ++ [impl.id] }

/-- An impl as it is declared. -/
structure ImplDecl where
  decl : DefId
  trait? : Option DefId
  implementer : Ty
  methods : List ImplMethod
  assocTypes : List (Field Ty)
  span : Span
  deriving Repr, Inhabited

/-- The impl that a declaration describes, numbered to follow the registered ones. There is none if
the declaration names a trait that is not registered. -/
def implOf? (registry : Registry) (decl : ImplDecl) : Option Impl :=
  let make (trait? : Option Trait) : Impl :=
    ⟨registry.impls.length, decl.decl, trait?, decl.implementer, decl.methods, decl.assocTypes,
      decl.span⟩
  match decl.trait? with
  | none => some (make none)
  | some trait => (registry.traitByDecl? trait).map fun trait => make (some trait)

/-- Registers an impl and answers with its number. If it names a trait that is not registered, the
answer is that trait. -/
def registerImpl (registry : Registry) (decl : ImplDecl) : Except DefId Nat × Registry :=
  match registry.implOf? decl with
  | some impl => (.ok impl.id, registry.addImpl impl)
  | none => (.error (decl.trait?.getD default), registry)

/-- An impl is refused, and the registry comes back as it was, or it is registered. -/
theorem registerImpl_cases (registry : Registry) (decl : ImplDecl) :
    (∃ trait, registry.registerImpl decl = (.error trait, registry)) ∨
      ∃ number after, registry.registerImpl decl = (.ok number, after) := by
  unfold registerImpl
  split
  · exact Or.inr ⟨_, _, rfl⟩
  · exact Or.inl ⟨_, rfl⟩

/-- The registry after an impl was registered, for a caller that needs none otherwise. -/
def register (registry : Registry) (decl : ImplDecl) : Except DefId (Nat × Registry) :=
  match registry.registerImpl decl with
  | (.ok number, after) => .ok (number, after)
  | (.error trait, _) => .error trait

def unknownTraitText (trait : DefId) : String := "impl refers to unknown trait " ++ trait.text

end Registry

end TraitCheck
