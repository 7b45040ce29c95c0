import TraitCheck.Syntax.Expr

/-!
# Modules

A module is a list of items. Items refer to each other by number, so their order matters only
where two of them carry the same number.
-/

namespace TraitCheck

/-- A function. Its generics are referred to as parameters by position. -/
structure FunctionItem where
  id : DefId
  name : String
  span : Span
  generics : List String
  params : List Param
  result : Ty
  /-- Functions without a body are declared only. -/
  body : Expr
  deriving Inhabited

structure StructItem where
  id : DefId
  name : String
  span : Span
  generics : List String
  fields : List (Field Ty)
  deriving Repr, Inhabited

structure EnumItem where
  id : DefId
  name : String
  span : Span
  generics : List String
  variants : List (Field (List Ty))
  deriving Repr, Inhabited

structure AliasItem where
  id : DefId
  name : String
  span : Span
  generics : List String
  target : Ty
  deriving Repr, Inhabited

/-- A method that a trait declares. -/
structure MethodDecl where
  name : String
  params : List Ty
  result : Ty
  hasDefault : Bool
  span : Span
  deriving Repr, Inhabited

/-- An associated type as a trait declares it. An absent default means that there is none. -/
structure AssocDecl where
  name : String
  bounds : List DefId
  default : Ty
  span : Span
  deriving Repr, Inhabited

/-- A declared trait. -/
structure TraitItem where
  id : DefId
  name : String
  span : Span
  methods : List MethodDecl
  assocTypes : List AssocDecl
  deriving Repr, Inhabited

/-- An implementation of a trait, or an inherent one if it names no trait. Its methods name the
functions that implement them. -/
structure ImplItem where
  id : DefId
  trait? : Option DefId
  implementer : Ty
  span : Span
  generics : List String
  methods : List (Field DefId)
  assocTypes : List (Field Ty)
  deriving Repr, Inhabited

/-- An item of a module. -/
inductive Item where
  | missing
  | function (item : FunctionItem)
  | struct (item : StructItem)
  | enum (item : EnumItem)
  | alias (item : AliasItem)
  | trait (item : TraitItem)
  | impl (item : ImplItem)
  | foreign (name : String) (id : DefId) (span : Span)
  deriving Inhabited

namespace Item

def header? : Item → Option (String × DefId × Span)
  | .missing => none
  | .function item => some ("Function", item.id, item.span)
  | .struct item => some ("Struct", item.id, item.span)
  | .enum item => some ("Enum", item.id, item.span)
  | .alias item => some ("TypeAlias", item.id, item.span)
  | .trait item => some ("Trait", item.id, item.span)
  | .impl item => some ("Impl", item.id, item.span)
  | .foreign name id span => some (name, id, span)

end Item

end TraitCheck
