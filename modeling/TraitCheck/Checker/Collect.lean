import TraitCheck.Checker.Alias

/-!
# Collecting the declarations of a module

All items are declared before any of them is checked, so items may refer to each other in any
order. The names come first, then the fields of structs and enums, the signatures of functions, the
traits and at last the impls, each in order of the module.
-/

namespace TraitCheck

/-- Whether a type is written out. -/
def Ty.isDeclared : Ty → Bool
  | .absent | .unknown => false
  | _ => true

/-- The functions of a module. -/
def Item.functions (items : List Item) : List FunctionItem :=
  items.filterMap fun
    | .function item => some item
    | _ => none

def Item.aliases (items : List Item) : List AliasItem :=
  items.filterMap fun
    | .alias item => some item
    | _ => none

def Item.traits (items : List Item) : List TraitItem :=
  items.filterMap fun
    | .trait item => some item
    | _ => none

def Item.impls (items : List Item) : List ImplItem :=
  items.filterMap fun
    | .impl item => some item
    | _ => none

/-- The type of a function, quantified over its generics. -/
def FunctionItem.scheme (item : FunctionItem) (params : List Ty) (result : Ty) : Ty :=
  if item.generics.isEmpty then .fn params result else .scheme item.generics (.fn params result)

namespace Checker

/-- Records the name of a declaration. -/
def declareName (decl : DefId) (name : String) : CheckM Unit :=
  modify fun checker => { checker with names := checker.names.insert decl name }

/-- Records the place and the name of an item, and makes room for what it declares. -/
def declareItem (item : Item) : CheckM Unit := do
  let (_, decl, span) ← need item.header?
  modify fun checker => { checker with spans := checker.spans.insert decl span }
  match item with
  | .function item => declareName item.id item.name
  | .struct item => do
    declareName item.id item.name
    modify fun checker =>
      { checker with
        structs := checker.structs.insert item.id { name := item.name, generics := item.generics } }
  | .enum item => do
    declareName item.id item.name
    modify fun checker =>
      { checker with
        enums := checker.enums.insert item.id { name := item.name, generics := item.generics } }
  | .alias item => do
    declareName item.id item.name
    modify fun checker =>
      { checker with aliases := checker.aliases.insert item.id { target := item.target } }
  | .trait item => declareName item.id item.name
  | .impl _ => pure ()
  | .foreign _ _ span => reportUnsupported span
  | .missing => pure ()

abbrev reportRepeatedField (item : StructItem) (field : Field Ty) : CheckM Unit :=
  report (.error .unknownField field.span
    ("field `" ++ field.name ++ "` is already declared in `" ++ item.name ++ "`"))

/-- Adds a field to a declared struct. -/
def addField (decl : DefId) (name : String) (ty : Ty) : CheckM Unit :=
  modify fun checker =>
    { checker with
      structs := checker.structs.modify decl fun info =>
        { info with fields := info.fields ++ [(name, ty)] } }

/-- Adds a field to a declared struct, unless the struct has a field of that name. -/
def collectField (item : StructItem) (field : Field Ty) : CheckM Unit := do
  let known := ((← get).structs.find? item.id).bind (·.field? field.name)
  if known.isSome then reportRepeatedField item field
  else
    let ty ← resolveType field.content
    addField item.id field.name ty

/-- Adds a variant to a declared enum. -/
def addVariant (decl : DefId) (name : String) (fields : List Ty) : CheckM Unit :=
  modify fun checker =>
    { checker with
      enums := checker.enums.modify decl fun info =>
        { info with variants := info.variants ++ [⟨name, fields⟩] } }

/-- Resolves the types of a variant. -/
def collectVariant (item : EnumItem) (variant : Field (List Ty)) : CheckM Unit := do
  let fields ← variant.content.mapM resolveType
  addVariant item.id variant.name fields

/-- Records the fields of a struct or the variants of an enum. -/
def collectMembers : Item → CheckM Unit
  | .struct item => item.fields.forM (collectField item)
  | .enum item => item.variants.forM (collectVariant item)
  | _ => pure ()

/-- Records the resolved types of a function. -/
def addSignature (item : FunctionItem) (params : List Ty) (result : Ty) : CheckM Unit :=
  modify fun checker =>
    { checker with
      signatures := checker.signatures.insert item.id ⟨params, result, item.result.isDeclared⟩
      globals := checker.globals.insert item.id (item.scheme params result) }

/-- Resolves the types of a function. -/
def collectSignature (item : FunctionItem) : CheckM Unit := do
  let params ← item.params.mapM fun param => resolveType param.ty
  let result ← resolveType item.result
  addSignature item params result

/-- Resolves the types of a declared method. -/
abbrev collectMethod (method : MethodDecl) : CheckM MethodDecl := do
  let params ← method.params.mapM resolveType
  let result ← resolveType method.result
  return { method with params, result }

/-- Resolves the default of an associated type. -/
abbrev collectAssoc (assoc : AssocDecl) : CheckM AssocDecl := do
  if assoc.default.isDeclared then
    let default ← resolveType assoc.default
    return { assoc with default }
  else return { assoc with default := .absent }

def addTrait (item : TraitItem) (methods : List MethodDecl) (assocTypes : List AssocDecl) :
    CheckM Unit :=
  modify fun checker =>
    { checker with
      registry := checker.registry.addTrait item.id item.name methods assocTypes }

/-- Registers a trait. -/
def collectTrait (item : TraitItem) : CheckM Unit := do
  let methods ← item.methods.mapM collectMethod
  let assocTypes ← item.assocTypes.mapM collectAssoc
  addTrait item methods assocTypes

/-- Finds the function that an impl names as a method. -/
def collectImplMethod (method : Field DefId) : CheckM ImplMethod := do
  match (← get).globals.find? method.content with
  | some ty => return ⟨method.name, method.content, ty, method.span⟩
  | none =>
    report (.error .unboundVariable method.span
      ("method `" ++ method.name ++ "` refers to an unknown function " ++ method.content.text))
    return ⟨method.name, method.content, ← fresh, method.span⟩

abbrev collectBinding (assoc : Field Ty) : CheckM (Field Ty) := do
  let content ← resolveType assoc.content
  return { assoc with content }

/-- Registers an impl, given what it declares, or reports that its trait is unknown. -/
def addImpl (item : ImplItem) (implementer : Ty) (methods : List ImplMethod)
    (assocTypes : List (Field Ty)) : CheckM Unit := do
  let checker ← get
  let (answer, registry) := checker.registry.registerImpl
    ⟨item.id, item.trait?, implementer, methods, assocTypes, item.span⟩
  modify ({ · with registry })
  match answer with
  | .ok _ => return
  | .error trait =>
    report ((Diagnostic.error .unknownTrait item.span
      ("cannot find trait " ++ checker.itemName trait)).withPrimaryMessage "not a trait")

/-- Resolves the types of an impl and registers it. -/
def collectImpl (item : ImplItem) : CheckM Unit := do
  let implementer ← resolveType item.implementer
  let methods ← item.methods.mapM collectImplMethod
  let assocTypes ← item.assocTypes.mapM collectBinding
  addImpl item implementer methods assocTypes

/-- Records all declarations of a module. -/
def collect (items : List Item) : CheckM Unit := do
  items.forM declareItem
  checkAliasCycles (Item.aliases items)
  items.forM collectMembers
  (Item.functions items).forM collectSignature
  (Item.traits items).forM collectTrait
  (Item.impls items).forM collectImpl

end Checker

end TraitCheck
