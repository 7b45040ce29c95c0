import TraitCheck.Checker.Locals
import TraitCheck.Scheme
import TraitCheck.Settings.Basic
import TraitCheck.Trait.Resolution
import TraitCheck.Unify

/-!
# The state of a check

A check threads one state through all its passes: the bindings found so far, the declarations of the
module, the locals of the function at hand, and the diagnostics. Problems in the program are
diagnostics and never stop the check. Only a tree that lacks a node where its position is asked for,
or a type that is not complete where it has to be looked into, stops it; the state reached by then
is kept.
-/

namespace TraitCheck

/-- A declared struct. -/
structure StructInfo where
  name : String
  generics : List String
  fields : List (String × Ty) := []
  deriving Repr, Inhabited

/-- The type of a field. -/
def StructInfo.field? (info : StructInfo) (name : String) : Option Ty := info.fields.lookup name

/-- A declared variant of an enum. -/
structure Variant where
  name : String
  fields : List Ty
  deriving Repr, Inhabited

/-- A declared enum. -/
structure EnumInfo where
  name : String
  generics : List String
  variants : List Variant := []
  deriving Repr, Inhabited

def EnumInfo.variant? (info : EnumInfo) (name : String) : Option Variant :=
  info.variants.find? (·.name = name)

/-- The variants with a given number of fields. -/
def EnumInfo.variantsOfArity (info : EnumInfo) (arity : Nat) : List Variant :=
  info.variants.filter (·.fields.length = arity)

/-- A declared alias. Its target is kept as written. -/
structure AliasInfo where
  target : Ty
  /-- Whether the alias is defined in terms of itself. -/
  cyclic : Bool := false
  deriving Repr, Inhabited

/-- The signature of a function; its generics appear as parameters. -/
structure Signature where
  params : List Ty
  result : Ty
  declaredResult : Bool
  deriving Repr, Inhabited

/-- What a check knows so far. -/
structure Checker where
  settings : Settings
  subst : Subst := .empty
  supply : Supply := .initial
  registry : Registry := .empty
  log : Log
  names : Table DefId String := .empty
  spans : Table DefId Span := .empty
  structs : Table DefId StructInfo := .empty
  enums : Table DefId EnumInfo := .empty
  aliases : Table DefId AliasInfo := .empty
  /-- The types of the functions, quantified over their generics. -/
  globals : Table DefId Ty := .empty
  signatures : Table DefId Signature := .empty
  /-- The locals of the function at hand. -/
  locals : Locals := .empty
  current : Option Span := none
  trace : List String := []
  deriving Inhabited

/-- Why a check cannot go on. -/
inductive Fault where
  | missingNode
  /-- A function has more parameters than the signature recorded for it. -/
  | missingParam
  | incompleteType
  deriving DecidableEq, Repr, Inhabited

/-- A step of a check, which keeps the state reached even if it stops. -/
abbrev CheckM := EStateM Fault Checker

namespace Checker

/-- The state before anything is checked. -/
def initial (settings : Settings) : Checker := { settings, log := .empty settings.maxErrors }

/-- The name of a declaration. -/
def nameOf (checker : Checker) (decl : DefId) : Option String := checker.names.find? decl

/-- The text of a solved type. -/
def typeText? (checker : Checker) (ty : Ty) : Option String :=
  (checker.subst.applied? ty).bind (·.render? checker.nameOf)

/-- What could be found out about a type that has to be complete. -/
def ofComplete {α : Type} (result : Option α) : CheckM α :=
  match result with
  | some result => pure result
  | none => throw .incompleteType

/-- A type with its bindings followed to the end. -/
def solved (ty : Ty) : CheckM Ty := do ofComplete ((← get).subst.applied? ty)

/-- A type with bindings followed at its head. -/
def shallow (ty : Ty) : CheckM Ty := do ofComplete ((← get).subst.shallow? ty)

/-- A type with generics replaced by what they are bound to. -/
def applyParams (ty : Ty) : CheckM Ty := do ofComplete ((← get).subst.applyParams? ty)

/-- The text of a solved type. -/
def typeText (ty : Ty) : CheckM String := do ofComplete ((← get).typeText? ty)

abbrev quote (ty : Ty) : CheckM String := return "`" ++ (← typeText ty) ++ "`"

/-- The name of an item in quotes, or else its number. -/
def itemName (checker : Checker) (decl : DefId) : String :=
  match checker.nameOf decl with
  | some name => "`" ++ name ++ "`"
  | none => "item " ++ decl.text

/-- Adds a diagnostic to the log. -/
def report (diagnostic : Diagnostic) : CheckM Unit :=
  modify fun checker => { checker with log := checker.log.add diagnostic }

/-- Composes and adds a line if steps are traced. -/
def traceStep (line : CheckM String) : CheckM Unit := do
  if (← get).settings.trace then
    let text ← line
    modify fun checker => { checker with trace := checker.trace ++ [text] }

/-- A new variable. -/
def fresh : CheckM Ty :=
  modifyGet fun checker =>
    let (ty, supply) := checker.supply.fresh
    (ty, { checker with supply })

def freshList (count : Nat) : CheckM (List Ty) :=
  modifyGet fun checker =>
    let (types, supply) := checker.supply.freshList count
    (types, { checker with supply })

/-- Takes what is needed for a result from the supply, which stays used up if there is no result. -/
def withSupply {α : Type} (take : Supply → Option α × Supply) : CheckM α := do
  let result ← modifyGet fun checker =>
    let (result, supply) := take checker.supply
    (result, { checker with supply })
  ofComplete result

/-- A scheme with fresh variables for its parameters. -/
def instantiate (ty : Ty) : CheckM Ty := withSupply (·.instantiate ty)

/-- Makes two types equal, or says why they cannot be. -/
def unify (expected found : Ty) : CheckM (Option UnifyError) := do
  traceStep (return "unify " ++ (← typeText expected) ++ " ~ " ++ (← typeText found))
  let failure ← modifyGet fun checker =>
    let (subst, failure) := checker.subst.unify expected found
    (failure, { checker with subst })
  match failure with
  | some error =>
    if error.fault = .incomplete then throw .incompleteType
    traceStep (return "  failed: " ++ error.message)
  | none => pure ()
  return failure

/-- Binds a local at a type. -/
def bindLocal (id : LocalId) (name : String) (ty : Ty) (span : Span) (used : Bool) :
    CheckM Unit :=
  modify fun checker =>
    { checker with locals := checker.locals.bind id ⟨ty, name, span, used⟩ }

/-- Forgets a local. -/
def removeLocal (id : LocalId) : CheckM Unit :=
  modify fun checker => { checker with locals := checker.locals.remove id }

/-- Stops the check at a missing node. -/
def need {α : Type} (part : Option α) : CheckM α :=
  match part with
  | some part => pure part
  | none => throw .missingNode

abbrev spanOf (expr : Expr) : CheckM Span := need expr.span?

abbrev patternSpan (pattern : Pattern) : CheckM Span := need pattern.span?

end Checker

end TraitCheck
