import TraitCheck.Checker.Conformance
import TraitCheck.Checker.Infer

/-!
# Checking a module

A module is checked in three passes: its declarations are collected, its impls are compared with
their traits, and the body of each function is inferred against the signature of the function. The
state at the end answers questions about the module.
-/

namespace TraitCheck.Checker

/-- Warns about locals that are not used. -/
def checkUnused : CheckM Unit := do
  let checker ← get
  if checker.settings.warnUnused then
    checker.locals.values.forM fun info =>
      unless info.used || info.name.startsWith "_" do
        report ((Diagnostic.warning .unusedVariable info.span
          ("unused variable: `" ++ info.name ++ "`")).withHelp
          ("if this is intentional, prefix it with an underscore: `_" ++ info.name ++ "`"))

/-- Binds the generics of a function to fresh variables. -/
def bindGenerics (count : Nat) : CheckM Unit := do
  modify fun checker => { checker with subst := checker.subst.clearParams }
  (List.range count).forM fun position => do
    let ty ← fresh
    modify fun checker => { checker with subst := checker.subst.bindParam position ty }

/-- Binds the parameters of a function. -/
def bindSignature : List Param → List Ty → CheckM Unit
  | [], _ => pure ()
  | _ :: _, [] => throw .missingParam
  | param :: params, ty :: types => do
    bindLocal param.id param.name (← applyParams ty) param.span true
    bindSignature params types

def reportBody (item : FunctionItem) (signature : Signature) (result body : Ty)
    (error : UnifyError) : CheckM Unit := do
  let span ← spanOf item.body
  reportMismatch error result body span fun diagnostic => do
    if signature.declaredResult then
      return diagnostic.withLabel item.span
        ("expected " ++ (← quote result) ++ " because of the declared return type")
    else return diagnostic

/-- Compares the type of a body with the declared result. -/
def expectBody (item : FunctionItem) (signature : Signature) (result body : Ty) :
    CheckM Unit := do
  match ← unify result body with
  | none => pure ()
  | some error => reportBody item signature result body error

/-- Binds the generics and the parameters of a function, and returns its result type. -/
def enterBody (item : FunctionItem) (signature : Signature) : CheckM Ty := do
  modify fun checker => { checker with current := some item.span }
  traceStep (return "check " ++ item.name)
  bindGenerics item.generics.length
  bindSignature item.params signature.params
  applyParams signature.result

/-- Forgets the locals and generics of a function. -/
def leaveBody : CheckM Unit :=
  modify fun checker =>
    { checker with
      locals := checker.locals.reset, subst := checker.subst.clearParams, current := none }

/-- Checks the body of a function. -/
def checkBody (item : FunctionItem) (signature : Signature) : CheckM Unit := do
  let result ← enterBody item signature
  let body ← inferExpr item.body
  expectBody item signature result body
  checkUnused
  leaveBody

/-- Checks a function that has a signature and a body. -/
def checkFunction (item : FunctionItem) : CheckM Unit := do
  match (← get).signatures.find? item.id with
  | none => pure ()
  | some signature => unless item.body.isMissing do checkBody item signature

/-- Checks the items of a module. -/
def checkItems (items : List Item) : CheckM Unit := do
  collect items
  checkImpls
  (Item.functions items).forM checkFunction

/-- The diagnostic for a check that could not go on. The text behind the colon is a placeholder. -/
def faultDiagnostic (current : Option Span) : Diagnostic :=
  .error .internal (current.getD .empty) "internal checker error: <panic>"

/-- Checks a module from scratch. Where the check cannot go on, that is reported as well. -/
def check (settings : Settings) (module? : Option (List Item)) : Checker :=
  let run : CheckM Unit := do checkItems (← need module?)
  match run (initial settings) with
  | .ok _ checker => checker
  | .error _ checker => { checker with log := checker.log.add (faultDiagnostic checker.current) }

/-- The solved type of a function, if the function is declared; nothing at all if its type cannot be
solved. -/
def functionType? (checker : Checker) (decl : DefId) : Option (Option Ty) :=
  match checker.globals.find? decl with
  | none => some none
  | some ty => (checker.subst.applied? ty).map some

/-- The type of a field of a declared struct. -/
def structFieldType? (checker : Checker) (decl : DefId) (field : String) : Option Ty :=
  (checker.structs.find? decl).bind (·.field? field)

def structFields? (checker : Checker) (decl : DefId) : Option (List (String × Ty)) :=
  (checker.structs.find? decl).map (·.fields)

/-- The types of the fields of a declared variant. -/
def enumVariantTypes? (checker : Checker) (decl : DefId) (name : String) : Option (List Ty) :=
  ((checker.enums.find? decl).bind (·.variant? name)).map (·.fields)

def enumVariants? (checker : Checker) (decl : DefId) : Option (List Variant) :=
  (checker.enums.find? decl).map (·.variants)

/-- The expansion of an alias with arguments, and the state after it. A cyclic alias has none; there
is nothing at all where a type that is not complete stands in the way. -/
def resolveAlias (checker : Checker) (decl : DefId) (args : List Ty) :
    Option (Option Ty) × Checker :=
  match checker.aliases.find? decl with
  | none => (some none, checker)
  | some info =>
    if info.cyclic then (some none, checker)
    else
      let (ty, supply) := Alias.unfold checker.aliases info.target args checker.supply
      (ty.map some, { checker with supply })

end TraitCheck.Checker
