import TraitCheck.Checker.Collect
import TraitCheck.Checker.Coverage
import TraitCheck.Checker.Operator
import TraitCheck.Checker.Pattern

/-!
# Type inference

`inferExpr` finds the type of an expression. Its recursion follows the tree from left to right; the
rule for each kind of expression is a definition of its own that works on the types of the parts.
Where an expression is at fault, the fault is reported and a fresh variable stands for its type, so
that the check goes on.

The name of a `let` is generalised over the variables that neither the locals nor the signatures of
the module mention. Names bound by other patterns keep the type that the pattern gives them.
-/

namespace TraitCheck.Checker

/-- The variables that a `let` may not quantify: those free in the types of the locals and of the
functions. -/
def environmentVars : CheckM (List VarId) := do
  let checker ← get
  let types := checker.locals.values.map (·.ty) ++ checker.globals.values
  let free ← types.mapM fun ty => return (← ofComplete (← solved ty).complete?).vars
  return free.flatten

/-- The type of a local, which counts as used from then on. -/
def inferLocal (id : LocalId) (span : Span) : CheckM Ty := do
  match (← get).locals.find? id with
  | none =>
    reportUnbound span ("value " ++ id.text)
    fresh
  | some info =>
    modify fun checker => { checker with locals := checker.locals.refer id }
    instantiate info.ty

/-- The type of a function by its number. -/
def inferGlobal (decl : DefId) (span : Span) : CheckM Ty := do
  let checker ← get
  match checker.globals.find? decl with
  | some ty => instantiate ty
  | none =>
    if checker.structs.contains decl then
      report (.error .unboundVariable span
        ("expected value, found struct " ++ checker.itemName decl))
    else reportUnbound span ("value " ++ checker.itemName decl)
    fresh

/-- Binds the parameters of a lambda. -/
def bindParams : List Param → CheckM (List Ty)
  | [] => return []
  | param :: rest => do
    let ty ← resolveType param.ty
    bindLocal param.id param.name ty param.span true
    return ty :: (← bindParams rest)

/-- The type of a field of a record or struct. -/
def fieldType? (base : Ty) (name : String) : CheckM (Option Ty) := do
  match base with
  | .record fields => recordField? fields name
  | .named decl args =>
    match (← get).structs.find? decl with
    | some info => structField? info args name
    | none => return none
  | _ => return none

/-- The type of a field access. -/
def inferField (base : Expr) (name : String) (span : Span) (baseTy : Ty) : CheckM Ty := do
  let base' ← solved baseTy
  let found ← fieldType? base' name
  match found, base' with
  | some ty, _ => return ty
  | none, .var _ =>
    reportAmbiguous (← spanOf base) ("to access field `" ++ name ++ "`")
    fresh
  | none, _ =>
    reportUnknownField span name base'
    fresh

/-- The type of an element of a tuple. -/
def inferElement (base : Expr) (position : Int) (span : Span) (baseTy : Ty) : CheckM Ty := do
  let base' ← solved baseTy
  let found := match base' with
    | .tuple elems => if position < 0 then none else elems[position.toNat]?
    | _ => none
  match found, base' with
  | some ty, _ => return ty
  | none, .var _ =>
    reportAmbiguous (← spanOf base) ("to access element " ++ toString position)
    fresh
  | none, _ =>
    reportUnknownField span (toString position) base'
    fresh

def reportCallArity (callee : Expr) (taken supplied : Nat) (span : Span) : CheckM Unit := do
  let diagnostic := (Diagnostic.error .typeMismatch span
    ("this function" ++ takesButSupplied taken supplied)).withPrimaryMessage
      ("expected " ++ argCount taken)
  let spans := (← get).spans
  let defined := match callee with
    | .globalRef decl _ => spans.find? decl
    | _ => none
  report (defined.elim diagnostic fun span => diagnostic.withLabel span "function defined here")

/-- The type of a call. -/
def inferCall (callee : Expr) (span : Span) (calleeTy : Ty) (args : List Ty) : CheckM Ty := do
  let result ← fresh
  let wanted := Ty.fn args result
  match ← unify calleeTy wanted with
  | none => pure ()
  | some error =>
    match ← shallow calleeTy with
    | .fn params _ =>
      if error.fault = .arityMismatch ∧ params.length ≠ args.length then
        reportCallArity callee params.length args.length span
      else reportMismatch error calleeTy wanted span pure
    | .var _ => reportMismatch error calleeTy wanted span pure
    | _ =>
      report ((Diagnostic.error .typeMismatch (← spanOf callee)
        ("expected function, found " ++ (← quote calleeTy))).withPrimaryMessage
          "call expression requires a function")
  return result

def reportNoMethod (receiver : Expr) (method : String) (span : Span) (self : Ty) :
    CheckM Unit := do
  match self with
  | .var _ => reportAmbiguous (← spanOf receiver) ("to call method `" ++ method ++ "`")
  | _ =>
    report ((Diagnostic.error .missingMethod span
      ("no method named `" ++ method ++ "` found for type " ++ (← quote self))).withPrimaryMessage
        "method not found")

/-- Reports a call that does not fit the method found. -/
def reportResolved (methodTy wanted : Ty) (method : String) (span : Span) (args : List Ty)
    (error : UnifyError) : CheckM Unit := do
  match error.fault, ← shallow methodTy with
  | .arityMismatch, .fn params _ =>
    if params.length ≠ args.length + 1 then
      report (.error .typeMismatch span
        ("method `" ++ method ++ "`" ++ takesButSupplied (params.length - 1) args.length))
    else reportMismatch error methodTy wanted span pure
  | _, _ => reportMismatch error methodTy wanted span pure

/-- The type of a call of a method that was found for a self type, given the types of the receiver
and the arguments. -/
def inferResolved (resolution : Resolution) (self : Ty) (method : String) (span : Span)
    (receiverTy : Ty) (args : List Ty) : CheckM Ty := do
  let result ← fresh
  let methodTy ← instantiate (← ofComplete (resolution.ty? self))
  let wanted := Ty.fn (receiverTy :: args) result
  match ← unify methodTy wanted with
  | none => pure ()
  | some error => reportResolved methodTy wanted method span args error
  return result

abbrev traceResolution (self : Ty) (method : String) (resolution : Resolution) : CheckM Unit :=
  traceStep (return "method " ++ (← typeText self) ++ "." ++ method ++ " resolved to impl " ++
    resolution.impl.decl.text)

/-- The type of a method call. -/
def inferMethodCall (receiver : Expr) (method : String) (span : Span) (receiverTy : Ty)
    (args : List Ty) : CheckM Ty := do
  let self ← solved receiverTy
  match ← ofComplete ((← get).registry.resolveMethod? self method) with
  | none =>
    reportNoMethod receiver method span self
    fresh
  | some resolution =>
    traceResolution self method resolution
    inferResolved resolution self method span receiverTy args

/-- Names in words: `a`, `a and b`, `a, b and c`. -/
def enumerated : List String → String
  | [] => ""
  | [name] => name
  | [first, last] => first ++ " and " ++ last
  | name :: rest => name ++ ", " ++ enumerated rest

abbrev reportMissingFields (info : StructInfo) (seen : List String) (span : Span) :
    CheckM Unit := do
  let missing := (info.fields.filter fun field => !seen.contains field.1).map fun field =>
    "`" ++ field.1 ++ "`"
  unless missing.isEmpty do
    report (.error .missingField span
      ("missing " ++ (if missing.length = 1 then "field " else "fields ") ++ enumerated missing ++
        " in initializer of `" ++ info.name ++ "`"))

abbrev reportUndeclared (info : StructInfo) (field : Field Expr) : CheckM Unit :=
  report (.error .unknownField field.span
    ("struct `" ++ info.name ++ "` has no field named `" ++ field.name ++ "`"))

abbrev reportSetTwice (field : Field Expr) : CheckM Unit :=
  report (.error .unknownField field.span
    ("field `" ++ field.name ++ "` specified more than once"))

/-- Checks one field of a struct literal, given the type of its value. Returns the fields set so
far. -/
def checkInitializer (info : StructInfo) (generics : List Ty) (seen : List String)
    (field : Field Expr) (ty : Ty) : CheckM (List String) := do
  match info.field? field.name with
  | none =>
    reportUndeclared info field
    return seen
  | some declared =>
    if seen.contains field.name then
      reportSetTwice field
      return seen
    else
      expect (← ofComplete (declared.substParams? generics)) ty (← spanOf field.content)
      return seen ++ [field.name]

/-- Compares the arguments of a variant with its fields. -/
def expectArgs : (declared : List Ty) → (found : List Ty) → List Expr → CheckM Unit
  | declared :: declareds, found :: founds, arg :: args => do
    expect declared found (← spanOf arg)
    expectArgs declareds founds args
  | _, _, _ => pure ()

abbrev reportNoVariant (info : EnumInfo) (name : String) (span : Span) : CheckM Unit :=
  report (.error .unknownField span
    ("no variant named `" ++ name ++ "` in enum `" ++ info.name ++ "`"))

abbrev reportVariantArity (info : EnumInfo) (variant : Variant) (supplied : Nat) (span : Span) :
    CheckM Unit :=
  report (.error .typeMismatch span
    ("variant `" ++ info.name ++ "::" ++ variant.name ++ "`" ++
      takesButSupplied variant.fields.length supplied))

/-- The type of a variant with arguments. -/
def inferVariant (decl : DefId) (name : String) (args : List Expr) (span : Span)
    (types : List Ty) : CheckM Ty := do
  let checker ← get
  match checker.enums.find? decl with
  | none =>
    reportUnbound span ("enum " ++ checker.itemName decl)
    fresh
  | some info =>
    let generics ← freshList info.generics.length
    match info.variant? name with
    | none => reportNoVariant info name span
    | some variant =>
      if variant.fields.length ≠ args.length then reportVariantArity info variant args.length span
      expectArgs (variant.fields.map (·.substParams generics)) types args
    return .named decl generics

/-- Makes the type of an else branch that of the conditional. -/
def expectElse (thenBranch elseBranch : Expr) (result elseTy : Ty) : CheckM Unit := do
  match ← unify result elseTy with
  | none => pure ()
  | some error =>
    let elseSpan ← spanOf elseBranch
    let thenSpan ← spanOf thenBranch
    reportMismatch error result elseTy elseSpan fun diagnostic =>
      return (diagnostic.withLabel thenSpan "expected because of this").withNote
        "`if` and `else` have incompatible types"

def reportArm (result bodyTy : Ty) (body : Expr) (first : Span) (error : UnifyError) :
    CheckM Unit := do
  let span ← spanOf body
  reportMismatch error result bodyTy span fun diagnostic =>
    return (diagnostic.withLabel first
      ("this is found to be of type " ++ (← quote result))).withNote
      "`match` arms have incompatible types"

/-- Makes the type of an arm that of the match. -/
def expectArm (result bodyTy : Ty) (body : Expr) (first : Span) : CheckM Unit := do
  match ← unify result bodyTy with
  | none => pure ()
  | some error => reportArm result bodyTy body first error

/-- Binds the pattern of a `let`, generalising a name. -/
def bindLet (pattern : Pattern) (ty : Ty) : CheckM Unit := do
  match pattern with
  | .bind id name span =>
    let environment ← environmentVars
    let scheme ← ofComplete ((← get).subst.generalize? environment ty)
    traceStep do
      let text ← ofComplete (scheme.render? (← get).nameOf)
      return "generalize " ++ name ++ " : " ++ text
    bindLocal id name scheme span false
  | pattern => checkPattern pattern ty

mutual

/-- The type of an expression. -/
def inferExpr : Expr → CheckM Ty
  | .missing => return .unit
  | .literal value => return .prim value.kind.prim
  | .localRef id span => inferLocal id span
  | .globalRef decl span => inferGlobal decl span
  | .list elems _ => do
    let elem ← fresh
    inferElements elem elems
    return .list elem
  | .tuple elems _ => return .tuple (← inferAll elems)
  | .record fields _ => return .record (← inferRecord [] fields)
  | .structLit decl fields span => do
    match (← get).structs.find? decl with
    | none =>
      inferInitializers fields
      reportUnbound span ("struct " ++ (← get).itemName decl)
      fresh
    | some info =>
      let generics ← freshList info.generics.length
      let seen ← checkInitializers info generics [] fields
      reportMissingFields info seen span
      return .named decl generics
  | .variant decl name args span => do
    let types ← inferAll args
    inferVariant decl name args span types
  | .lambda params body _ => do
    let types ← bindParams params
    let result ← inferExpr body
    params.forM fun param => removeLocal param.id
    return .fn types result
  | .call callee args span => do
    let calleeTy ← inferExpr callee
    let types ← inferAll args
    inferCall callee span calleeTy types
  | .methodCall receiver method args span => do
    let receiverTy ← inferExpr receiver
    let types ← inferAll args
    inferMethodCall receiver method span receiverTy types
  | .fieldAccess base name span => do
    let baseTy ← inferExpr base
    inferField base name span baseTy
  | .tupleIndex base position span => do
    let baseTy ← inferExpr base
    inferElement base position span baseTy
  | .binary op left right span => do
    match op.class? with
    | none =>
      reportUnsupported span
      fresh
    | some rule =>
      let leftTy ← inferExpr left
      let rightTy ← inferExpr right
      inferOperation rule op left right span leftTy rightTy
  | .unary op operand span => do
    let operandTy ← inferExpr operand
    inferUnary op operand span operandTy
  | .conditional condition thenBranch elseBranch _ => do
    let conditionTy ← inferExpr condition
    expect .bool conditionTy (← spanOf condition)
    let thenTy ← inferExpr thenBranch
    if elseBranch.isMissing then
      expect .unit thenTy (← spanOf thenBranch)
      return .unit
    else
      let result ← fresh
      let _ ← unify result thenTy
      let elseTy ← inferExpr elseBranch
      expectElse thenBranch elseBranch result elseTy
      return result
  | .matchOn scrutinee arms span => do
    let scrutineeTy ← inferExpr scrutinee
    let result ← fresh
    inferArms scrutineeTy result none arms
    checkCoverage scrutinee arms span scrutineeTy
    return result
  | .block stmts tail _ => do
    checkStmts stmts
    inferExpr tail
  | .ascribe expr ty _ => do
    let ascribed ← resolveType ty
    let found ← inferExpr expr
    expect ascribed found (← spanOf expr)
    return ascribed
  | .foreign _ span => do
    reportUnsupported span
    fresh

/-- The types of expressions, from left to right. -/
def inferAll : List Expr → CheckM (List Ty)
  | [] => return []
  | expr :: rest => do
    let ty ← inferExpr expr
    return ty :: (← inferAll rest)

/-- Gives all elements of a list one type. -/
def inferElements (elem : Ty) : List Expr → CheckM Unit
  | [] => pure ()
  | expr :: rest => do
    let ty ← inferExpr expr
    expect elem ty (← spanOf expr)
    inferElements elem rest

/-- The types of the fields of a record literal, added to those before. The first field of a label
counts. -/
def inferRecord (row : Row) : List (Field Expr) → CheckM Row
  | [] => return row
  | ⟨name, value, span⟩ :: rest => do
    let ty ← inferExpr value
    if Row.contains name row then
      report (.error .unknownField span ("field `" ++ name ++ "` specified more than once"))
      inferRecord row rest
    else inferRecord (Row.insert name ty row) rest

/-- Infers the values of the fields of a struct literal for their effects only. -/
def inferInitializers : List (Field Expr) → CheckM Unit
  | [] => pure ()
  | ⟨_, value, _⟩ :: rest => do
    let _ ← inferExpr value
    inferInitializers rest

/-- Checks the fields of a struct literal. -/
def checkInitializers (info : StructInfo) (generics : List Ty) (seen : List String) :
    List (Field Expr) → CheckM (List String)
  | [] => return seen
  | ⟨name, value, span⟩ :: rest => do
    let ty ← inferExpr value
    let seen ← checkInitializer info generics seen ⟨name, value, span⟩ ty
    checkInitializers info generics seen rest

/-- Checks the arms of a match. `first` is the place of the first body, once there is one. -/
def inferArms (scrutinee result : Ty) (first : Option Span) : List Arm → CheckM Unit
  | [] => pure ()
  | .mk pattern guard body _ :: rest => do
    checkPattern pattern scrutinee
    unless guard.isMissing do
      let guardTy ← inferExpr guard
      expect .bool guardTy (← spanOf guard)
    let bodyTy ← inferExpr body
    let first ← match first with
      | some span => pure span
      | none => spanOf body
    expectArm result bodyTy body first
    inferArms scrutinee result (some first) rest

/-- Checks the statements of a block. -/
def checkStmts : List Stmt → CheckM Unit
  | [] => pure ()
  | .missing :: _ => throw .missingNode
  | .letBind pattern ty value _ :: rest => do
    let valueTy ← inferExpr value
    if ty.isDeclared then
      let declared ← resolveType ty
      expect declared valueTy (← spanOf value)
      bindLet pattern declared
    else bindLet pattern valueTy
    checkStmts rest
  | .run expr _ :: rest => do
    let _ ← inferExpr expr
    checkStmts rest
  | .foreign _ span :: rest => do
    reportUnsupported span
    checkStmts rest

end

end TraitCheck.Checker
