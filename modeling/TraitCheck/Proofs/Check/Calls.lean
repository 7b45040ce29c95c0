import TraitCheck.Checker.Module
import TraitCheck.Proofs.Inference.Steps

/-!
# The calls of a check

A check is one deep recursion, and a statement about every moment of it needs names for the moments.
A `Task` is a call of one procedure with its arguments. `Task.walk` is the body of that procedure
with each call that it makes recorded, together with the state in which the call starts, and
`Reached` collects the calls that can be reached in this way from checking the module.
-/

namespace TraitCheck.Checker

/-- A call of a procedure of the checker with its arguments, by the type of what it returns. -/
inductive Task : Type → Type where
  | items (all : List Item) : Task Unit
  | collect (all : List Item) : Task Unit
  | declare (item : Item) : Task Unit
  | aliasCycles (aliases : List AliasItem) : Task Unit
  | members (item : Item) : Task Unit
  | field (item : StructItem) (entry : Field Ty) : Task Unit
  | variant (item : EnumItem) (entry : Field (List Ty)) : Task Unit
  | signature (item : FunctionItem) : Task Unit
  | trait (item : TraitItem) : Task Unit
  | method (decl : MethodDecl) : Task MethodDecl
  | assoc (decl : AssocDecl) : Task AssocDecl
  | impl (item : ImplItem) : Task Unit
  | binding (entry : Field Ty) : Task (Field Ty)
  | resolve (ty : Ty) : Task Ty
  | impls : Task Unit
  | conformance (declared : Trait) (provided : Impl) : Task Unit
  | implMethod (declared : Trait) (provided : Impl) (entry : ImplMethod) : Task Unit
  | function (item : FunctionItem) : Task Unit
  | body (item : FunctionItem) (types : Signature) : Task Unit
  | expr (node : Expr) : Task Ty
  | exprs (nodes : List Expr) : Task (List Ty)
  | elements (elem : Ty) (nodes : List Expr) : Task Unit
  | record (row : Row) (entries : List (Field Expr)) : Task Row
  | initializers (entries : List (Field Expr)) : Task Unit
  | structFields (info : StructInfo) (generics : List Ty) (seen : List String)
      (entries : List (Field Expr)) : Task (List String)
  | initializer (info : StructInfo) (generics : List Ty) (seen : List String) (entry : Field Expr)
      (ty : Ty) : Task (List String)
  | variantLit (decl : DefId) (name : String) (nodes : List Expr) (span : Span)
      (types : List Ty) : Task Ty
  | args (declared found : List Ty) (nodes : List Expr) : Task Unit
  | params (binders : List Param) : Task (List Ty)
  | apply (callee : Expr) (span : Span) (calleeTy : Ty) (types : List Ty) : Task Ty
  | methodCall (receiver : Expr) (name : String) (span : Span) (receiverTy : Ty)
      (types : List Ty) : Task Ty
  | resolved (resolution : Resolution) (self : Ty) (name : String) (span : Span) (receiverTy : Ty)
      (types : List Ty) : Task Ty
  | operation (rule : OperatorClass) (op : BinaryOp) (left right : Expr) (span : Span)
      (leftTy rightTy : Ty) : Task Ty
  | operands (op : BinaryOp) (left right : Expr) (leftTy rightTy : Ty) : Task Bool
  | pipe (right : Expr) (leftTy rightTy : Ty) : Task Ty
  | unary (op : UnaryOp) (operand : Expr) (span : Span) (operandTy : Ty) : Task Ty
  | arms (scrutinee result : Ty) (first : Option Span) (cases : List Arm) : Task Unit
  | coverage (scrutineeExpr : Expr) (cases : List Arm) (span : Span) (scrutinee : Ty) : Task Unit
  | stmts (lines : List Stmt) : Task Unit
  | letBind (shape : Pattern) (ty : Ty) : Task Unit
  | pattern (shape : Pattern) (expected : Ty) : Task Unit
  | patterns (shapes : List Pattern) (types : List Ty) : Task Unit
  | untyped (shapes : List Pattern) : Task Unit
  | fields (entries : List (Field Pattern)) (types : List Ty) : Task Unit
  | knownFields (find : String → CheckM (Option Ty)) (expected : Ty)
      (entries : List (Field Pattern)) : Task Unit
  | expect (expected found : Ty) (span : Span) : Task Unit
  | unify (expected found : Ty) : Task (Option UnifyError)

namespace Task

/-- The procedure that a task stands for. -/
def run : {α : Type} → Task α → CheckM α
  | _, items all => checkItems all
  | _, collect all => Checker.collect all
  | _, declare item => declareItem item
  | _, aliasCycles aliases => checkAliasCycles aliases
  | _, members item => collectMembers item
  | _, field item entry => collectField item entry
  | _, variant item entry => collectVariant item entry
  | _, signature item => collectSignature item
  | _, trait item => collectTrait item
  | _, method decl => collectMethod decl
  | _, assoc decl => collectAssoc decl
  | _, impl item => collectImpl item
  | _, binding entry => collectBinding entry
  | _, resolve ty => resolveType ty
  | _, impls => checkImpls
  | _, conformance declared provided => checkImpl declared provided
  | _, implMethod declared provided entry => checkImplMethod declared provided entry
  | _, function item => checkFunction item
  | _, body item types => checkBody item types
  | _, expr node => inferExpr node
  | _, exprs nodes => inferAll nodes
  | _, elements elem nodes => inferElements elem nodes
  | _, record row entries => inferRecord row entries
  | _, initializers entries => inferInitializers entries
  | _, structFields info generics seen entries => checkInitializers info generics seen entries
  | _, initializer info generics seen entry ty => checkInitializer info generics seen entry ty
  | _, variantLit decl name nodes span types => inferVariant decl name nodes span types
  | _, args declared found nodes => expectArgs declared found nodes
  | _, params binders => bindParams binders
  | _, apply callee span calleeTy types => inferCall callee span calleeTy types
  | _, methodCall receiver name span receiverTy types =>
    inferMethodCall receiver name span receiverTy types
  | _, resolved resolution self name span receiverTy types =>
    inferResolved resolution self name span receiverTy types
  | _, operation rule op left right span leftTy rightTy =>
    inferOperation rule op left right span leftTy rightTy
  | _, operands op left right leftTy rightTy => unifyOperands op left right leftTy rightTy
  | _, pipe right leftTy rightTy => inferPipe right leftTy rightTy
  | _, unary op operand span operandTy => inferUnary op operand span operandTy
  | _, arms scrutinee result first cases => inferArms scrutinee result first cases
  | _, coverage scrutineeExpr cases span scrutinee =>
    checkCoverage scrutineeExpr cases span scrutinee
  | _, stmts lines => checkStmts lines
  | _, letBind shape ty => bindLet shape ty
  | _, pattern shape expected => checkPattern shape expected
  | _, patterns shapes types => checkPatterns shapes types
  | _, untyped shapes => checkUntyped shapes
  | _, fields entries types => checkFields entries types
  | _, knownFields find expected entries => checkKnownFields find expected entries
  | _, expect expected found span => Checker.expect expected found span
  | _, unify expected found => Checker.unify expected found

end Task

/-- A procedure with the state in which it is called. -/
structure Call where
  {Result : Type}
  task : Task Result
  start : Checker

/-- A step that records the calls it makes. -/
def Walk (α : Type) : Type 1 := Checker → EStateM.Result Fault Checker α × List Call

theorem compare_bind {α : Type} (expected found : Ty) (handle : UnifyError → CheckM Unit)
    (next : Unit → CheckM α) :
    (compare expected found handle >>= next) = (do
      match ← unify expected found with
      | none => next ()
      | some error => do
        handle error
        next ()) := by
  unfold compare
  rw [bind_assoc]
  refine congrArg _ (funext fun failure => ?_)
  cases failure <;> rfl

namespace Walk

variable {α β : Type}

/-- What a walk does when nothing is recorded. -/
def run (walk : Walk α) : CheckM α := fun before => (walk before).1

/-- The calls made from a state, in order. -/
def calls (walk : Walk α) (before : Checker) : List Call := (walk before).2

/-- One walk after the other, with the calls of both. -/
def bind (walk : Walk α) (next : α → Walk β) : Walk β := fun before =>
  match walk before with
  | (.ok value middle, calls) => ((next value middle).1, calls ++ (next value middle).2)
  | (.error fault after, calls) => (.error fault after, calls)

instance : Monad Walk where
  pure value := fun before => (.ok value before, [])
  bind := bind

theorem id_map (walk : Walk α) : id <$> walk = walk := by
  funext before
  change Walk.bind walk (fun value before => (.ok value before, [])) before = walk before
  unfold Walk.bind
  rcases walk before with ⟨_ | _, calls⟩ <;> simp

theorem bind_bind {γ : Type} (walk : Walk α) (next : α → Walk β) (last : β → Walk γ) :
    walk >>= next >>= last = walk >>= fun value => next value >>= last := by
  funext before
  change Walk.bind (Walk.bind walk next) last before =
    Walk.bind walk (fun value => Walk.bind (next value) last) before
  unfold Walk.bind
  rcases walk before with ⟨⟨value, middle⟩ | _, calls⟩
  · rcases reached : next value middle with ⟨_ | _, more⟩ <;> simp [reached]
  · rfl

instance : LawfulMonad Walk := .mk' Walk id_map (fun _ _ => rfl) bind_bind

/-- A step that calls no procedure. -/
def step (plain : CheckM α) : Walk α := fun before => (plain before, [])

/-- The call of a procedure. -/
def call (task : Task α) : Walk α := fun before => (task.run before, [⟨task, before⟩])

/-- Compares two types and handles a failure. -/
def compare (expected found : Ty) (handle : UnifyError → CheckM Unit) : Walk Unit := do
  match ← call (.unify expected found) with
  | none => pure ()
  | some error => step (handle error)

@[simp]
theorem run_pure (value : α) : run (pure value) = (pure value : CheckM α) := rfl

@[simp]
theorem run_bind (walk : Walk α) (next : α → Walk β) :
    run (walk >>= next) = (run walk >>= fun value => run (next value)) := by
  funext before
  change (Walk.bind walk next before).1 = EStateM.bind (run walk) (fun value => run (next value))
    before
  unfold Walk.bind EStateM.bind run
  rcases walk before with ⟨_ | _, calls⟩ <;> rfl

@[simp]
theorem run_map (change : α → β) (walk : Walk α) : run (change <$> walk) = change <$> run walk := by
  rw [← bind_pure_comp, ← bind_pure_comp, run_bind]
  rfl

@[simp]
theorem run_step (plain : CheckM α) : run (step plain) = plain := rfl

@[simp]
theorem run_call (task : Task α) : run (call task) = task.run := rfl

@[simp]
theorem run_ite (condition : Prop) [Decidable condition] (yes no : Walk α) :
    run (if condition then yes else no) = if condition then run yes else run no := by
  split <;> rfl

@[simp]
theorem run_compare (expected found : Ty) (handle : UnifyError → CheckM Unit) :
    run (compare expected found handle) = Checker.compare expected found handle := by
  unfold compare
  rw [run_bind]
  change (Checker.unify expected found >>= _) = (Checker.unify expected found >>= _)
  refine congrArg _ (funext fun failure => ?_)
  cases failure <;> rfl

@[simp]
theorem run_forM (each : α → Walk Unit) (list : List α) :
    run (list.forM each) = list.forM fun value => run (each value) := by
  induction list with
  | nil => rfl
  | cons value rest ih =>
    simp only [List.forM, run_bind]
    rw [ih]

@[simp]
theorem run_mapM (each : α → Walk β) (list : List α) :
    run (list.mapM each) = list.mapM fun value => run (each value) := by
  induction list with
  | nil => simp
  | cons value rest ih => simp only [List.mapM_cons, run_bind, run_pure, ih]

end Walk

/-- How branches of different types are reported. -/
def reportElse (thenBranch elseBranch : Expr) (result elseTy : Ty) (error : UnifyError) :
    CheckM Unit := do
  let elseSpan ← spanOf elseBranch
  let thenSpan ← spanOf thenBranch
  reportMismatch error result elseTy elseSpan fun diagnostic =>
    return (diagnostic.withLabel thenSpan "expected because of this").withNote
      "`if` and `else` have incompatible types"

namespace Walk

def ofMembers : Item → Walk Unit
  | .struct item => item.fields.forM fun entry => call (.field item entry)
  | .enum item => item.variants.forM fun entry => call (.variant item entry)
  | _ => pure ()

def ofImplMethod (declared : Trait) (provided : Impl) (entry : ImplMethod) : Walk Unit :=
  match declared.method? entry.name with
  | none => pure ()
  | some decl => do
    let wanted ← step (ofComplete (decl.signature? provided.implementer))
    let found ← step (instantiate entry.ty)
    compare wanted found (reportNonconforming declared decl entry wanted found)

def ofExpr : Expr → Walk Ty
  | .missing => pure .unit
  | .literal value => pure (.prim value.kind.prim)
  | .localRef id span => step (inferLocal id span)
  | .globalRef decl span => step (inferGlobal decl span)
  | .list elems _ => do
    let elem ← step fresh
    call (.elements elem elems)
    return .list elem
  | .tuple elems _ => do
    let types ← call (.exprs elems)
    return .tuple types
  | .record fields _ => do
    let row ← call (.record [] fields)
    return .record row
  | .structLit decl fields span => do
    match (← step get).structs.find? decl with
    | none =>
      call (.initializers fields)
      step (do reportUnbound span ("struct " ++ (← get).itemName decl))
      step fresh
    | some info =>
      let generics ← step (freshList info.generics.length)
      let seen ← call (.structFields info generics [] fields)
      step (reportMissingFields info seen span)
      return .named decl generics
  | .variant decl name args span => do
    let types ← call (.exprs args)
    call (.variantLit decl name args span types)
  | .lambda params body _ => do
    let types ← call (.params params)
    let result ← call (.expr body)
    step (params.forM fun param => removeLocal param.id)
    return .fn types result
  | .call callee args span => do
    let calleeTy ← call (.expr callee)
    let types ← call (.exprs args)
    call (.apply callee span calleeTy types)
  | .methodCall receiver method args span => do
    let receiverTy ← call (.expr receiver)
    let types ← call (.exprs args)
    call (.methodCall receiver method span receiverTy types)
  | .fieldAccess base name span => do
    let baseTy ← call (.expr base)
    step (inferField base name span baseTy)
  | .tupleIndex base position span => do
    let baseTy ← call (.expr base)
    step (inferElement base position span baseTy)
  | .binary op left right span =>
    match op.class? with
    | none => do
      step (reportUnsupported span)
      step fresh
    | some rule => do
      let leftTy ← call (.expr left)
      let rightTy ← call (.expr right)
      call (.operation rule op left right span leftTy rightTy)
  | .unary op operand span => do
    let operandTy ← call (.expr operand)
    call (.unary op operand span operandTy)
  | .conditional condition thenBranch elseBranch _ => do
    let conditionTy ← call (.expr condition)
    call (.expect .bool conditionTy (← step (spanOf condition)))
    let thenTy ← call (.expr thenBranch)
    if elseBranch.isMissing then
      call (.expect .unit thenTy (← step (spanOf thenBranch)))
      return .unit
    else
      let result ← step fresh
      let _ ← call (.unify result thenTy)
      let elseTy ← call (.expr elseBranch)
      compare result elseTy (reportElse thenBranch elseBranch result elseTy)
      return result
  | .matchOn scrutinee arms span => do
    let scrutineeTy ← call (.expr scrutinee)
    let result ← step fresh
    call (.arms scrutineeTy result none arms)
    call (.coverage scrutinee arms span scrutineeTy)
    return result
  | .block stmts tail _ => do
    call (.stmts stmts)
    call (.expr tail)
  | .ascribe expr ty _ => do
    let ascribed ← call (.resolve ty)
    let found ← call (.expr expr)
    call (.expect ascribed found (← step (spanOf expr)))
    return ascribed
  | .foreign _ span => do
    step (reportUnsupported span)
    step fresh

def ofExprs : List Expr → Walk (List Ty)
  | [] => pure []
  | node :: rest => do
    let ty ← call (.expr node)
    let types ← call (.exprs rest)
    return ty :: types

def ofElements (elem : Ty) : List Expr → Walk Unit
  | [] => pure ()
  | node :: rest => do
    let ty ← call (.expr node)
    call (.expect elem ty (← step (spanOf node)))
    call (.elements elem rest)

def ofRecord (row : Row) : List (Field Expr) → Walk Row
  | [] => pure row
  | ⟨name, value, span⟩ :: rest => do
    let ty ← call (.expr value)
    if Row.contains name row then
      step (report (.error .unknownField span ("field `" ++ name ++ "` specified more than once")))
      call (.record row rest)
    else call (.record (Row.insert name ty row) rest)

def ofInitializers : List (Field Expr) → Walk Unit
  | [] => pure ()
  | ⟨_, value, _⟩ :: rest => do
    let _ ← call (.expr value)
    call (.initializers rest)

def ofStructFields (info : StructInfo) (generics : List Ty) (seen : List String) :
    List (Field Expr) → Walk (List String)
  | [] => pure seen
  | ⟨name, value, span⟩ :: rest => do
    let ty ← call (.expr value)
    let seen ← call (.initializer info generics seen ⟨name, value, span⟩ ty)
    call (.structFields info generics seen rest)

def ofInitializer (info : StructInfo) (generics : List Ty) (seen : List String)
    (entry : Field Expr) (ty : Ty) : Walk (List String) :=
  match info.field? entry.name with
  | none => do
    step (reportUndeclared info entry)
    return seen
  | some declared =>
    if seen.contains entry.name then do
      step (reportSetTwice entry)
      return seen
    else do
      let wanted ← step (ofComplete (declared.substParams? generics))
      call (.expect wanted ty (← step (spanOf entry.content)))
      return seen ++ [entry.name]

def ofVariantLit (decl : DefId) (name : String) (nodes : List Expr) (span : Span)
    (types : List Ty) : Walk Ty := do
  let checker ← step get
  match checker.enums.find? decl with
  | none =>
    step (reportUnbound span ("enum " ++ checker.itemName decl))
    step fresh
  | some info =>
    let generics ← step (freshList info.generics.length)
    match info.variant? name with
    | none => step (reportNoVariant info name span)
    | some variant =>
      if variant.fields.length ≠ nodes.length then
        step (reportVariantArity info variant nodes.length span)
      call (.args (variant.fields.map (·.substParams generics)) types nodes)
    return .named decl generics

def ofArgs : (declared found : List Ty) → List Expr → Walk Unit
  | wanted :: declared, ty :: found, node :: nodes => do
    call (.expect wanted ty (← step (spanOf node)))
    call (.args declared found nodes)
  | _, _, _ => pure ()

def ofParams : List Param → Walk (List Ty)
  | [] => pure []
  | param :: rest => do
    let ty ← call (.resolve param.ty)
    step (bindLocal param.id param.name ty param.span true)
    let types ← call (.params rest)
    return ty :: types

def ofApply (callee : Expr) (span : Span) (calleeTy : Ty) (types : List Ty) : Walk Ty := do
  let result ← step fresh
  compare calleeTy (.fn types result) fun error => do
    reportCall callee span calleeTy (.fn types result) types error (← shallow calleeTy)
  return result

def ofMethodCall (receiver : Expr) (name : String) (span : Span) (receiverTy : Ty)
    (types : List Ty) : Walk Ty := do
  let self ← step (solved receiverTy)
  match ← step (ofComplete ((← step get).registry.resolveMethod? self name)) with
  | none =>
    step (reportNoMethod receiver name span self)
    step fresh
  | some resolution =>
    step (traceResolution self name resolution)
    call (.resolved resolution self name span receiverTy types)

def ofResolved (resolution : Resolution) (self : Ty) (name : String) (span : Span)
    (receiverTy : Ty) (types : List Ty) : Walk Ty := do
  let result ← step fresh
  let declared ← step (ofComplete (resolution.ty? self))
  let methodTy ← step (instantiate declared)
  compare methodTy (.fn (receiverTy :: types) result)
    (reportResolved methodTy (.fn (receiverTy :: types) result) name span types)
  return result

def ofOperands (op : BinaryOp) (left right : Expr) (leftTy rightTy : Ty) : Walk Bool := do
  match ← call (.unify leftTy rightTy) with
  | none => return true
  | some error =>
    step (reportOperands op left right leftTy rightTy error)
    return false

def ofPipe (right : Expr) (leftTy rightTy : Ty) : Walk Ty := do
  let result ← step fresh
  compare rightTy (.fn [leftTy] result) (reportPipe right (.fn [leftTy] result) rightTy)
  return result

def ofOperation (rule : OperatorClass) (op : BinaryOp) (left right : Expr) (span : Span)
    (leftTy rightTy : Ty) : Walk Ty :=
  match rule with
  | .arithmetic => do
    if ← call (.operands op left right leftTy rightTy) then
      step (checkArithmetic op leftTy span)
    return leftTy
  | .comparison => do
    let _ ← call (.operands op left right leftTy rightTy)
    return .bool
  | .logical => do
    call (.expect .bool leftTy (← step (spanOf left)))
    call (.expect .bool rightTy (← step (spanOf right)))
    return .bool
  | .concatenation => do
    if ← call (.operands op left right leftTy rightTy) then
      step (checkConcatenation leftTy span)
    return leftTy
  | .pipe => call (.pipe right leftTy rightTy)

def ofUnary (op : UnaryOp) (operand : Expr) (span : Span) (operandTy : Ty) : Walk Ty :=
  match op with
  | .neg => do
    step (checkNegation operandTy span)
    return operandTy
  | .not => do
    call (.expect .bool operandTy (← step (spanOf operand)))
    return .bool
  | .reserved _ => do
    step (reportUnsupported span)
    step fresh

def ofArms (scrutinee result : Ty) (first : Option Span) : List Arm → Walk Unit
  | [] => pure ()
  | .mk pattern guard body _ :: rest => do
    call (.pattern pattern scrutinee)
    unless guard.isMissing do
      let guardTy ← call (.expr guard)
      call (.expect .bool guardTy (← step (spanOf guard)))
    let bodyTy ← call (.expr body)
    let first ← match first with
      | some span => pure span
      | none => step (spanOf body)
    compare result bodyTy (reportArm result bodyTy body first)
    call (.arms scrutinee result (some first) rest)

def ofStmts : List Stmt → Walk Unit
  | [] => pure ()
  | .missing :: _ => step (throw .missingNode)
  | .letBind pattern ty value _ :: rest => do
    let valueTy ← call (.expr value)
    if ty.isDeclared then
      let declared ← call (.resolve ty)
      call (.expect declared valueTy (← step (spanOf value)))
      call (.letBind pattern declared)
    else call (.letBind pattern valueTy)
    call (.stmts rest)
  | .run expr _ :: rest => do
    let _ ← call (.expr expr)
    call (.stmts rest)
  | .foreign _ span :: rest => do
    step (reportUnsupported span)
    call (.stmts rest)

def ofLetBind (shape : Pattern) (ty : Ty) : Walk Unit :=
  match shape with
  | .bind id name span => step (bindLet (.bind id name span) ty)
  | shape => call (.pattern shape ty)

def ofPattern : Pattern → Ty → Walk Unit
  | .missing, _ => step (throw .missingNode)
  | .wildcard _, _ => pure ()
  | .bind id name span, expected => step (bindLocal id name expected span false)
  | .literal value, expected => call (.expect expected (.prim value.kind.prim) value.span)
  | .tuple elems span, expected => do
    let types ← step (freshList elems.length)
    call (.expect expected (.tuple types) span)
    call (.patterns elems types)
  | .list elems span, expected => do
    let elem ← step fresh
    call (.expect expected (.list elem) span)
    call (.patterns elems (List.replicate elems.length elem))
  | .record fields span, expected => do
    match ← step (Checker.knownFields expected) with
    | some find => call (.knownFields find expected fields)
    | none =>
      let types ← step (freshList fields.length)
      call (.expect expected (.record (Row.ofList ((fields.map (·.name)).zip types))) span)
      call (.fields fields types)
  | .ctor decl variant args span, expected => do
    match (← step get).enums.find? decl with
    | none =>
      step (do reportUnbound span ("enum " ++ (← get).itemName decl))
      call (.untyped args)
    | some info =>
      let generics ← step (freshList info.generics.length)
      call (.expect expected (.named decl generics) span)
      match ← step (selectVariant info variant args.length span) with
      | none => call (.untyped args)
      | some found => call (.patterns args (found.fields.map (·.substParams generics)))
  | .foreign _ span, _ => step (reportUnsupported span)

def ofPatterns : List Pattern → List Ty → Walk Unit
  | shape :: shapes, ty :: types => do
    call (.pattern shape ty)
    call (.patterns shapes types)
  | _, _ => pure ()

def ofUntyped : List Pattern → Walk Unit
  | [] => pure ()
  | shape :: shapes => do
    let ty ← step fresh
    call (.pattern shape ty)
    call (.untyped shapes)

def ofFields : List (Field Pattern) → List Ty → Walk Unit
  | ⟨_, shape, _⟩ :: entries, ty :: types => do
    call (.pattern shape ty)
    call (.fields entries types)
  | _, _ => pure ()

def ofKnownFields (find : String → CheckM (Option Ty)) (expected : Ty) :
    List (Field Pattern) → Walk Unit
  | [] => pure ()
  | ⟨name, shape, span⟩ :: entries => do
    match ← step (find name) with
    | some ty => call (.pattern shape ty)
    | none =>
      step (reportUnknownField span name expected)
      let ty ← step fresh
      call (.pattern shape ty)
    call (.knownFields find expected entries)

end Walk

open Walk in
/-- The body of the procedure behind a call, with its own calls recorded. -/
def Task.walk : {α : Type} → Task α → Walk α
  | _, items all => do
    call (.collect all)
    call .impls
    (Item.functions all).forM fun item => call (.function item)
  | _, collect all => do
    all.forM fun item => call (.declare item)
    call (.aliasCycles (Item.aliases all))
    all.forM fun item => call (.members item)
    (Item.functions all).forM fun item => call (.signature item)
    (Item.traits all).forM fun item => call (.trait item)
    (Item.impls all).forM fun item => call (.impl item)
  | _, declare item => step (declareItem item)
  | _, aliasCycles aliases => step (checkAliasCycles aliases)
  | _, members item => ofMembers item
  | _, field item entry => do
    let known := ((← step get).structs.find? item.id).bind (·.field? entry.name)
    if known.isSome then step (reportRepeatedField item entry)
    else
      let ty ← call (.resolve entry.content)
      step (addField item.id entry.name ty)
  | _, variant item entry => do
    let types ← entry.content.mapM fun ty => call (.resolve ty)
    step (addVariant item.id entry.name types)
  | _, signature item => do
    let types ← item.params.mapM fun param => call (.resolve param.ty)
    let result ← call (.resolve item.result)
    step (addSignature item types result)
  | _, trait item => do
    let methods ← item.methods.mapM fun decl => call (.method decl)
    let assocTypes ← item.assocTypes.mapM fun decl => call (.assoc decl)
    step (addTrait item methods assocTypes)
  | _, method decl => do
    let types ← decl.params.mapM fun ty => call (.resolve ty)
    let result ← call (.resolve decl.result)
    return { decl with params := types, result }
  | _, assoc decl => do
    if decl.default.isDeclared then
      let default ← call (.resolve decl.default)
      return { decl with default }
    else return { decl with default := .absent }
  | _, impl item => do
    let implementer ← call (.resolve item.implementer)
    let methods ← step (item.methods.mapM collectImplMethod)
    let assocTypes ← item.assocTypes.mapM fun entry => call (.binding entry)
    step (addImpl item implementer methods assocTypes)
  | _, binding entry => do
    let content ← call (.resolve entry.content)
    return { entry with content }
  | _, resolve ty => step (resolveType ty)
  | _, impls => do
    (traitImpls (← step get).registry).forM fun (declared, provided) =>
      call (.conformance declared provided)
  | _, conformance declared provided => do
    step (reportImplItems declared provided)
    unless ← step (ofComplete provided.implementer.hasParams?) do
      provided.methods.forM fun entry => call (.implMethod declared provided entry)
  | _, implMethod declared provided entry => ofImplMethod declared provided entry
  | _, function item => do
    match (← step get).signatures.find? item.id with
    | none => pure ()
    | some types => unless item.body.isMissing do call (.body item types)
  | _, body item types => do
    let result ← step (enterBody item types)
    let found ← call (.expr item.body)
    Walk.compare result found (reportBody item types result found)
    step checkUnused
    step leaveBody
  | _, expr node => ofExpr node
  | _, exprs nodes => ofExprs nodes
  | _, elements elem nodes => ofElements elem nodes
  | _, record row entries => ofRecord row entries
  | _, initializers entries => ofInitializers entries
  | _, structFields info generics seen entries => ofStructFields info generics seen entries
  | _, initializer info generics seen entry ty => ofInitializer info generics seen entry ty
  | _, variantLit decl name nodes span types => ofVariantLit decl name nodes span types
  | _, args declared found nodes => ofArgs declared found nodes
  | _, params binders => ofParams binders
  | _, apply callee span calleeTy types => ofApply callee span calleeTy types
  | _, methodCall receiver name span receiverTy types =>
    ofMethodCall receiver name span receiverTy types
  | _, resolved resolution self name span receiverTy types =>
    ofResolved resolution self name span receiverTy types
  | _, operation rule op left right span leftTy rightTy =>
    ofOperation rule op left right span leftTy rightTy
  | _, operands op left right leftTy rightTy => ofOperands op left right leftTy rightTy
  | _, pipe right leftTy rightTy => ofPipe right leftTy rightTy
  | _, unary op operand span operandTy => ofUnary op operand span operandTy
  | _, arms scrutinee result first cases => ofArms scrutinee result first cases
  | _, coverage scrutineeExpr cases span scrutinee =>
    step (checkCoverage scrutineeExpr cases span scrutinee)
  | _, stmts lines => ofStmts lines
  | _, letBind shape ty => ofLetBind shape ty
  | _, pattern shape expected => ofPattern shape expected
  | _, patterns shapes types => ofPatterns shapes types
  | _, untyped shapes => ofUntyped shapes
  | _, fields entries types => ofFields entries types
  | _, knownFields find expected entries => ofKnownFields find expected entries
  | _, expect expected found span =>
    Walk.compare expected found fun error => reportMismatch error expected found span pure
  | _, unify expected found => step (Checker.unify expected found)

namespace Walk

attribute [local simp] Task.run

theorem run_ofImplMethod (declared : Trait) (provided : Impl) (entry : ImplMethod) :
    run (ofImplMethod declared provided entry) = checkImplMethod declared provided entry := by
  unfold ofImplMethod checkImplMethod
  cases declared.method? entry.name with
  | none => rfl
  | some decl =>
    simp only [run_bind, run_step, run_compare]
    rfl

theorem run_ofExpr (node : Expr) : run (ofExpr node) = inferExpr node := by
  cases node with
  | structLit decl fields span =>
    simp only [ofExpr, inferExpr, run_bind, run_step]
    refine congrArg _ (funext fun checker => ?_)
    cases checker.structs.find? decl <;> simp
  | binary op left right span =>
    simp only [ofExpr, inferExpr]
    cases op.class? <;> simp
  | conditional condition thenBranch elseBranch span =>
    simp only [ofExpr, inferExpr, expectElse_eq, run_bind, run_step, run_call, run_ite,
      run_compare, run_pure, Task.run]
    rfl
  | _ => simp [ofExpr, inferExpr]

theorem run_ofVariantLit (decl : DefId) (name : String) (nodes : List Expr) (span : Span)
    (types : List Ty) :
    run (ofVariantLit decl name nodes span types) = inferVariant decl name nodes span types := by
  unfold ofVariantLit inferVariant
  rw [run_bind, run_step]
  refine congrArg _ (funext fun checker => ?_)
  cases checker.enums.find? decl with
  | none => simp
  | some info =>
    simp only [run_bind, run_step]
    refine congrArg _ (funext fun generics => ?_)
    cases info.variant? name <;> simp

theorem run_ofMethodCall (receiver : Expr) (name : String) (span : Span) (receiverTy : Ty)
    (types : List Ty) :
    run (ofMethodCall receiver name span receiverTy types) =
      inferMethodCall receiver name span receiverTy types := by
  simp only [ofMethodCall, inferMethodCall, run_bind, run_step]
  refine congrArg _ (funext fun self => congrArg _ (funext fun checker => congrArg _
    (funext fun found => ?_)))
  cases found <;> simp

theorem run_ofResolved (resolution : Resolution) (self : Ty) (name : String) (span : Span)
    (receiverTy : Ty) (types : List Ty) :
    run (ofResolved resolution self name span receiverTy types) =
      inferResolved resolution self name span receiverTy types := by
  simp only [ofResolved, inferResolved, run_bind, run_step, run_compare, run_pure]
  refine congrArg _ (funext fun result => congrArg _ (funext fun ty => congrArg _
    (funext fun methodTy => ?_)))
  exact compare_bind methodTy (.fn (receiverTy :: types) result) _ _

theorem run_ofOperands (op : BinaryOp) (left right : Expr) (leftTy rightTy : Ty) :
    run (ofOperands op left right leftTy rightTy) = unifyOperands op left right leftTy rightTy := by
  simp only [ofOperands, unifyOperands, run_bind, run_call, Task.run]
  refine congrArg _ (funext fun failure => ?_)
  cases failure <;> simp

theorem run_ofPipe (right : Expr) (leftTy rightTy : Ty) :
    run (ofPipe right leftTy rightTy) = inferPipe right leftTy rightTy := by
  simp only [ofPipe, inferPipe, run_bind, run_step, run_compare, run_pure]
  exact congrArg _ (funext fun result => compare_bind rightTy (.fn [leftTy] result) _ _)

theorem run_ofArms (scrutinee result : Ty) (first : Option Span) (cases : List Arm) :
    run (ofArms scrutinee result first cases) = inferArms scrutinee result first cases := by
  rcases cases with _ | ⟨⟨pattern, guard, body, span⟩, rest⟩
  · simp [ofArms, inferArms]
  · cases first <;> simp only [ofArms, inferArms, run_bind, run_step, run_call, run_ite, run_pure,
      run_compare, Task.run] <;> rfl

theorem run_ofPattern (shape : Pattern) (expected : Ty) :
    run (ofPattern shape expected) = checkPattern shape expected := by
  cases shape with
  | record entries span =>
    simp only [ofPattern, checkPattern, run_bind, run_step]
    refine congrArg _ (funext fun find => ?_)
    cases find <;> simp
  | ctor decl variant shapes span =>
    simp only [ofPattern, checkPattern, run_bind, run_step]
    refine congrArg _ (funext fun checker => ?_)
    cases checker.enums.find? decl with
    | none => simp
    | some info =>
      simp only [run_bind, run_step, run_call, Task.run]
      refine congrArg _ (funext fun generics => congrArg _ (funext fun _ => congrArg _
        (funext fun found => ?_)))
      cases found <;> simp
  | _ => simp [ofPattern, checkPattern]

theorem run_ofKnownFields (find : String → CheckM (Option Ty)) (expected : Ty)
    (entries : List (Field Pattern)) :
    run (ofKnownFields find expected entries) = checkKnownFields find expected entries := by
  rcases entries with _ | ⟨⟨name, shape, span⟩, rest⟩
  · simp [ofKnownFields, checkKnownFields]
  · simp only [ofKnownFields, checkKnownFields, run_bind, run_step]
    refine congrArg _ (funext fun found => ?_)
    cases found <;> simp

end Walk

attribute [local simp] Task.walk Task.run in
open Walk in
/-- The body of a procedure with its calls recorded does what the procedure does. -/
theorem Task.run_walk {α : Type} (task : Task α) : task.walk.run = task.run := by
  cases task with
  | members item =>
    cases item with
    | struct _ | enum _ => exact run_forM _ _
    | _ => rfl
  | function item =>
    simp only [walk, run, checkFunction, run_bind, run_step]
    refine congrArg _ (funext fun checker => ?_)
    cases checker.signatures.find? item.id <;> simp
  | implMethod declared provided entry => exact run_ofImplMethod ..
  | expr node => exact run_ofExpr node
  | exprs nodes => cases nodes <;> simp [ofExprs, inferAll]
  | elements elem nodes => cases nodes <;> simp [ofElements, inferElements]
  | record row entries => cases entries <;> simp [ofRecord, inferRecord]
  | initializers entries => cases entries <;> simp [ofInitializers, inferInitializers]
  | structFields info generics seen entries =>
    cases entries <;> simp [ofStructFields, checkInitializers]
  | initializer info generics seen entry ty =>
    simp only [walk, run, ofInitializer, checkInitializer]
    cases info.field? entry.name <;> simp
  | variantLit decl name nodes span types => exact run_ofVariantLit ..
  | args declared found nodes =>
    cases declared <;> cases found <;> cases nodes <;> simp [ofArgs, expectArgs]
  | params binders => cases binders <;> simp [ofParams, bindParams]
  | apply callee span calleeTy types => simp [ofApply, inferCall_eq]
  | methodCall receiver name span receiverTy types => exact run_ofMethodCall ..
  | resolved resolution self name span receiverTy types => exact run_ofResolved ..
  | operation rule op left right span leftTy rightTy =>
    cases rule <;> simp [ofOperation, inferOperation]
  | operands op left right leftTy rightTy => exact run_ofOperands ..
  | pipe right leftTy rightTy => exact run_ofPipe ..
  | unary op operand span operandTy => cases op <;> simp [ofUnary, inferUnary]
  | arms scrutinee result first cases => exact run_ofArms ..
  | stmts lines => rcases lines with _ | ⟨_ | _ | _ | _, rest⟩ <;> simp [ofStmts, checkStmts]
  | letBind shape ty => cases shape <;> rfl
  | pattern shape expected => exact run_ofPattern ..
  | patterns shapes types => cases shapes <;> cases types <;> simp [ofPatterns, checkPatterns]
  | untyped shapes => cases shapes <;> simp [ofUntyped, checkUntyped]
  | fields entries types => cases entries <;> cases types <;> simp [ofFields, checkFields]
  | knownFields find expected entries => exact run_ofKnownFields ..
  | expect expected found span => exact run_compare ..
  | declare _ | aliasCycles _ | resolve _ | coverage _ _ _ _ | unify _ _ => rfl
  | method _ | assoc _ | binding _ =>
    simp only [walk, run, run_bind, run_call, run_mapM, run_ite, run_pure]
  | _ =>
    simp only [walk, run, run_bind, run_step, run_call, run_forM, run_mapM, run_ite, run_pure,
      run_compare]
    rfl

/-- The state that a procedure leaves. -/
def Task.finish {α : Type} (task : Task α) (start : Checker) : Checker :=
  Checker.finish task.run start

/-- The calls made while a module is checked, each with the state in which it starts. -/
inductive Reached (settings : Settings) (items : List Item) :
    {α : Type} → Task α → Checker → Prop
  | start : Reached settings items (.items items) (initial settings)
  | call {α β : Type} {caller : Task α} {callee : Task β} {before start : Checker}
      (reached : Reached settings items caller before)
      (called : ⟨callee, start⟩ ∈ caller.walk.calls before) :
      Reached settings items callee start

/-- The call at the end of a path, which names a call of the first one, a call of that and so on. -/
def Call.follow : Call → (path : List Nat) → Option Call
  | call, [] => some call
  | call, position :: path =>
    match (call.task.walk.calls call.start)[position]? with
    | some next => next.follow path
    | none => none

theorem Reached.follow {settings : Settings} {items : List Item} {path : List Nat}
    {call last : Call} (reached : Reached settings items call.task call.start)
    (followed : call.follow path = some last) : Reached settings items last.task last.start := by
  induction path generalizing call with
  | nil =>
    cases followed
    exact reached
  | cons position path ih =>
    rw [Call.follow] at followed
    split at followed
    · next next found => exact ih (.call reached (List.mem_of_getElem? found)) followed
    · cases followed

end TraitCheck.Checker
