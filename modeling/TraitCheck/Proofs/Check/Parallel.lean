import TraitCheck.Proofs.Check.Lockstep
import TraitCheck.Proofs.Check.Steps

/-!
# Every procedure runs in lockstep

Taken from states that are alike, every procedure of the checker has the same outcome. Most of them
are put together from steps that were treated before, so the instances follow the text of the
procedures. What is left to show at each place where a state is read is that only its core is looked
at, or else a single name or span.
-/

namespace TraitCheck.Checker

variable {left right : Settings} {α β : Type} {ty expected found : Ty} {span : Span}
variable {args : List Ty} {rhs lhs callee : Expr} {rightTy leftTy wanted operand : Ty}
  {info : StructInfo} {method what : String} {item : FunctionItem} {op : BinaryOp} {decl : DefId}
  {seen : List String}
variable {name : String} {error : UnifyError} {result self : Ty} {trait : Trait} {id : LocalId}
  {types : List Ty} {impl : Impl} {pattern : Pattern} {field : Field Expr} {signature : Signature}

section Reading

instance (option : Option α) : Lockstep left right (ofComplete option) := by
  cases option with
  | none => exact inferInstanceAs (Lockstep left right (throw _))
  | some value => exact inferInstanceAs (Lockstep left right (pure value))

instance (part : Option α) : Lockstep left right (need part) := by
  cases part with
  | none => exact inferInstanceAs (Lockstep left right (throw _))
  | some part => exact inferInstanceAs (Lockstep left right (pure part))

instance : Lockstep left right (solved ty) :=
  lockstep_read (fun _ _ => rfl) fun _ => inferInstance

instance : Lockstep left right (shallow ty) :=
  lockstep_read (fun _ _ => rfl) fun _ => inferInstance

instance : Lockstep left right (applyParams ty) :=
  lockstep_read (fun _ _ => rfl) fun _ => inferInstance

instance : Lockstep left right (typeText ty) :=
  lockstep_get (fun _ _ alike => congrArg ofComplete (alike.typeText? ty)) fun _ => inferInstance

instance : Lockstep left right fresh :=
  lockstep_modifyGet (fun _ _ => rfl) (fun _ _ => rfl) fun _ => rfl

instance (count : Nat) : Lockstep left right (freshList count) :=
  lockstep_modifyGet (fun _ _ => rfl) (fun _ _ => rfl) fun _ => rfl

instance (take : Supply → Option α × Supply) : Lockstep left right (withSupply take) := by
  have taken : Lockstep left right (modifyGet fun checker : Checker =>
      ((take checker.supply).1, { checker with supply := (take checker.supply).2 })) :=
    lockstep_modifyGet (fun _ _ => rfl) (fun _ _ => rfl) fun _ => rfl
  exact inferInstanceAs (Lockstep left right (_ >>= ofComplete))

instance : Lockstep left right (instantiate ty) := by
  unfold instantiate
  infer_instance

instance : Lockstep left right (expandAliases ty) :=
  lockstep_read (fun _ _ => rfl) fun _ => inferInstance

instance : Lockstep left right (resolveType ty) := by
  unfold resolveType
  infer_instance

instance (used : Bool) : Lockstep left right (bindLocal id name ty span used) :=
  lockstep_modify (fun _ _ => rfl) fun _ => rfl

instance : Lockstep left right (removeLocal id) :=
  lockstep_modify (fun _ _ => rfl) fun _ => rfl

end Reading

section Comparing

instance : Inspects (comparing expected found) := by
  unfold comparing
  infer_instance

instance : Lockstep left right (comparing expected found) := by
  unfold comparing
  infer_instance

instance (failure : Option UnifyError) : Lockstep left right (passOn failure) := by
  cases failure <;> (unfold passOn; infer_instance)

instance : Lockstep left right (unify expected found) := by
  have unified : Lockstep left right (modifyGet fun checker : Checker =>
      ((checker.subst.unify expected found).2,
        { checker with subst := (checker.subst.unify expected found).1 })) :=
    lockstep_modifyGet (fun _ _ => rfl) (fun _ _ => rfl) fun _ => rfl
  rw [unify_eq]
  infer_instance

theorem plain_differing (error : UnifyError) (whole inner : String) (span : Span) :
    (differing error whole inner span).Plain := by
  unfold differing
  dsimp only
  split
  case h_4 | h_5 | h_6 => split <;> infer_instance
  all_goals infer_instance

theorem agrees_mismatch :
    Agrees left right .plain (mismatch error expected found span) Diagnostic.Plain := by
  have words : ∀ expected found : Ty, Agrees left right .plain
      (expectedFound expected found) fun _ => True := fun _ _ => Lockstep.agrees
  have quoted : ∀ ty : Ty, Agrees left right .plain (quote ty) fun _ => True :=
    fun _ => Lockstep.agrees
  unfold mismatch
  split
  · refine agrees_bind (quoted _) fun _ _ => agrees_bind (quoted _) fun _ _ => ?_
    exact agrees_pure inferInstance
  · refine agrees_bind (words _ _) fun whole _ => ?_
    dsimp only
    split
    · exact agrees_bind (words _ _) fun inner _ =>
        agrees_pure (plain_differing error whole inner span)
    · exact agrees_pure (plain_differing error whole whole span)

theorem lockstep_reportMismatch {explain : Diagnostic → CheckM Diagnostic}
    (explains : ∀ diagnostic, diagnostic.Plain →
      Agrees left right .plain (explain diagnostic) Diagnostic.Plain) :
    Lockstep left right (reportMismatch error expected found span explain) where
  agrees := by
    refine agrees_bind agrees_mismatch fun diagnostic plain => ?_
    exact agrees_bind (explains diagnostic plain) fun explained plain => Lockstep.agrees

instance : Lockstep left right (reportMismatch error expected found span pure) :=
  lockstep_reportMismatch fun _ plain => agrees_pure plain

instance (handle : UnifyError → CheckM Unit)
    [handles : ∀ error, Lockstep left right (handle error)] :
    Lockstep left right (compare expected found handle) :=
  lockstep_bind fun failure => by cases failure <;> infer_instance

instance : Lockstep left right (expect expected found span) :=
  inferInstanceAs (Lockstep left right (compare expected found _))

end Comparing

section Operators

instance : Lockstep left right (reportOperands op lhs rhs leftTy rightTy error) :=
  lockstep_bind fun _ => lockstep_bind fun _ =>
    lockstep_reportMismatch fun _ plain => agrees_pure ⟨plain.plain⟩

instance : Lockstep left right (unifyOperands op lhs rhs leftTy rightTy) :=
  lockstep_bind fun failure => by cases failure <;> infer_instance

instance : Lockstep left right (reportPipe rhs wanted rightTy error) :=
  lockstep_bind fun _ => lockstep_reportMismatch fun _ plain => agrees_pure ⟨plain.plain⟩

instance : Lockstep left right (inferPipe rhs leftTy rightTy) :=
  lockstep_bind fun _ => lockstep_bind fun failure => by cases failure <;> infer_instance

instance (rule : OperatorClass) :
    Lockstep left right (inferOperation rule op lhs rhs span leftTy rightTy) := by
  cases rule <;> (unfold inferOperation; infer_instance)

instance (op : UnaryOp) (operand : Expr) (operandTy : Ty) :
    Lockstep left right (inferUnary op operand span operandTy) := by
  cases op <;> (unfold inferUnary; infer_instance)

end Operators

section Patterns

instance (fields : Row) : Lockstep left right (recordField? fields name) := by
  unfold recordField?
  split <;> infer_instance

instance : Lockstep left right (structField? info args name) := by
  unfold structField?
  split <;> infer_instance

theorem agrees_knownFields :
    Agrees left right .plain (knownFields expected) fun known =>
      ∀ find, known = some find → ∀ name, Lockstep left right (find name) := by
  have reached : Agrees left right .plain (shallow expected) fun _ => True :=
    Lockstep.agrees
  refine agrees_bind reached fun reached _ => ?_
  split
  · refine agrees_pure ?_
    rintro _ ⟨⟩ name
    infer_instance
  · refine agrees_get (fun _ _ alike => by cases alike; rfl) fun checker => agrees_pure ?_
    intro find known name
    obtain ⟨info, _, rfl⟩ := Option.map_eq_some_iff.mp known
    infer_instance
  · exact agrees_pure nofun

instance (info : EnumInfo) (variant : String) (arity : Nat) :
    Lockstep left right (selectVariant info variant arity span) := by
  unfold selectVariant
  split <;> infer_instance

mutual

theorem lockstep_checkPattern : (pattern : Pattern) → (expected : Ty) →
    Lockstep left right (checkPattern pattern expected)
  | .missing, _ | .wildcard _, _ | .bind _ _ _, _ | .literal _, _ | .foreign _ _, _ => by
    rw [checkPattern]
    infer_instance
  | .tuple elems _, _ | .list elems _, _ => by
    have := lockstep_checkPatterns elems
    rw [checkPattern]
    infer_instance
  | .record fields _, expected => by
    have := lockstep_checkFields fields
    rw [checkPattern]
    refine ⟨agrees_bind agrees_knownFields fun known finds => ?_⟩
    cases known with
    | some find => exact (lockstep_checkKnownFields find expected (finds find rfl) fields).agrees
    | none => exact Lockstep.agrees
  | .ctor _ _ args _, _ => by
    have := lockstep_checkPatterns args
    have := lockstep_checkUntyped args
    rw [checkPattern]
    refine lockstep_read (fun _ _ => rfl) fun checker => ?_
    split
    · refine lockstep_get (fun _ _ alike => ?_) fun _ => inferInstance
      rw [alike.itemName]
    · refine lockstep_bind fun _ => lockstep_bind fun _ => lockstep_bind fun selected => ?_
      cases selected <;> infer_instance

theorem lockstep_checkPatterns : (patterns : List Pattern) → (types : List Ty) →
    Lockstep left right (checkPatterns patterns types)
  | pattern :: patterns, ty :: types => by
    have := lockstep_checkPattern pattern
    have := lockstep_checkPatterns patterns
    rw [checkPatterns]
    infer_instance
  | [], _ | _ :: _, [] => by
    rw [checkPatterns]
    infer_instance
    nofun

theorem lockstep_checkUntyped : (patterns : List Pattern) →
    Lockstep left right (checkUntyped patterns)
  | [] => by
    rw [checkUntyped]
    infer_instance
  | pattern :: patterns => by
    have := lockstep_checkPattern pattern
    have := lockstep_checkUntyped patterns
    rw [checkUntyped]
    infer_instance

theorem lockstep_checkFields : (fields : List (Field Pattern)) → (types : List Ty) →
    Lockstep left right (checkFields fields types)
  | ⟨_, pattern, _⟩ :: fields, ty :: types => by
    have := lockstep_checkPattern pattern
    have := lockstep_checkFields fields
    rw [checkFields]
    infer_instance
  | [], _ | _ :: _, [] => by
    rw [checkFields]
    infer_instance
    nofun

theorem lockstep_checkKnownFields (find : String → CheckM (Option Ty)) (expected : Ty)
    (finds : ∀ name, Lockstep left right (find name)) :
    (fields : List (Field Pattern)) → Lockstep left right (checkKnownFields find expected fields)
  | [] => by
    rw [checkKnownFields]
    infer_instance
  | ⟨name, pattern, _⟩ :: fields => by
    have := lockstep_checkPattern pattern
    have := lockstep_checkKnownFields find expected finds fields
    rw [checkKnownFields]
    refine lockstep_bind fun found => ?_
    cases found <;> infer_instance

end

attribute [instance] lockstep_checkPattern lockstep_checkPatterns lockstep_checkUntyped
  lockstep_checkFields

instance (finding : Unreachable) : Lockstep left right (reportUnreachable finding) := by
  cases finding <;> (unfold reportUnreachable; infer_instance)

instance (scrutineeExpr : Expr) (arms : List Arm) (scrutinee : Ty) :
    Lockstep left right (checkCoverage scrutineeExpr arms span scrutinee) := by
  unfold checkCoverage
  split
  · infer_instance
  · exact lockstep_read (fun _ _ => rfl) fun _ => inferInstance

end Patterns

section Rules

instance : Lockstep left right (solvedVars ty) := by
  unfold solvedVars
  infer_instance

instance : Lockstep left right environmentVars := by
  rw [environmentVars_eq]
  exact lockstep_read (fun _ _ => rfl) fun _ => inferInstance

instance : Lockstep left right (markUsed id) :=
  lockstep_modify (fun _ _ => rfl) fun _ => rfl

instance : Lockstep left right (inferLocal id span) := by
  rw [inferLocal_eq]
  refine lockstep_read (fun _ _ => rfl) fun checker => ?_
  cases checker.locals.find? id <;> (unfold referTo; infer_instance)

instance : Lockstep left right (inferGlobal decl span) := by
  refine lockstep_get (fun first second alike => ?_) fun checker => ?_
  · rw [alike.itemName]
    cases alike
    rfl
  · split <;> infer_instance

instance (params : List Param) : Lockstep left right (bindParams params) := by
  induction params with
  | nil | cons param rest ih =>
    rw [bindParams]
    infer_instance

instance (base : Ty) : Lockstep left right (fieldType? base name) := by
  unfold fieldType?
  split
  · infer_instance
  · refine lockstep_read (fun _ _ => rfl) fun checker => ?_
    split <;> infer_instance
  · infer_instance

instance (base : Expr) (baseTy : Ty) : Lockstep left right (inferField base name span baseTy) :=
  lockstep_bind fun _ => lockstep_bind fun _ => by split <;> infer_instance

instance (base : Expr) (position : Int) (baseTy : Ty) :
    Lockstep left right (inferElement base position span baseTy) := by
  refine lockstep_bind fun reached => ?_
  extract_lets found
  clear_value found
  split <;> infer_instance

instance (taken supplied : Nat) :
    Lockstep left right (reportCallArity callee taken supplied span) := by
  unfold reportCallArity
  refine lockstep_get (fun first second alike => ?_) fun _ => inferInstance
  cases callee with
  | globalRef decl span =>
    dsimp only
    rw [alike.spanOf?]
  | _ => rfl

instance (calleeTy : Ty) (reached : Ty) :
    Lockstep left right (reportCall callee span calleeTy wanted args error reached) := by
  unfold reportCall
  split <;> infer_instance

instance (calleeTy : Ty) : Lockstep left right (inferCall callee span calleeTy args) := by
  rw [inferCall_eq]
  infer_instance

instance (receiver : Expr) : Lockstep left right (reportNoMethod receiver method span self) := by
  unfold reportNoMethod
  split <;> infer_instance

instance (methodTy : Ty) :
    Lockstep left right (reportResolved methodTy wanted method span args error) :=
  lockstep_bind fun _ => by split <;> infer_instance

instance (resolution : Resolution) (receiverTy : Ty) :
    Lockstep left right (inferResolved resolution self method span receiverTy args) := by
  unfold inferResolved
  refine lockstep_bind fun _ => lockstep_bind fun _ => lockstep_bind fun _ => ?_
  refine lockstep_bind fun failure => ?_
  cases failure <;> infer_instance

instance (receiver : Expr) (receiverTy : Ty) :
    Lockstep left right (inferMethodCall receiver method span receiverTy args) := by
  refine lockstep_bind fun self => lockstep_read (fun _ _ => rfl) fun checker => ?_
  refine lockstep_bind fun resolution => ?_
  cases resolution <;> infer_instance

instance (generics : List Ty) :
    Lockstep left right (checkInitializer info generics seen field ty) := by
  unfold checkInitializer
  split <;> infer_instance

instance (declared found : List Ty) (args : List Expr) :
    Lockstep left right (expectArgs declared found args) := by
  fun_induction expectArgs declared found args <;> infer_instance

instance (args : List Expr) : Lockstep left right (inferVariant decl name args span types) := by
  refine lockstep_get (fun first second alike => ?_) fun checker => ?_
  · rw [alike.itemName]
    cases alike
    rfl
  · split
    · infer_instance
    · refine lockstep_bind fun _ => ?_
      split <;> infer_instance

instance (thenBranch elseBranch : Expr) (elseTy : Ty) :
    Lockstep left right (expectElse thenBranch elseBranch result elseTy) := by
  have handles : ∀ error, Lockstep left right (do
      let elseSpan ← spanOf elseBranch
      let thenSpan ← spanOf thenBranch
      reportMismatch error result elseTy elseSpan fun diagnostic =>
        return (diagnostic.withLabel thenSpan "expected because of this").withNote
          "`if` and `else` have incompatible types") := fun error =>
    lockstep_bind fun _ => lockstep_bind fun _ =>
      lockstep_reportMismatch fun _ plain => agrees_pure ⟨plain.plain⟩
  rw [expectElse_eq]
  infer_instance

instance (bodyTy : Ty) (body : Expr) (first : Span) :
    Lockstep left right (reportArm result bodyTy body first error) := by
  refine lockstep_bind fun _ => lockstep_reportMismatch fun _ plain => ?_
  have quoted : Agrees left right .plain (quote result) fun _ => True := Lockstep.agrees
  exact agrees_bind quoted fun _ _ => agrees_pure ⟨plain.plain⟩

instance (bodyTy : Ty) (body : Expr) (first : Span) :
    Lockstep left right (expectArm result bodyTy body first) :=
  inferInstanceAs (Lockstep left right (compare result bodyTy _))

instance (scheme : Ty) : Inspects (announcing name scheme) := by
  unfold announcing
  infer_instance

instance (scheme : Ty) : Lockstep left right (announcing name scheme) := by
  refine lockstep_get (fun _ _ alike => ?_) fun _ => inferInstance
  rw [alike.nameOf]

instance : Lockstep left right (bindLet pattern ty) := by
  cases pattern with
  | bind id name span =>
    rw [bindLet_eq]
    refine lockstep_bind fun environment => ?_
    exact lockstep_read (fun _ _ => rfl) fun _ => inferInstance
  | _ => exact lockstep_checkPattern _ ty

end Rules

section Expressions

mutual

theorem lockstep_inferExpr : (expr : Expr) → Lockstep left right (inferExpr expr)
  | .missing | .literal _ => inferInstanceAs (Lockstep left right (pure _))
  | .localRef id span => inferInstanceAs (Lockstep left right (inferLocal id span))
  | .globalRef decl span => inferInstanceAs (Lockstep left right (inferGlobal decl span))
  | .list elems _ => by
    have := fun elem => lockstep_inferElements elem elems
    rw [inferExpr]
    infer_instance
  | .tuple elems _ => by
    have := lockstep_inferAll elems
    rw [inferExpr]
    infer_instance
  | .record fields _ => by
    have := lockstep_inferRecord [] fields
    rw [inferExpr]
    infer_instance
  | .structLit decl fields span => by
    have := lockstep_inferInitializers fields
    have := fun info generics => lockstep_checkInitializers info generics [] fields
    rw [inferExpr]
    refine lockstep_read (fun _ _ => rfl) fun checker => ?_
    split
    · refine lockstep_bind fun _ => lockstep_get (fun _ _ alike => ?_) fun _ => inferInstance
      rw [alike.itemName]
    · infer_instance
  | .variant _ _ args _ => by
    have := lockstep_inferAll args
    rw [inferExpr]
    infer_instance
  | .lambda _ body _ => by
    have := lockstep_inferExpr body
    rw [inferExpr]
    infer_instance
  | .call callee args _ => by
    have := lockstep_inferExpr callee
    have := lockstep_inferAll args
    rw [inferExpr]
    infer_instance
  | .methodCall receiver _ args _ => by
    have := lockstep_inferExpr receiver
    have := lockstep_inferAll args
    rw [inferExpr]
    infer_instance
  | .fieldAccess base _ _ | .tupleIndex base _ _ => by
    have := lockstep_inferExpr base
    rw [inferExpr]
    infer_instance
  | .binary _ lhs rhs _ => by
    have := lockstep_inferExpr lhs
    have := lockstep_inferExpr rhs
    rw [inferExpr]
    split <;> infer_instance
  | .unary _ operand _ => by
    have := lockstep_inferExpr operand
    rw [inferExpr]
    infer_instance
  | .conditional condition thenBranch elseBranch _ => by
    have := lockstep_inferExpr condition
    have := lockstep_inferExpr thenBranch
    have := lockstep_inferExpr elseBranch
    rw [inferExpr]
    infer_instance
  | .matchOn scrutinee arms _ => by
    have := lockstep_inferExpr scrutinee
    have := fun matched result => lockstep_inferArms matched result none arms
    rw [inferExpr]
    infer_instance
  | .block stmts tail _ => by
    have := lockstep_checkStmts stmts
    have := lockstep_inferExpr tail
    rw [inferExpr]
    infer_instance
  | .ascribe expr _ _ => by
    have := lockstep_inferExpr expr
    rw [inferExpr]
    infer_instance
  | .foreign _ _ => by
    rw [inferExpr]
    infer_instance

theorem lockstep_inferAll : (exprs : List Expr) → Lockstep left right (inferAll exprs)
  | [] => inferInstanceAs (Lockstep left right (pure _))
  | expr :: rest => by
    have := lockstep_inferExpr expr
    have := lockstep_inferAll rest
    rw [inferAll]
    infer_instance

theorem lockstep_inferElements (elem : Ty) : (exprs : List Expr) →
    Lockstep left right (inferElements elem exprs)
  | [] => inferInstanceAs (Lockstep left right (pure _))
  | expr :: rest => by
    have := lockstep_inferExpr expr
    have := lockstep_inferElements elem rest
    rw [inferElements]
    infer_instance

theorem lockstep_inferRecord (row : Row) : (fields : List (Field Expr)) →
    Lockstep left right (inferRecord row fields)
  | [] => inferInstanceAs (Lockstep left right (pure _))
  | ⟨_, value, _⟩ :: rest => by
    have := lockstep_inferExpr value
    have := fun row => lockstep_inferRecord row rest
    rw [inferRecord]
    infer_instance

theorem lockstep_inferInitializers : (fields : List (Field Expr)) →
    Lockstep left right (inferInitializers fields)
  | [] => inferInstanceAs (Lockstep left right (pure _))
  | ⟨_, value, _⟩ :: rest => by
    have := lockstep_inferExpr value
    have := lockstep_inferInitializers rest
    rw [inferInitializers]
    infer_instance

theorem lockstep_checkInitializers (info : StructInfo) (generics : List Ty) (seen : List String) :
    (fields : List (Field Expr)) → Lockstep left right (checkInitializers info generics seen fields)
  | [] => inferInstanceAs (Lockstep left right (pure _))
  | ⟨_, value, _⟩ :: rest => by
    have := lockstep_inferExpr value
    have := fun seen => lockstep_checkInitializers info generics seen rest
    rw [checkInitializers]
    infer_instance

theorem lockstep_inferArms (scrutinee result : Ty) (first : Option Span) : (arms : List Arm) →
    Lockstep left right (inferArms scrutinee result first arms)
  | [] => inferInstanceAs (Lockstep left right (pure _))
  | .mk _ guard body _ :: rest => by
    have := lockstep_inferExpr guard
    have := lockstep_inferExpr body
    have := fun first => lockstep_inferArms scrutinee result first rest
    have : Lockstep left right (checkGuard guard) := by
      unfold checkGuard
      infer_instance
    have : Lockstep left right (first.elim (spanOf body) pure) := by
      cases first <;> (dsimp only [Option.elim]; infer_instance)
    rw [inferArms_cons, inferArm]
    infer_instance

theorem lockstep_checkStmts : (stmts : List Stmt) → Lockstep left right (checkStmts stmts)
  | [] => inferInstanceAs (Lockstep left right (pure _))
  | .missing :: _ => inferInstanceAs (Lockstep left right (throw _))
  | .letBind _ _ value _ :: rest => by
    have := lockstep_inferExpr value
    have := lockstep_checkStmts rest
    rw [checkStmts]
    infer_instance
  | .run expr _ :: rest => by
    have := lockstep_inferExpr expr
    have := lockstep_checkStmts rest
    rw [checkStmts]
    infer_instance
  | .foreign _ _ :: rest => by
    have := lockstep_checkStmts rest
    rw [checkStmts]
    infer_instance

end

attribute [instance] lockstep_inferExpr lockstep_inferAll lockstep_inferElements
  lockstep_inferRecord lockstep_checkInitializers

end Expressions

section Declarations

instance : Lockstep left right (addField decl name ty) :=
  lockstep_modify (fun _ _ => rfl) fun _ => rfl

instance (item : StructItem) (field : Field Ty) : Lockstep left right (collectField item field) :=
  lockstep_read (fun _ _ => rfl) fun _ => inferInstance

instance (fields : List Ty) : Lockstep left right (addVariant decl name fields) :=
  lockstep_modify (fun _ _ => rfl) fun _ => rfl

instance (item : EnumItem) (variant : Field (List Ty)) :
    Lockstep left right (collectVariant item variant) := by
  unfold collectVariant
  infer_instance

instance (item : Item) : Lockstep left right (collectMembers item) := by
  unfold collectMembers
  split <;> infer_instance

instance (params : List Ty) : Lockstep left right (addSignature item params result) :=
  lockstep_modify (fun _ _ => rfl) fun _ => rfl

instance : Lockstep left right (collectSignature item) := by
  unfold collectSignature
  infer_instance

instance (item : TraitItem) (methods : List MethodDecl) (assocTypes : List AssocDecl) :
    Lockstep left right (addTrait item methods assocTypes) :=
  lockstep_modify (fun _ _ => rfl) fun _ => rfl

instance (item : TraitItem) : Lockstep left right (collectTrait item) := by
  unfold collectTrait
  infer_instance

instance (method : Field DefId) : Lockstep left right (collectImplMethod method) := by
  refine lockstep_read (fun _ _ => rfl) fun checker => ?_
  split <;> infer_instance

instance (item : ImplItem) (implementer : Ty) (methods : List ImplMethod)
    (assocTypes : List (Field Ty)) :
    Lockstep left right (addImpl item implementer methods assocTypes) := by
  refine lockstep_get (fun first second alike => ?_) fun checker => ?_
  · have : first.itemName = second.itemName := funext alike.itemName
    rw [this]
    cases alike
    rfl
  · have (registry : Registry) :
        Lockstep left right (modify ({ · with registry }) : CheckM Unit) :=
      lockstep_modify (fun _ _ => rfl) fun _ => rfl
    refine lockstep_bind fun _ => ?_
    split <;> infer_instance

instance (item : ImplItem) : Lockstep left right (collectImpl item) := by
  unfold collectImpl
  infer_instance

end Declarations

section Bodies

instance (decl : MethodDecl) (method : ImplMethod) (provided : Ty) :
    Lockstep left right (reportNonconforming trait decl method wanted provided error) :=
  lockstep_reportMismatch fun _ plain => agrees_pure ⟨plain.plain⟩

instance (method : ImplMethod) : Lockstep left right (checkImplMethod trait impl method) := by
  unfold checkImplMethod
  split
  · infer_instance
  · refine lockstep_bind fun _ => lockstep_bind fun _ => lockstep_bind fun failure => ?_
    cases failure <;> infer_instance

instance : Lockstep left right (checkImpl trait impl) := by
  unfold checkImpl
  infer_instance

instance : Lockstep left right checkImpls :=
  lockstep_read (fun _ _ => rfl) fun _ => inferInstance

instance (count : Nat) : Lockstep left right (bindGenerics count) := by
  have clears : Lockstep left right (modify fun checker : Checker =>
      { checker with subst := checker.subst.clearParams }) :=
    lockstep_modify (fun _ _ => rfl) fun _ => rfl
  have binds : ∀ (position : Nat) (ty : Ty), Lockstep left right (modify fun checker : Checker =>
      { checker with subst := checker.subst.bindParam position ty }) :=
    fun _ _ => lockstep_modify (fun _ _ => rfl) fun _ => rfl
  unfold bindGenerics
  infer_instance

instance (params : List Param) : Lockstep left right (bindSignature params types) := by
  fun_induction bindSignature params types <;> infer_instance

instance (body : Ty) : Lockstep left right (reportBody item signature result body error) := by
  refine lockstep_bind fun _ => lockstep_reportMismatch fun _ plain => ?_
  have quoted : Agrees left right .plain (quote result) fun _ => True := Lockstep.agrees
  split
  · exact agrees_bind quoted fun _ _ => agrees_pure ⟨plain.plain⟩
  · exact agrees_pure plain

instance (body : Ty) : Lockstep left right (expectBody item signature result body) :=
  inferInstanceAs (Lockstep left right (compare result body _))

instance : Lockstep left right (enterBody item signature) := by
  have enters : Lockstep left right (modify fun checker : Checker =>
      { checker with current := some item.span }) := lockstep_modify (fun _ _ => rfl) fun _ => rfl
  unfold enterBody
  infer_instance

instance : Lockstep left right leaveBody := lockstep_modify (fun _ _ => rfl) fun _ => rfl

end Bodies

end TraitCheck.Checker
