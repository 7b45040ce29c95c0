import TraitCheck.Proofs.Check.Delivery
import TraitCheck.Proofs.Check.Parallel

/-!
# Inferring expressions without missing parts

Syntax is whole if a part is missing only where it may be left out: an else branch, the tail of a
block, a guard, or the type of a parameter, of a `let` and of an ascription. From an intact state,
inferring whole expressions and checking whole patterns always gives a result. A lenient regime
takes any syntax with whole types, and then the check can stop only where a node is missing.
-/

namespace TraitCheck

open Ty (Present)
open Std.Do

set_option mvcgen.warning false

variable {args : List Ty} {decl : DefId} {op : BinaryOp} {info : StructInfo} {checker : Checker}
  {method : String} {arms : List Arm}
variable {name : String} {pattern : Pattern} {error : UnifyError} {types : List Ty}
  {self result : Ty} {enums : Table DefId EnumInfo} {expr : Expr} {generics : List Ty}

/-- The type is left out or whole. -/
def Ty.isWritten (ty : Ty) : Bool := ty.isAbsent || ty.isPresent

theorem Ty.isWritten_iff {ty : Ty} : ty.isWritten = true ↔ ty.isAbsent = true ∨ ty.Present :=
  Bool.or_eq_true_iff

mutual

/-- No part of the pattern is missing. -/
def Pattern.isWhole : Pattern → Bool
  | .missing => false
  | .wildcard _ | .bind _ _ _ | .literal _ | .foreign _ _ => true
  | .tuple elems _ => Pattern.allWhole elems
  | .list elems _ => Pattern.allWhole elems
  | .record fields _ => Pattern.fieldsWhole fields
  | .ctor _ _ args _ => Pattern.allWhole args

def Pattern.allWhole : List Pattern → Bool
  | [] => true
  | pattern :: rest => pattern.isWhole && Pattern.allWhole rest

def Pattern.fieldsWhole : List (Field Pattern) → Bool
  | [] => true
  | ⟨_, pattern, _⟩ :: rest => pattern.isWhole && Pattern.fieldsWhole rest

end

mutual

/-- Whether no part of an expression is missing that may not be left out. -/
def Expr.isWhole : Expr → Bool
  | .missing => false
  | .literal _ | .localRef _ _ | .globalRef _ _ | .foreign _ _ => true
  | .list elems _ => Expr.allWhole elems
  | .tuple elems _ => Expr.allWhole elems
  | .record fields _ => Expr.fieldsWhole fields
  | .structLit _ fields _ => Expr.fieldsWhole fields
  | .variant _ _ args _ => Expr.allWhole args
  | .lambda params body _ => params.all (·.ty.isWritten) && body.isWhole
  | .call callee args _ => callee.isWhole && Expr.allWhole args
  | .methodCall receiver _ args _ => receiver.isWhole && Expr.allWhole args
  | .fieldAccess base _ _ => base.isWhole
  | .tupleIndex base _ _ => base.isWhole
  | .binary _ left right _ => left.isWhole && right.isWhole
  | .unary _ operand _ => operand.isWhole
  | .conditional condition thenBranch elseBranch _ =>
    condition.isWhole && thenBranch.isWhole && (elseBranch.isMissing || elseBranch.isWhole)
  | .matchOn scrutinee arms _ => scrutinee.isWhole && Expr.armsWhole arms
  | .block stmts tail _ => Expr.stmtsWhole stmts && (tail.isMissing || tail.isWhole)
  | .ascribe expr ty _ => expr.isWhole && ty.isWritten

def Expr.allWhole : List Expr → Bool
  | [] => true
  | expr :: rest => expr.isWhole && Expr.allWhole rest

def Expr.fieldsWhole : List (Field Expr) → Bool
  | [] => true
  | ⟨_, value, _⟩ :: rest => value.isWhole && Expr.fieldsWhole rest

def Expr.armsWhole : List Arm → Bool
  | [] => true
  | .mk pattern guard body _ :: rest =>
    pattern.isWhole && (guard.isMissing || guard.isWhole) && body.isWhole && Expr.armsWhole rest

def Expr.stmtsWhole : List Stmt → Bool
  | [] => true
  | .missing :: _ => false
  | .letBind pattern ty value _ :: rest =>
    pattern.isWhole && ty.isWritten && value.isWhole && Expr.stmtsWhole rest
  | .run expr _ :: rest => expr.isWhole && Expr.stmtsWhole rest
  | .foreign _ _ :: rest => Expr.stmtsWhole rest

end

namespace Checker.Regime

variable {regime : Regime} {types types' : List Ty} {ty : Ty} {whole whole' missing : Bool}

/-- Whether syntax with the given types in it is taken, depending on whether it is whole. -/
def accepts (regime : Regime) (types : List Ty) (whole : Bool) : Bool :=
  if regime.lenient then types.all Ty.isWritten else whole

theorem accepts_nil (strict : regime.lenient = false → whole = true) :
    regime.accepts [] whole = true := by
  unfold accepts
  split
  · rfl
  · next notLenient => exact strict (Bool.eq_false_of_not_eq_true notLenient)

theorem accepts_and : regime.accepts (types ++ types') (whole && whole') = true ↔
    regime.accepts types whole = true ∧ regime.accepts types' whole' = true := by
  unfold accepts
  split <;> simp

theorem accepts_pattern : regime.accepts types (whole && whole') = true ↔
    regime.accepts [] whole = true ∧ regime.accepts types whole' = true :=
  @accepts_and regime [] types whole whole'

theorem accepts_of_or (accepted : regime.accepts types (missing || whole) = true)
    (present : ¬missing = true) : regime.accepts types whole = true := by
  rwa [Bool.eq_false_of_not_eq_true present, Bool.false_or] at accepted

theorem accepts_cons (accepted : regime.accepts (ty :: types) (whole && ty.isWritten) = true) :
    regime.accepts types whole = true ∧ ty.isWritten = true := by
  unfold accepts at accepted ⊢
  split at accepted
  · next lenient => simpa [lenient, and_comm] using accepted
  · next notLenient => simpa [notLenient] using accepted

theorem written_of_accepts (same : types.all Ty.isWritten = whole)
    (accepted : regime.accepts types whole = true) : whole = true := by
  rwa [accepts, same, ite_self] at accepted

theorem whole_of_accepts (accepted : regime.accepts types whole = true)
    (strict : regime.lenient = false) : whole = true := by
  rwa [accepts, strict] at accepted

end Checker.Regime

section Fits

variable (regime : Checker.Regime)

/-- The pattern is whole, unless the regime is lenient. -/
abbrev Pattern.fits (pattern : Pattern) : Bool := regime.accepts [] pattern.isWhole

abbrev Pattern.allFit (patterns : List Pattern) : Bool :=
  regime.accepts [] (Pattern.allWhole patterns)

abbrev Pattern.fieldsFit (fields : List (Field Pattern)) : Bool :=
  regime.accepts [] (Pattern.fieldsWhole fields)

/-- The expression is whole as far as the regime asks for it. -/
abbrev Expr.fits (expr : Expr) : Bool := regime.accepts expr.annotations expr.isWhole

abbrev Expr.allFit (exprs : List Expr) : Bool :=
  regime.accepts (Expr.annotationsOfAll exprs) (Expr.allWhole exprs)

abbrev Expr.fieldsFit (fields : List (Field Expr)) : Bool :=
  regime.accepts (Expr.annotationsOfFields fields) (Expr.fieldsWhole fields)

abbrev Expr.armsFit (arms : List Arm) : Bool :=
  regime.accepts (Expr.annotationsOfArms arms) (Expr.armsWhole arms)

abbrev Expr.stmtsFit (stmts : List Stmt) : Bool :=
  regime.accepts (Expr.annotationsOfStmts stmts) (Expr.stmtsWhole stmts)

end Fits

namespace Checker

variable {regime : Regime} {functions : List FunctionItem} {ty expected found : Ty} {span : Span}
  {fields : Row}

@[spec high]
theorem delivers_spanOf (whole : expr.fits regime = true) :
    Delivers regime (spanOf expr) fun _ => True := by
  refine delivers_need fun strict => ?_
  cases expr with
  | missing => cases Regime.whole_of_accepts whole strict
  | _ => rfl

@[spec high]
theorem delivers_patternSpan (whole : pattern.fits regime = true) :
    Delivers regime (patternSpan pattern) fun _ => True := by
  refine delivers_need fun strict => ?_
  cases pattern with
  | missing => cases Regime.whole_of_accepts whole strict
  | _ => rfl

section Operators

variable {left right operand : Expr} {leftTy rightTy operandTy : Ty}

@[spec]
theorem delivers_unifyOperands (wholeLeft : left.fits regime = true)
    (wholeRight : right.fits regime = true) (presentLeft : leftTy.Present)
    (presentRight : rightTy.Present) :
    Delivers regime (unifyOperands op left right leftTy rightTy) fun _ => True := by
  mvcgen [unifyOperands, reportOperands, reportMismatch] with grind

@[spec high]
theorem delivers_checkArithmetic (present : ty.Present) :
    Delivers regime (checkArithmetic op ty span) fun _ => True := by
  mvcgen [checkArithmetic]
  all_goals first | grind | simp

@[spec high]
theorem delivers_checkConcatenation (present : ty.Present) :
    Delivers regime (checkConcatenation ty span) fun _ => True := by
  mvcgen [checkConcatenation]
  all_goals first | grind | simp

@[spec]
theorem delivers_inferPipe (wholeRight : right.fits regime = true) (presentLeft : leftTy.Present)
    (presentRight : rightTy.Present) :
    Delivers regime (inferPipe right leftTy rightTy) Present := by
  mvcgen [inferPipe, reportPipe, reportMismatch] with grind

@[spec]
theorem delivers_inferOperation {rule : OperatorClass} (wholeLeft : left.fits regime = true)
    (wholeRight : right.fits regime = true) (presentLeft : leftTy.Present)
    (presentRight : rightTy.Present) :
    Delivers regime (inferOperation rule op left right span leftTy rightTy) Present := by
  mvcgen [inferOperation] with grind

@[spec]
theorem delivers_inferUnary {op : UnaryOp} (whole : operand.fits regime = true)
    (present : operandTy.Present) :
    Delivers regime (inferUnary op operand span operandTy) Present := by
  mvcgen [inferUnary, checkNegation]
  all_goals first | grind | simp

end Operators

/-- A type that was found is present. -/
abbrev PresentIfFound (found : Option Ty) : Prop := ∀ ty, found = some ty → ty.Present

@[grind →]
theorem present_of_find? (present : (Ty.record fields).Present)
    (found : Row.find? name fields = some ty) : ty.Present :=
  present.field (Row.mem_of_find? found)

@[spec]
theorem delivers_recordField? (present : (Ty.record fields).Present) :
    Delivers regime (recordField? fields name) PresentIfFound := by
  mvcgen [recordField?] with grind [Ty.Present.isAbsent, Ty.isAbsent]

@[spec]
theorem delivers_structField? (presents : ∀ ty ∈ info.types, ty.Present)
    (presentArgs : ∀ arg ∈ args, arg.Present) :
    Delivers regime (structField? info args name) PresentIfFound := by
  mvcgen [structField?] with grind [Ty.Present.substParams?, Ty.Present.substParams,
    StructInfo.mem_types_of_field?]

@[grind →]
theorem Intact.struct (intact : Intact functions checker)
    (declared : checker.structs.find? decl = some info) : ∀ ty ∈ info.types, ty.Present := by
  intro ty member
  have := List.mem_flatMap_of_mem (Table.mem_values_of_find? declared) member
  exact intact.declared ty (mem_declaredTypes.mpr (by tauto))

@[grind →]
theorem Intact.variant {info : EnumInfo} {variant : Variant} (intact : Intact functions checker)
    (declared : checker.enums.find? decl = some info) (isVariant : variant ∈ info.variants) :
    ∀ ty ∈ variant.fields, ty.Present := by
  intro ty member
  have inInfo : ty ∈ info.types := List.mem_flatMap_of_mem isVariant member
  have := List.mem_flatMap_of_mem (Table.mem_values_of_find? declared) inInfo
  exact intact.declared ty (mem_declaredTypes.mpr (by tauto))

@[spec]
theorem delivers_knownFields (present : expected.Present) :
    Delivers regime (knownFields expected) fun known =>
      ∀ find, known = some find → ∀ name, Delivers regime (find name) PresentIfFound := by
  mvcgen [knownFields]
  · rename_i holds
    refine ⟨?_, holds.2⟩
    rintro _ ⟨⟩ name
    exact delivers_recordField? holds.1
  · rename_i holds
    refine ⟨fun find known name => ?_, holds.2⟩
    obtain ⟨info, declared, rfl⟩ := Option.map_eq_some_iff.mp known
    exact delivers_structField? (holds.2.struct declared) fun arg member => holds.1.part member
  · grind

theorem ordinary_counting (count : Nat) (rest : String) :
    ¬"internal checker error".toList <+: (toString count ++ rest).toList := by
  rcases digits : Nat.toDigits 10 count with _ | ⟨first, others⟩
  · exact absurd digits Nat.toDigits_ne_nil
  · have isDigit : first.isDigit = true :=
      Nat.isDigit_of_mem_toDigits (by decide) (by decide) (digits ▸ List.mem_cons_self)
    have notLetter : 'i' ≠ first := by
      rintro rfl
      cases isDigit
    simp [digits, notLetter]

@[spec]
theorem delivers_selectVariant {info : EnumInfo} {variant : String} {arity : Nat} :
    Delivers regime (selectVariant info variant arity span) fun selected =>
      ∀ found, selected = some found → found ∈ info.variants := by
  have member : ∀ first others, info.variantsOfArity arity = first :: others →
      first ∈ info.variants := fun first others candidates =>
    (List.mem_filter.mp (candidates ▸ List.mem_cons_self)).1
  mvcgen [selectVariant]
  all_goals first
    | simp; done
    | simpa only [Diagnostic.ordinary_warning, String.append_assoc] using ordinary_counting _ _
    | grind

theorem presents_substParams (presents : ∀ ty ∈ types, ty.Present)
    (presentGenerics : ∀ ty ∈ generics, ty.Present) :
    ∀ ty ∈ types.map (·.substParams generics), ty.Present := by
  grind [Ty.Present.substParams]

@[grind ←]
theorem present_ofList {names : List String} (presents : ∀ ty ∈ types, ty.Present) :
    (Ty.record (Row.ofList (names.zip types))).Present := by
  refine Ty.present_record fun field member => ?_
  rcases Row.mem_insertAll member with added | ⟨⟨⟩⟩
  exact presents field.2 (List.of_mem_zip added).2

mutual

theorem delivers_checkPattern : (pattern : Pattern) → pattern.fits regime = true →
    (expected : Ty) → expected.Present →
      Delivers regime (checkPattern pattern expected) fun _ => True
  | .missing, whole, _, _ => by
    have lenient := Bool.of_not_eq_false fun strict => nomatch Regime.whole_of_accepts whole strict
    mvcgen [checkPattern]
  | .wildcard _, _, _, _ => by mvcgen [checkPattern]
  | .bind _ _ _, _, _, present => delivers_bindLocal present
  | .literal _, _, _, present => delivers_expect present (Ty.present_prim _)
  | .tuple elems span, whole, expected, present | .list elems span, whole, expected, present => by
    have inner := delivers_checkPatterns elems whole
    mvcgen [checkPattern, inner]
    all_goals grind
  | .record fields span, whole, expected, present => by
    have known := delivers_checkKnownFields fields whole expected present
    have inner := delivers_checkFields fields whole
    mvcgen [checkPattern, known, inner]
    case _ => grind
    case _ => rename_i holds _; exact holds.1 _ rfl _
    all_goals grind
  | .ctor decl variant args span, whole, expected, present => by
    have inner := delivers_checkPatterns args whole
    have untyped := delivers_checkUntyped args whole
    mvcgen [checkPattern, inner, untyped]
    all_goals grind [presents_substParams]
  | .foreign _ _, _, _, _ => delivers_reportUnsupported

theorem delivers_checkPatterns : (patterns : List Pattern) → Pattern.allFit regime patterns = true →
    (types : List Ty) → (∀ ty ∈ types, ty.Present) →
      Delivers regime (checkPatterns patterns types) fun _ => True
  | [], _, types, _ | _ :: _, _, [], _ => by mvcgen [checkPatterns]
  | pattern :: patterns, whole, ty :: types, presents => by
    have whole := Regime.accepts_pattern.mp whole
    have first := delivers_checkPattern pattern whole.1
    have rest := delivers_checkPatterns patterns whole.2
    mvcgen [checkPatterns, first, rest] with grind

theorem delivers_checkUntyped : (patterns : List Pattern) → Pattern.allFit regime patterns = true →
    Delivers regime (checkUntyped patterns) fun _ => True
  | [], _ => by mvcgen [checkUntyped]
  | pattern :: patterns, whole => by
    have whole := Regime.accepts_pattern.mp whole
    have first := delivers_checkPattern pattern whole.1
    have rest := delivers_checkUntyped patterns whole.2
    mvcgen [checkUntyped, first, rest] with grind

theorem delivers_checkFields : (fields : List (Field Pattern)) →
    Pattern.fieldsFit regime fields = true → (types : List Ty) → (∀ ty ∈ types, ty.Present) →
      Delivers regime (checkFields fields types) fun _ => True
  | [], _, types, _ | _ :: _, _, [], _ => by mvcgen [checkFields]
  | ⟨_, pattern, _⟩ :: fields, whole, ty :: types, presents => by
    have whole := Regime.accepts_pattern.mp whole
    have first := delivers_checkPattern pattern whole.1
    have rest := delivers_checkFields fields whole.2
    mvcgen [checkFields, first, rest] with grind

theorem delivers_checkKnownFields : (fields : List (Field Pattern)) →
    Pattern.fieldsFit regime fields = true → (expected : Ty) → expected.Present →
      (find : String → CheckM (Option Ty)) →
        (∀ name, Delivers regime (find name) PresentIfFound) →
          Delivers regime (checkKnownFields find expected fields) fun _ => True
  | [], _, _, _, _, _ => by mvcgen [checkKnownFields]
  | ⟨name, pattern, span⟩ :: fields, whole, expected, present, find, finds => by
    have whole := Regime.accepts_pattern.mp whole
    have first := delivers_checkPattern pattern whole.1
    have rest := delivers_checkKnownFields fields whole.2 expected present find finds
    mvcgen [checkKnownFields, finds, first, rest] with grind

end

attribute [spec] delivers_checkPattern

end Checker

def Unreachable.isWhole : Unreachable → Bool
  | .afterCatchAll pattern catchAll => pattern.isWhole && catchAll.isWhole
  | .repeated pattern _ => pattern.isWhole

/-- The patterns that a coverage speaks of are whole. -/
structure Coverage.Whole (coverage : Coverage) : Prop where
  catchAll : ∀ pattern, coverage.catchAll = some pattern → pattern.isWhole = true
  unreachable : ∀ finding ∈ coverage.unreachable, finding.isWhole = true

theorem Coverage.Whole.addArm {coverage : Coverage} {arm : Arm}
    (whole : coverage.Whole) (wholeArm : arm.pattern.isWhole = true) :
    (Coverage.addArm enums coverage arm).Whole := by
  have added : ∀ finding, finding.isWhole = true →
      ∀ other ∈ coverage.unreachable ++ [finding], other.isWhole = true := by
    intro finding wholeFinding other member
    rcases List.mem_append.mp member with old | isNew
    · exact whole.unreachable other old
    · exact List.mem_singleton.mp isNew ▸ wholeFinding
  unfold Coverage.addArm
  split
  · next catchAll caught =>
      exact { whole with unreachable := added _ (by simp [Unreachable.isWhole, wholeArm,
        whole.catchAll catchAll caught]) }
  · split
    · exact whole
    · split
      · refine { whole with catchAll := ?_ }
        rintro _ ⟨⟩
        exact wholeArm
      · split
        · exact whole
        · split
          · exact { whole with unreachable := added _ wholeArm }
          · exact { whole with }

theorem Coverage.whole_ofArms (wholeArms : ∀ arm ∈ arms, arm.pattern.isWhole = true) :
    (Coverage.ofArms enums arms).Whole := by
  have fold : ∀ (arms : List Arm) (coverage : Coverage), coverage.Whole →
      (∀ arm ∈ arms, arm.pattern.isWhole = true) →
        (arms.foldl (Coverage.addArm enums) coverage).Whole := by
    intro arms
    induction arms with
    | nil => exact fun _ whole _ => whole
    | cons arm rest ih =>
      intro coverage whole wholeArms
      exact ih _ (whole.addArm (wholeArms arm List.mem_cons_self)) fun other member =>
        wholeArms other (List.mem_cons_of_mem _ member)
  exact fold arms {} ⟨nofun, nofun⟩ wholeArms

theorem Expr.pattern_of_armsWhole (whole : Expr.armsWhole arms = true) :
    ∀ arm ∈ arms, arm.pattern.isWhole = true := by
  induction arms with
  | nil => nofun
  | cons first rest ih =>
    obtain ⟨pattern, guard, body, span⟩ := first
    simp only [Expr.armsWhole, Bool.and_eq_true] at whole
    intro arm member
    rcases List.mem_cons.mp member with rfl | inRest
    · exact whole.1.1.1
    · exact ih whole.2 arm inRest

namespace Checker

variable {regime : Regime} {functions : List FunctionItem} {ty expected found : Ty} {span : Span}
  {base : Expr} {callee : Expr} {id : LocalId} {receiver : Expr} {scrutinee : Expr}
  {seen : List String}

@[spec]
theorem delivers_reportUnreachable {finding : Unreachable}
    (whole : regime.accepts [] finding.isWhole = true) :
    Delivers regime (reportUnreachable finding) fun _ => True := by
  cases finding with
  | afterCatchAll pattern catchAll =>
    have ⟨wholePattern, wholeCatchAll⟩ := Regime.accepts_pattern.mp whole
    mvcgen [reportUnreachable]
    all_goals first | grind | simp
  | repeated pattern key =>
    have whole : pattern.fits regime = true := whole
    mvcgen [reportUnreachable]
    all_goals first | grind | simp

@[spec]
theorem delivers_reportUncovered {missing : List String} (whole : scrutinee.fits regime = true) :
    Delivers regime (reportUncovered scrutinee missing) fun _ => True := by
  unfold reportUncovered
  split
  · exact delivers_pure trivial
  · exact delivers_bind (delivers_spanOf whole) fun _ _ => delivers_report (by simp)

@[spec]
theorem delivers_checkCoverage (wholeScrutinee : scrutinee.fits regime = true)
    (wholeArms : Expr.armsFit regime arms = true) (present : ty.Present) :
    Delivers regime (checkCoverage scrutinee arms span ty) fun _ => True := by
  have whole : ∀ enums, ∀ finding ∈ (Coverage.ofArms enums arms).unreachable,
      regime.accepts [] finding.isWhole = true := by
    refine fun enums finding member => Regime.accepts_nil fun strict => ?_
    have wholeArms := Expr.pattern_of_armsWhole (Regime.whole_of_accepts wholeArms strict)
    exact (Coverage.whole_ofArms wholeArms).unreachable finding member
  mvcgen [checkCoverage]
  all_goals first | grind | simp

@[grind →]
theorem Intact.global (intact : Intact functions checker)
    (declared : checker.globals.find? decl = some ty) : ty.Present :=
  intact.declared ty (mem_declaredTypes.mpr (.inl (Table.mem_values_of_find? declared)))

@[grind →]
theorem Intact.local (intact : Intact functions checker) {info : LocalInfo}
    (bound : checker.locals.find? id = some info) : info.ty.Present :=
  intact.locals info (Locals.mem_values_of_find? bound)

@[spec]
theorem delivers_environmentVars : Delivers regime environmentVars fun _ => True := by
  have presents : ∀ checker, Intact regime.functions checker →
      ∀ ty ∈ checker.locals.values.map (·.ty) ++ checker.globals.values, ty.Present := by
    grind [mem_declaredTypes, Intact.locals, Intact.declared]
  mvcgen [environmentVars]
  · exact fun _ => True
  all_goals grind [Ty.Present.complete?]

@[spec]
theorem delivers_inferLocal : Delivers regime (inferLocal id span) Present := by
  mvcgen [inferLocal]
  · grind
  · grind
  · rename_i s intact _ bound _
    refine { intact with locals := fun other member => ?_ }
    obtain ⟨old, isOld, same⟩ := Locals.mem_values_refer member
    exact same ▸ intact.locals old isOld

@[spec]
theorem delivers_inferGlobal : Delivers regime (inferGlobal decl span) Present := by
  mvcgen [inferGlobal]
  all_goals first | grind | simp

@[spec]
theorem delivers_bindParams {params : List Param}
    (written : params.all (·.ty.isWritten) = true) :
    Delivers regime (bindParams params) fun types => ∀ ty ∈ types, ty.Present := by
  induction params with
  | nil => mvcgen [bindParams]
  | cons param rest ih =>
    rw [List.all_cons, Bool.and_eq_true, Ty.isWritten_iff] at written
    have ih := ih written.2
    mvcgen [bindParams, ih] with grind

@[spec]
theorem delivers_fieldType? (present : ty.Present) :
    Delivers regime (fieldType? ty name) PresentIfFound := by
  mvcgen [fieldType?] with grind

@[spec]
theorem delivers_inferField (whole : base.fits regime = true) (present : ty.Present) :
    Delivers regime (inferField base name span ty) Present := by
  mvcgen [inferField] with grind

@[spec]
theorem delivers_inferElement {position : Int} (whole : base.fits regime = true)
    (present : ty.Present) : Delivers regime (inferElement base position span ty) Present := by
  mvcgen [inferElement] with grind

@[spec]
theorem delivers_reportCallArity {taken supplied : Nat} :
    Delivers regime (reportCallArity callee taken supplied span) fun _ => True := by
  have labelled : ∀ (diagnostic : Diagnostic) (defined : Option Span), diagnostic.Ordinary →
      (defined.elim diagnostic fun place =>
        diagnostic.withLabel place "function defined here").Ordinary := by
    intro diagnostic defined ordinary
    cases defined <;> exact ordinary
  mvcgen [reportCallArity]
  exact labelled (Diagnostic.withPrimaryMessage (.error _ _ _) _) _ (by simp)

@[spec]
theorem delivers_inferCall {calleeTy : Ty} (whole : callee.fits regime = true)
    (present : calleeTy.Present) (presentArgs : ∀ arg ∈ args, arg.Present) :
    Delivers regime (inferCall callee span calleeTy args) Present := by
  mvcgen [inferCall, reportMismatch]
  all_goals first | grind | simp

@[spec]
theorem delivers_reportNoMethod (whole : receiver.fits regime = true) (present : ty.Present) :
    Delivers regime (reportNoMethod receiver method span ty) fun _ => True := by
  mvcgen [reportNoMethod]
  all_goals first | grind | simp

@[spec]
theorem delivers_reportResolved {wanted : Ty} (genuine : Subst.Genuine error)
    (present : ty.Present) (presentWanted : wanted.Present) :
    Delivers regime (reportResolved ty wanted method span args error) fun _ => True := by
  mvcgen [reportResolved, reportMismatch]
  all_goals first | grind | simp

theorem present_of_resolution {resolution : Resolution}
    (presents : ∀ ty ∈ resolution.types, ty.Present) (presentSelf : self.Present) :
    ∃ ty, resolution.ty? self = some ty ∧ ty.Present := by
  cases resolution with
  | inherent impl method | provided impl method trait decl =>
    exact ⟨_, rfl, presents method.ty List.mem_cons_self⟩
  | declared impl trait decl =>
    exact decl.exists_signature (fun ty member => presents ty (List.mem_append_left _ member))
      (presents decl.result (List.mem_append_right _ List.mem_cons_self)) presentSelf

@[spec]
theorem delivers_inferResolved {resolution : Resolution}
    (presents : ∀ ty ∈ resolution.types, ty.Present) (presentSelf : self.Present)
    (present : ty.Present) (presentArgs : ∀ arg ∈ args, arg.Present) :
    Delivers regime (inferResolved resolution self method span ty args) Present := by
  obtain ⟨scheme, made, presentScheme⟩ := present_of_resolution presents presentSelf
  mvcgen [inferResolved] with grind

theorem Intact.isSome_resolveMethod? (intact : Intact functions checker) (present : self.Present)
    (method : String) : (checker.registry.resolveMethod? self method).isSome = true := by
  rcases intact.indexed.resolveMethod?_cases self method with ⟨resolved, _⟩ | ⟨_, unsettled⟩
  · rw [resolved, Option.isSome_some]
  · obtain ⟨impl, registered, isOpen⟩ := unsettled.exists_open
    have inImpl : impl.implementer ∈ impl.types := List.mem_cons_self
    have := List.mem_flatMap_of_mem registered inImpl
    have presentSelf := intact.declared impl.implementer (mem_declaredTypes.mpr (by tauto))
    have settled := Ty.Present.isMatch? presentSelf present
    exact absurd isOpen (Option.isSome_iff_ne_none.mp settled)

theorem Intact.resolution (intact : Intact functions checker) {resolution : Resolution}
    (resolved : checker.registry.resolveMethod? self method = some (some resolution)) :
    ∀ ty ∈ resolution.types, ty.Present := by
  intro ty member
  have := Registry.types_of_resolveMethod? resolved member
  unfold Registry.Registers at this
  exact intact.declared ty (mem_declaredTypes.mpr (by tauto))

@[spec]
theorem delivers_inferMethodCall (whole : receiver.fits regime = true)
    (present : ty.Present) (presentArgs : ∀ arg ∈ args, arg.Present) :
    Delivers regime (inferMethodCall receiver method span ty args) Present := by
  mvcgen [inferMethodCall, traceResolution]
  all_goals grind [Intact.isSome_resolveMethod?, → Intact.resolution]

@[spec]
theorem delivers_reportMissingFields :
    Delivers regime (reportMissingFields info seen span) fun _ => True := by
  mvcgen [reportMissingFields]
  all_goals first | grind | simp

@[spec]
theorem delivers_checkInitializer {field : Field Expr}
    (whole : field.content.fits regime = true) (presents : ∀ ty ∈ info.types, ty.Present)
    (presentGenerics : ∀ ty ∈ generics, ty.Present) (present : ty.Present) :
    Delivers regime (checkInitializer info generics seen field ty) fun _ => True := by
  mvcgen [checkInitializer, reportUndeclared, reportSetTwice]
  all_goals first
    | simp
    | grind [Ty.Present.substParams?, Ty.Present.substParams, StructInfo.mem_types_of_field?]

@[spec]
theorem delivers_expectArgs {args : List Expr} (whole : Expr.allFit regime args = true)
    {declared : List Ty} (presentDeclared : ∀ ty ∈ declared, ty.Present)
    (presents : ∀ ty ∈ types, ty.Present) :
    Delivers regime (expectArgs declared types args) fun _ => True := by
  fun_induction expectArgs declared types args with
  | case1 wanted others found types arg rest ih =>
    have whole := Regime.accepts_and.mp whole
    rw [List.forall_mem_cons] at presentDeclared presents
    have ih := ih whole.2 presentDeclared.2 presents.2
    mvcgen [ih]
    all_goals grind
  | case2 => mvcgen

@[spec]
theorem delivers_inferVariant {args : List Expr} (whole : Expr.allFit regime args = true)
    (presents : ∀ ty ∈ types, ty.Present) :
    Delivers regime (inferVariant decl name args span types) Present := by
  mvcgen [inferVariant, reportNoVariant, reportVariantArity]
  all_goals first
    | simp; done
    | grind [presents_substParams, EnumInfo.variant?, List.mem_of_find?_eq_some]

@[spec]
theorem delivers_expectElse {thenBranch elseBranch : Expr} {elseTy : Ty}
    (wholeThen : thenBranch.fits regime = true) (wholeElse : elseBranch.fits regime = true)
    (present : result.Present) (presentElse : elseTy.Present) :
    Delivers regime (expectElse thenBranch elseBranch result elseTy) fun _ => True := by
  mvcgen [expectElse, reportMismatch] with grind

@[spec]
theorem delivers_expectArm {bodyTy : Ty} {body : Expr} {first : Span}
    (whole : body.fits regime = true) (present : result.Present) (presentBody : bodyTy.Present) :
    Delivers regime (expectArm result bodyTy body first) fun _ => True := by
  mvcgen [expectArm, reportArm, reportMismatch] with grind

@[spec]
theorem delivers_bindLet (whole : pattern.fits regime = true) (present : ty.Present) :
    Delivers regime (bindLet pattern ty) fun _ => True := by
  have complete : ∀ {scheme : Ty} {names}, scheme.Present →
      (scheme.render? names).isSome = true := by
    intro scheme names presentScheme
    rw [Ty.render?, presentScheme.complete?]
    rfl
  mvcgen [bindLet]
  all_goals grind [Intact.bound, Subst.Within.generalize?, Subst.Within.present_generalize]

@[grind ←]
theorem present_insert {row : Row} (presentRow : (Ty.record row).Present)
    (present : ty.Present) : (Ty.record (Row.insert name ty row)).Present := by
  refine Ty.present_record fun field member => ?_
  rcases Row.mem_insert member with rfl | old
  · exact present
  · exact presentRow.field old

theorem delivers_inferMissing (missing : expr.isMissing = true) :
    Delivers regime (inferExpr expr) Present := by
  cases expr with
  | missing => exact delivers_pure (Ty.present_prim _)
  | _ => cases missing

mutual

theorem delivers_inferExpr : (expr : Expr) → expr.fits regime = true →
    Delivers regime (inferExpr expr) Present
  | .missing, _ => delivers_inferMissing rfl
  | .literal _, _ => delivers_pure (Ty.present_prim _)
  | .localRef _ _, _ => delivers_inferLocal
  | .globalRef _ _, _ => delivers_inferGlobal
  | .list elems _, whole => by
    have inner := delivers_inferElements elems whole
    mvcgen [inferExpr, inner]
    all_goals grind
  | .tuple elems _, whole => by
    have inner := delivers_inferAll elems whole
    mvcgen [inferExpr, inner]
    all_goals grind
  | .record fields _, whole => by
    have inner := delivers_inferRecord fields whole [] (Ty.present_record nofun)
    mvcgen [inferExpr, inner]
  | .structLit decl fields span, whole => by
    have effects := delivers_inferInitializers fields whole
    have inner := fun {info generics} presents presentGenerics =>
      @delivers_checkInitializers fields whole info generics presents presentGenerics []
    mvcgen [inferExpr, effects, inner]
    all_goals grind
  | .variant decl name args span, whole => by
    have whole : Expr.allFit regime args = true := whole
    have inner := delivers_inferAll args whole
    mvcgen [inferExpr, inner]
    all_goals grind
  | .lambda params body _, whole => by
    have ⟨binders, whole⟩ := Regime.accepts_and.mp whole
    have written := Regime.written_of_accepts List.all_map binders
    have inner := delivers_inferExpr body whole
    mvcgen [inferExpr, inner]
    all_goals grind
  | .call callee args _, whole => by
    have whole := Regime.accepts_and.mp whole
    have function := delivers_inferExpr callee whole.1
    have inner := delivers_inferAll args whole.2
    mvcgen [inferExpr, function, inner]
    all_goals grind
  | .methodCall receiver method args _, whole => by
    have whole := Regime.accepts_and.mp whole
    have object := delivers_inferExpr receiver whole.1
    have inner := delivers_inferAll args whole.2
    mvcgen [inferExpr, object, inner]
    all_goals grind
  | .fieldAccess base _ _, whole | .tupleIndex base _ _, whole => by
    have whole : base.fits regime = true := whole
    have inner := delivers_inferExpr base whole
    mvcgen [inferExpr, inner]
    all_goals grind
  | .binary op left right _, whole => by
    have whole := Regime.accepts_and.mp whole
    have first := delivers_inferExpr left whole.1
    have second := delivers_inferExpr right whole.2
    mvcgen [inferExpr, first, second]
    all_goals grind
  | .unary op operand _, whole => by
    have whole : operand.fits regime = true := whole
    have inner := delivers_inferExpr operand whole
    mvcgen [inferExpr, inner]
    all_goals grind
  | .conditional condition thenBranch elseBranch _, whole => by
    have ⟨both, wholeElse⟩ := Regime.accepts_and.mp whole
    have ⟨wholeCondition, wholeThen⟩ := Regime.accepts_and.mp both
    have wholeElse := Regime.accepts_of_or wholeElse
    have first := delivers_inferExpr condition wholeCondition
    have second := delivers_inferExpr thenBranch wholeThen
    have third := delivers_inferExpr elseBranch
    mvcgen [inferExpr, first, second, third]
    all_goals grind
  | .matchOn scrutinee arms _, whole => by
    have whole := Regime.accepts_and.mp whole
    have first := delivers_inferExpr scrutinee whole.1
    have inner := delivers_inferArms arms whole.2
    mvcgen [inferExpr, first, inner]
    all_goals grind
  | .block stmts tail _, whole => by
    have whole := Regime.accepts_and.mp whole
    have lines := delivers_checkStmts stmts whole.1
    have last : Delivers regime (inferExpr tail) Present := by
      by_cases missing : tail.isMissing = true
      · exact delivers_inferMissing missing
      · exact delivers_inferExpr tail (Regime.accepts_of_or whole.2 missing)
    mvcgen [inferExpr, lines, last]
    all_goals grind
  | .ascribe expr ty _, whole => by
    have ⟨whole, written⟩ := Regime.accepts_cons whole
    rw [Ty.isWritten_iff] at written
    have inner := delivers_inferExpr expr whole
    mvcgen [inferExpr, inner]
    all_goals grind
  | .foreign _ _, _ => by
    mvcgen [inferExpr] with grind

theorem delivers_inferAll : (exprs : List Expr) → Expr.allFit regime exprs = true →
    Delivers regime (inferAll exprs) fun types => ∀ ty ∈ types, ty.Present
  | [], _ => by mvcgen [inferAll]
  | expr :: rest, whole => by
    have whole := Regime.accepts_and.mp whole
    have first := delivers_inferExpr expr whole.1
    have others := delivers_inferAll rest whole.2
    mvcgen [inferAll, first, others] with grind

theorem delivers_inferElements : (exprs : List Expr) → Expr.allFit regime exprs = true →
    (elem : Ty) → elem.Present → Delivers regime (inferElements elem exprs) fun _ => True
  | [], _, _, _ => by mvcgen [inferElements]
  | expr :: rest, whole, elem, presentElem => by
    have whole := Regime.accepts_and.mp whole
    have first := delivers_inferExpr expr whole.1
    have others := delivers_inferElements rest whole.2 elem presentElem
    mvcgen [inferElements, first, others] with grind

theorem delivers_inferRecord : (fields : List (Field Expr)) → Expr.fieldsFit regime fields = true →
    (row : Row) → (Ty.record row).Present →
      Delivers regime (inferRecord row fields) fun row => (Ty.record row).Present
  | [], _, _, presentRow => delivers_pure presentRow
  | ⟨name, value, span⟩ :: rest, whole, row, presentRow => by
    have whole := Regime.accepts_and.mp whole
    have first := delivers_inferExpr value whole.1
    have others := delivers_inferRecord rest whole.2
    mvcgen [inferRecord, first, others]
    all_goals first | grind | simp

theorem delivers_inferInitializers : (fields : List (Field Expr)) →
    Expr.fieldsFit regime fields = true → Delivers regime (inferInitializers fields) fun _ => True
  | [], _ => by mvcgen [inferInitializers]
  | ⟨_, value, _⟩ :: rest, whole => by
    have whole := Regime.accepts_and.mp whole
    have first := delivers_inferExpr value whole.1
    have others := delivers_inferInitializers rest whole.2
    mvcgen [inferInitializers, first, others] with grind

theorem delivers_checkInitializers : (fields : List (Field Expr)) →
    Expr.fieldsFit regime fields = true → {info : StructInfo} → {generics : List Ty} →
      (∀ ty ∈ info.types, ty.Present) → (∀ ty ∈ generics, ty.Present) → (seen : List String) →
        Delivers regime (checkInitializers info generics seen fields) fun _ => True
  | [], _, _, _, _, _, _ => by mvcgen [checkInitializers]
  | ⟨_, value, _⟩ :: rest, whole, info, generics, presents, presentGenerics, seen => by
    have whole := Regime.accepts_and.mp whole
    have first := delivers_inferExpr value whole.1
    have others := delivers_checkInitializers rest whole.2 presents presentGenerics
    mvcgen [checkInitializers, first, others] with grind

theorem delivers_inferArms : (arms : List Arm) → Expr.armsFit regime arms = true →
    (scrutinee result : Ty) → (first : Option Span) → scrutinee.Present → result.Present →
      Delivers regime (inferArms scrutinee result first arms) fun _ => True
  | [], _, _, _, _, _, _ => by mvcgen [inferArms]
  | .mk pattern guard body _ :: rest, whole, scrutinee, result, first, present, presentResult => by
    have ⟨wholeArm, wholeRest⟩ := Regime.accepts_and.mp whole
    have ⟨wholeHead, wholeBody⟩ := Regime.accepts_and.mp wholeArm
    have ⟨wholePattern, wholeGuard⟩ := Regime.accepts_pattern.mp wholeHead
    have wholeGuard := Regime.accepts_of_or wholeGuard
    have condition := delivers_inferExpr guard
    have inner := delivers_inferExpr body wholeBody
    have others := fun first =>
      delivers_inferArms rest wholeRest scrutinee result first present presentResult
    mvcgen [inferArms, condition, inner, others] with grind

theorem delivers_checkStmts : (stmts : List Stmt) → Expr.stmtsFit regime stmts = true →
    Delivers regime (checkStmts stmts) fun _ => True
  | [], _ => by mvcgen [checkStmts]
  | .missing :: _, whole => by
    have lenient := Bool.of_not_eq_false fun strict => nomatch Regime.whole_of_accepts whole strict
    mvcgen [checkStmts]
  | .letBind pattern ty value _ :: rest, whole => by
    have ⟨wholeStmt, wholeRest⟩ := Regime.accepts_and.mp whole
    have ⟨wholeHead, wholeValue⟩ := (@Regime.accepts_and regime [ty] _ _ _).mp wholeStmt
    have ⟨wholePattern, written⟩ := Regime.accepts_cons wholeHead
    rw [Ty.isWritten_iff] at written
    have first := delivers_inferExpr value wholeValue
    have others := delivers_checkStmts rest wholeRest
    mvcgen [checkStmts, first, others]
    all_goals grind
  | .run expr _ :: rest, whole => by
    have whole := Regime.accepts_and.mp whole
    have first := delivers_inferExpr expr whole.1
    have others := delivers_checkStmts rest whole.2
    mvcgen [checkStmts, first, others]
    all_goals grind
  | .foreign _ _ :: rest, whole => by
    have others := delivers_checkStmts rest whole
    mvcgen [checkStmts, others] with grind

end

end Checker

end TraitCheck
