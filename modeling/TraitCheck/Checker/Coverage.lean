import TraitCheck.Checker.Report

/-!
# Coverage of matches

The arms of a match are read from top to bottom. An unguarded arm that matches everything ends the
match, and later arms cannot be reached. An unguarded arm that fully covers a value or a variant is
remembered by a key; a second arm with the same key cannot be reached either. In the end the keys
of the scrutinee's type that no arm covers are missing.
-/

namespace TraitCheck

/-- Why an arm cannot be reached. -/
inductive Unreachable where
  | afterCatchAll (pattern catchAll : Pattern)
  | repeated (pattern : Pattern) (key : String)
  deriving Repr, Inhabited

/-- What the arms of a match cover. -/
structure Coverage where
  unreachable : List Unreachable := []
  catchAll : Option Pattern := none
  covered : List String := []
  deriving Repr, Inhabited

namespace Coverage

/-- The key of the value or variant that an unguarded pattern fully matches. A constructor pattern
covers the variant that it names, and an unnamed one the first variant of its arity. -/
def key? (enums : Table DefId EnumInfo) : Pattern → Option String
  | .literal value =>
    match value.kind with
    | .bool => some value.value
    | .unit => some "()"
    | _ => none
  | .ctor decl variant args _ =>
    match enums.find? decl with
    | none => none
    | some info =>
      if args.all Pattern.isIrrefutable then
        match info.variant? variant with
        | some found =>
          if found.fields.length = args.length then some found.name else unnamed info variant args
        | none => unnamed info variant args
      else none
  | _ => none
where
  unnamed (info : EnumInfo) (variant : String) (args : List Pattern) : Option String :=
    if variant = "" then ((info.variantsOfArity args.length).head?).map (·.name) else none

/-- Takes one more arm into account. -/
def addArm (enums : Table DefId EnumInfo) (coverage : Coverage) (arm : Arm) : Coverage :=
  match coverage.catchAll with
  | some catchAll =>
    { coverage with
      unreachable := coverage.unreachable ++ [.afterCatchAll arm.pattern catchAll] }
  | none =>
    if ¬arm.guard.isMissing then coverage
    else if arm.pattern.isIrrefutable then { coverage with catchAll := some arm.pattern }
    else
      match key? enums arm.pattern with
      | none => coverage
      | some key =>
        if coverage.covered.contains key then
          { coverage with unreachable := coverage.unreachable ++ [.repeated arm.pattern key] }
        else { coverage with covered := coverage.covered ++ [key] }

/-- What the arms cover, from top to bottom. -/
def ofArms (enums : Table DefId EnumInfo) (arms : List Arm) : Coverage :=
  arms.foldl (addArm enums) {}

def variantText (variant : Variant) : String :=
  if variant.fields.isEmpty then variant.name
  else variant.name ++ "(" ++ ", ".intercalate (variant.fields.map fun _ => "_") ++ ")"

/-- The cases of a type that are not covered by arms of which none matches everything. Types other
than primitives and enums have no cases. -/
def missing (enums : Table DefId EnumInfo) (coverage : Coverage) (scrutinee : Ty) : List String :=
  let open_ (key : String) : Bool := !coverage.covered.contains key
  match scrutinee with
  | .prim .bool => ["true", "false"].filter open_
  | .prim .unit => ["()"].filter open_
  | .prim _ => ["_"]
  | .named decl _ =>
    match enums.find? decl with
    | none => []
    | some info => (info.variants.filter fun variant => open_ variant.name).map variantText
  | _ => []

end Coverage

namespace Checker

def reportUnreachable (finding : Unreachable) : CheckM Unit := do
  match finding with
  | .afterCatchAll pattern catchAll =>
    let span ← patternSpan pattern
    let catchSpan ← patternSpan catchAll
    report ((Diagnostic.warning .unreachablePattern span "unreachable pattern").withLabel
      catchSpan "matches any value")
  | .repeated pattern key =>
    let span ← patternSpan pattern
    report ((Diagnostic.warning .unreachablePattern span "unreachable pattern").withPrimaryMessage
      ("`" ++ key ++ "` is already covered by an earlier arm"))

abbrev reportUncovered (scrutineeExpr : Expr) (missing : List String) : CheckM Unit := do
  unless missing.isEmpty do
    let span ← spanOf scrutineeExpr
    report ((Diagnostic.error .nonExhaustiveMatch span
      ("non-exhaustive patterns: " ++
        ", ".intercalate (missing.map fun shown => "`" ++ shown ++ "`") ++
        " not covered")).withHelp
      ("ensure that all possible cases are being handled by adding a match arm with a wildcard " ++
        "pattern"))

/-- Reports unreachable arms and cases that are not covered. -/
def checkCoverage (scrutineeExpr : Expr) (arms : List Arm) (span : Span) (scrutinee : Ty) :
    CheckM Unit := do
  if arms.isEmpty then
    report ((Diagnostic.error .nonExhaustiveMatch span
      "non-exhaustive patterns: `match` has no arms").withHelp
        "add a match arm with a wildcard pattern")
  else
    let enums := (← get).enums
    let coverage := Coverage.ofArms enums arms
    coverage.unreachable.forM reportUnreachable
    if coverage.catchAll.isNone then
      reportUncovered scrutineeExpr (coverage.missing enums (← solved scrutinee))

end Checker

end TraitCheck
