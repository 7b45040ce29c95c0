import TraitCheck.Checker.Report

/-!
# Conformance of impls to their traits

A trait impl has to provide every method and associated type without a default, nothing that its
trait does not declare, and methods whose types agree with the declared ones. Types are compared
only where the self type is closed: the generics of an impl are not in scope of its functions.
-/

namespace TraitCheck

def Ty.isParam : Ty → Bool
  | .param _ _ => true
  | _ => false

/-- Whether a type mentions a generic parameter, as far as the walk can go. -/
def Ty.hasParams? (ty : Ty) : Option Bool := ty.search? isParam

namespace Checker

abbrev reportMissingItem (code : Code) (impl : Impl) (subject what shown name : String)
    (declared : Span) : CheckM Unit :=
  report <|
    ((Diagnostic.error code impl.span
      ("not all trait items implemented, missing " ++ what ++ " `" ++ name ++
        "`")).withPrimaryMessage
      ("missing `" ++ shown ++ name ++ "` in impl of " ++ subject)).withLabel declared
      ("`" ++ name ++ "` is declared here")

abbrev reportExtraItem (trait : Trait) (span : Span) (what name : String) : CheckM Unit :=
  report (.error .extraImplItem span
    (what ++ " `" ++ name ++ "` is not a member of trait `" ++ trait.name ++ "`"))

def reportNonconforming (trait : Trait) (decl : MethodDecl) (method : ImplMethod)
    (wanted provided : Ty) (error : UnifyError) : CheckM Unit :=
  reportMismatch error wanted provided method.span fun diagnostic =>
    return (diagnostic.withLabel decl.span "type in trait").withNote
      ("method `" ++ method.name ++ "` has an incompatible type for trait `" ++ trait.name ++ "`")

/-- Compares the type of a method with the declared one. -/
def checkImplMethod (trait : Trait) (impl : Impl) (method : ImplMethod) : CheckM Unit := do
  match trait.method? method.name with
  | none => pure ()
  | some decl =>
    let wanted ← ofComplete (decl.signature? impl.implementer)
    let provided ← instantiate method.ty
    match ← unify wanted provided with
    | none => pure ()
    | some error => reportNonconforming trait decl method wanted provided error

/-- Reports what an impl lacks and what it has too much. -/
abbrev reportImplItems (trait : Trait) (impl : Impl) : CheckM Unit := do
  let subject := "`" ++ trait.name ++ "` for " ++ (← quote impl.implementer)
  impl.missingMethods.forM fun name =>
    reportMissingItem .missingMethod impl subject "method" "" name
      ((trait.method? name).elim .empty (·.span))
  impl.missingAssocTypes.forM fun name =>
    reportMissingItem .missingAssocType impl subject "associated type" "type " name
      ((trait.assocType? name).elim .empty (·.span))
  impl.extraMethods.forM fun method => reportExtraItem trait method.span "method" method.name
  impl.extraAssocTypes.forM fun assoc => reportExtraItem trait assoc.span "type" assoc.name

/-- Compares an impl with its trait. -/
def checkImpl (trait : Trait) (impl : Impl) : CheckM Unit := do
  reportImplItems trait impl
  unless ← ofComplete impl.implementer.hasParams? do
    impl.methods.forM (checkImplMethod trait impl)

/-- The impls of traits, in order of their traits. -/
def traitImpls (registry : Registry) : List (Trait × Impl) :=
  registry.traits.flatMap fun trait =>
    (registry.implsOf trait.id).filterMap fun id =>
      registry.impls[id]?.map fun impl => (trait, impl)

/-- Compares all impls with their traits. -/
def checkImpls : CheckM Unit := do
  (traitImpls (← get).registry).forM fun (trait, impl) => checkImpl trait impl

end Checker

end TraitCheck
