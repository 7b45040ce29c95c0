import TraitCheck.Checker.State

/-!
# Diagnostics of the checker

The wording of the diagnostics that several rules share.
-/

namespace TraitCheck.Checker

def argCount (count : Nat) : String := counted count "argument"

def wasWere (count : Nat) : String := if count = 1 then "was" else "were"

def takesButSupplied (taken supplied : Nat) : String :=
  " takes " ++ argCount taken ++ " but " ++ argCount supplied ++ " " ++ wasWere supplied ++
    " supplied"

abbrev expectedFound (expected found : Ty) : CheckM String :=
  return "expected " ++ (← quote expected) ++ ", found " ++ (← quote found)

/-- The diagnostic for types that differ. -/
def differing (error : UnifyError) (whole inner : String) (span : Span) : Diagnostic :=
  let mismatched (code : Code) : Diagnostic :=
    (Diagnostic.error code span "mismatched types").withPrimaryMessage whole
  match error.fault with
  | .arityMismatch | .recordShape => (mismatched .typeMismatch).withNote error.message
  | .notInstantiated => (mismatched .internal).withNote error.message
  | .mismatch | .infiniteType | .incomplete =>
    if inner = whole then mismatched .typeMismatch
    else (mismatched .typeMismatch).withNote inner

/-- The diagnostic for a failed comparison. -/
def mismatch (error : UnifyError) (expected found : Ty) (span : Span) : CheckM Diagnostic := do
  if error.fault = .infiniteType then
    return (Diagnostic.error .infiniteType span
      ("cannot construct the infinite type " ++ (← quote error.expected) ++ " = " ++
        (← quote error.found))).withPrimaryMessage
      "this expression would have an infinitely nested type"
  else
    let whole ← expectedFound expected found
    let inner ← if error.fault = .mismatch then expectedFound error.expected error.found
      else pure whole
    return differing error whole inner span

/-- Reports a failed comparison with an explanation. -/
def reportMismatch (error : UnifyError) (expected found : Ty) (span : Span)
    (explain : Diagnostic → CheckM Diagnostic) : CheckM Unit := do
  report (← explain (← mismatch error expected found span))

/-- Compares a type with the expected one. -/
def expect (expected found : Ty) (span : Span) : CheckM Unit := do
  match ← unify expected found with
  | none => pure ()
  | some error => reportMismatch error expected found span pure

abbrev reportUnbound (span : Span) (what : String) : CheckM Unit :=
  report (.error .unboundVariable span ("cannot find " ++ what ++ " in this scope"))

abbrev reportUnknownField (span : Span) (field : String) (ty : Ty) : CheckM Unit := do
  report ((Diagnostic.error .unknownField span
    ("no field `" ++ field ++ "` on type " ++ (← quote ty))).withPrimaryMessage "unknown field")

abbrev reportAmbiguous (span : Span) (what : String) : CheckM Unit :=
  report ((Diagnostic.error .ambiguousType span "type annotations needed").withPrimaryMessage
    ("the type of this value must be known " ++ what))

/-- Reports syntax outside the language. The note is a placeholder for a dump of the node. -/
abbrev reportUnsupported (span : Span) : CheckM Unit :=
  report ((Diagnostic.error .internal span "unsupported syntax").withNote "<dump>")

end TraitCheck.Checker
