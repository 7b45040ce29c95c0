import TraitCheck.Syntax.Span

/-!
# Diagnostics

A diagnostic says what is wrong and where. Its labels attach messages to places in the source; the
primary label marks the place that the diagnostic is about.
-/

namespace TraitCheck

/-- How grave a diagnostic is. Levels past the two known ones print like errors but count as
neither. -/
inductive Severity where
  | error
  | warning
  | reserved (offset : Nat)
  deriving DecidableEq, Repr, Inhabited

namespace Severity

def ofLevel : Nat → Severity
  | 0 => .error
  | 1 => .warning
  | offset + 2 => .reserved offset

def text : Severity → String
  | .warning => "warning"
  | .error | .reserved _ => "error"

end Severity

/-- The kinds of problems. -/
structure Code where
  number : Nat
  deriving DecidableEq, Repr, Inhabited

namespace Code

def typeMismatch : Code := ⟨1⟩
def infiniteType : Code := ⟨2⟩
def unboundVariable : Code := ⟨3⟩
def missingMethod : Code := ⟨4⟩
def missingField : Code := ⟨5⟩
def unknownField : Code := ⟨6⟩
def nonExhaustiveMatch : Code := ⟨7⟩
def unreachablePattern : Code := ⟨8⟩
def unusedVariable : Code := ⟨9⟩
def ambiguousType : Code := ⟨10⟩
def privateAccess : Code := ⟨11⟩
def cyclicDependency : Code := ⟨12⟩
def missingAssocType : Code := ⟨13⟩
def unknownTrait : Code := ⟨14⟩
def extraImplItem : Code := ⟨15⟩
def internal : Code := ⟨99⟩

def registry : List (Code × String × String) := [
  (typeMismatch, "E0001", "TypeMismatch"),
  (infiniteType, "E0002", "InfiniteType"),
  (unboundVariable, "E0003", "UnboundVariable"),
  (missingMethod, "E0004", "MissingMethod"),
  (missingField, "E0005", "MissingField"),
  (unknownField, "E0006", "UnknownField"),
  (nonExhaustiveMatch, "E0007", "NonExhaustiveMatch"),
  (unreachablePattern, "W0008", "UnreachablePattern"),
  (unusedVariable, "W0009", "UnusedVariable"),
  (ambiguousType, "E0010", "AmbiguousType"),
  (privateAccess, "E0011", "PrivateAccess"),
  (cyclicDependency, "E0012", "CyclicDependency"),
  (missingAssocType, "E0013", "MissingAssocType"),
  (unknownTrait, "E0014", "UnknownTrait"),
  (extraImplItem, "E0015", "ExtraImplItem"),
  (internal, "E0099", "Internal")]

def entry (code : Code) : String × String :=
  (registry.lookup code).getD ("E????", "Unknown")

/-- The code as printed, such as `E0001`. -/
def id (code : Code) : String := code.entry.1

def name (code : Code) : String := code.entry.2

end Code

/-- A place with a remark. -/
structure Label where
  span : Span
  message : String := ""
  primary : Bool := false
  deriving DecidableEq, Repr, Inhabited

/-- A problem found in the program. -/
structure Diagnostic where
  severity : Severity
  code : Code
  message : String
  labels : List Label := []
  notes : List String := []
  help : String := ""
  deriving DecidableEq, Repr, Inhabited

namespace Diagnostic

def error (code : Code) (span : Span) (message : String) : Diagnostic :=
  { severity := .error, code, message, labels := [⟨span, "", true⟩] }

def warning (code : Code) (span : Span) (message : String) : Diagnostic :=
  { severity := .warning, code, message, labels := [⟨span, "", true⟩] }

def withLabel (diagnostic : Diagnostic) (span : Span) (message : String) : Diagnostic :=
  { diagnostic with labels := diagnostic.labels ++ [⟨span, message, false⟩] }

def withPrimaryMessage (diagnostic : Diagnostic) (message : String) : Diagnostic :=
  { diagnostic with
    labels := diagnostic.labels.map fun label =>
      if label.primary then { label with message } else label }

def withNote (diagnostic : Diagnostic) (note : String) : Diagnostic :=
  { diagnostic with notes := diagnostic.notes ++ [note] }

def withHelp (diagnostic : Diagnostic) (help : String) : Diagnostic := { diagnostic with help }

def header (diagnostic : Diagnostic) : String :=
  diagnostic.severity.text ++ "[" ++ diagnostic.code.id ++ "]"

def summary (diagnostic : Diagnostic) : String :=
  diagnostic.header ++ ": " ++ diagnostic.message

/-- The span of the primary label, or else of the first one. -/
def span (diagnostic : Diagnostic) : Span :=
  match diagnostic.labels.find? (·.primary), diagnostic.labels with
  | some label, _ => label.span
  | none, label :: _ => label.span
  | none, [] => .empty

end Diagnostic

end TraitCheck
