import TraitCheck.Checker.Report

/-!
# Checking patterns

A pattern is checked against the type of the value that it is matched with, and its variables are
bound at the types that it gives them. A record pattern may leave out fields of a type that is
already known to be a record or a struct; otherwise it fixes the type to a record with exactly its
fields. A constructor pattern stands for the first variant that takes as many arguments.
-/

namespace TraitCheck.Checker

/-- The type of a field of a record, which has to be there if the field is. -/
def recordField? (fields : Row) (name : String) : CheckM (Option Ty) :=
  match Row.find? name fields with
  | some .absent => throw .incompleteType
  | found => pure found

/-- The type of a field of a struct at given arguments. -/
def structField? (info : StructInfo) (args : List Ty) (name : String) : CheckM (Option Ty) :=
  match info.field? name with
  | some ty => return some (← ofComplete (ty.substParams? args))
  | none => pure none

/-- How the fields of a known record or struct type are found. -/
def knownFields (expected : Ty) : CheckM (Option (String → CheckM (Option Ty))) := do
  match ← shallow expected with
  | .record fields => return some (recordField? fields)
  | .named decl args =>
    return ((← get).structs.find? decl).map fun info => structField? info args
  | _ => return none

/-- The variant that a constructor pattern stands for. A name that disagrees with it, or an unnamed
pattern that fits several variants, is worth a warning. -/
def selectVariant (info : EnumInfo) (variant : String) (arity : Nat) (span : Span) :
    CheckM (Option Variant) := do
  match info.variantsOfArity arity with
  | [] => return none
  | found :: others =>
    if variant ≠ "" ∧ variant ≠ found.name then
      report ((Diagnostic.warning .ambiguousType span
        ("pattern `" ++ variant ++ "` is checked as variant `" ++ info.name ++ "::" ++ found.name ++
          "`")).withNote
        ("constructor patterns select the first variant taking " ++ argCount arity))
    else if variant = "" ∧ ¬others.isEmpty then
      report (.warning .ambiguousType span
        (toString (others.length + 1) ++ " variants of `" ++ info.name ++ "` take " ++
          argCount arity ++ "; using `" ++ found.name ++ "`"))
    return some found

mutual

/-- Checks a pattern against a type and binds its names. -/
def checkPattern : Pattern → (expected : Ty) → CheckM Unit
  | .missing, _ => throw .missingNode
  | .wildcard _, _ => pure ()
  | .bind id name span, expected => bindLocal id name expected span false
  | .literal value, expected => expect expected (.prim value.kind.prim) value.span
  | .tuple elems span, expected => do
    let types ← freshList elems.length
    expect expected (.tuple types) span
    checkPatterns elems types
  | .list elems span, expected => do
    let elem ← fresh
    expect expected (.list elem) span
    checkPatterns elems (List.replicate elems.length elem)
  | .record fields span, expected => do
    match ← knownFields expected with
    | some find => checkKnownFields find expected fields
    | none =>
      let types ← freshList fields.length
      expect expected (.record (Row.ofList ((fields.map (·.name)).zip types))) span
      checkFields fields types
  | .ctor decl variant args span, expected => do
    match (← get).enums.find? decl with
    | none =>
      reportUnbound span ("enum " ++ (← get).itemName decl)
      checkUntyped args
    | some info =>
      let generics ← freshList info.generics.length
      expect expected (.named decl generics) span
      match ← selectVariant info variant args.length span with
      | none => checkUntyped args
      | some found => checkPatterns args (found.fields.map (·.substParams generics))
  | .foreign _ span, _ => reportUnsupported span

/-- Checks patterns against types, one by one. -/
def checkPatterns : List Pattern → List Ty → CheckM Unit
  | pattern :: patterns, ty :: types => do
    checkPattern pattern ty
    checkPatterns patterns types
  | _, _ => pure ()

/-- Checks patterns whose types are not known. -/
def checkUntyped : List Pattern → CheckM Unit
  | [] => pure ()
  | pattern :: patterns => do
    checkPattern pattern (← fresh)
    checkUntyped patterns

/-- Checks the fields of a new record type. -/
def checkFields : List (Field Pattern) → List Ty → CheckM Unit
  | ⟨_, pattern, _⟩ :: fields, ty :: types => do
    checkPattern pattern ty
    checkFields fields types
  | _, _ => pure ()

/-- Checks the fields of a known type. -/
def checkKnownFields (find : String → CheckM (Option Ty)) (expected : Ty) :
    List (Field Pattern) → CheckM Unit
  | [] => pure ()
  | ⟨name, pattern, span⟩ :: fields => do
    match ← find name with
    | some ty => checkPattern pattern ty
    | none =>
      reportUnknownField span name expected
      checkPattern pattern (← fresh)
    checkKnownFields find expected fields

end

end TraitCheck.Checker
