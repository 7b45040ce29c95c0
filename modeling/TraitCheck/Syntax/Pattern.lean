import TraitCheck.Syntax.Literal

/-!
# Patterns

Patterns of `let` bindings and match arms. A position where the tree has no pattern holds
`missing`, which has neither a name nor a span.
-/

namespace TraitCheck

/-- Patterns. -/
inductive Pattern where
  | missing
  | wildcard (span : Span)
  | bind (id : LocalId) (name : String) (span : Span)
  | literal (value : Literal)
  | tuple (elems : List Pattern) (span : Span)
  | list (elems : List Pattern) (span : Span)
  | record (fields : List (Field Pattern)) (span : Span)
  /-- A variant of an enum. With an empty name the variant is chosen by the number of arguments. -/
  | ctor (decl : DefId) (variant : String) (args : List Pattern) (span : Span)
  | foreign (name : String) (span : Span)
  deriving Repr, Inhabited

namespace Pattern

def header? : Pattern → Option (String × Span)
  | .missing => none
  | .wildcard span => some ("Wildcard", span)
  | .bind _ _ span => some ("Bind", span)
  | .literal value => some ("Literal", value.span)
  | .tuple _ span => some ("Tuple", span)
  | .list _ span => some ("List", span)
  | .record _ span => some ("Record", span)
  | .ctor _ _ _ span => some ("Constructor", span)
  | .foreign name span => some (name, span)

def span? (pattern : Pattern) : Option Span := pattern.header?.map Prod.snd

mutual

/-- Whether a pattern matches every value. -/
def isIrrefutable : Pattern → Bool
  | .wildcard _ | .bind _ _ _ => true
  | .tuple elems _ => allIrrefutable elems
  | .record fields _ => fieldsIrrefutable fields
  | .missing | .literal _ | .list _ _ | .ctor _ _ _ _ | .foreign _ _ => false

def allIrrefutable : List Pattern → Bool
  | [] => true
  | pattern :: rest => isIrrefutable pattern && allIrrefutable rest

def fieldsIrrefutable : List (Field Pattern) → Bool
  | [] => true
  | ⟨_, pattern, _⟩ :: rest => isIrrefutable pattern && fieldsIrrefutable rest

end

end Pattern

end TraitCheck
