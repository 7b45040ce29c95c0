/-!
# Source positions

A span is a half-open range of bytes in a file. Parts of syntax that carry a name and a position
besides their content share the type `Field`.
-/

namespace TraitCheck

/-- A range of a file. -/
structure Span where
  start : Int := 0
  stop : Int := 0
  file : String := ""
  deriving DecidableEq, Repr, Inhabited

namespace Span

def empty : Span := {}

def isEmpty (span : Span) : Bool := span = empty

end Span

/-- A named part of a larger piece of syntax, such as one field of a record literal. -/
structure Field (Content : Type) where
  name : String
  content : Content
  span : Span
  deriving DecidableEq, Repr, Inhabited

end TraitCheck
