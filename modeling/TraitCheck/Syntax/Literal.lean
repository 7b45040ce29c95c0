import TraitCheck.Syntax.Span
import TraitCheck.Ty.Basic

/-!
# Literals and operators

Literals and operators arrive as small codes. The codes with a meaning have constructors of their
own; the remaining ones are kept apart, since a syntax tree may hold them and the checker has to
answer for them.
-/

namespace TraitCheck

inductive LiteralKind where
  | int
  | float
  | bool
  | char
  | string
  | unit
  | reserved (offset : Nat)
  deriving DecidableEq, Repr, Inhabited

namespace LiteralKind

def ofCode : Nat → LiteralKind
  | 0 => .int
  | 1 => .float
  | 2 => .bool
  | 3 => .char
  | 4 => .string
  | 5 => .unit
  | offset + 6 => .reserved offset

def prim : LiteralKind → Prim
  | .int => .int
  | .float => .float
  | .bool => .bool
  | .char => .char
  | .string => .string
  | .unit | .reserved _ => .unit

end LiteralKind

/-- A literal as it is written. -/
structure Literal where
  kind : LiteralKind
  value : String
  span : Span
  deriving DecidableEq, Repr, Inhabited

inductive BinaryOp where
  | add
  | sub
  | mul
  | div
  | mod
  | eq
  | ne
  | lt
  | le
  | gt
  | ge
  | and
  | or
  | concat
  | pipe
  | reserved (offset : Nat)
  deriving DecidableEq, Repr, Inhabited

namespace BinaryOp

def ofCode : Nat → BinaryOp
  | 0 => .add
  | 1 => .sub
  | 2 => .mul
  | 3 => .div
  | 4 => .mod
  | 5 => .eq
  | 6 => .ne
  | 7 => .lt
  | 8 => .le
  | 9 => .gt
  | 10 => .ge
  | 11 => .and
  | 12 => .or
  | 13 => .concat
  | 14 => .pipe
  | offset + 15 => .reserved offset

def text : BinaryOp → String
  | .add => "+"
  | .sub => "-"
  | .mul => "*"
  | .div => "/"
  | .mod => "%"
  | .eq => "=="
  | .ne => "!="
  | .lt => "<"
  | .le => "<="
  | .gt => ">"
  | .ge => ">="
  | .and => "and"
  | .or => "or"
  | .concat => "++"
  | .pipe => "|>"
  | .reserved _ => "?"

end BinaryOp

inductive UnaryOp where
  | neg
  | not
  | reserved (offset : Nat)
  deriving DecidableEq, Repr, Inhabited

namespace UnaryOp

def ofCode : Nat → UnaryOp
  | 0 => .neg
  | 1 => .not
  | offset + 2 => .reserved offset

def text : UnaryOp → String
  | .neg => "-"
  | .not | .reserved _ => "not"

end UnaryOp

end TraitCheck
