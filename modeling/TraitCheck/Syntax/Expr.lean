import TraitCheck.Syntax.Pattern

/-!
# Expressions and statements

All names are resolved: an expression refers to a local by the number of its binding occurrence
and to a declaration by its number. Optional parts (an else branch, the tail of a block, a guard)
and parts that are absent by mistake both hold `Expr.missing`.
-/

namespace TraitCheck

/-- A parameter of a function. -/
structure Param where
  id : LocalId
  name : String
  ty : Ty
  span : Span
  deriving Repr, Inhabited

mutual

/-- Expressions. -/
inductive Expr where
  | missing
  | literal (value : Literal)
  | localRef (id : LocalId) (span : Span)
  | globalRef (decl : DefId) (span : Span)
  | list (elems : List Expr) (span : Span)
  | tuple (elems : List Expr) (span : Span)
  | record (fields : List (Field Expr)) (span : Span)
  | structLit (decl : DefId) (fields : List (Field Expr)) (span : Span)
  | variant (decl : DefId) (name : String) (args : List Expr) (span : Span)
  | lambda (params : List Param) (body : Expr) (span : Span)
  | call (callee : Expr) (args : List Expr) (span : Span)
  | methodCall (receiver : Expr) (method : String) (args : List Expr) (span : Span)
  | fieldAccess (base : Expr) (name : String) (span : Span)
  | tupleIndex (base : Expr) (position : Int) (span : Span)
  | binary (op : BinaryOp) (left right : Expr) (span : Span)
  | unary (op : UnaryOp) (operand : Expr) (span : Span)
  | conditional (condition thenBranch elseBranch : Expr) (span : Span)
  | matchOn (scrutinee : Expr) (arms : List Arm) (span : Span)
  | block (stmts : List Stmt) (tail : Expr) (span : Span)
  | ascribe (expr : Expr) (ty : Ty) (span : Span)
  | foreign (name : String) (span : Span)

/-- An arm of a match. -/
inductive Arm where
  | mk (pattern : Pattern) (guard body : Expr) (span : Span)

/-- A statement of a block. -/
inductive Stmt where
  | missing
  | letBind (pattern : Pattern) (ty : Ty) (value : Expr) (span : Span)
  | run (expr : Expr) (span : Span)
  | foreign (name : String) (span : Span)

end

instance : Inhabited Expr := ⟨.missing⟩

instance : Inhabited Stmt := ⟨.missing⟩

instance : Inhabited Arm := ⟨.mk .missing .missing .missing .empty⟩

namespace Arm

def pattern : Arm → Pattern
  | .mk pattern _ _ _ => pattern

def guard : Arm → Expr
  | .mk _ guard _ _ => guard

def body : Arm → Expr
  | .mk _ _ body _ => body

def span : Arm → Span
  | .mk _ _ _ span => span

end Arm

namespace Expr

def header? : Expr → Option (String × Span)
  | .missing => none
  | .literal value => some ("Literal", value.span)
  | .localRef _ span => some ("LocalRef", span)
  | .globalRef _ span => some ("GlobalRef", span)
  | .list _ span => some ("List", span)
  | .tuple _ span => some ("TupleLit", span)
  | .record _ span => some ("RecordLit", span)
  | .structLit _ _ span => some ("StructLit", span)
  | .variant _ _ _ span => some ("VariantLit", span)
  | .lambda _ _ span => some ("Lambda", span)
  | .call _ _ span => some ("Call", span)
  | .methodCall _ _ _ span => some ("MethodCall", span)
  | .fieldAccess _ _ span => some ("FieldAccess", span)
  | .tupleIndex _ _ span => some ("TupleIndex", span)
  | .binary _ _ _ span => some ("Binary", span)
  | .unary _ _ span => some ("Unary", span)
  | .conditional _ _ _ span => some ("If", span)
  | .matchOn _ _ span => some ("Match", span)
  | .block _ _ span => some ("Block", span)
  | .ascribe _ _ span => some ("Ascribe", span)
  | .foreign name span => some (name, span)

def span? (expr : Expr) : Option Span := expr.header?.map Prod.snd

def isMissing : Expr → Bool
  | .missing => true
  | _ => false

end Expr

namespace Stmt

def header? : Stmt → Option (String × Span)
  | .missing => none
  | .letBind _ _ _ span => some ("Let", span)
  | .run _ span => some ("ExprStmt", span)
  | .foreign name span => some (name, span)

def span? (stmt : Stmt) : Option Span := stmt.header?.map Prod.snd

end Stmt

end TraitCheck
