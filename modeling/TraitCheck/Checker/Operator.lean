import TraitCheck.Checker.Report

/-!
# Operators

The typing rules of the operators, given the types of their operands. Operands whose type is still
unknown are accepted: an operator does not constrain them beyond making both sides equal.
-/

namespace TraitCheck

/-- Operators with a common rule. -/
inductive OperatorClass where
  | arithmetic
  | comparison
  | logical
  | concatenation
  | pipe
  deriving DecidableEq, Repr

def BinaryOp.class? : BinaryOp → Option OperatorClass
  | .add | .sub | .mul | .div | .mod => some .arithmetic
  | .eq | .ne | .lt | .le | .gt | .ge => some .comparison
  | .and | .or => some .logical
  | .concat => some .concatenation
  | .pipe => some .pipe
  | .reserved _ => none

namespace Ty

/-- Whether arithmetic may apply to a type. -/
def isNumeric : Ty → Bool
  | .prim kind => kind.isNumeric
  | .var _ | .unknown => true
  | _ => false

/-- Whether `++` may apply to a type. -/
def isConcatenable : Ty → Bool
  | .prim kind => kind = .string
  | .var _ | .unknown => true
  | ty => ty.listElem?.isSome

end Ty

namespace Checker

def reportOperands (op : BinaryOp) (left right : Expr) (leftTy rightTy : Ty) (error : UnifyError) :
    CheckM Unit := do
  let rightSpan ← spanOf right
  let leftSpan ← spanOf left
  reportMismatch error leftTy rightTy rightSpan fun diagnostic =>
    return diagnostic.withLabel leftSpan ("expected because of this operand of `" ++ op.text ++ "`")

/-- Makes the types of both operands equal. -/
def unifyOperands (op : BinaryOp) (left right : Expr) (leftTy rightTy : Ty) : CheckM Bool := do
  match ← unify leftTy rightTy with
  | none => return true
  | some error =>
    reportOperands op left right leftTy rightTy error
    return false

abbrev checkArithmetic (op : BinaryOp) (operand : Ty) (span : Span) : CheckM Unit := do
  let operand ← solved operand
  unless operand.isNumeric do
    let quoted ← quote operand
    report (((Diagnostic.error .typeMismatch span
      ("cannot apply `" ++ op.text ++ "` to " ++ quoted)).withPrimaryMessage
      ("expected a numeric type, found " ++ quoted)).withHelp
      "arithmetic operands must be `Int` or `Float`")

abbrev checkConcatenation (operand : Ty) (span : Span) : CheckM Unit := do
  let operand ← solved operand
  unless operand.isConcatenable do
    let quoted ← quote operand
    report ((Diagnostic.error .typeMismatch span
      ("cannot apply `++` to " ++ quoted)).withPrimaryMessage
      ("expected `String` or a list, found " ++ quoted))

abbrev checkNegation (operand : Ty) (span : Span) : CheckM Unit := do
  let operand ← solved operand
  unless operand.isNumeric do
    report ((Diagnostic.error .typeMismatch span
      ("cannot apply unary `-` to " ++ (← quote operand))).withPrimaryMessage
      "expected a numeric type")

def reportPipe (right : Expr) (wanted rightTy : Ty) (error : UnifyError) : CheckM Unit := do
  let span ← spanOf right
  reportMismatch error wanted rightTy span fun diagnostic =>
    return diagnostic.withNote "the right side of `|>` must be a function taking one argument"

/-- The type of `left |> right`. -/
def inferPipe (right : Expr) (leftTy rightTy : Ty) : CheckM Ty := do
  let result ← fresh
  let wanted := Ty.fn [leftTy] result
  match ← unify rightTy wanted with
  | none => pure ()
  | some error => reportPipe right wanted rightTy error
  return result

/-- The type of a binary operation. -/
def inferOperation (rule : OperatorClass) (op : BinaryOp) (left right : Expr) (span : Span)
    (leftTy rightTy : Ty) : CheckM Ty := do
  match rule with
  | .arithmetic =>
    if ← unifyOperands op left right leftTy rightTy then checkArithmetic op leftTy span
    return leftTy
  | .comparison =>
    let _ ← unifyOperands op left right leftTy rightTy
    return .bool
  | .logical =>
    expect .bool leftTy (← spanOf left)
    expect .bool rightTy (← spanOf right)
    return .bool
  | .concatenation =>
    if ← unifyOperands op left right leftTy rightTy then checkConcatenation leftTy span
    return leftTy
  | .pipe => inferPipe right leftTy rightTy

/-- The type of a unary operation. -/
def inferUnary (op : UnaryOp) (operand : Expr) (span : Span) (operandTy : Ty) : CheckM Ty := do
  match op with
  | .neg =>
    checkNegation operandTy span
    return operandTy
  | .not =>
    expect .bool operandTy (← spanOf operand)
    return .bool
  | .reserved _ =>
    reportUnsupported span
    fresh

end Checker

end TraitCheck
