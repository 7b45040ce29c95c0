import TraitCheck.Subst
import TraitCheck.Ty.Printer
import TraitCheck.Ty.Row

/-!
# Unification

`Subst.unify` makes two types equal by binding variables. It looks through the bindings at the head
of both types, binds a variable after an occurs check, and otherwise takes both types apart with
`Ty.components`, which either pairs their components or names the reason why no bindings can make
them equal. The pairs are solved from left to right. Bindings made before a failure stay.

Types that are not complete fail on their own account: they cannot be compared, and nothing can be
said about them in words.

The recursion descends through type formers and through bindings. On a substitution in which no
variable is reachable from itself a path passes each binding at most once, and between two bindings
it stays inside one of the types at hand, so its length is at most quadratic in the weight of the
problem. `Subst.unifyLimit` is that bound; exceeding it means that a type contains itself.
-/

namespace TraitCheck

/-- Why two types cannot be made equal. -/
inductive UnifyFault where
  | mismatch
  | infiniteType
  | arityMismatch
  | recordShape
  | notInstantiated
  /-- A type that is not complete, or a variable bound to no type. -/
  | incomplete
  deriving DecidableEq, Repr, Inhabited

/-- A unification failure with the innermost pair of types at fault. -/
structure UnifyError where
  fault : UnifyFault
  expected : Ty
  found : Ty
  deriving Repr, Inhabited

def counted (count : Nat) (noun : String) : String :=
  toString count ++ " " ++ noun ++ (if count = 1 then "" else "s")

def Row.labelsMissingIn (other row : Row) : List String :=
  (Row.labels row).filter fun label => !Row.contains label other

namespace UnifyError

def recordShapeText (expected found : Row) : String :=
  let missing := Row.labelsMissingIn found expected
  let unexpected := Row.labelsMissingIn expected found
  "record fields differ" ++
    (if missing.isEmpty then "" else "; missing " ++ ", ".intercalate missing) ++
    (if unexpected.isEmpty then "" else "; unexpected " ++ ", ".intercalate unexpected)

def arityText : Ty → Ty → String
  | .fn params _, .fn params' _ =>
    "expected a function taking " ++ counted params.length "argument" ++
      ", found a function taking " ++ counted params'.length "argument"
  | .tuple elems, .tuple elems' =>
    "expected a tuple with " ++ counted elems.length "element" ++
      ", found one with " ++ counted elems'.length "element"
  | _, _ => "Cannot unify named types with differing numbers of type arguments"

def infiniteText : Ty → Ty → String
  | .var id, within => "infinite type: " ++ Ty.varName id ++ " occurs within " ++ within.text
  | within, .var id => "infinite type: " ++ Ty.varName id ++ " occurs within " ++ within.text
  | expected, found => "infinite type: " ++ expected.text ++ " occurs within " ++ found.text

/-- The failure in words. -/
def message (error : UnifyError) : String :=
  match error.fault, error.expected, error.found with
  | .mismatch, expected, found => "Failed to unify " ++ expected.text ++ " with " ++ found.text
  | .infiniteType, expected, found => infiniteText expected found
  | .arityMismatch, expected, found => arityText expected found
  | .recordShape, .record expected, .record found => recordShapeText expected found
  | .recordShape, _, _ => recordShapeText [] []
  | .notInstantiated, expected, found =>
    let polymorphic := if expected.isScheme then expected else found
    "polymorphic type " ++ polymorphic.text ++ " was not instantiated before unification"
  | .incomplete, _, _ => "incomplete type"

/-- Whether the types that the reason for a failure mentions are complete. -/
def isSayable (error : UnifyError) : Bool :=
  match error.fault with
  | .mismatch | .infiniteType => error.expected.isComplete && error.found.isComplete
  | .notInstantiated =>
    if error.expected.isScheme then error.expected.isComplete else error.found.isComplete
  | .arityMismatch | .recordShape | .incomplete => true

/-- A failure that cannot be put into words is the failure of a type that is not complete. -/
def settle (error : UnifyError) : UnifyError :=
  if error.isSayable then error else { error with fault := .incomplete }

end UnifyError

/-- The pairs of components that have to unify for two types that are neither variables nor
placeholders, or the reason why the types differ whatever their components. -/
def Ty.components (expected found : Ty) : Except UnifyError (List (Ty × Ty)) :=
  match expected, found with
  | .scheme _ _, _ => .error ⟨.notInstantiated, expected, found⟩
  | _, .scheme _ _ => .error ⟨.notInstantiated, expected, found⟩
  | .prim kind, .prim kind' =>
    if kind = kind' then .ok [] else .error ⟨.mismatch, expected, found⟩
  | .param index name, .param index' name' =>
    if index = index' ∧ name = name' then .ok [] else .error ⟨.mismatch, expected, found⟩
  | .named decl args, .named decl' args' =>
    if decl ≠ decl' then .error ⟨.mismatch, expected, found⟩
    else if args.length ≠ args'.length then .error ⟨.arityMismatch, expected, found⟩
    else .ok (args.zip args')
  | .fn params result, .fn params' result' =>
    if params.length ≠ params'.length then .error ⟨.arityMismatch, expected, found⟩
    else .ok (params.zip params' ++ [(result, result')])
  | .tuple elems, .tuple elems' =>
    if elems.length ≠ elems'.length then .error ⟨.arityMismatch, expected, found⟩
    else .ok (elems.zip elems')
  | .record fields, .record fields' =>
    if expected.lacksField || found.lacksField then .error ⟨.incomplete, expected, found⟩
    else if Row.labels fields ≠ Row.labels fields' then .error ⟨.recordShape, expected, found⟩
    else .ok ((Row.types fields).zip (Row.types fields'))
  | _, _ => .error ⟨.mismatch, expected, found⟩

namespace Subst

/-- The bindings reached and the failure, if any. -/
abbrev Outcome := Subst × Option UnifyError

/-- Binds an unbound variable to a type that is no bound variable. `swapped` tells that the
variable is the found type and not the expected one. -/
def solve (subst : Subst) (id : VarId) (ty : Ty) (swapped : Bool) : Outcome :=
  if ty.var? = some id ∨ ty.isUnknown then (subst, none)
  else if !(ty.isComplete && subst.applies ty) then
    (subst, some ⟨.incomplete, .var id, ty⟩)
  else
    let solved := subst.apply ty
    if solved.occurs id then
      if swapped then (subst, some ⟨.infiniteType, solved, .var id⟩)
      else (subst, some ⟨.infiniteType, .var id, solved⟩)
    else (subst.bind id ty, none)

/-- Solves pairs from left to right up to the first failure. -/
def solveAll (solvePair : Subst → Ty → Ty → Outcome) : Subst → List (Ty × Ty) → Outcome
  | subst, [] => (subst, none)
  | subst, (expected, found) :: rest =>
    match solvePair subst expected found with
    | (subst, none) => solveAll solvePair subst rest
    | (subst, some error) => (subst, some error)

/-- Unification with a limit on the descent. -/
def unifyWithin : (limit : Nat) → Subst → Ty → Ty → Outcome
  | 0, subst, expected, found => (subst, some ⟨.infiniteType, expected, found⟩)
  | limit + 1, subst, expected, found =>
    match subst.shallow? expected, subst.shallow? found with
    | some (.var id), some found => subst.solve id found false
    | some expected, some (.var id) => subst.solve id expected true
    | some .unknown, some _ => (subst, none)
    | some _, some .unknown => (subst, none)
    | some expected, some found =>
      match expected.components found with
      | .error error => (subst, some error.settle)
      | .ok pairs => solveAll (unifyWithin limit) subst pairs
    | _, _ => (subst, some ⟨.incomplete, expected, found⟩)

def weight (subst : Subst) : Nat :=
  subst.vars.entries.foldr (fun entry total => entry.2.weight + 1 + total) 0

/-- A bound on the depth of a unification when no variable is reachable from itself. -/
def unifyLimit (subst : Subst) (expected found : Ty) : Nat :=
  Nat.pow (subst.weight + expected.weight + found.weight + 1) 2 + 1

/-- Makes two types equal by binding variables. The first is taken as expected and the second as
found when a failure is described. -/
def unify (subst : Subst) (expected found : Ty) : Outcome :=
  unifyWithin (subst.unifyLimit expected found) subst expected found

/-- Whether two types can be made equal, with the bindings afterwards. Bindings made to find out are
forgotten, unless a type that is not complete stands in the way. -/
def canUnify (subst : Subst) (expected found : Ty) : Option Bool × Subst :=
  match subst.unify expected found with
  | (_, none) => (some true, subst)
  | (after, some error) =>
    if error.fault = .incomplete then (none, after) else (some false, subst)

end Subst

end TraitCheck
