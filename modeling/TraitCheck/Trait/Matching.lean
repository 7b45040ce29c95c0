import TraitCheck.Table
import TraitCheck.Ty.Row
import TraitCheck.Ty.Traverse

/-!
# Matching a type against the self type of an impl

The self type of an impl is a pattern: its generic parameters stand for any type. Matching is
structural, and whatever is not settled yet (variables, parameters, placeholders) matches on either
side, since it may still become the right type. The fields of a record pattern are looked up by
their labels, and a field without a type, on either side, leaves the answer open.
-/

namespace TraitCheck

/-- The types matched by the generic parameters of a pattern, by index. -/
abbrev ParamMatch := Table Int Ty

/-- Why a match fails or stays open. -/
inductive MatchFault where
  | differs
  /-- A record lacks the type of a field that has to be compared. -/
  | incomplete
  deriving DecidableEq, Repr

namespace Ty

/-- Whether a type may still become another. -/
def isOpen : Ty → Bool
  | .var _ | .param _ _ | .unknown => true
  | _ => false

mutual

/-- Matches a type against a pattern. Each parameter of the pattern other than `Self` is recorded
with the first type that it meets. -/
def matchInto : (pattern : Ty) → Ty → ParamMatch → Except MatchFault ParamMatch
  | .param index _, ty, found =>
    .ok (if index = -1 ∨ found.contains index then found else found.insert index ty)
  | .var _, _, found | .unknown, _, found => .ok found
  | .prim kind, ty, found =>
    if ty.isOpen then .ok found
    else
      match ty with
      | .prim kind' => if kind = kind' then .ok found else .error .differs
      | _ => .error .differs
  | .named decl args, ty, found =>
    if ty.isOpen then .ok found
    else
      match ty with
      | .named decl' args' =>
        if decl = decl' ∧ args.length = args'.length then matchList args args' found
        else .error .differs
      | _ => .error .differs
  | .fn params result, ty, found =>
    if ty.isOpen then .ok found
    else
      match ty with
      | .fn params' result' =>
        if params.length = params'.length then
          match matchList params params' found with
          | .ok found => matchInto result result' found
          | .error fault => .error fault
        else .error .differs
      | _ => .error .differs
  | .tuple elems, ty, found =>
    if ty.isOpen then .ok found
    else
      match ty with
      | .tuple elems' =>
        if elems.length = elems'.length then matchList elems elems' found else .error .differs
      | _ => .error .differs
  | .record fields, ty, found =>
    if ty.isOpen then .ok found
    else
      match ty with
      | .record fields' =>
        if fields.length = fields'.length then matchRow fields fields' found
        else .error .differs
      | _ => .error .differs
  | .absent, ty, found | .scheme _ _, ty, found | .foreign _, ty, found =>
    if ty.isOpen then .ok found else .error .differs

def matchList : (patterns : List Ty) → List Ty → ParamMatch → Except MatchFault ParamMatch
  | pattern :: patterns, ty :: types, found =>
    match matchInto pattern ty found with
    | .ok found => matchList patterns types found
    | .error fault => .error fault
  | _, _, found => .ok found

/-- Matches the fields of a record against those of a record pattern, in the pattern's order. -/
def matchRow : (fields : List (String × Ty)) → Row → ParamMatch → Except MatchFault ParamMatch
  | [], _, found => .ok found
  | (label, pattern) :: fields, row, found =>
    if pattern.isAbsent then .error .incomplete
    else
      match Row.find? label row with
      | none => .error .differs
      | some ty =>
        if ty.isAbsent then .error .incomplete
        else
          match matchInto pattern ty found with
          | .ok found => matchRow fields row found
          | .error fault => .error fault

end

def matchWith (pattern ty : Ty) : Except MatchFault ParamMatch := matchInto pattern ty .empty

/-- Whether a type matches a pattern. -/
def isMatch? (pattern ty : Ty) : Option Bool :=
  match matchWith pattern ty with
  | .ok _ => some true
  | .error .differs => some false
  | .error .incomplete => none

def substMatch (found : ParamMatch) : Ty → Ty :=
  bindParams fun index name =>
    if index = -1 then .param index name else (found.find? index).getD (.param index name)

end Ty

/-- The outermost former of a type that only types of the same head can match. -/
inductive Head where
  | prim (kind : Prim)
  | named (decl : DefId)
  | fn (arity : Nat)
  | tuple (size : Nat)
  | record (size : Nat)
  deriving DecidableEq, Repr

/-- The head of a type. Open types have none, and neither do types that match open types only. -/
def Ty.head? : Ty → Option Head
  | .prim kind => some (.prim kind)
  | .named decl _ => some (.named decl)
  | .fn params _ => some (.fn params.length)
  | .tuple elems => some (.tuple elems.length)
  | .record fields => some (.record fields.length)
  | .absent | .var _ | .param _ _ | .scheme _ _ | .unknown | .foreign _ => none

end TraitCheck
