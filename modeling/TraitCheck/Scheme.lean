import TraitCheck.Subst
import TraitCheck.Ty.Printer

/-!
# Fresh variables and polymorphic schemes

A `Supply` hands out unification variables that were never used before. It turns placeholders into
variables and instantiates schemes; `Subst.generalize` goes the other way and quantifies the
variables that nothing else can constrain any more.
-/

namespace TraitCheck

/-- The source of fresh unification variables: all variables from `next` on are unused. -/
structure Supply where
  next : Nat
  deriving DecidableEq, Repr, Inhabited

namespace Supply

def initial : Supply := ⟨0⟩

/-- A variable with the next number. -/
def fresh (supply : Supply) : Ty × Supply := (.var supply.next, ⟨supply.next + 1⟩)

def freshList (count : Nat) (supply : Supply) : List Ty × Supply :=
  ((List.range count).map fun (offset : Nat) => .var (supply.next + offset), ⟨supply.next + count⟩)

def maxTaken : Nat := Nat.pow 2 44

def freshList? (count : Int) (supply : Supply) : Option (List Ty) × Supply :=
  if 0 ≤ count ∧ count ≤ maxTaken then (supply.freshList count.toNat).map some id
  else (none, supply)

/-- Replaces every placeholder by a variable of its own, from left to right, as far as the walk can
go. -/
def fillUnknowns (supply : Supply) (ty : Ty) : Option Ty × Supply :=
  ty.rebuildWith
    (fun part supply =>
      match part with
      | .unknown => supply.fresh.map some id
      | part => (some part, supply))
    supply

/-- Makes a type as written usable: an absent type becomes a variable, and so does every
placeholder within a type. -/
def resolve (supply : Supply) (ty : Ty) : Option Ty × Supply :=
  match ty with
  | .absent => supply.fresh.map some id
  | ty =>
    match ty.isKnown? with
    | none => (none, supply)
    | some true => (some ty, supply)
    | some false => supply.fillUnknowns ty

/-- Replaces the parameters of a scheme by fresh variables. -/
def instantiate (supply : Supply) (ty : Ty) : Option Ty × Supply :=
  match ty with
  | .scheme names body =>
    let (args, supply) := supply.freshList names.length
    (body.substParams? args, supply)
  | ty => (some ty, supply)

end Supply

namespace Ty

/-- Quantifies the given variables: the variable at each position becomes the parameter with that
index, named by `genericName`. -/
def quantify (ids : List VarId) (ty : Ty) : Ty :=
  let body := ty.bindVars fun id =>
    match ids.idxOf? id with
    | some position => .param position (genericName position)
    | none => .var id
  .scheme ((List.range ids.length).map fun (position : Nat) => genericName position) body

end Ty

/-- Quantifies the variables of a type that are neither solved nor free in the environment, in
ascending order. A type without such variables is only solved. -/
def Subst.generalize (subst : Subst) (environment : List VarId) (ty : Ty) : Ty :=
  if ty.isScheme then ty
  else
    let solved := subst.apply ty
    match solved.freeVars.filter fun id => !environment.contains id with
    | [] => solved
    | ids => solved.quantify ids

/-- `generalize`, if the type is complete and bindings can be followed from it to the end. A scheme
is not looked into. -/
def Subst.generalize? (subst : Subst) (environment : List VarId) (ty : Ty) : Option Ty :=
  if ty.isScheme || ty.isComplete && subst.applies ty then some (subst.generalize environment ty)
  else none

end TraitCheck
