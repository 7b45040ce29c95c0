import TraitCheck.Checker.Report
import TraitCheck.Digraph.Components

/-!
# Aliases

An alias is another name for a type, and expanding it replaces the name by its target. Aliases that
are defined in terms of each other are found as the cycles of the graph of references, and each use
of one stands for an unknown type of its own. Without those, following aliases from target to target
never comes back to an alias, so the number of aliases bounds how deep an expansion nests.
-/

namespace TraitCheck

/-- The declarations that a type mentions. -/
def Ty.references (ty : Ty) : List DefId :=
  ty.collect
    (fun
      | .named decl _ => some decl
      | _ => none)
    []

namespace Alias

/-- The position of the last alias with each number. -/
def positions (aliases : List AliasItem) : Table DefId Nat :=
  aliases.zipIdx.foldl (fun table (item, position) => table.insert item.id position) .empty

def targets (table : Table DefId Nat) (item : AliasItem) : List Nat :=
  item.target.references.filterMap table.find?

/-- The graph of references between aliases. -/
def graph (aliases : List AliasItem) : Digraph :=
  let table := positions aliases
  aliases.zipIdx.foldl
    (fun graph (item, position) =>
      (targets table item).foldl
        (fun graph (target : Nat) => (graph.addEdge? position target).getD graph) graph)
    (.ofSize aliases.length)

/-- The groups of aliases that depend on themselves. -/
def cycles (aliases : List AliasItem) : List (List AliasItem) :=
  ((graph aliases).cycles?.getD []).map fun cycle =>
    cycle.filterMap fun position => aliases[position]?

def cycleDiagnostic (first : AliasItem) (others : List AliasItem) : Diagnostic :=
  let quoted (item : AliasItem) : String := "`" ++ item.name ++ "`"
  let message :=
    if others.isEmpty then "type alias " ++ quoted first ++ " is defined in terms of itself"
    else
      "cycle detected between type aliases " ++ ", ".intercalate ((first :: others).map quoted)
  let labelled := others.foldl
    (fun (diagnostic : Diagnostic) item =>
      diagnostic.withLabel item.span (quoted item ++ " is part of the cycle"))
    (.error .cyclicDependency first.span message)
  labelled.withHelp "use a struct or enum to introduce a nominal type"

/-- Expands aliases that nest at most `limit` deep, as far as the walk can go. A reference to a
cyclic alias becomes a fresh variable. -/
def expandWithin (aliases : Table DefId AliasInfo) :
    (limit : Nat) → Ty → Supply → Option Ty × Supply
  | 0, ty, supply => (some ty, supply)
  | limit + 1, ty, supply =>
    ty.rebuildWith
      (fun part supply =>
        match part with
        | .named decl args =>
          match aliases.find? decl with
          | none => (some (.named decl args), supply)
          | some info =>
            if info.cyclic then supply.fresh.map some id
            else
              match info.target.substParams? args with
              | some ty => expandWithin aliases limit ty supply
              | none => (none, supply)
        | part => (some part, supply))
      supply

/-- Replaces each reference to an alias by its target. Without aliases a type is not looked into. -/
def expand (aliases : Table DefId AliasInfo) (ty : Ty) (supply : Supply) : Option Ty × Supply :=
  if aliases.size = 0 then (some ty, supply)
  else expandWithin aliases (aliases.size + 1) ty supply

/-- The target of an alias at given arguments, expanded. -/
def unfold (aliases : Table DefId AliasInfo) (target : Ty) (args : List Ty) (supply : Supply) :
    Option Ty × Supply :=
  match target.substParams? args with
  | some ty => expand aliases ty supply
  | none => (none, supply)

end Alias

namespace Checker

/-- Reports each group of aliases that are defined in terms of each other, and marks its members. -/
def checkAliasCycles (aliases : List AliasItem) : CheckM Unit := do
  aliases.forM fun item => discard (ofComplete item.target.complete?)
  (Alias.cycles aliases).forM fun
    | [] => pure ()
    | first :: others => do
      modify fun checker =>
        { checker with
          aliases := (first :: others).foldl
            (fun table item => table.modify item.id fun info => { info with cyclic := true })
            checker.aliases }
      report (Alias.cycleDiagnostic first others)

/-- Replaces references to aliases by their targets. -/
def expandAliases (ty : Ty) : CheckM Ty := do
  let aliases := (← get).aliases
  withSupply (Alias.expand aliases ty)

/-- Makes a type as written ready for inference: the bound generic parameters are replaced, aliases
are expanded, and what was left open becomes fresh variables. -/
def resolveType (ty : Ty) : CheckM Ty := do
  if ty.isAbsent then fresh
  else
    let expanded ← expandAliases (← applyParams ty)
    withSupply (·.resolve expanded)

end Checker

end TraitCheck
