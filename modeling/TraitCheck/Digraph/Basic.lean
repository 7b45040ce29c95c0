/-!
# Directed graphs

Vertices are numbered from zero and every vertex has a list of successors without repetitions.
An edge may name a target that is no vertex; such a graph is not closed, and questions about its
paths have no answer.
-/

namespace TraitCheck

/-- A graph, given by the successors of its vertices. -/
structure Digraph where
  successors : List (List Int)
  deriving DecidableEq, Repr, Inhabited

namespace Digraph

def ofSize (count : Nat) : Digraph := ⟨List.replicate count []⟩

def maxSize : Nat := Nat.pow 2 48 / 24

/-- The graph with the given number of vertices and no edge, if there can be one. -/
def ofSize? (count : Int) : Option Digraph :=
  if 0 ≤ count ∧ count ≤ maxSize then some (ofSize count.toNat) else none

def size (graph : Digraph) : Nat := graph.successors.length

def hasVertex (graph : Digraph) (vertex : Int) : Bool := 0 ≤ vertex && vertex < graph.size

def targets? (graph : Digraph) (source : Int) : Option (List Int) :=
  if graph.hasVertex source then graph.successors[source.toNat]? else none

/-- Adds an edge, unless it is there already. There is no result if the source is no vertex. -/
def addEdge? (graph : Digraph) (source target : Int) : Option Digraph :=
  match graph.targets? source with
  | none => none
  | some targets =>
    if targets.contains target then some graph
    else some ⟨graph.successors.set source.toNat (targets ++ [target])⟩

def hasEdge? (graph : Digraph) (source target : Int) : Option Bool :=
  (graph.targets? source).map fun targets => targets.contains target

/-- Whether all edges lead to vertices. -/
def isClosed (graph : Digraph) : Bool :=
  graph.successors.all fun targets => targets.all graph.hasVertex

/-- The successors of a vertex. -/
def next (graph : Digraph) (vertex : Nat) : List Nat :=
  (graph.successors.getD vertex []).map Int.toNat

end Digraph

end TraitCheck
