import TraitCheck.Digraph.Basic
import TraitCheck.Table

/-!
# Strongly connected components

One depth-first search finds all components. Every vertex gets a number when it is discovered and
waits on a stack; a visit returns the least number that its part of the search can reach on the
stack. A vertex that reaches nothing older than itself closes a component, which is then everything
above it on the stack. A visit that calls another one has discovered its own vertex, so the number
of vertices limits the recursion.
-/

namespace TraitCheck.Digraph

/-- The state of the search. -/
structure Search where
  order : Table Nat Nat
  /-- The discovered vertices whose component is still open, the latest first. -/
  stack : List Nat
  /-- The closed components, the latest first. -/
  components : List (List Nat)
  deriving Repr, Inhabited

namespace Search

def initial : Search := ⟨.empty, [], []⟩

/-- Numbers a vertex and puts it on the stack. -/
def discover (search : Search) (vertex : Nat) : Search :=
  { search with
    order := search.order.insert vertex search.order.size
    stack := vertex :: search.stack }

/-- Closes the component of a vertex: everything on the stack down to that vertex. -/
def close (search : Search) (vertex : Nat) : Search :=
  let above := search.stack.takeWhile (· ≠ vertex)
  let below := (search.stack.dropWhile (· ≠ vertex)).drop 1
  { search with
    stack := below
    components := (above ++ [vertex]) :: search.components }

end Search

/-- Looks at the successors of a vertex one after the other. The number `low` is the least one
reached so far. -/
def scan (visit : Nat → Search → Nat × Search) : List Nat → Nat → Search → Nat × Search
  | [], low, search => (low, search)
  | target :: rest, low, search =>
    match search.order.find? target with
    | none =>
      let (reached, search) := visit target search
      scan visit rest (min low reached) search
    | some number =>
      if search.stack.contains target then scan visit rest (min low number) search
      else scan visit rest low search

/-- Visits an undiscovered vertex and returns the least number reached on the stack. At most
`limit` visits are nested. -/
def visit (graph : Digraph) : (limit : Nat) → Nat → Search → Nat × Search
  | 0, _, search => (search.order.size, search)
  | limit + 1, vertex, search =>
    let number := search.order.size
    let (low, search) :=
      scan (visit graph limit) (graph.next vertex) number (search.discover vertex)
    if low = number then (low, search.close vertex) else (low, search)

/-- Visits all vertices that are not yet discovered. -/
def searchAll (graph : Digraph) : Search :=
  (List.range graph.size).foldl
    (fun search vertex =>
      if search.order.contains vertex then search else (visit graph graph.size vertex search).2)
    .initial

/-- The strongly connected components of a closed graph. A component stands before the components
that it has edges into. -/
def components? (graph : Digraph) : Option (List (List Nat)) :=
  if graph.isClosed then some (searchAll graph).components else none

/-- Whether a component holds a cycle: it has several vertices, or one with an edge to itself. -/
def isCyclic (graph : Digraph) : List Nat → Bool
  | [vertex] => (graph.next vertex).contains vertex
  | _ => true

/-- The components of a closed graph that hold a cycle. The vertices of each ascend, and so do the
least vertices of the components. -/
def cycles? (graph : Digraph) : Option (List (List Nat)) :=
  graph.components?.map fun components =>
    ((components.filter graph.isCyclic).map fun component => component.mergeSort).mergeSort
      fun first second => first.headD 0 ≤ second.headD 0

end TraitCheck.Digraph
