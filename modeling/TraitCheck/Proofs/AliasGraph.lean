import TraitCheck.Checker.Alias
import TraitCheck.Proofs.Digraph.Bounds
import TraitCheck.Proofs.Tables

/-!
# The graph of references between aliases

The graph has one vertex for each alias and an edge for each reference from an alias to another one.
All edges are between vertices, so the graph has components, and its cycles are made of the
positions of aliases.
-/

namespace TraitCheck.Alias

variable {aliases : List AliasItem} {position target : Nat}

theorem positions_eq_insertAll (aliases : List AliasItem) : positions aliases =
    Table.empty.insertAll (aliases.zipIdx.map fun entry => (entry.1.id, entry.2)) := by
  rw [Table.insertAll, List.foldl_map]
  rfl

theorem lt_of_positions {decl : DefId} (found : (positions aliases).find? decl = some position) :
    position < aliases.length := by
  rw [positions_eq_insertAll] at found
  rcases Table.mem_of_find?_insertAll found with member | before
  · rcases List.mem_map.mp member with ⟨entry, inside, same⟩
    cases same
    exact List.snd_lt_of_mem_zipIdx inside
  · cases before

theorem lt_of_mem_targets {item : AliasItem} (member : target ∈ targets (positions aliases) item) :
    target < aliases.length := by
  obtain ⟨_, _, found⟩ := List.mem_filterMap.mp member
  exact lt_of_positions found

/-- A closed graph of a given size, with given edges. -/
structure Linked (size : Nat) (edge : Nat → Nat → Prop) (graph : Digraph) : Prop where
  size : graph.size = size
  closed : graph.isClosed = true
  next : ∀ source reached, reached ∈ graph.next source ↔ edge source reached

section Linked

variable {size : Nat} {edge other : Nat → Nat → Prop} {graph : Digraph}

theorem Linked.congr (linked : Linked size edge graph)
    (same : ∀ source reached, edge source reached ↔ other source reached) :
    Linked size other graph where
  size := linked.size
  closed := linked.closed
  next source reached := (linked.next source reached).trans (same source reached)

theorem linked_ofSize (size : Nat) : Linked size (fun _ _ => False) (.ofSize size) where
  size := List.length_replicate
  closed := Digraph.isClosed_ofSize size
  next source reached := by
    simp only [Digraph.next, Digraph.ofSize, List.getD_eq_getElem?_getD, List.getElem?_replicate,
      iff_false]
    split <;> exact List.not_mem_nil

theorem Linked.addEdge (linked : Linked size edge graph) (insideSource : position < size)
    (insideTarget : target < size) :
    Linked size (fun source reached => edge source reached ∨ source = position ∧ reached = target)
      ((graph.addEdge? position target).getD graph) := by
  have inside : position < graph.size := linked.size ▸ insideSource
  obtain ⟨_, _, added⟩ := Digraph.exists_addEdge? inside target
  rw [added, Option.getD_some]
  exact {
    size := (Digraph.size_addEdge? inside added).trans linked.size
    closed := Digraph.isClosed_addEdge? linked.closed inside (linked.size ▸ insideTarget) added
    next := fun source reached => by
      rw [Digraph.mem_next_addEdge? inside added, linked.next] }

theorem Linked.addEdges {targets : List Nat} (linked : Linked size edge graph)
    (insideSource : position < size) (insideTargets : ∀ target ∈ targets, target < size) :
    Linked size (fun source reached => edge source reached ∨ source = position ∧ reached ∈ targets)
      (targets.foldl
        (fun graph (target : Nat) => (graph.addEdge? position target).getD graph) graph) := by
  induction targets generalizing edge graph with
  | nil => exact linked.congr fun _ _ => by simp
  | cons target rest ih =>
    rw [List.forall_mem_cons] at insideTargets
    refine (ih (linked.addEdge insideSource insideTargets.1) insideTargets.2).congr ?_
    intro source reached
    rw [List.mem_cons]
    tauto

theorem Linked.addReferences {table : Table DefId Nat} {entries : List (AliasItem × Nat)}
    (linked : Linked size edge graph) (inside : ∀ entry ∈ entries, entry.2 < size)
    (insideTargets : ∀ item, ∀ target ∈ targets table item, target < size) :
    Linked size (fun source reached =>
        edge source reached ∨ ∃ item, (item, source) ∈ entries ∧ reached ∈ targets table item)
      (entries.foldl
        (fun graph (item, position) => (targets table item).foldl
          (fun graph (target : Nat) => (graph.addEdge? position target).getD graph) graph)
        graph) := by
  induction entries generalizing edge graph with
  | nil => exact linked.congr fun _ _ => by simp
  | cons entry rest ih =>
    obtain ⟨item, position⟩ := entry
    rw [List.forall_mem_cons] at inside
    refine (ih (linked.addEdges inside.1 (insideTargets item)) inside.2).congr ?_
    intro source reached
    simp only [List.mem_cons, Prod.mk.injEq]
    grind

end Linked

theorem linked_graph (aliases : List AliasItem) :
    Linked aliases.length (fun position target =>
      ∃ item, aliases[position]? = some item ∧ target ∈ targets (positions aliases) item)
      (graph aliases) := by
  have inside : ∀ entry ∈ aliases.zipIdx, entry.2 < aliases.length := fun entry member =>
    List.snd_lt_of_mem_zipIdx member
  refine ((linked_ofSize aliases.length).addReferences inside fun _ _ => lt_of_mem_targets).congr ?_
  intro source reached
  simp only [List.mk_mem_zipIdx_iff_getElem?, false_or]

/-- The search for cyclic aliases stays inside the list of aliases: no reference is lost, no edge
leads out of the graph, a vertex is still on the stack when its component is closed, and every cycle
is made of positions in the list. -/
structure WellNumbered (aliases : List AliasItem) : Prop where
  linked : Linked aliases.length (fun position target =>
    ∃ item, aliases[position]? = some item ∧ target ∈ targets (positions aliases) item)
    (graph aliases)
  stacked : ∀ (limit vertex : Nat) (search : Digraph.Search),
    vertex ∈ (Digraph.scan (Digraph.visit (graph aliases) limit) ((graph aliases).next vertex)
      search.order.size (search.discover vertex)).2.stack
  cycles : ∃ found, (graph aliases).cycles? = some found ∧
    ∀ cycle ∈ found, cycle ≠ [] ∧ ∀ position ∈ cycle, position < aliases.length

theorem wellNumbered (aliases : List AliasItem) : WellNumbered aliases where
  linked := linked_graph aliases
  stacked := Digraph.mem_stack_scan
  cycles := by
    have linked := linked_graph aliases
    obtain ⟨found, searched⟩ : ∃ found, (graph aliases).cycles? = some found := by
      rw [Digraph.cycles?, Digraph.components?, if_pos linked.closed]
      exact ⟨_, rfl⟩
    exact ⟨found, searched, linked.size ▸ Digraph.of_cycles? searched⟩

end TraitCheck.Alias
