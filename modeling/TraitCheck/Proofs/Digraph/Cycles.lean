import TraitCheck.Proofs.Digraph.Components

/-!
# Components and cycles of a graph

The components are the classes of vertices that reach each other, listed so that edges lead from a
component into later ones. A vertex lies on a cycle exactly if its class has an edge inside, which
is the test by which cycles are picked among the components; sorting then only rearranges them.
-/

namespace TraitCheck.Digraph

variable {graph : Digraph} {vertex : Nat}
variable {group : List Nat} {source target : Nat}

/-- The strong components of a graph, in an order in which edges lead from a component to a later
one. -/
structure StrongComponents (graph : Digraph) (components : List (List Nat)) : Prop where
  /-- Each vertex is listed exactly once, and nothing else is. -/
  partition : components.flatten.Perm (List.range graph.size)
  nonempty : [] ∉ components
  shared : ∀ source < graph.size, ∀ target < graph.size,
    (∃ component ∈ components, source ∈ component ∧ target ∈ component) ↔
      graph.Reaches source target ∧ graph.Reaches target source
  ordered : ∀ (first second : Nat) (component other : List Nat),
    components[first]? = some component → components[second]? = some other → first ≠ second →
      ∀ source ∈ component, ∀ target ∈ other, graph.Edge source target → first < second

/-- The vertices on cycles, in groups of vertices that reach each other. -/
structure CycleGroups (graph : Digraph) (groups : List (List Nat)) : Prop where
  distinct : groups.flatten.Nodup
  onCycle : ∀ vertex, vertex ∈ groups.flatten ↔ Relation.TransGen graph.Edge vertex vertex
  classes : ∀ group ∈ groups, ∀ source ∈ group, ∀ target,
    target ∈ group ↔ graph.Reaches source target ∧ graph.Reaches target source
  ascending : ∀ group ∈ groups, group ≠ [] ∧ group.Pairwise (· < ·)
  /-- The least vertex of each group is less than the least one of every later group. -/
  ordered : groups.Pairwise fun first second => ∃ least ∈ first, ∀ other ∈ second, least < other

theorem strongComponents_searchAll (closed : graph.isClosed = true) :
    StrongComponents graph (searchAll graph).components := by
  have settled := settled_searchAll closed
  have partition := perm_range_searchAll closed
  have distinct := partition.nodup_iff.mpr List.nodup_range
  exact {
    partition
    nonempty := fun member => ((within_searchAll closed).components [] member).1 rfl
    shared := fun source inside target _ => by
      constructor
      · rintro ⟨component, member, inSource, inTarget⟩
        exact ⟨settled.linked member inSource inTarget, settled.linked member inTarget inSource⟩
      · rintro ⟨reaches, back⟩
        exact settled.exists_common distinct (partition.mem_iff.mpr (List.mem_range.mpr inside))
          reaches back
    ordered := fun first second component other atFirst atSecond differ source inFirst target
        inSecond edge =>
      lt_of_le_of_ne (settled.le_of_edge distinct atFirst atSecond inFirst inSecond edge) differ }

section Cycles

variable {components : List (List Nat)} (strong : StrongComponents graph components)
  {component : List Nat}
include strong

theorem StrongComponents.lt_of_mem (isComponent : component ∈ components)
    (member : vertex ∈ component) : vertex < graph.size :=
  List.mem_range.mp (strong.partition.mem_iff.mp (List.mem_flatten.mpr ⟨_, isComponent, member⟩))

theorem StrongComponents.distinct : components.flatten.Nodup :=
  strong.partition.nodup_iff.mpr List.nodup_range

theorem StrongComponents.mem_iff (closed : graph.isClosed = true)
    (isComponent : component ∈ components) (member : source ∈ component) :
    target ∈ component ↔ graph.Reaches source target ∧ graph.Reaches target source := by
  have inside := strong.lt_of_mem isComponent member
  constructor
  · intro targetMember
    exact (strong.shared source inside target (strong.lt_of_mem isComponent targetMember)).mp
      ⟨component, isComponent, member, targetMember⟩
  · rintro ⟨reaches, back⟩
    have targetInside : target < graph.size := by
      rcases Relation.ReflTransGen.cases_tail reaches with same | ⟨_, _, edge⟩
      · exact same ▸ inside
      · exact lt_of_edge closed edge
    obtain ⟨common, isCommon, sourceCommon, targetCommon⟩ :=
      (strong.shared source inside target targetInside).mpr ⟨reaches, back⟩
    -- Each vertex is listed once, so two components with a common vertex are the same one.
    by_cases same : common = component
    · exact same ▸ targetCommon
    · have symmetric : Std.Symm (@List.Disjoint Nat) := ⟨fun _ _ => List.Disjoint.symm⟩
      have apart := (List.nodup_flatten.mp strong.distinct).2.forall isCommon isComponent same
      exact absurd member (apart sourceCommon)

theorem StrongComponents.isCyclic_iff (closed : graph.isClosed = true)
    (isComponent : component ∈ components) (member : vertex ∈ component) :
    graph.isCyclic component = true ↔ Relation.TransGen graph.Edge vertex vertex := by
  match component with
  | [] => cases member
  | [single] =>
    rw [List.mem_singleton.mp member, isCyclic, List.contains_iff_mem, ← edge_iff closed]
    constructor
    · exact .single
    · intro cycle
      obtain ⟨next, edge, back⟩ := Relation.TransGen.head'_iff.mp cycle
      have inClass : next ∈ [single] :=
        (strong.mem_iff closed isComponent List.mem_cons_self).mpr ⟨.single edge, back⟩
      rwa [List.mem_singleton.mp inClass] at edge
  | first :: second :: rest =>
    refine iff_of_true rfl ?_
    have distinct := (List.nodup_flatten.mp strong.distinct).1 _ isComponent
    have differ : first ≠ second := fun same =>
      (List.nodup_cons.mp distinct).1 (same ▸ List.mem_cons_self)
    obtain ⟨other, otherMember, apart⟩ :
        ∃ other ∈ first :: second :: rest, other ≠ vertex := by
      by_cases same : first = vertex
      · exact ⟨second, by simp, fun isVertex => differ (same.trans isVertex.symm)⟩
      · exact ⟨first, by simp, same⟩
    obtain ⟨reaches, back⟩ := (strong.mem_iff closed isComponent member).mp otherMember
    rcases Relation.reflTransGen_iff_eq_or_transGen.mp reaches with same | forward
    · exact absurd same apart
    · exact forward.trans_left back

theorem StrongComponents.exists_mem (inside : vertex < graph.size) :
    ∃ component ∈ components, vertex ∈ component :=
  List.mem_flatten.mp (strong.partition.mem_iff.mpr (List.mem_range.mpr inside))

end Cycles

/-- The components with a cycle, each sorted. -/
def cyclicGroups (graph : Digraph) (components : List (List Nat)) : List (List Nat) :=
  (components.filter graph.isCyclic).map fun component => component.mergeSort

section Groups

variable {components : List (List Nat)} (strong : StrongComponents graph components)

theorem mem_cyclicGroups : group ∈ cyclicGroups graph components ↔
    ∃ component ∈ components, graph.isCyclic component = true ∧ component.mergeSort = group := by
  simp [cyclicGroups, List.mem_map, List.mem_filter, and_assoc]

include strong

theorem nodup_flatten_cyclicGroups : (cyclicGroups graph components).flatten.Nodup := by
  have sorted : (cyclicGroups graph components).flatten.Perm
      (components.filter graph.isCyclic).flatten := by
    refine List.Perm.flatten_congr ?_
    rw [cyclicGroups, List.forall₂_map_left_iff]
    exact List.forall₂_same.mpr fun component _ => List.mergeSort_perm component _
  refine sorted.nodup_iff.mpr (strong.distinct.sublist ?_)
  exact List.filter_sublist.flatten

theorem mem_flatten_cyclicGroups (closed : graph.isClosed = true) :
    vertex ∈ (cyclicGroups graph components).flatten ↔
      Relation.TransGen graph.Edge vertex vertex := by
  rw [List.mem_flatten]
  constructor
  · rintro ⟨group, isGroup, member⟩
    obtain ⟨component, isComponent, cyclic, rfl⟩ := mem_cyclicGroups.mp isGroup
    exact (strong.isCyclic_iff closed isComponent (List.mem_mergeSort.mp member)).mp cyclic
  · intro cycle
    obtain ⟨_, _, edge⟩ := Relation.TransGen.tail'_iff.mp cycle
    obtain ⟨component, isComponent, member⟩ := strong.exists_mem (lt_of_edge closed edge)
    exact ⟨_, mem_cyclicGroups.mpr
      ⟨component, isComponent, (strong.isCyclic_iff closed isComponent member).mpr cycle, rfl⟩,
      List.mem_mergeSort.mpr member⟩

theorem mem_cyclicGroup_iff (closed : graph.isClosed = true)
    (isGroup : group ∈ cyclicGroups graph components)
    (member : source ∈ group) :
    target ∈ group ↔ graph.Reaches source target ∧ graph.Reaches target source := by
  obtain ⟨component, isComponent, _, rfl⟩ := mem_cyclicGroups.mp isGroup
  rw [List.mem_mergeSort] at member ⊢
  exact strong.mem_iff closed isComponent member

theorem ascending_cyclicGroup (isGroup : group ∈ cyclicGroups graph components) :
    group ≠ [] ∧ group.Pairwise (· < ·) := by
  obtain ⟨component, isComponent, _, rfl⟩ := mem_cyclicGroups.mp isGroup
  have rearranged := List.mergeSort_perm component fun first second => decide (first ≤ second)
  have distinct := rearranged.nodup_iff.mpr
    ((List.nodup_flatten.mp strong.distinct).1 component isComponent)
  have sorted : component.mergeSort.Pairwise fun first second => decide (first ≤ second) = true :=
    List.pairwise_mergeSort (by simpa using fun _ _ _ => le_trans)
      (by simpa using le_total) component
  refine ⟨fun none => strong.nonempty ?_, ?_⟩
  · rw [none] at rearranged
    exact rearranged.symm.eq_nil ▸ isComponent
  · refine (sorted.and distinct).imp fun {first second} both => ?_
    exact lt_of_le_of_ne (of_decide_eq_true both.1) both.2

theorem cycleGroups_of_perm (closed : graph.isClosed = true) {groups : List (List Nat)}
    (rearranged : groups.Perm (cyclicGroups graph components))
    (sorted : groups.Pairwise fun first second => first.headD 0 ≤ second.headD 0) :
    CycleGroups graph groups := by
  have distinct : groups.flatten.Nodup :=
    rearranged.flatten.nodup_iff.mpr (nodup_flatten_cyclicGroups strong)
  have ascending : ∀ group ∈ groups, group ≠ [] ∧ group.Pairwise (· < ·) := fun group isGroup =>
    ascending_cyclicGroup strong (rearranged.mem_iff.mp isGroup)
  exact {
    distinct
    onCycle :=
      fun vertex => rearranged.flatten.mem_iff.trans (mem_flatten_cyclicGroups strong closed)
    classes := fun group isGroup source member target =>
      mem_cyclicGroup_iff strong closed (rearranged.mem_iff.mp isGroup) member
    ascending
    ordered := by
      refine (sorted.and (List.nodup_flatten.mp distinct).2).imp_of_mem ?_
      intro first second isFirst isSecond ⟨heads, apart⟩
      match first, second, ascending _ isFirst, ascending _ isSecond with
      | least :: _, other :: rest, _, ⟨_, ascendingSecond⟩ =>
        have differ : least ≠ other := fun same =>
          apart List.mem_cons_self (same ▸ List.mem_cons_self)
        have less : least < other := lt_of_le_of_ne heads differ
        refine ⟨least, List.mem_cons_self, List.forall_mem_cons.mpr ⟨less, fun later member => ?_⟩⟩
        exact less.trans ((List.pairwise_cons.mp ascendingSecond).1 later member) }

end Groups

theorem exists_components (closed : graph.isClosed = true) :
    ∃ components, graph.components? = some components ∧ StrongComponents graph components :=
  ⟨_, if_pos closed, strongComponents_searchAll closed⟩

theorem exists_cycles (closed : graph.isClosed = true) :
    ∃ groups, graph.cycles? = some groups ∧ CycleGroups graph groups := by
  obtain ⟨components, found, strong⟩ := exists_components closed
  have sorted : ((cyclicGroups graph components).mergeSort
      fun first second => first.headD 0 ≤ second.headD 0).Pairwise
        fun first second => first.headD 0 ≤ second.headD 0 := by
    refine (List.pairwise_mergeSort ?_ ?_ _).imp of_decide_eq_true
    · simpa using fun _ _ _ => le_trans
    · simpa using fun _ _ => le_total _ _
  refine ⟨_, ?_, cycleGroups_of_perm strong closed (List.mergeSort_perm _ _) sorted⟩
  rw [cycles?, found, Option.map_some]
  rfl

/-- A closed graph has components and cycles, and the search finds exactly them. -/
theorem components_and_cycles_exact (closed : graph.isClosed = true) :
    (∃ components, graph.components? = some components ∧ StrongComponents graph components) ∧
      ∃ groups, graph.cycles? = some groups ∧ CycleGroups graph groups :=
  ⟨exists_components closed, exists_cycles closed⟩

/-- A graph with a cycle of two vertices, an edge from it to a vertex with an edge to itself, and a
vertex on its own. -/
theorem components_and_cycles_exact_mixed :
    let graph : Digraph := ⟨[[2], [1], [0, 1], []]⟩
    graph.isClosed = true ∧
      (∃ components, graph.components? = some components ∧ StrongComponents graph components) ∧
      ∃ groups, graph.cycles? = some groups ∧ CycleGroups graph groups :=
  ⟨by decide, components_and_cycles_exact (by decide)⟩

end TraitCheck.Digraph
