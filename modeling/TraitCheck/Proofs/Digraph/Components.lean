import TraitCheck.Proofs.Digraph.Bounds
import TraitCheck.Proofs.Tables

/-!
# The search finds the strong components

During the search some visits are under way; their vertices form a path. The invariant `Sound` says
what the stack is good for: every vertex on it reaches the vertices discovered after it, and some
vertex of the path. A visit that reaches nothing older than its own vertex therefore leaves a
component on top of the stack, and edges lead from it only into components closed earlier.
-/

namespace TraitCheck.Digraph

variable {graph : Digraph} {path done : List Nat} {vertex target low limit : Nat}
variable {source : Nat} {above below : List Nat}

/-- There is an edge between the vertices. -/
def Edge (graph : Digraph) (source target : Nat) : Prop := graph.hasEdge? source target = some true

/-- There is a path between the vertices. -/
abbrev Reaches (graph : Digraph) : Nat → Nat → Prop := Relation.ReflTransGen graph.Edge

theorem edge_iff (closed : graph.isClosed = true) :
    graph.Edge vertex target ↔ target ∈ graph.next vertex := by
  rw [Edge, hasEdge?, next, List.getD_eq_getElem?_getD]
  by_cases inside : vertex < graph.size
  · rw [targets?_eq inside]
    have found : graph.successors[vertex]? = some graph.successors[vertex] :=
      List.getElem?_eq_getElem inside
    rw [found]
    simp only [Option.map_some, Option.some.injEq, List.contains_iff_mem, Option.getD_some,
      List.mem_map]
    refine ⟨fun member => ⟨_, member, Int.toNat_natCast _⟩, ?_⟩
    rintro ⟨entry, member, rfl⟩
    have isVertex := isClosed_iff.mp closed _ (List.mem_of_getElem? found) entry member
    simp only [hasVertex, Bool.and_eq_true, decide_eq_true_eq] at isVertex
    rwa [Int.toNat_of_nonneg isVertex.1]
  · have outside : ¬graph.hasVertex vertex = true := fun isVertex =>
      inside (hasVertex_natCast.mp isVertex)
    rw [targets?, if_neg outside, List.getElem?_eq_none (not_lt.mp inside)]
    simp

theorem lt_of_edge (closed : graph.isClosed = true) (edge : graph.Edge vertex target) :
    target < graph.size :=
  lt_of_mem_next closed ((edge_iff closed).mp edge)

/-- Components in an order in which edges lead only into the components that follow. -/
inductive Settled (graph : Digraph) : List (List Nat) → Prop where
  | nil : Settled graph []
  | cons {component : List Nat} {rest : List (List Nat)}
      (linked : ∀ source ∈ component, ∀ target ∈ component, graph.Reaches source target)
      (leaves : ∀ source ∈ component, ∀ target, graph.Edge source target →
        target ∈ component ∨ target ∈ rest.flatten)
      (settled : Settled graph rest) : Settled graph (component :: rest)

namespace Settled

variable {components : List (List Nat)} {source : Nat}

section Edges

variable (settled : Settled graph components)
include settled

theorem mem_of_edge (member : source ∈ components.flatten)
    (edge : graph.Edge source target) : target ∈ components.flatten := by
  induction settled with
  | nil => cases member
  | cons _ leaves _ ih =>
    rw [List.flatten_cons, List.mem_append] at member ⊢
    rcases member with inFirst | inRest
    · exact leaves source inFirst target edge
    · exact .inr (ih inRest)

theorem mem_of_reaches (member : source ∈ components.flatten)
    (reaches : graph.Reaches source target) : target ∈ components.flatten := by
  induction reaches with
  | refl => exact member
  | tail _ edge ih => exact settled.mem_of_edge ih edge

theorem linked {component : List Nat}
    (member : component ∈ components) (inSource : source ∈ component)
    (inTarget : target ∈ component) :
    graph.Reaches source target := by
  induction settled with
  | nil => cases member
  | cons linked _ _ ih =>
    rcases List.mem_cons.mp member with rfl | inRest
    · exact linked source inSource target inTarget
    · exact ih inRest

theorem exists_common (distinct : components.flatten.Nodup)
    (member : source ∈ components.flatten) (reaches : graph.Reaches source target)
    (back : graph.Reaches target source) :
    ∃ component ∈ components, source ∈ component ∧ target ∈ component := by
  induction settled with
  | nil => cases member
  | @cons component rest linked leaves settled ih =>
    have whole := Settled.cons linked leaves settled
    have targetMember := whole.mem_of_reaches member reaches
    rw [List.flatten_cons, List.mem_append] at member targetMember
    rw [List.flatten_cons, List.nodup_append'] at distinct
    obtain ⟨_, distinctRest, apart⟩ := distinct
    rcases member with inFirst | inRest
    · rcases targetMember with targetFirst | targetRest
      · exact ⟨component, List.mem_cons_self, inFirst, targetFirst⟩
      · exact absurd (settled.mem_of_reaches targetRest back) (apart inFirst)
    · obtain ⟨common, commonMember, both⟩ := ih distinctRest inRest
      exact ⟨common, List.mem_cons_of_mem _ commonMember, both⟩

theorem le_of_edge (distinct : components.flatten.Nodup)
    {first second : Nat} {component other : List Nat}
    (atFirst : components[first]? = some component)
    (atSecond : components[second]? = some other) (inFirst : source ∈ component)
    (inSecond : target ∈ other) (edge : graph.Edge source target) : first ≤ second := by
  induction settled generalizing first second with
  | nil => cases atFirst
  | cons linked leaves settled ih =>
    rw [List.flatten_cons, List.nodup_append'] at distinct
    obtain ⟨_, distinctRest, apart⟩ := distinct
    cases first with
    | zero => exact Nat.zero_le _
    | succ first =>
      rw [List.getElem?_cons_succ] at atFirst
      cases second with
      | zero =>
        cases atSecond
        have sourceRest := List.mem_flatten.mpr ⟨_, List.mem_of_getElem? atFirst, inFirst⟩
        exact absurd (settled.mem_of_edge sourceRest edge) (apart inSecond)
      | succ second => exact Nat.succ_le_succ (ih distinctRest atFirst atSecond)

end Edges

end Settled

namespace Search

variable {search before middle after base : Search} {other : Nat}

/-- The vertex was discovered. -/
def Found (search : Search) (vertex : Nat) : Prop := (search.order.find? vertex).isSome = true

/-- The number of a vertex. -/
def rank (search : Search) (vertex : Nat) : Nat := (search.order.find? vertex).getD 0

/-- The vertices on the stack and in components. -/
def held (search : Search) : List Nat := search.stack ++ search.components.flatten

/-- What holds of a search between its steps, while the vertices of `path` are being visited. -/
structure Sound (graph : Digraph) (path : List Nat) (search : Search) : Prop where
  within : search.Within graph.size
  counted : search.order.size = search.held.length
  distinct : search.held.Nodup
  found : ∀ vertex, search.Found vertex ↔ vertex ∈ search.held
  numbered : ∀ vertex, search.Found vertex → search.rank vertex < search.order.size
  descending : search.stack.Pairwise fun newer older => search.rank older < search.rank newer
  path_subset : path ⊆ search.stack
  explored : ∀ source, search.Found source → source ∉ path →
    ∀ target, graph.Edge source target → search.Found target
  downward : ∀ older ∈ search.stack, ∀ newer ∈ search.stack,
    search.rank older ≤ search.rank newer → graph.Reaches older newer
  upward : ∀ newer ∈ search.stack, ∃ older ∈ path, graph.Reaches newer older
  settled : Settled graph search.components

theorem sound_initial : initial.Sound graph [] where
  within := ⟨nofun, nofun⟩
  counted := rfl
  distinct := .nil
  found := by simp [Found, initial, held]
  numbered := by simp [Found, initial]
  descending := .nil
  path_subset := List.nil_subset _
  explored := by simp [Found, initial]
  downward := nofun
  upward := nofun
  settled := .nil

namespace Sound

theorem found_of_mem_stack (sound : search.Sound graph path) (member : vertex ∈ search.stack) :
    search.Found vertex :=
  (sound.found vertex).mpr (List.mem_append_left _ member)

theorem size_lt (sound : search.Sound graph path) (new : ¬search.Found vertex)
    (inside : vertex < graph.size) : search.order.size < graph.size := by
  have distinct : (vertex :: search.held).Nodup :=
    List.nodup_cons.mpr ⟨fun member => new ((sound.found vertex).mpr member), sound.distinct⟩
  have below : (vertex :: search.held) ⊆ List.range graph.size := by
    intro other member
    rw [List.mem_range]
    rcases List.mem_cons.mp member with rfl | inside
    · assumption
    · rcases List.mem_append.mp inside with inStack | inComponents
      · exact sound.within.stack other inStack
      · obtain ⟨component, isComponent, isMember⟩ := List.mem_flatten.mp inComponents
        exact (sound.within.components component isComponent).2 other isMember
  have short := (List.subperm_of_subset distinct below).length_le
  rw [List.length_cons, List.length_range, ← sound.counted] at short
  exact short

end Sound

theorem found_discover :
    (search.discover vertex).Found other ↔ vertex = other ∨ search.Found other := by
  rw [Found, discover, Table.find?_insert, Found]
  split
  · simp [*]
  · simp [*]

theorem rank_discover_self : (search.discover vertex).rank vertex = search.order.size := by
  rw [rank, discover, Table.find?_insert, if_pos rfl, Option.getD_some]

theorem rank_discover_of_found (new : ¬search.Found vertex)
    (found : search.Found other) : (search.discover vertex).rank other = search.rank other := by
  have differ : vertex ≠ other := by
    rintro rfl
    exact new found
  rw [rank, discover, Table.find?_insert, if_neg differ, rank]

theorem size_discover (new : ¬search.Found vertex) :
    (search.discover vertex).order.size = search.order.size + 1 :=
  Table.size_insert_of_new _ (Option.not_isSome_iff_eq_none.mp new)

theorem Sound.discover (sound : search.Sound graph path) (new : ¬search.Found vertex)
    (inside : vertex < graph.size) (reached : ∀ older ∈ path, graph.Reaches older vertex) :
    (search.discover vertex).Sound graph (vertex :: path) where
  within := sound.within.discover inside
  counted := by
    rw [size_discover new, sound.counted]
    rfl
  distinct := List.nodup_cons.mpr
    ⟨fun member => new ((sound.found vertex).mpr member), sound.distinct⟩
  found other := by
    rw [found_discover, sound.found, eq_comm]
    exact List.mem_cons.symm
  numbered other found := by
    rw [size_discover new]
    rcases found_discover.mp found with rfl | old
    · rw [rank_discover_self]
      omega
    · rw [rank_discover_of_found new old]
      have := sound.numbered other old
      omega
  descending := by
    refine List.pairwise_cons.mpr ⟨fun older member => ?_, ?_⟩
    · have old := sound.found_of_mem_stack member
      rw [rank_discover_self, rank_discover_of_found new old]
      exact sound.numbered older old
    · refine sound.descending.imp_of_mem fun newer older => ?_
      rw [rank_discover_of_found new (sound.found_of_mem_stack newer),
        rank_discover_of_found new (sound.found_of_mem_stack older)]
      exact id
  path_subset := List.cons_subset_cons _ sound.path_subset
  explored source found outside target edge := by
    rw [List.mem_cons, not_or] at outside
    rcases found_discover.mp found with rfl | old
    · exact absurd rfl outside.1
    · exact found_discover.mpr (.inr (sound.explored source old outside.2 target edge))
  downward older olderMember newer newerMember ordered := by
    have reachesNew : ∀ old ∈ search.stack, graph.Reaches old vertex := fun old member => by
      obtain ⟨onPath, inPath, reaches⟩ := sound.upward old member
      exact reaches.trans (reached onPath inPath)
    rcases List.mem_cons.mp newerMember with rfl | newerOld
    · rcases List.mem_cons.mp olderMember with rfl | olderOld
      · exact .refl
      · exact reachesNew older olderOld
    · have newerFound := sound.found_of_mem_stack newerOld
      rw [rank_discover_of_found new newerFound] at ordered
      rcases List.mem_cons.mp olderMember with rfl | olderOld
      · rw [rank_discover_self] at ordered
        have := sound.numbered newer newerFound
        omega
      · rw [rank_discover_of_found new (sound.found_of_mem_stack olderOld)] at ordered
        exact sound.downward older olderOld newer newerOld ordered
  upward newer member := by
    rcases List.mem_cons.mp member with rfl | old
    · exact ⟨newer, List.mem_cons_self, .refl⟩
    · obtain ⟨older, inPath, reaches⟩ := sound.upward newer old
      exact ⟨older, List.mem_cons_of_mem _ inPath, reaches⟩
  settled := sound.settled

/-- A later state of the search has the same numbers and the same vertices still on its stack. -/
structure Extends (before after : Search) : Prop where
  order : ∀ ⦃vertex number⦄, before.order.find? vertex = some number →
    after.order.find? vertex = some number
  size : before.order.size ≤ after.order.size
  stack : before.stack <:+ after.stack

namespace Extends

theorem refl : search.Extends search := ⟨fun _ _ => id, le_rfl, List.suffix_rfl⟩

theorem trans (early : before.Extends middle) (late : middle.Extends after) :
    before.Extends after where
  order _ _ known := late.order (early.order known)
  size := early.size.trans late.size
  stack := early.stack.trans late.stack

theorem discover (new : ¬search.Found vertex) : search.Extends (search.discover vertex) where
  order other number known := by
    have differ : vertex ≠ other := by
      rintro rfl
      exact new (Option.isSome_of_eq_some known)
    rw [Search.discover, Table.find?_insert, if_neg differ, known]
  size := by
    rw [size_discover new]
    omega
  stack := List.suffix_cons _ _

theorem found (later : before.Extends after) (found : before.Found vertex) :
    after.Found vertex := by
  obtain ⟨number, known⟩ := Option.isSome_iff_exists.mp found
  exact Option.isSome_of_eq_some (later.order known)

theorem rank (later : before.Extends after) (found : before.Found vertex) :
    after.rank vertex = before.rank vertex := by
  obtain ⟨number, known⟩ := Option.isSome_iff_exists.mp found
  rw [Search.rank, Search.rank, later.order known, known]

end Extends

/-- What the visit of an undiscovered vertex leads to. The number returned is the least one on the
old stack that is reached by an edge from what the visit adds to the stack. -/
structure Visited (graph : Digraph) (path : List Nat) (vertex : Nat) (before : Search) (low : Nat)
    (after : Search) : Prop where
  sound : after.Sound graph path
  later : before.Extends after
  found : after.Found vertex
  low_le : low ≤ before.order.size
  reaches : low < before.order.size →
    ∃ older ∈ before.stack, before.rank older = low ∧ graph.Reaches vertex older
  bounds : ∀ source ∈ after.stack, source ∉ before.stack → ∀ target ∈ before.stack,
    graph.Edge source target → low ≤ before.rank target

/-- What is known when some successors of a vertex have been looked at. The state before the visit
of the vertex is `base`. -/
structure Scanned (graph : Digraph) (path : List Nat) (vertex : Nat) (base : Search)
    (done : List Nat) (low : Nat) (search : Search) : Prop where
  sound : search.Sound graph (vertex :: path)
  later : (base.discover vertex).Extends search
  low_le : low ≤ base.order.size
  reaches : low < base.order.size →
    ∃ older ∈ base.stack, base.rank older = low ∧ graph.Reaches vertex older
  bounds : ∀ source ∈ search.stack, source ∉ base.stack → source ≠ vertex →
    ∀ target ∈ base.stack, graph.Edge source target → low ≤ base.rank target
  found : ∀ target ∈ done, search.Found target
  least : ∀ target ∈ done, target ∈ base.stack → low ≤ base.rank target

section Scanned

variable (start : base.Sound graph path) (new : ¬base.Found vertex)
include start new

omit start new in
theorem mem_base_of_rank_lt (sound : search.Sound graph (vertex :: path))
    (later : (base.discover vertex).Extends search) (member : target ∈ search.stack)
    (older : search.rank target < base.order.size) : target ∈ base.stack := by
  obtain ⟨above, split⟩ := later.stack
  have ranked : search.rank vertex = base.order.size := by
    rw [later.rank (found_discover.mpr (.inl rfl)), rank_discover_self]
  have descending := sound.descending
  rw [← split, List.pairwise_append] at descending
  rw [← split, List.mem_append] at member
  rcases member with inAbove | below
  · have := descending.2.2 target inAbove vertex List.mem_cons_self
    omega
  · rcases List.mem_cons.mp below with rfl | inBase
    · omega
    · exact inBase

theorem rank_of_mem_base (later : (base.discover vertex).Extends search)
    (member : target ∈ base.stack) : search.rank target = base.rank target :=
  ((Extends.discover new).trans later).rank (start.found_of_mem_stack member)

theorem Scanned.of_visited {reached : Nat}
    (scanned : Scanned graph path vertex base done low before) (edge : graph.Edge vertex target)
    (unknown : ¬before.Found target)
    (visited : Visited graph (vertex :: path) target before reached after) :
    Scanned graph path vertex base (done ++ [target]) (min low reached) after where
  sound := visited.sound
  later := scanned.later.trans visited.later
  low_le := (min_le_left _ _).trans scanned.low_le
  reaches less := by
    rcases le_or_gt low reached with keeps | lower
    · rw [min_eq_left keeps] at less ⊢
      exact scanned.reaches less
    · rw [min_eq_right lower.le] at less ⊢
      have grown : base.order.size < before.order.size := by
        have := scanned.later.size
        rw [size_discover new] at this
        omega
      obtain ⟨older, member, ranked, reaches⟩ := visited.reaches (less.trans grown)
      have inBase := mem_base_of_rank_lt scanned.sound scanned.later member (ranked ▸ less)
      refine ⟨older, inBase, ?_, .head edge reaches⟩
      rw [← rank_of_mem_base start new scanned.later inBase, ranked]
  bounds source member outside differs other otherMember edgeToOther := by
    by_cases old : source ∈ before.stack
    · exact (min_le_left _ _).trans
        (scanned.bounds source old outside differs other otherMember edgeToOther)
    · have otherBefore : other ∈ before.stack :=
        (((Extends.discover new).trans scanned.later).stack).subset otherMember
      have bound := visited.bounds source member old other otherBefore edgeToOther
      rw [rank_of_mem_base start new scanned.later otherMember] at bound
      exact (min_le_right _ _).trans bound
  found other member := by
    rcases List.mem_append.mp member with earlier | isTarget
    · exact visited.later.found (scanned.found other earlier)
    · exact List.mem_singleton.mp isTarget ▸ visited.found
  least other member inBase := by
    rcases List.mem_append.mp member with earlier | isTarget
    · exact (min_le_left _ _).trans (scanned.least other earlier inBase)
    · rw [List.mem_singleton.mp isTarget] at inBase
      exact absurd (((Extends.discover new).trans scanned.later).found
        (start.found_of_mem_stack inBase)) unknown

theorem Scanned.of_found (scanned : Scanned graph path vertex base done low search)
    (edge : graph.Edge vertex target) (known : search.Found target)
    (member : target ∈ search.stack) :
    Scanned graph path vertex base (done ++ [target]) (min low (search.rank target)) search where
  sound := scanned.sound
  later := scanned.later
  low_le := (min_le_left _ _).trans scanned.low_le
  reaches less := by
    rcases le_or_gt low (search.rank target) with keeps | lower
    · rw [min_eq_left keeps] at less ⊢
      exact scanned.reaches less
    · rw [min_eq_right lower.le] at less ⊢
      have inBase := mem_base_of_rank_lt scanned.sound scanned.later member less
      exact ⟨target, inBase, (rank_of_mem_base start new scanned.later inBase).symm, .single edge⟩
  bounds source sourceMember outside differs other otherMember edgeToOther :=
    (min_le_left _ _).trans
      (scanned.bounds source sourceMember outside differs other otherMember edgeToOther)
  found other otherMember := by
    rcases List.mem_append.mp otherMember with earlier | isTarget
    · exact scanned.found other earlier
    · exact List.mem_singleton.mp isTarget ▸ known
  least other otherMember inBase := by
    rcases List.mem_append.mp otherMember with earlier | isTarget
    · exact (min_le_left _ _).trans (scanned.least other earlier inBase)
    · rw [List.mem_singleton.mp isTarget] at inBase ⊢
      rw [← rank_of_mem_base start new scanned.later inBase]
      exact min_le_right _ _

omit start new in
theorem Scanned.of_settled (scanned : Scanned graph path vertex base done low search)
    (known : search.Found target) (outside : target ∉ base.stack) :
    Scanned graph path vertex base (done ++ [target]) low search where
  sound := scanned.sound
  later := scanned.later
  low_le := scanned.low_le
  reaches := scanned.reaches
  bounds := scanned.bounds
  found other member := by
    rcases List.mem_append.mp member with earlier | isTarget
    · exact scanned.found other earlier
    · exact List.mem_singleton.mp isTarget ▸ known
  least other member inBase := by
    rcases List.mem_append.mp member with earlier | isTarget
    · exact scanned.least other earlier inBase
    · exact absurd (List.mem_singleton.mp isTarget ▸ inBase) outside

theorem Scanned.scan {visit : Nat → Search → Nat × Search}
    (visits : ∀ target search, search.Sound graph (vertex :: path) → ¬search.Found target →
      graph.Edge vertex target → graph.size ≤ limit + search.order.size →
        Visited graph (vertex :: path) target search (visit target search).1
          (visit target search).2)
    {targets : List Nat} (edges : ∀ target ∈ targets, graph.Edge vertex target)
    (scanned : Scanned graph path vertex base done low search)
    (enough : graph.size ≤ limit + search.order.size) :
    Scanned graph path vertex base (done ++ targets) (Digraph.scan visit targets low search).1
      (Digraph.scan visit targets low search).2 := by
  induction targets generalizing done low search with
  | nil => rwa [List.append_nil]
  | cons target rest ih =>
    rw [List.forall_mem_cons] at edges
    rw [Digraph.scan, ← List.singleton_append, ← List.append_assoc]
    cases known : search.order.find? target with
    | none =>
      have unknown : ¬search.Found target := by simp [Found, known]
      have visited := visits target search scanned.sound unknown edges.1 enough
      exact ih edges.2 (scanned.of_visited start new edges.1 unknown visited)
        (enough.trans (Nat.add_le_add_left visited.later.size limit))
    | some number =>
      have found : search.Found target := Option.isSome_of_eq_some known
      have ranked : search.rank target = number := by rw [rank, known, Option.getD_some]
      dsimp only
      split
      · next onStack =>
          have member := List.contains_iff_mem.mp onStack
          exact ih edges.2 (ranked ▸ scanned.of_found start new edges.1 found member) enough
      · next offStack =>
          have outside : target ∉ base.stack := fun member => offStack
            (List.contains_iff_mem.mpr
              (((Extends.discover new).trans scanned.later).stack.subset member))
          exact ih edges.2 (scanned.of_settled found outside) enough

end Scanned

section Finished

variable (start : base.Sound graph path) (new : ¬base.Found vertex)
  (scanned : Scanned graph path vertex base done low search)
  (all : ∀ target, graph.Edge vertex target → target ∈ done)
include scanned all

theorem explored_of_scanned (source : Nat) (found : search.Found source) (outside : source ∉ path)
    (target : Nat) (edge : graph.Edge source target) : search.Found target := by
  by_cases same : source = vertex
  · subst same
    exact scanned.found target (all target edge)
  · exact scanned.sound.explored source found (by simp [same, outside]) target edge

include start new

theorem visited_of_open (less : low < base.order.size) :
    Visited graph path vertex base low search where
  sound := {
    within := scanned.sound.within
    counted := scanned.sound.counted
    distinct := scanned.sound.distinct
    found := scanned.sound.found
    numbered := scanned.sound.numbered
    descending := scanned.sound.descending
    path_subset := List.Subset.trans (List.subset_cons_self _ _) scanned.sound.path_subset
    explored := explored_of_scanned scanned all
    downward := scanned.sound.downward
    upward := fun newer member => by
      obtain ⟨older, inPath, reaches⟩ := scanned.sound.upward newer member
      rcases List.mem_cons.mp inPath with rfl | inRest
      · obtain ⟨oldest, inBase, _, further⟩ := scanned.reaches less
        obtain ⟨onPath, inRest, last⟩ := start.upward oldest inBase
        exact ⟨onPath, inRest, (reaches.trans further).trans last⟩
      · exact ⟨older, inRest, reaches⟩
    settled := scanned.sound.settled }
  later := (Extends.discover new).trans scanned.later
  found := scanned.later.found (found_discover.mpr (.inl rfl))
  low_le := scanned.low_le
  reaches := scanned.reaches
  bounds source member outside target inBase edge := by
    by_cases same : source = vertex
    · subst same
      exact scanned.least target (all target edge) inBase
    · exact scanned.bounds source member outside same target inBase edge

end Finished

theorem close_eq (split : search.stack = above ++ vertex :: below) (outside : vertex ∉ above) :
    (search.close vertex).stack = below ∧
      (search.close vertex).components = (above ++ [vertex]) :: search.components := by
  have differ : ∀ other ∈ above, decide (other ≠ vertex) = true := fun other member =>
    decide_eq_true fun same => outside (same ▸ member)
  rw [close, split, List.dropWhile_append_of_pos differ, List.takeWhile_append_of_pos differ]
  simp

theorem held_close (split : search.stack = above ++ vertex :: below) (outside : vertex ∉ above) :
    (search.close vertex).held.Perm search.held := by
  rw [held, held, (close_eq split outside).1, (close_eq split outside).2,
    split.trans (List.append_cons ..), List.flatten_cons, ← List.append_assoc]
  exact .append_right _ List.perm_append_comm

section Closing

variable (start : base.Sound graph path) (new : ¬base.Found vertex)
  (scanned : Scanned graph path vertex base done base.order.size search)
  (all : ∀ target, graph.Edge vertex target → target ∈ done)
  {above : List Nat} (split : search.stack = above ++ vertex :: base.stack)
include split

theorem mem_stack_of_mem_above (member : source ∈ above ++ [vertex]) : source ∈ search.stack := by
  rw [split, List.append_cons]
  exact List.mem_append_left _ member

include scanned

theorem notMem_above : vertex ∉ above := by
  have distinct := (List.nodup_append'.mp scanned.sound.distinct).1
  rw [split, List.nodup_append'] at distinct
  exact fun member => distinct.2.2 member List.mem_cons_self

theorem notMem_of_mem_base (inBase : target ∈ base.stack) :
    target ∉ above ++ [vertex] ∧ target ∉ search.components.flatten := by
  have distinct := scanned.sound.distinct
  rw [held, split, List.append_cons, List.append_assoc, List.nodup_append'] at distinct
  obtain ⟨_, distinctBelow, apart⟩ := distinct
  exact ⟨fun member => apart member (List.mem_append_left _ inBase),
    (List.nodup_append'.mp distinctBelow).2.2 inBase⟩

include start all

section Above

variable (member : source ∈ above ++ [vertex])
include member

theorem notMem_base_of_edge (edge : graph.Edge source target) : target ∉ base.stack := by
  intro inBase
  have older := start.numbered target (start.found_of_mem_stack inBase)
  by_cases same : source = vertex
  · subst same
    exact absurd (scanned.least target (all target edge) inBase) (not_le.mpr older)
  · have outside : source ∉ base.stack := fun sourceBase =>
      (notMem_of_mem_base scanned split sourceBase).1 member
    exact absurd (scanned.bounds source (mem_stack_of_mem_above split member) outside same
      target inBase edge) (not_le.mpr older)

theorem mem_of_edge_above (edge : graph.Edge source target) :
    target ∈ above ++ [vertex] ∨ target ∈ search.components.flatten := by
  have outside : source ∉ path := fun inPath =>
    (notMem_of_mem_base scanned split (start.path_subset inPath)).1 member
  have found := explored_of_scanned scanned all source (scanned.sound.found_of_mem_stack
    (mem_stack_of_mem_above split member)) outside target edge
  have targetHeld := (scanned.sound.found target).mp found
  rw [held, split, List.append_cons, List.mem_append, List.mem_append] at targetHeld
  rcases targetHeld with (inAbove | inBase) | inComponents
  · exact .inl inAbove
  · exact absurd inBase (notMem_base_of_edge start scanned all split member edge)
  · exact .inr inComponents

theorem mem_of_reaches_above (reaches : graph.Reaches source target) :
    target ∈ above ++ [vertex] ∨ target ∈ search.components.flatten := by
  induction reaches with
  | refl => exact .inl member
  | tail _ edge ih =>
    rcases ih with inAbove | inComponents
    · exact mem_of_edge_above start scanned all split inAbove edge
    · exact .inr (scanned.sound.settled.mem_of_edge inComponents edge)

theorem reaches_of_mem_above : graph.Reaches source vertex := by
  obtain ⟨older, inPath, reaches⟩ :=
    scanned.sound.upward source (mem_stack_of_mem_above split member)
  rcases List.mem_cons.mp inPath with rfl | inRest
  · exact reaches
  · have ⟨notAbove, notSettled⟩ := notMem_of_mem_base scanned split (start.path_subset inRest)
    rcases mem_of_reaches_above start scanned all split member reaches with inAbove | inComponents
    · exact absurd inAbove notAbove
    · exact absurd inComponents notSettled

end Above

omit start all in
theorem reaches_above (member : target ∈ above ++ [vertex]) : graph.Reaches vertex target := by
  have descending := scanned.sound.descending
  rw [split, List.pairwise_append] at descending
  rcases List.mem_append.mp member with inAbove | isVertex
  · exact scanned.sound.downward vertex (split ▸ List.mem_append_right _ List.mem_cons_self) target
      (split ▸ List.mem_append_left _ inAbove)
      (descending.2.2 target inAbove vertex List.mem_cons_self).le
  · exact List.mem_singleton.mp isVertex ▸ .refl

theorem sound_close (inside : vertex < graph.size) : (search.close vertex).Sound graph path := by
  have outside := notMem_above scanned split
  have rearranged := held_close split outside
  have kept : base.stack <:+ search.stack := split ▸
    (List.suffix_cons vertex base.stack).trans (List.suffix_append _ _)
  have stack := (close_eq split outside).1
  have explored := explored_of_scanned scanned all
  exact {
    within := scanned.sound.within.close inside
    counted := scanned.sound.counted.trans rearranged.length_eq.symm
    distinct := rearranged.nodup_iff.mpr scanned.sound.distinct
    found := fun other => (scanned.sound.found other).trans rearranged.mem_iff.symm
    numbered := scanned.sound.numbered
    descending := stack ▸ scanned.sound.descending.sublist kept.sublist
    path_subset := stack ▸ start.path_subset
    explored := explored
    downward := stack ▸ fun older olderMember newer newerMember =>
      scanned.sound.downward older (kept.subset olderMember) newer (kept.subset newerMember)
    upward := stack ▸ start.upward
    settled := (close_eq split outside).2 ▸ .cons
      (fun source sourceMember target targetMember =>
        (reaches_of_mem_above start scanned all split sourceMember).trans
          (reaches_above scanned split targetMember))
      (fun source member target edge => mem_of_edge_above start scanned all split member edge)
      scanned.sound.settled }

include new

theorem visited_of_closed :
    Visited graph path vertex base base.order.size (search.close vertex) := by
  have inside : vertex < graph.size :=
    scanned.sound.within.stack vertex (split ▸ List.mem_append_right _ List.mem_cons_self)
  have stack := (close_eq split (notMem_above scanned split)).1
  have later := (Extends.discover new).trans scanned.later
  exact {
    sound := sound_close start scanned all split inside
    later := ⟨later.order, later.size, stack ▸ List.suffix_rfl⟩
    found := scanned.later.found (found_discover.mpr (.inl rfl))
    low_le := le_rfl
    reaches := fun less => absurd less (lt_irrefl _)
    bounds := stack ▸ fun source member outside => absurd member outside }

end Closing

/-- The contract of a visit. The limit suffices, since visits nest only as long as vertices are
undiscovered. -/
theorem visited_visit (closed : graph.isClosed = true) (start : search.Sound graph path)
    (new : ¬search.Found vertex) (inside : vertex < graph.size)
    (reached : ∀ older ∈ path, graph.Reaches older vertex)
    (enough : graph.size ≤ limit + search.order.size) :
    Visited graph path vertex search (visit graph limit vertex search).1
      (visit graph limit vertex search).2 := by
  induction limit generalizing path vertex search with
  | zero =>
    have := start.size_lt new inside
    omega
  | succ limit ih =>
    have visits : ∀ target middle, Sound graph (vertex :: path) middle → ¬middle.Found target →
        graph.Edge vertex target → graph.size ≤ limit + middle.order.size →
          Visited graph (vertex :: path) target middle (visit graph limit target middle).1
            (visit graph limit target middle).2 := by
      intro target middle sound unknown edge enough
      refine ih sound unknown (lt_of_edge closed edge) (fun older member => ?_) enough
      rcases List.mem_cons.mp member with rfl | inPath
      · exact .single edge
      · exact (reached older inPath).tail edge
    have begun : Scanned graph path vertex search [] search.order.size (search.discover vertex) := {
      sound := start.discover new inside reached
      later := .refl
      low_le := le_rfl
      reaches := fun less => absurd less (lt_irrefl _)
      bounds := fun source member outside differs => by
        rcases List.mem_cons.mp member with isVertex | old
        · exact absurd isVertex differs
        · exact absurd old outside
      found := nofun
      least := nofun }
    have edges : ∀ target ∈ graph.next vertex, graph.Edge vertex target :=
      fun target member => (edge_iff closed).mpr member
    have scanned := begun.scan start new visits edges (by
      rw [size_discover new]
      omega)
    have all : ∀ target, graph.Edge vertex target → target ∈ [] ++ graph.next vertex :=
      fun target edge => (edge_iff closed).mp edge
    rw [visit]
    dsimp only
    split
    · next same =>
        obtain ⟨above, split⟩ := scanned.later.stack
        rw [same] at scanned ⊢
        exact visited_of_closed start new scanned all split.symm
    · next differs =>
        exact visited_of_open start new scanned all (lt_of_le_of_ne scanned.low_le differs)

theorem sound_searchAll (closed : graph.isClosed = true) :
    (searchAll graph).Sound graph [] ∧ ∀ vertex < graph.size, (searchAll graph).Found vertex := by
  have visits : ∀ vertices : List Nat, (∀ vertex ∈ vertices, vertex < graph.size) →
      ∀ search : Search, search.Sound graph [] →
        let after := vertices.foldl (fun search vertex =>
          if search.order.contains vertex then search
          else (visit graph graph.size vertex search).2) search
        after.Sound graph [] ∧ (∀ vertex, search.Found vertex → after.Found vertex) ∧
          ∀ vertex ∈ vertices, after.Found vertex := by
    intro vertices inside
    induction vertices with
    | nil => exact fun search sound => ⟨sound, fun _ => id, nofun⟩
    | cons vertex rest ih =>
      rw [List.forall_mem_cons] at inside
      intro search sound
      rw [List.foldl_cons]
      split
      · next found =>
          obtain ⟨soundAfter, keeps, all⟩ := ih inside.2 search sound
          exact ⟨soundAfter, keeps, List.forall_mem_cons.mpr ⟨keeps vertex found, all⟩⟩
      · next new =>
          have visited := visited_visit closed sound new inside.1 nofun (Nat.le_add_right _ _)
          obtain ⟨soundAfter, keeps, all⟩ := ih inside.2 _ visited.sound
          exact ⟨soundAfter, fun other found => keeps other (visited.later.found found),
            List.forall_mem_cons.mpr ⟨keeps vertex visited.found, all⟩⟩
  obtain ⟨sound, _, all⟩ :=
    visits (List.range graph.size) (fun _ => List.mem_range.mp) .initial sound_initial
  exact ⟨sound, fun vertex inside => all vertex (List.mem_range.mpr inside)⟩

end Search

theorem settled_searchAll (closed : graph.isClosed = true) :
    Settled graph (searchAll graph).components :=
  (Search.sound_searchAll closed).1.settled

theorem perm_range_searchAll (closed : graph.isClosed = true) :
    (searchAll graph).components.flatten.Perm (List.range graph.size) := by
  obtain ⟨sound, all⟩ := Search.sound_searchAll closed
  have emptyStack : (searchAll graph).stack = [] := List.eq_nil_iff_forall_not_mem.mpr
    fun vertex member => by
      obtain ⟨_, inPath, _⟩ := sound.upward vertex member
      cases inPath
  have held : (searchAll graph).held = (searchAll graph).components.flatten := by
    rw [Search.held, emptyStack, List.nil_append]
  refine (List.perm_ext_iff_of_nodup (held ▸ sound.distinct) List.nodup_range).mpr fun vertex => ?_
  rw [List.mem_range]
  constructor
  · intro member
    obtain ⟨component, isComponent, isMember⟩ := List.mem_flatten.mp member
    exact (sound.within.components component isComponent).2 vertex isMember
  · intro inside
    exact held ▸ (sound.found vertex).mp (all vertex inside)

end TraitCheck.Digraph
