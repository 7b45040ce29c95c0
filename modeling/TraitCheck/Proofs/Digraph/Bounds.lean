import TraitCheck.Digraph.Components
import Mathlib

/-!
# Searches stay inside their graph

In a closed graph a search meets only vertices, so every vertex that it puts on the stack or into a
component is one of the graph. Visits take from the stack only what they have put there; the vertex
whose component is closed is therefore still on the stack.
-/

namespace TraitCheck.Digraph

variable {graph : Digraph} {source target vertex size : Nat}
variable {search : Search} {after : Digraph}

theorem hasVertex_natCast : graph.hasVertex source = true ↔ source < graph.size := by
  simp [hasVertex]

theorem targets?_eq (inside : source < graph.size) :
    graph.targets? source = graph.successors[source]? := by
  rw [targets?, if_pos (hasVertex_natCast.mpr inside), Int.toNat_natCast]

theorem exists_addEdge? (inside : source < graph.size) (target : Int) :
    ∃ targets, graph.successors[source]? = some targets ∧
      graph.addEdge? source target =
        some (if targets.contains target then graph
          else ⟨graph.successors.set source (targets ++ [target])⟩) := by
  have found : graph.successors[source]? = some graph.successors[source] :=
    List.getElem?_eq_getElem inside
  refine ⟨_, found, ?_⟩
  rw [addEdge?, targets?_eq inside, found]
  dsimp only
  split <;> rfl

theorem size_addEdge? {target : Int} (inside : source < graph.size)
    (added : graph.addEdge? source target = some after) : after.size = graph.size := by
  obtain ⟨targets, _, result⟩ := exists_addEdge? inside target
  cases added.symm.trans result
  split
  · rfl
  · exact List.length_set

theorem mem_next_addEdge? {other reached : Nat} (inside : source < graph.size)
    (added : graph.addEdge? source target = some after) :
    reached ∈ after.next other ↔ reached ∈ graph.next other ∨ other = source ∧
      reached = target := by
  obtain ⟨targets, found, result⟩ := exists_addEdge? inside target
  cases added.symm.trans result
  have atSource : graph.next source = targets.map Int.toNat := by
    rw [next, List.getD_eq_getElem?_getD, found]
    rfl
  split
  · next known =>
      refine ⟨Or.inl, ?_⟩
      rintro (old | ⟨rfl, rfl⟩)
      · exact old
      · rw [atSource]
        exact List.mem_map.mpr ⟨_, List.contains_iff_mem.mp known, Int.toNat_natCast _⟩
  · by_cases same : other = source
    · subst same
      have grown : next ⟨graph.successors.set other (targets ++ [(target : Int)])⟩ other =
          graph.next other ++ [target] := by
        rw [atSource, next, List.getD_eq_getElem?_getD, List.getElem?_set_self inside]
        simp
      rw [grown]
      simp
    · have kept : next ⟨graph.successors.set source (targets ++ [(target : Int)])⟩ other =
          graph.next other := by
        rw [next, List.getD_eq_getElem?_getD, List.getElem?_set_ne (Ne.symm same), next,
          List.getD_eq_getElem?_getD]
      simp [kept, same]

theorem isClosed_iff : graph.isClosed = true ↔
    ∀ targets ∈ graph.successors, ∀ target ∈ targets, graph.hasVertex target = true := by
  simp [isClosed, List.all_eq_true]

theorem isClosed_ofSize (count : Nat) : (ofSize count).isClosed = true := by
  refine isClosed_iff.mpr fun targets member => ?_
  cases List.eq_of_mem_replicate member
  nofun

theorem isClosed_addEdge? (closed : graph.isClosed = true)
    (insideSource : source < graph.size) (insideTarget : target < graph.size)
    (added : graph.addEdge? source target = some after) : after.isClosed = true := by
  have sameSize := size_addEdge? insideSource added
  obtain ⟨targets, found, result⟩ := exists_addEdge? insideSource target
  rw [isClosed_iff] at closed ⊢
  have same : ∀ vertex, after.hasVertex vertex = graph.hasVertex vertex := fun vertex => by
    rw [hasVertex, hasVertex, sameSize]
  cases added.symm.trans result
  intro row member vertex inRow
  rw [same]
  split at member
  · exact closed row member vertex inRow
  · rcases List.mem_or_eq_of_mem_set member with old | rfl
    · exact closed row old vertex inRow
    · rcases List.mem_append.mp inRow with old | isNew
      · exact closed targets (List.mem_of_getElem? found) vertex old
      · rw [List.mem_singleton.mp isNew]
        exact hasVertex_natCast.mpr insideTarget

theorem lt_of_mem_next (closed : graph.isClosed = true) (member : target ∈ graph.next vertex) :
    target < graph.size := by
  obtain ⟨entry, inside, rfl⟩ := List.mem_map.mp member
  rw [List.getD_eq_getElem?_getD] at inside
  cases found : graph.successors[vertex]? with
  | none =>
    rw [found] at inside
    cases inside
  | some targets =>
    rw [found] at inside
    have isVertex := isClosed_iff.mp closed targets (List.mem_of_getElem? found) entry inside
    simp only [hasVertex, Bool.and_eq_true, decide_eq_true_eq] at isVertex
    omega

/-- All vertices that a search holds are below a bound, and no component is empty. -/
structure Search.Within (size : Nat) (search : Search) : Prop where
  stack : ∀ vertex ∈ search.stack, vertex < size
  components : ∀ component ∈ search.components, component ≠ [] ∧ ∀ vertex ∈ component, vertex < size

theorem Search.Within.discover (within : search.Within size) (inside : vertex < size) :
    (search.discover vertex).Within size where
  stack := List.forall_mem_cons.mpr ⟨inside, within.stack⟩
  components := within.components

theorem Search.Within.close (within : search.Within size) (inside : vertex < size) :
    (search.close vertex).Within size where
  stack other member :=
    within.stack other ((List.dropWhile_suffix _).subset (List.mem_of_mem_drop member))
  components := by
    refine List.forall_mem_cons.mpr ⟨⟨by simp, fun other member => ?_⟩, within.components⟩
    rcases List.mem_append.mp member with above | isLast
    · exact within.stack other ((List.takeWhile_prefix _).subset above)
    · exact List.mem_singleton.mp isLast ▸ inside

theorem within_scan {visit : Nat → Search → Nat × Search}
    (step : ∀ vertex search, vertex < size → search.Within size →
      (visit vertex search).2.Within size)
    {targets : List Nat} (inside : ∀ target ∈ targets, target < size) (low : Nat)
    (within : search.Within size) : (scan visit targets low search).2.Within size := by
  induction targets generalizing low search with
  | nil => exact within
  | cons target rest ih =>
    rw [List.forall_mem_cons] at inside
    rw [scan]
    split
    · exact ih inside.2 _ (step target search inside.1 within)
    · split
      · exact ih inside.2 _ within
      · exact ih inside.2 _ within

theorem within_visit (closed : graph.isClosed = true) (limit : Nat) (inside : vertex < graph.size)
    (within : search.Within graph.size) :
    (visit graph limit vertex search).2.Within graph.size := by
  induction limit generalizing vertex search with
  | zero => exact within
  | succ limit ih =>
    have targets : ∀ target ∈ graph.next vertex, target < graph.size :=
      fun _ member => lt_of_mem_next closed member
    have scanned := within_scan (fun _ _ inside within => ih inside within) targets
      search.order.size (within.discover inside)
    rw [visit]
    dsimp only
    split
    · exact scanned.close inside
    · exact scanned

theorem within_searchAll (closed : graph.isClosed = true) :
    (searchAll graph).Within graph.size := by
  have visits : ∀ vertices : List Nat, (∀ vertex ∈ vertices, vertex < graph.size) →
      ∀ search : Search, search.Within graph.size →
        (vertices.foldl (fun search vertex =>
          if search.order.contains vertex then search
          else (visit graph graph.size vertex search).2) search).Within graph.size := by
    intro vertices inside
    induction vertices with
    | nil => exact fun _ within => within
    | cons vertex rest ih =>
      rw [List.forall_mem_cons] at inside
      intro search within
      refine ih inside.2 _ ?_
      dsimp only
      split
      · exact within
      · exact within_visit closed _ inside.1 within
  exact visits _ (fun _ member => List.mem_range.mp member) _ ⟨nofun, nofun⟩

theorem of_cycles? {found : List (List Nat)} (searched : graph.cycles? = some found) :
    ∀ cycle ∈ found, cycle ≠ [] ∧ ∀ vertex ∈ cycle, vertex < graph.size := by
  obtain ⟨components, foundComponents, rfl⟩ := Option.map_eq_some_iff.mp searched
  have closed : graph.isClosed = true := by
    by_contra notClosed
    rw [components?, if_neg notClosed] at foundComponents
    cases foundComponents
  rw [components?, if_pos closed] at foundComponents
  cases foundComponents
  intro cycle member
  obtain ⟨component, inComponents, rfl⟩ := List.mem_map.mp (List.mem_mergeSort.mp member)
  have ⟨nonempty, inside⟩ :=
    (within_searchAll closed).components component (List.mem_of_mem_filter inComponents)
  refine ⟨fun none => nonempty ?_, fun vertex inCycle =>
    inside vertex (List.mem_mergeSort.mp inCycle)⟩
  exact List.eq_nil_of_length_eq_zero ((List.length_mergeSort component).symm.trans
    (congrArg List.length none))

theorem suffix_drop_dropWhile {stack above below : List Nat}
    (split : stack = above ++ vertex :: below) :
    below <:+ (stack.dropWhile (· ≠ vertex)).drop 1 := by
  subst split
  induction above with
  | nil => simp
  | cons first rest ih =>
    by_cases same : first = vertex
    · subst same
      simp only [List.cons_append, ne_eq, not_true_eq_false, decide_false, Bool.false_eq_true,
        not_false_eq_true, List.dropWhile_cons_of_neg, List.drop_succ_cons, List.drop_zero]
      exact (List.suffix_cons first below).trans (List.suffix_append rest _)
    · rwa [List.cons_append, List.dropWhile_cons_of_pos (by simpa using same)]

theorem suffix_stack_scan {visit : Nat → Search → Nat × Search}
    (step : ∀ vertex search, search.stack <:+ (visit vertex search).2.stack) (targets : List Nat)
    (low : Nat) (search : Search) : search.stack <:+ (scan visit targets low search).2.stack := by
  induction targets generalizing low search with
  | nil => exact List.suffix_rfl
  | cons target rest ih =>
    rw [scan]
    split
    · exact (step target search).trans (ih _ _)
    · split
      · exact ih _ _
      · exact ih _ _

theorem suffix_stack_visit (limit vertex : Nat) (search : Search) :
    search.stack <:+ (visit graph limit vertex search).2.stack := by
  induction limit generalizing vertex search with
  | zero => exact List.suffix_rfl
  | succ limit ih =>
    have scanned := suffix_stack_scan ih (graph.next vertex) search.order.size
      (search.discover vertex)
    rw [visit]
    dsimp only
    split
    · obtain ⟨above, same⟩ := scanned
      exact suffix_drop_dropWhile same.symm
    · exact (List.suffix_cons vertex _).trans scanned

theorem mem_stack_scan (limit vertex : Nat) (search : Search) :
    vertex ∈ (scan (visit graph limit) (graph.next vertex) search.order.size
      (search.discover vertex)).2.stack :=
  (suffix_stack_scan (suffix_stack_visit limit) _ _ _).subset List.mem_cons_self

end TraitCheck.Digraph
