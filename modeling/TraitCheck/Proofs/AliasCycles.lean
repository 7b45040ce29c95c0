import TraitCheck.Proofs.AliasGraph
import TraitCheck.Proofs.Digraph.Cycles
import TraitCheck.Proofs.Types

/-!
# Aliases that are defined in terms of themselves

An alias refers to another one if its target mentions it anywhere, and depends on whatever it
reaches through such references. If aliases are told apart by their numbers, the edges of the graph
of references are exactly these references. So the groups that the search for cycles finds are the
classes of aliases that depend on each other, each in order of declaration, and the classes come in
the order of their first members.
-/

namespace TraitCheck

/-- A declaration is referred to somewhere in a type. -/
inductive Ty.Mentions (decl : DefId) : Ty → Prop where
  | named (args : List Ty) : Mentions decl (.named decl args)
  | arg {other : DefId} {args : List Ty} {ty : Ty} (member : ty ∈ args)
      (inside : Mentions decl ty) :
      Mentions decl (.named other args)
  | param {params : List Ty} {result ty : Ty} (member : ty ∈ params) (inside : Mentions decl ty) :
      Mentions decl (.fn params result)
  | result {params : List Ty} {result : Ty} (inside : Mentions decl result) :
      Mentions decl (.fn params result)
  | elem {elems : List Ty} {ty : Ty} (member : ty ∈ elems) (inside : Mentions decl ty) :
      Mentions decl (.tuple elems)
  | field {fields : List (String × Ty)} {field : String × Ty} (member : field ∈ fields)
      (inside : Mentions decl field.2) : Mentions decl (.record fields)
  | body {names : List String} {body : Ty} (inside : Mentions decl body) :
      Mentions decl (.scheme names body)

namespace Ty

variable {decl : DefId} {ty : Ty}

theorem mentions_iff :
    ty.Mentions decl ↔ (∃ args, ty = .named decl args) ∨ ∃ part ∈ ty.parts, part.Mentions decl := by
  constructor
  · intro mentions
    cases mentions with
    | named args => exact .inl ⟨args, rfl⟩
    | arg member inside | elem member inside => exact .inr ⟨_, member, inside⟩
    | param member inside => exact .inr ⟨_, List.mem_append_left _ member, inside⟩
    | result inside => exact .inr ⟨_, List.mem_append_right _ (.head _), inside⟩
    | field member inside => exact .inr ⟨_, List.mem_map_of_mem member, inside⟩
    | body inside => exact .inr ⟨_, .head _, inside⟩
  · rintro (⟨args, rfl⟩ | ⟨part, member, inside⟩)
    · exact .named args
    · cases ty with
      | named other args => exact .arg member inside
      | fn params result =>
        rcases List.mem_append.mp member with isParam | isResult
        · exact .param isParam inside
        · exact .result (List.mem_singleton.mp isResult ▸ inside)
      | tuple elems => exact .elem member inside
      | record fields =>
        rcases List.mem_map.mp member with ⟨field, isField, rfl⟩
        exact .field isField inside
      | scheme names body => exact .body (List.mem_singleton.mp member ▸ inside)
      | _ => cases member

theorem mem_references : decl ∈ ty.references ↔ ty.Mentions decl := by
  induction ty with
  | step ty ih =>
    rw [mentions_iff]
    rcases eq_or_ne ty absent with rfl | present
    · simp [references, collect, parts]
    · rw [references, collect_eq _ present, List.mem_append, List.mem_flatMap]
      refine or_congr ?_ (exists_congr fun part => and_congr_right (ih part))
      cases ty <;> simp [eq_comm]

end Ty

namespace Alias

variable {aliases : List AliasItem} {position target : Nat} {item other : AliasItem}

/-- The target of the one alias mentions the other. -/
def Refers (aliases : List AliasItem) (source target : DefId) : Prop :=
  ∃ item ∈ aliases, ∃ other ∈ aliases,
    item.id = source ∧ other.id = target ∧ item.target.Mentions other.id

/-- An alias leads to another one through one or more references. -/
abbrev DependsOn (aliases : List AliasItem) : DefId → DefId → Prop :=
  Relation.TransGen (Refers aliases)

section Distinct

variable (distinct : (aliases.map (·.id)).Nodup)

include distinct

theorem find?_positions {decl : DefId} :
    (positions aliases).find? decl = some position ↔
      ∃ item, aliases[position]? = some item ∧ item.id = decl := by
  have keys : (aliases.zipIdx.map fun entry => (entry.1.id, entry.2)).map Prod.fst =
      aliases.map (·.id) := by
    rw [List.map_map]
    conv_rhs => rw [← List.zipIdx_map_fst 0 aliases, List.map_map]
    rfl
  rw [positions_eq_insertAll, Table.find?_insertAll (keys ▸ distinct)]
  constructor
  · rintro (member | ⟨_, found⟩)
    · obtain ⟨⟨item, index⟩, inside, same⟩ := List.mem_map.mp member
      cases same
      exact ⟨item, List.mk_mem_zipIdx_iff_getElem?.mp inside, rfl⟩
    · cases found
  · rintro ⟨item, atPosition, rfl⟩
    exact .inl (List.mem_map.mpr
      ⟨(item, position), List.mk_mem_zipIdx_iff_getElem?.mpr atPosition, rfl⟩)

theorem edge_graph : (graph aliases).Edge position target ↔
    ∃ item other, aliases[position]? = some item ∧ aliases[target]? = some other ∧
      item.target.Mentions other.id := by
  have linked := linked_graph aliases
  rw [Digraph.edge_iff linked.closed, linked.next]
  simp only [targets, List.mem_filterMap, Ty.mem_references, find?_positions distinct]
  constructor
  · rintro ⟨item, atPosition, decl, mentions, other, atTarget, rfl⟩
    exact ⟨item, other, atPosition, atTarget, mentions⟩
  · rintro ⟨item, other, atPosition, atTarget, mentions⟩
    exact ⟨item, atPosition, other.id, mentions, other, atTarget, rfl⟩

theorem transGen_edge (atPosition : aliases[position]? = some item)
    (atTarget : aliases[target]? = some other) :
    Relation.TransGen (graph aliases).Edge position target ↔
      DependsOn aliases item.id other.id := by
  constructor
  · intro path
    -- every vertex stands for the number of its alias
    let number (vertex : Nat) : DefId := (aliases[vertex]?.map (·.id)).getD .list
    have step : ∀ source reached, (graph aliases).Edge source reached →
        Refers aliases (number source) (number reached) := by
      intro source reached edge
      obtain ⟨first, second, atSource, atReached, mentions⟩ := (edge_graph distinct).mp edge
      refine ⟨first, List.mem_of_getElem? atSource, second, List.mem_of_getElem? atReached, ?_, ?_,
        mentions⟩
      · simp [number, atSource]
      · simp [number, atReached]
    have lifted : DependsOn aliases (number position) (number target) := path.lift number step
    simpa [number, atPosition, atTarget] using lifted
  · intro path
    -- every number of an alias stands for its position
    let vertex (decl : DefId) : Nat := ((positions aliases).find? decl).getD 0
    have vertex_eq : ∀ {index : Nat} {found : AliasItem}, aliases[index]? = some found →
        vertex found.id = index := by
      intro index found atIndex
      simp [vertex, (find?_positions distinct).mpr ⟨found, atIndex, rfl⟩]
    have step : ∀ source reached, Refers aliases source reached →
        (graph aliases).Edge (vertex source) (vertex reached) := by
      rintro _ _ ⟨first, inFirst, second, inSecond, rfl, rfl, mentions⟩
      obtain ⟨_, atFirst⟩ := List.mem_iff_getElem?.mp inFirst
      obtain ⟨_, atSecond⟩ := List.mem_iff_getElem?.mp inSecond
      rw [vertex_eq atFirst, vertex_eq atSecond]
      exact (edge_graph distinct).mpr ⟨first, second, atFirst, atSecond, mentions⟩
    have lifted : Relation.TransGen (graph aliases).Edge (vertex item.id) (vertex other.id) :=
      path.lift vertex step
    rwa [vertex_eq atPosition, vertex_eq atTarget] at lifted

end Distinct

theorem filterMap_range {α : Type} (list : List α) :
    (List.range list.length).filterMap (list[·]?) = list := by
  calc (List.range list.length).filterMap (list[·]?)
    _ = list.zipIdx.filterMap fun entry => list[entry.2]? := by
        rw [List.range_eq_range', ← List.zipIdx_map_snd, List.filterMap_map]
        rfl
    _ = list.zipIdx.filterMap fun entry => some entry.1 :=
        List.filterMap_congr fun entry member => List.mk_mem_zipIdx_iff_getElem?.mp member
    _ = list := by rw [List.filterMap_eq_map', List.zipIdx_map_fst]

theorem sublist_of_ascending {α : Type} {list : List α} {positions : List Nat}
    (ascending : positions.Pairwise (· < ·))
    (inside : ∀ position ∈ positions, position < list.length) :
    (positions.filterMap (list[·]?)).Sublist list := by
  have distinct : positions.Nodup := ascending.imp Nat.ne_of_lt
  have ordered : positions.Sublist (List.range list.length) := by
    refine List.sublist_of_subperm_of_pairwise (r := (· ≤ ·)) ?_ (ascending.imp Nat.le_of_lt)
      (List.pairwise_lt_range.imp Nat.le_of_lt)
    exact distinct.subperm fun position member => List.mem_range.mpr (inside position member)
  have picked := ordered.filterMap (list[·]?)
  rwa [filterMap_range] at picked

/-- The classes of aliases that depend on each other. -/
structure CycleClasses (aliases : List AliasItem) (classes : List (List AliasItem)) : Prop where
  /-- The members are the aliases that depend on themselves. -/
  cyclic : ∀ item ∈ aliases,
    (∃ group ∈ classes, item ∈ group) ↔ DependsOn aliases item.id item.id
  /-- The other members of a class are the aliases that depend on each other with one of it. -/
  linked : ∀ group ∈ classes, ∀ item ∈ group, ∀ other ∈ aliases,
    other ∈ group ↔ DependsOn aliases item.id other.id ∧ DependsOn aliases other.id item.id
  /-- No alias is listed twice. -/
  once : classes.flatten.Nodup
  /-- The members of a class are in order of declaration. -/
  inOrder : ∀ group ∈ classes, group ≠ [] ∧ group.Sublist aliases
  /-- The classes are in the order of their first members. -/
  ordered : (classes.filterMap List.head?).Sublist aliases

/-- The aliases at given positions. -/
def pick (aliases : List AliasItem) (positions : List Nat) : List AliasItem :=
  positions.filterMap (aliases[·]?)

section Groups

variable {groups : List (List Nat)} (distinct : (aliases.map (·.id)).Nodup)
  (found : Digraph.CycleGroups (graph aliases) groups) {group : List Nat}

include distinct

theorem position_unique (atPosition : aliases[position]? = some item)
    (atTarget : aliases[target]? = some item) : position = target := by
  have first := (find?_positions distinct).mpr ⟨item, atPosition, rfl⟩
  have second := (find?_positions distinct).mpr ⟨item, atTarget, rfl⟩
  exact Option.some.inj (first.symm.trans second)

theorem mem_pick {positions : List Nat} (atPosition : aliases[position]? = some item) :
    item ∈ pick aliases positions ↔ position ∈ positions := by
  constructor
  · intro member
    obtain ⟨other, inside, atOther⟩ := List.mem_filterMap.mp member
    exact position_unique distinct atPosition atOther ▸ inside
  · exact fun member => List.mem_filterMap.mpr ⟨position, member, atPosition⟩

include found

theorem exists_at_of_mem (member : position ∈ groups.flatten) :
    ∃ item, aliases[position]? = some item := by
  have path := (found.onCycle position).mp member
  obtain ⟨_, edge, _⟩ := Relation.TransGen.head'_iff.mp path
  obtain ⟨item, _, atPosition, _⟩ := (edge_graph distinct).mp edge
  exact ⟨item, atPosition⟩

theorem cyclic_pick (member : item ∈ aliases) :
    (∃ group ∈ groups.map (pick aliases), item ∈ group) ↔ DependsOn aliases item.id item.id := by
  obtain ⟨position, atPosition⟩ := List.mem_iff_getElem?.mp member
  rw [← transGen_edge distinct atPosition atPosition, ← found.onCycle, List.mem_flatten]
  simp only [List.mem_map, exists_exists_and_eq_and, mem_pick distinct atPosition]

theorem linked_pick (isGroup : group ∈ groups)
    (inGroup : item ∈ pick aliases group) (member : other ∈ aliases) :
    other ∈ pick aliases group ↔
      DependsOn aliases item.id other.id ∧ DependsOn aliases other.id item.id := by
  obtain ⟨position, inside, atPosition⟩ := List.mem_filterMap.mp inGroup
  obtain ⟨target, atTarget⟩ := List.mem_iff_getElem?.mp member
  have onCycle := (found.onCycle position).mp (List.mem_flatten_of_mem isGroup inside)
  rw [mem_pick distinct atTarget, found.classes group isGroup position inside target,
    ← transGen_edge distinct atPosition atTarget, ← transGen_edge distinct atTarget atPosition]
  constructor
  · rintro ⟨reaches, back⟩
    exact ⟨onCycle.trans_left reaches, onCycle.trans_right back⟩
  · rintro ⟨path, back⟩
    exact ⟨path.to_reflTransGen, back.to_reflTransGen⟩

theorem nodup_flatten_pick : (groups.map (pick aliases)).flatten.Nodup := by
  have flat : (groups.map (pick aliases)).flatten = groups.flatten.filterMap (aliases[·]?) := by
    rw [List.filterMap_flatten]
    rfl
  rw [flat]
  exact found.distinct.filterMap fun _ _ _ atFirst atSecond =>
    position_unique distinct atFirst atSecond

theorem head?_pick (isGroup : group ∈ groups) :
    (pick aliases group).head? = group.head?.bind (aliases[·]?) ∧ pick aliases group ≠ [] := by
  obtain ⟨first, rest, rfl⟩ := List.exists_cons_of_ne_nil (found.ascending group isGroup).1
  obtain ⟨item, atFirst⟩ := exists_at_of_mem distinct found
    (List.mem_flatten_of_mem isGroup List.mem_cons_self)
  have picked : pick aliases (first :: rest) = item :: pick aliases rest :=
    List.filterMap_cons_some atFirst
  rw [picked]
  exact ⟨atFirst.symm, List.cons_ne_nil _ _⟩

theorem lt_length_of_mem (member : position ∈ groups.flatten) : position < aliases.length := by
  obtain ⟨_, atPosition⟩ := exists_at_of_mem distinct found member
  exact (List.getElem?_eq_some_iff.mp atPosition).1

theorem ordered_pick :
    ((groups.map (pick aliases)).filterMap List.head?).Sublist aliases := by
  have heads : (groups.map (pick aliases)).filterMap List.head? =
      (groups.filterMap List.head?).filterMap (aliases[·]?) := by
    rw [List.filterMap_map, List.filterMap_filterMap]
    exact List.filterMap_congr fun group isGroup => (head?_pick distinct found isGroup).1
  rw [heads]
  refine sublist_of_ascending ?_ fun position member => ?_
  · refine List.pairwise_filterMap.mpr (found.ordered.imp_of_mem ?_)
    rintro first second isFirst _ ⟨least, inFirst, below⟩ head isHead head' isHead'
    have head_le : head ≤ least := by
      obtain ⟨tail, rfl⟩ := List.head?_eq_some_iff.mp isHead
      rcases List.mem_cons.mp inFirst with rfl | inTail
      · exact le_rfl
      · exact Nat.le_of_lt ((List.pairwise_cons.mp (found.ascending _ isFirst).2).1 least inTail)
    exact lt_of_le_of_lt head_le (below head' (List.mem_of_head? isHead'))
  · obtain ⟨group, isGroup, isHead⟩ := List.mem_filterMap.mp member
    exact lt_length_of_mem distinct found
      (List.mem_flatten_of_mem isGroup (List.mem_of_head? isHead))

end Groups

theorem cycleClasses (distinct : (aliases.map (·.id)).Nodup) :
    CycleClasses aliases (cycles aliases) := by
  obtain ⟨groups, searched, found⟩ := Digraph.exists_cycles (linked_graph aliases).closed
  have same : cycles aliases = groups.map (pick aliases) := by
    rw [cycles, searched]
    rfl
  rw [same]
  exact {
    cyclic := fun item member => cyclic_pick distinct found member
    linked := fun group isClass item inGroup other member => by
      obtain ⟨positions, isGroup, rfl⟩ := List.mem_map.mp isClass
      exact linked_pick distinct found isGroup inGroup member
    once := nodup_flatten_pick distinct found
    inOrder := fun group isClass => by
      obtain ⟨positions, isGroup, rfl⟩ := List.mem_map.mp isClass
      refine ⟨(head?_pick distinct found isGroup).2, ?_⟩
      exact sublist_of_ascending (found.ascending positions isGroup).2 fun position member =>
        lt_length_of_mem distinct found (List.mem_flatten_of_mem isGroup member)
    ordered := ordered_pick distinct found }

end Alias

end TraitCheck
