import TraitCheck.Proofs.AliasExpansion
import TraitCheck.Proofs.Check.CyclicAliases

/-!
# Expansion after the search for cyclic aliases

Once the cyclic aliases of a module are marked, every type can be expanded. The search for cycles
and the expansion see the same references even if several aliases have the same number: both take
the last one. So a chain of references that comes back to an alias is a cycle of the graph, and all
aliases on it are marked.
-/

namespace TraitCheck

namespace Alias

variable {aliases : List AliasItem} {decl : DefId} {item : AliasItem} {position : Nat}
  {info : AliasInfo}

/-- The last alias with each number, with its position. -/
def placed (aliases : List AliasItem) : Table DefId (AliasItem × Nat) :=
  Table.empty.insertAll (aliases.zipIdx.map fun entry => (entry.1.id, entry))

/-- The table of aliases before any is marked. -/
def declared (aliases : List AliasItem) : Table DefId AliasInfo :=
  Table.empty.insertAll (aliases.map fun item => (item.id, { target := item.target }))

/-- The table of aliases with those on cycles marked. -/
def marked (aliases : List AliasItem) : Table DefId AliasInfo :=
  (cycles aliases).foldl markCyclic (declared aliases)

theorem positions_eq : positions aliases = (placed aliases).mapValues Prod.snd := by
  rw [placed, Table.mapValues_insertAll, Table.mapValues_empty, List.map_map,
    positions_eq_insertAll]
  rfl

theorem declared_eq :
    declared aliases = (placed aliases).mapValues fun entry => { target := entry.1.target } := by
  rw [placed, declared, Table.mapValues_insertAll, Table.mapValues_empty, List.map_map]
  congr 1
  conv_lhs => rw [← List.zipIdx_map_fst 0 aliases, List.map_map]
  rfl

theorem of_find?_placed (found : (placed aliases).find? decl = some (item, position)) :
    aliases[position]? = some item ∧ item.id = decl := by
  rcases Table.mem_of_find?_insertAll found with member | before
  · rcases List.mem_map.mp member with ⟨entry, inside, same⟩
    cases same
    exact ⟨List.mk_mem_zipIdx_iff_getElem?.mp inside, rfl⟩
  · cases before

theorem exists_find?_placed (found : (marked aliases).find? decl = some info) :
    ∃ item position, (placed aliases).find? decl = some (item, position) ∧
      info.target = item.target ∧
      (info.cyclic = true ↔ decl ∈ (cycles aliases).flatten.map (·.id)) := by
  rw [marked, foldl_markCyclic, find?_markCyclic, declared_eq, Table.find?_mapValues] at found
  rcases stored : (placed aliases).find? decl with _ | ⟨item, position⟩
  · rw [stored] at found
    cases found
  · rw [stored] at found
    cases found
    refine ⟨item, position, rfl, ?_⟩
    split
    · next listed => exact ⟨rfl, iff_of_true rfl listed⟩
    · next unlisted => exact ⟨rfl, iff_of_false Bool.false_ne_true unlisted⟩

theorem find?_marked (member : item ∈ aliases) : (marked aliases).find? item.id ≠ none := by
  have isKey : item.id ∈ (aliases.map fun item => (item.id, { target := item.target })).map
      (Prod.fst : DefId × AliasInfo → DefId) :=
    List.mem_map_of_mem (List.mem_map_of_mem member)
  rcases Table.exists_find?_insertAll (.inl isKey) with ⟨info, found⟩
  rw [marked, foldl_markCyclic, find?_markCyclic, declared, found]
  exact Option.some_ne_none _

theorem edge_of_uses {source target : DefId} (uses : Uses (marked aliases) source target) :
    ∃ first second, (positions aliases).find? source = some first ∧
      (positions aliases).find? target = some second ∧ (graph aliases).Edge first second := by
  rcases uses with ⟨info, found, _, mentions, isAlias⟩
  rcases exists_find?_placed found with ⟨item, first, placedSource, sameTarget, _⟩
  rcases Option.ne_none_iff_exists'.mp isAlias with ⟨other, foundOther⟩
  rcases exists_find?_placed foundOther with ⟨item', second, placedTarget, _⟩
  have atSecond : (positions aliases).find? target = some second := by
    rw [positions_eq, Table.find?_mapValues, placedTarget]
    rfl
  refine ⟨first, second, ?_, atSecond, ?_⟩
  · rw [positions_eq, Table.find?_mapValues, placedSource]
    rfl
  · have linked := linked_graph aliases
    rw [Digraph.edge_iff linked.closed, linked.next]
    refine ⟨item, (of_find?_placed placedSource).1, List.mem_filterMap.mpr ⟨target, ?_, atSecond⟩⟩
    rw [Ty.mem_references, ← sameTarget]
    exact mentions

theorem acyclic_marked (aliases : List AliasItem) (decl : DefId) :
    ¬Relation.TransGen (Uses (marked aliases)) decl decl := by
  intro path
  let vertex (decl : DefId) : Nat := ((positions aliases).find? decl).getD 0
  have step : ∀ source target, Uses (marked aliases) source target →
      (graph aliases).Edge (vertex source) (vertex target) := by
    intro source target uses
    rcases edge_of_uses uses with ⟨first, second, atFirst, atSecond, edge⟩
    simpa [vertex, atFirst, atSecond] using edge
  have cycle : Relation.TransGen (graph aliases).Edge (vertex decl) (vertex decl) :=
    path.lift vertex step
  rcases Relation.TransGen.head'_iff.mp path with ⟨_, ⟨info, found, unmarked, _⟩, _⟩
  rcases exists_find?_placed found with ⟨item, position, placedHere, _, marks⟩
  rcases of_find?_placed placedHere with ⟨atPosition, rfl⟩
  rcases Digraph.exists_cycles (linked_graph aliases).closed with ⟨groups, searched, found⟩
  have atVertex : vertex item.id = position := by
    simp [vertex, positions_eq, Table.find?_mapValues, placedHere]
  rw [atVertex] at cycle
  rcases List.mem_flatten.mp ((found.onCycle position).mpr cycle) with ⟨group, isGroup, inGroup⟩
  have listed : item ∈ (Alias.cycles aliases).flatten := by
    rw [Alias.cycles, searched]
    refine List.mem_flatten_of_mem (List.mem_map_of_mem isGroup) ?_
    exact List.mem_filterMap.mpr ⟨position, inGroup, atPosition⟩
  have isMarked := marks.mpr (List.mem_map_of_mem listed)
  rw [unmarked] at isMarked
  cases isMarked

theorem exists_item_of_marked (member : info ∈ (marked aliases).values) :
    ∃ item ∈ aliases, item.target = info.target := by
  rw [marked, foldl_markCyclic] at member
  rcases Checker.target_of_marked member with ⟨old, oldMember, same⟩
  rcases Table.mem_values_insertAll oldMember with given | before
  · rw [List.map_map] at given
    rcases List.mem_map.mp given with ⟨item, isItem, rfl⟩
    exact ⟨item, isItem, same⟩
  · cases before

end Alias

namespace Checker

variable {items : List Item} {settings : Settings}

theorem aliases_withCycles :
    (((initial settings).withItems items).withCycles (Item.aliases items)).aliases =
      Alias.marked (Item.aliases items) := by
  have entries : items.filterMap Item.aliasEntry? =
      (Item.aliases items).map fun item => (item.id, { target := item.target }) := by
    rw [Item.aliases, List.map_filterMap]
    refine List.filterMap_congr fun item _ => ?_
    cases item <;> rfl
  rw [Alias.marked, Alias.declared, ← entries]
  rfl

/-- Declaring all items and marking cyclic aliases. -/
def declareAliases (items : List Item) : CheckM Unit := do
  items.forM declareItem
  checkAliasCycles (Item.aliases items)

theorem declareAliases_eq_ok {after : Checker} :
    declareAliases items (initial settings) = .ok () after ↔
      Item.missing ∉ items ∧ (∀ item ∈ Item.aliases items, item.target.isComplete = true) ∧
      after = ((initial settings).withItems items).withCycles (Item.aliases items) := by
  rw [declareAliases, bind_eq_ok]
  constructor
  · rintro ⟨_, _, ranDeclare, ranCycles⟩
    have present := missing_notMem_of_declared ranDeclare
    rw [forM_declareItem present] at ranDeclare
    cases ranDeclare
    exact ⟨present, checkAliasCycles_eq_ok.mp ranCycles⟩
  · rintro ⟨present, complete⟩
    exact ⟨(), _, forM_declareItem present _, checkAliasCycles_eq_ok.mpr complete⟩

theorem expandAliases_eq (checker : Checker) (ty : Ty) :
    expandAliases ty checker = ofComplete (Alias.expand checker.aliases ty checker.supply).1
      { checker with supply := (Alias.expand checker.aliases ty checker.supply).2 } := rfl

/-- What expanding a type with declared aliases does to a state. -/
structure Expansion (aliases : List AliasItem) (checker : Checker) (ty : Ty) (met : List VarId)
    (result : Option Ty) (supply : Supply) : Prop where
  /-- It only takes from the supply. -/
  ran : expandAliases ty checker = ofComplete result { checker with supply }
  /-- It comes to its end, and `met` are the variables put for references to cyclic aliases. -/
  expands : Alias.Expands checker.aliases ty met result
  distinct : met.Nodup
  fresh : ∀ id ∈ met, checker.supply.next ≤ id ∧ id < supply.next
  free : ∀ expanded, result = some expanded → ∀ item ∈ aliases, ¬expanded.Mentions item.id
  /-- There is a result unless a target lacks a type somewhere. -/
  total : (∀ item ∈ aliases, item.target.Present) → ∃ expanded, result = some expanded ∧
    expanded.Present

/-- Expansion is total once the search for cyclic aliases has run, whatever aliases are declared and
however they refer to each other. The search runs if all items are there and all targets are
complete. -/
theorem expandAliases_total (settings : Settings) (items : List Item) :
    (Item.missing ∉ items → (∀ item ∈ Item.aliases items, item.target.isComplete = true) →
      ∃ found, declareAliases items (initial settings) = .ok () found) ∧
    ∀ found, declareAliases items (initial settings) = .ok () found →
      ∀ checker : Checker, checker.aliases = found.aliases → ∀ ty : Ty, ty.Present →
        ∃ met result supply, Expansion (Item.aliases items) checker ty met result supply := by
  constructor
  · intro present complete
    exact ⟨_, declareAliases_eq_ok.mpr ⟨present, complete, rfl⟩⟩
  · intro found ran checker same ty present
    rcases declareAliases_eq_ok.mp ran with ⟨_, _, rfl⟩
    rw [aliases_withCycles] at same
    rcases Alias.draws_expand (same ▸ Alias.acyclic_marked _) (.inr present) checker.supply with
      ⟨count, expands, after⟩
    refine ⟨_, _, _, expandAliases_eq checker ty, expands, Subst.nodup_consecutive _ _, ?_, ?_, ?_⟩
    · intro id member
      rw [after]
      exact ⟨Subst.le_of_mem_consecutive member, Subst.lt_of_mem_consecutive member⟩
    · intro expanded isResult item member mentions
      rw [isResult] at expands
      exact absurd (expands.free _ mentions) (same ▸ Alias.find?_marked member)
    · intro targets
      have presents : ∀ info ∈ checker.aliases.values, info.target.Present := by
        intro info member
        rw [same] at member
        rcases Alias.exists_item_of_marked member with ⟨item, isItem, sameTarget⟩
        exact sameTarget ▸ targets item isItem
      rcases Supply.yields_expand presents present with ⟨expanded, _, isResult, presentResult⟩
      exact ⟨expanded, by rw [isResult], presentResult⟩

/-- An alias that refers to itself, two that refer to each other, one over them that takes an
argument, and one that is declared twice and gives no argument. -/
def overlappingItems : List Item :=
  [.alias ⟨⟨1⟩, "Loop", .empty, [], .list (.named ⟨1⟩ [])⟩,
    .alias ⟨⟨2⟩, "Forth", .empty, [], .named ⟨3⟩ []⟩,
    .alias ⟨⟨3⟩, "Back", .empty, [], .tuple [.named ⟨2⟩ [], .named ⟨1⟩ []]⟩,
    .alias ⟨⟨4⟩, "Over", .empty, ["T"], .fn [.named ⟨1⟩ [], .param 0 "T"] (.named ⟨2⟩ [])⟩,
    .alias ⟨⟨5⟩, "Again", .empty, [], .named ⟨5⟩ []⟩,
    .alias ⟨⟨5⟩, "Again", .empty, [], .named ⟨4⟩ []⟩]

/-- A type that refers to all of them, once with too many arguments. -/
def overlappingUse : Ty := .tuple [.named ⟨5⟩ [], .named ⟨4⟩ [.int, .bool], .named ⟨1⟩ []]

theorem expandAliases_total_overlapping :
    ∃ found, declareAliases overlappingItems (initial {}) = .ok () found ∧
      overlappingUse.Present ∧
      (∃ met result supply,
        Expansion (Item.aliases overlappingItems) found overlappingUse met result supply) ∧
      expandAliases overlappingUse found =
        .ok (.tuple [.fn [.var 0, .param 0 "T"] (.var 1), .fn [.var 2, .int] (.var 3), .var 4])
          { found with supply := ⟨5⟩ } := by
  have total := expandAliases_total {} overlappingItems
  rcases total.1 (by simp [overlappingItems]) (by decide) with ⟨found, ran⟩
  refine ⟨found, ran, rfl, total.2 found ran found rfl overlappingUse rfl, ?_⟩
  rcases declareAliases_eq_ok.mp ran with ⟨_, _, rfl⟩
  have expanded : Alias.expand (Alias.marked (Item.aliases overlappingItems)) overlappingUse ⟨0⟩ =
      (some (.tuple [.fn [.var 0, .param 0 "T"] (.var 1), .fn [.var 2, .int] (.var 3), .var 4]),
        ⟨5⟩) := by
    cbv
  have unused : (((initial {}).withItems overlappingItems).withCycles
      (Item.aliases overlappingItems)).supply = ⟨0⟩ := rfl
  rw [expandAliases_eq, aliases_withCycles, unused, expanded]
  rfl

/-- An alias for no type, one that puts its argument into a record, and one that drops it. -/
def absentItems : List Item :=
  [.alias ⟨⟨1⟩, "Nothing", .empty, [], .absent⟩,
    .alias ⟨⟨2⟩, "Box", .empty, ["T"], .record [("a", .param 0 "T")]⟩,
    .alias ⟨⟨3⟩, "Drop", .empty, ["T"], .int⟩]

/-- The argument that is dropped is expanded before, and expanding it comes to a record without the
type of its field. -/
theorem expandAliases_stops_absentTarget :
    ∃ found, declareAliases absentItems (initial {}) = .ok () found ∧
      (Ty.named ⟨3⟩ [.named ⟨2⟩ [.named ⟨1⟩ []]]).Present ∧
      expandAliases (.named ⟨3⟩ [.named ⟨2⟩ [.named ⟨1⟩ []]]) found =
        .error .incompleteType found := by
  refine ⟨_, declareAliases_eq_ok.mpr ⟨by simp [absentItems], by decide, rfl⟩, rfl, ?_⟩
  have stopped : Alias.expand (Alias.marked (Item.aliases absentItems))
      (.named ⟨3⟩ [.named ⟨2⟩ [.named ⟨1⟩ []]]) ⟨0⟩ = (none, ⟨0⟩) := by
    cbv
  have unused : (((initial {}).withItems absentItems).withCycles
      (Item.aliases absentItems)).supply = ⟨0⟩ := rfl
  rw [expandAliases_eq, aliases_withCycles, unused, stopped]
  rfl

end Checker

end TraitCheck
