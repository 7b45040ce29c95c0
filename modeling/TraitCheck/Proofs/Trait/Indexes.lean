import TraitCheck.Proofs.Tables
import TraitCheck.Trait.Resolution

/-!
# The indexes of a registry

Every index of a registry lists, under each key, the numbers of the traits or impls that belong
there in order of registration. `Registry.Indexed` says so of all of them at once: an index is
described by a filter of the list of all traits or impls. It holds of the empty registry and is kept
by each registration, and what a lookup reads off the indexes is then a matter of filters.
-/

namespace TraitCheck

theorem Table.find?_push {Key : Type} [DecidableEq Key] (table : Table Key (List Nat))
    (key other : Key) (number : Nat) :
    ((table.push key number).find? other).getD [] =
      (table.find? other).getD [] ++ if key = other then [number] else [] := by
  rw [Table.push, Table.find?_insert]
  split
  · next same => rw [same, Option.getD_some]
  · rw [List.append_nil]

namespace Impl

/-- Whether the impl is one of the trait. -/
def isOf (impl : Impl) (trait : Nat) : Bool := impl.trait?.any (·.id = trait)

/-- Whether an impl is inherent and its self type has a head, or none. -/
def isInherentAt (head? : Option Head) (impl : Impl) : Bool :=
  impl.isInherent && impl.implementer.head? = head?

end Impl

namespace Registry

variable {registry : Registry} {first second : List Nat} {least : Nat}

/-- The impl that a declaration describes, with its number and its trait. -/
def ImplDecl.impl (decl : ImplDecl) (id : Nat) (trait? : Option Trait) : Impl :=
  ⟨id, decl.decl, trait?, decl.implementer, decl.methods, decl.assocTypes, decl.span⟩

/-- The numbers of the impls with a property. -/
def numbersOf (registry : Registry) (condition : Impl → Bool) : List Nat :=
  (registry.impls.filter condition).map (·.id)

/-- The indexes of a registry are complete and in order. -/
structure Indexed (registry : Registry) : Prop where
  implIds : registry.impls.map (·.id) = List.range registry.impls.length
  traitIds : registry.traits.map (·.id) = List.range registry.traits.length
  linked : ∀ impl ∈ registry.impls, ∀ trait, impl.trait? = some trait → trait ∈ registry.traits
  traitOfDecl : ∀ decl, registry.traitOfDecl.find? decl =
    (registry.traits.reverse.find? (·.decl = decl)).map (·.id)
  traitsOfMethod : ∀ name, (registry.traitsOfMethod.find? name).getD [] =
    registry.traits.flatMap fun trait =>
      List.replicate (trait.methods.countP (·.name = name)) trait.id
  implsOfTrait : ∀ trait, registry.implsOf trait = registry.numbersOf (·.isOf trait)
  inherentOfHead : ∀ head, (registry.inherentOfHead.find? head).getD [] =
    registry.numbersOf (Impl.isInherentAt (some head))
  inherentOpen : registry.inherentOpen = registry.numbersOf (Impl.isInherentAt none)
  inherentAll : registry.inherentAll = registry.numbersOf (·.isInherent)

theorem indexed_empty : Indexed .empty where
  implIds := rfl
  traitIds := rfl
  linked := nofun
  traitOfDecl _ := rfl
  traitsOfMethod _ := rfl
  implsOfTrait _ := rfl
  inherentOfHead _ := rfl
  inherentOpen := rfl
  inherentAll := rfl

theorem find?_pushAll (methods : List MethodDecl) (number : Nat) (table : Table String (List Nat))
    (name : String) :
    ((methods.foldl (fun table method => table.push method.name number) table).find? name).getD [] =
      (table.find? name).getD [] ++ List.replicate (methods.countP (·.name = name)) number := by
  induction methods generalizing table with
  | nil => simp
  | cons method rest ih =>
    rw [List.foldl_cons, ih, Table.find?_push, List.countP_cons]
    by_cases same : method.name = name
    · simp [same, List.replicate_succ]
    · simp [same]

theorem Indexed.addTrait (indexed : registry.Indexed) (decl : DefId) (name : String)
    (methods : List MethodDecl) (assocTypes : List AssocDecl) :
    (registry.addTrait decl name methods assocTypes).Indexed where
  implIds := indexed.implIds
  traitIds := by
    simp [Registry.addTrait, indexed.traitIds, List.range_succ]
  linked impl member trait named := List.mem_append_left _ (indexed.linked impl member trait named)
  traitOfDecl other := by
    simp only [Registry.addTrait, List.reverse_append, List.reverse_singleton,
      List.singleton_append, List.find?_cons, Table.find?_insert]
    by_cases same : decl = other
    · simp [same]
    · simp [same, indexed.traitOfDecl]
  traitsOfMethod other := by
    simp only [Registry.addTrait, List.flatMap_append, List.flatMap_singleton]
    rw [find?_pushAll, indexed.traitsOfMethod]
  implsOfTrait := indexed.implsOfTrait
  inherentOfHead := indexed.inherentOfHead
  inherentOpen := indexed.inherentOpen
  inherentAll := indexed.inherentAll

section AddImpl

variable (registry) (impl : Impl)

theorem addImpl_eq : ∃ implsOfTrait inherentOfHead inherentOpen inherentAll,
    registry.addImpl impl =
      { registry with
        impls := registry.impls ++ [impl], implsOfTrait, inherentOfHead, inherentOpen
        inherentAll } := by
  unfold Registry.addImpl
  split
  · exact ⟨_, _, _, _, rfl⟩
  · dsimp only
    split <;> exact ⟨_, _, _, _, rfl⟩

theorem impls_addImpl : (registry.addImpl impl).impls = registry.impls ++ [impl] := by
  obtain ⟨_, _, _, _, same⟩ := registry.addImpl_eq impl
  rw [same]

theorem traits_addImpl : (registry.addImpl impl).traits = registry.traits := by
  obtain ⟨_, _, _, _, same⟩ := registry.addImpl_eq impl
  rw [same]

theorem traitOfDecl_addImpl : (registry.addImpl impl).traitOfDecl = registry.traitOfDecl := by
  obtain ⟨_, _, _, _, same⟩ := registry.addImpl_eq impl
  rw [same]

theorem traitsOfMethod_addImpl :
    (registry.addImpl impl).traitsOfMethod = registry.traitsOfMethod := by
  obtain ⟨_, _, _, _, same⟩ := registry.addImpl_eq impl
  rw [same]

theorem numbersOf_addImpl (condition : Impl → Bool) :
    (registry.addImpl impl).numbersOf condition =
      registry.numbersOf condition ++ if condition impl then [impl.id] else [] := by
  rw [numbersOf, numbersOf, impls_addImpl, List.filter_append, List.map_append,
    List.filter_singleton]
  cases condition impl <;> rfl

theorem implsOf_addImpl (trait : Nat) :
    (registry.addImpl impl).implsOf trait =
      registry.implsOf trait ++ if impl.isOf trait then [impl.id] else [] := by
  unfold Registry.addImpl Impl.isOf
  split
  · next found named => simp [implsOf, Table.find?_push, named]
  · next inherent =>
      dsimp only
      split <;> simp [implsOf, inherent]

theorem inherentAll_addImpl :
    (registry.addImpl impl).inherentAll =
      registry.inherentAll ++ if impl.isInherent then [impl.id] else [] := by
  unfold Registry.addImpl Impl.isInherent
  split
  · next found named => simp [named]
  · next inherent =>
      dsimp only
      split <;> simp [inherent]

theorem inherentOpen_addImpl :
    (registry.addImpl impl).inherentOpen =
      registry.inherentOpen ++ if impl.isInherentAt none then [impl.id] else [] := by
  unfold Registry.addImpl Impl.isInherentAt Impl.isInherent
  split
  · next found named => simp [named]
  · next inherent =>
      dsimp only
      split <;> simp_all

theorem inherentOfHead_addImpl (head : Head) :
    ((registry.addImpl impl).inherentOfHead.find? head).getD [] =
      (registry.inherentOfHead.find? head).getD [] ++
        if impl.isInherentAt (some head) then [impl.id] else [] := by
  unfold Registry.addImpl Impl.isInherentAt Impl.isInherent
  split
  · next found named => simp [named]
  · next inherent =>
      dsimp only
      split
      · next other headed => simp [Table.find?_push, inherent, headed]
      · next headless => simp [inherent, headless]

end AddImpl

theorem Indexed.addImpl (indexed : registry.Indexed) {impl : Impl}
    (numbered : impl.id = registry.impls.length)
    (linked : ∀ trait, impl.trait? = some trait → trait ∈ registry.traits) :
    (registry.addImpl impl).Indexed where
  implIds := by
    rw [impls_addImpl]
    simp [indexed.implIds, List.range_succ, numbered]
  traitIds := by
    rw [traits_addImpl]
    exact indexed.traitIds
  linked other member trait named := by
    rw [traits_addImpl]
    rw [impls_addImpl] at member
    rcases List.mem_append.mp member with old | new
    · exact indexed.linked other old trait named
    · cases List.mem_singleton.mp new
      exact linked trait named
  traitOfDecl decl := by
    rw [traitOfDecl_addImpl, traits_addImpl]
    exact indexed.traitOfDecl decl
  traitsOfMethod name := by
    rw [traitsOfMethod_addImpl, traits_addImpl]
    exact indexed.traitsOfMethod name
  implsOfTrait trait := by
    rw [implsOf_addImpl, numbersOf_addImpl, indexed.implsOfTrait]
  inherentOfHead head := by
    rw [inherentOfHead_addImpl, numbersOf_addImpl, indexed.inherentOfHead]
  inherentOpen := by
    rw [inherentOpen_addImpl, numbersOf_addImpl, indexed.inherentOpen]
  inherentAll := by
    rw [inherentAll_addImpl, numbersOf_addImpl, indexed.inherentAll]

theorem Indexed.ascending (indexed : registry.Indexed) :
    registry.impls.Pairwise fun first second => first.id < second.id := by
  have ids := List.pairwise_lt_range (n := registry.impls.length)
  rw [← indexed.implIds, List.pairwise_map] at ids
  exact ids

theorem getElem?_number {α : Type} {list : List α} {number : α → Nat} {value : α}
    (numbered : list.map number = List.range list.length) (member : value ∈ list) :
    list[number value]? = some value := by
  obtain ⟨position, inside, rfl⟩ := List.mem_iff_getElem.mp member
  have atPosition := congrArg (·[position]?) numbered
  simp only [List.getElem?_map, List.getElem?_range inside, List.getElem?_eq_getElem inside,
    Option.map_some, Option.some.injEq] at atPosition
  rw [atPosition]
  exact List.getElem?_eq_getElem inside

section Indexed

variable (indexed : registry.Indexed)
include indexed

theorem Indexed.impl_at {impl : Impl} (member : impl ∈ registry.impls) :
    registry.impls[impl.id]? = some impl :=
  getElem?_number indexed.implIds member

theorem Indexed.trait_at {trait : Trait}
    (member : trait ∈ registry.traits) : registry.traits[trait.id]? = some trait :=
  getElem?_number indexed.traitIds member

theorem Indexed.traitByDecl?_eq (decl : DefId) :
    registry.traitByDecl? decl = registry.traits.reverse.find? (·.decl = decl) := by
  rw [traitByDecl?, indexed.traitOfDecl]
  cases found : registry.traits.reverse.find? (·.decl = decl) with
  | none => simp
  | some trait =>
    rw [Option.map_some, Option.bind_some]
    exact indexed.trait_at (List.mem_reverse.mp (List.mem_of_find?_eq_some found))

theorem Indexed.of_registerImpl {decl : ImplDecl} {number : Nat}
    {after : Registry} (registered : registry.registerImpl decl = (.ok number, after)) :
    ∃ trait?, trait?.map (·.decl) = decl.trait? ∧
      (∀ trait, trait? = some trait → trait ∈ registry.traits) ∧
      after = registry.addImpl (decl.impl registry.impls.length trait?) := by
  unfold registerImpl implOf? at registered
  rcases named : decl.trait? with _ | trait
  · rw [named] at registered
    cases registered
    exact ⟨none, rfl, nofun, rfl⟩
  · rw [named] at registered
    dsimp only at registered
    rw [indexed.traitByDecl?_eq] at registered
    rcases found : registry.traits.reverse.find? (·.decl = trait) with _ | known
    · rw [found] at registered
      cases registered
    · rw [found] at registered
      cases registered
      refine ⟨some known, ?_, ?_, rfl⟩
      · simpa using List.find?_some found
      · rintro _ ⟨⟩
        exact List.mem_reverse.mp (List.mem_of_find?_eq_some found)

theorem Indexed.implsAt_numbersOf (condition : Impl → Bool) :
    registry.implsAt (registry.numbersOf condition) = registry.impls.filter condition := by
  rw [implsAt, numbersOf, List.filterMap_map]
  have found : ∀ impl ∈ registry.impls.filter condition,
      registry.impls[impl.id]? = some impl :=
    fun impl member => indexed.impl_at (List.mem_filter.mp member).1
  exact (List.filterMap_congr found).trans List.filterMap_some

end Indexed

theorem mergeAscending_nil (numbers : List Nat) : mergeAscending numbers [] = numbers := by
  cases numbers <;> simp [mergeAscending]

theorem mergeAscending_cons_left (less : ∀ number ∈ second, least < number) :
    mergeAscending (least :: first) second = least :: mergeAscending first second := by
  cases second with
  | nil => rw [mergeAscending_nil, mergeAscending_nil]
  | cons number rest => rw [mergeAscending, if_pos (less number List.mem_cons_self)]

theorem mergeAscending_cons_right (less : ∀ number ∈ first, least < number) :
    mergeAscending first (least :: second) = least :: mergeAscending first second := by
  cases first with
  | nil => simp [mergeAscending]
  | cons number rest =>
    rw [mergeAscending, if_neg (less number List.mem_cons_self).asymm]

/-- Merging the numbers of two conditions that exclude each other. -/
theorem mergeAscending_filter {impls : List Impl} {first second : Impl → Bool}
    (ascending : impls.Pairwise fun one other => one.id < other.id)
    (apart : ∀ impl ∈ impls, first impl = true → second impl = false) :
    mergeAscending ((impls.filter first).map (·.id)) ((impls.filter second).map (·.id)) =
      (impls.filter fun impl => first impl || second impl).map (·.id) := by
  induction impls with
  | nil => simp [mergeAscending]
  | cons impl rest ih =>
    obtain ⟨less, ascendingRest⟩ := List.pairwise_cons.mp ascending
    have merged := ih ascendingRest fun other member => apart other (List.mem_cons_of_mem _ member)
    have lessFiltered : ∀ condition : Impl → Bool,
        ∀ number ∈ (rest.filter condition).map (·.id), impl.id < number := by
      intro condition number member
      obtain ⟨other, inFilter, rfl⟩ := List.mem_map.mp member
      exact less other (List.mem_filter.mp inFilter).1
    cases isFirst : first impl with
    | true =>
      have notSecond := apart impl List.mem_cons_self isFirst
      simp only [List.filter_cons, isFirst, notSecond, Bool.or_false, ↓reduceIte, List.map_cons,
        Bool.false_eq_true]
      rw [mergeAscending_cons_left (lessFiltered second), merged]
    | false =>
      cases isSecond : second impl with
      | true =>
        simp only [List.filter_cons, isFirst, isSecond, Bool.or_true, ↓reduceIte,
          List.map_cons, Bool.false_eq_true]
        rw [mergeAscending_cons_right (lessFiltered first), merged]
      | false =>
        simp only [List.filter_cons, isFirst, isSecond, Bool.or_self, Bool.false_eq_true,
          ↓reduceIte]
        exact merged

end Registry

end TraitCheck
