import TraitCheck.Proofs.Trait.Candidates

/-!
# Impls that fulfil their traits

An impl fulfils its trait if nothing that the trait declares without a default is missing in it. The
test goes through all declarations of the trait, one by one, while a search takes the first
declaration of a name in the trait and the first impl of the trait that matches. If all registered
impls fulfil their traits, it makes no difference: there is a body behind every method that is
resolved, and a type for every associated type that the trait of a matching impl declares.
-/

namespace TraitCheck

variable {impl : Impl} {trait : Trait} {decl : MethodDecl}

/-- Nothing that the trait of an impl declares without a default is missing. -/
structure Impl.Fulfils (impl : Impl) : Prop where
  methods : impl.missingMethods = []
  assocTypes : impl.missingAssocTypes = []

namespace Impl

instance : Decidable impl.Fulfils :=
  decidable_of_iff (impl.missingMethods = [] ∧ impl.missingAssocTypes = [])
    ⟨fun none => ⟨none.1, none.2⟩, fun fulfils => ⟨fulfils.methods, fulfils.assocTypes⟩⟩

variable {impl : Impl} {trait : Trait} {name : String}

theorem Fulfils.hasDefault (fulfils : impl.Fulfils) (isTrait : impl.trait? = some trait)
    (declares : trait.method? name = some decl)
    (missing : impl.method? name = none) : decl.hasDefault = true := by
  have complete := fulfils.methods
  simp only [missingMethods, isTrait, List.map_eq_nil_iff, List.filter_eq_nil_iff] at complete
  have isNamed : decl.name = name := by simpa using List.find?_some declares
  have provided := complete decl (List.mem_of_find?_eq_some declares)
  simpa [isNamed, missing] using provided

theorem Fulfils.hasAssocDefault (fulfils : impl.Fulfils) (isTrait : impl.trait? = some trait)
    {decl : AssocDecl} (declares : trait.assocType? name = some decl)
    (unbound : impl.assocType? name = none) : decl.default.isAbsent = false := by
  have complete := fulfils.assocTypes
  simp only [missingAssocTypes, isTrait, List.map_eq_nil_iff, List.filter_eq_nil_iff] at complete
  have isNamed : decl.name = name := by simpa using List.find?_some declares
  have bound := complete decl (List.mem_of_find?_eq_some declares)
  simpa [isNamed, unbound] using bound

end Impl

namespace Ty

variable {pattern ty : Ty} {found result : ParamMatch}

theorem matchInto_of_isOpen (noParam : ∀ index name, pattern ≠ param index name)
    (isOpen : pattern.isOpen = true ∨ ty.isOpen = true) :
    matchInto pattern ty found = .ok found := by
  cases pattern with
  | param index name => exact absurd rfl (noParam index name)
  | var id | unknown => rw [matchInto]
  | _ => simp [matchInto, isOpen.resolve_left Bool.false_ne_true]

/-- All recorded types are present. -/
def RecordsPresent (found : ParamMatch) : Prop := ∀ bound ∈ found.values, bound.Present

theorem recordsPresent_matchList {patterns types : List Ty}
    (each : ∀ pattern ∈ patterns, ∀ ty ∈ types, ∀ found result,
      matchInto pattern ty found = .ok result → RecordsPresent found → RecordsPresent result)
    (matched : matchList patterns types found = .ok result) (presents : RecordsPresent found) :
    RecordsPresent result := by
  induction patterns generalizing types found with
  | nil =>
    rw [matchList_nil] at matched
    cases matched
    exact presents
  | cons pattern patterns ih =>
    rcases types with _ | ⟨ty, types⟩
    · rw [matchList] at matched
      · cases matched
        exact presents
      · rintro _ _ _ _ _ ⟨⟩
    · rcases matchList_cons_eq_ok.mp matched with ⟨middle, here, rest⟩
      have first := each pattern List.mem_cons_self ty List.mem_cons_self found middle here presents
      refine ih (fun other member otherType memberType => ?_) rest first
      exact each other (List.mem_cons_of_mem _ member) otherType (List.mem_cons_of_mem _ memberType)

theorem recordsPresent_matchInto (present : ty.Present)
    (matched : matchInto pattern ty found = .ok result) (presents : RecordsPresent found) :
    RecordsPresent result := by
  induction pattern generalizing ty found result with
  | step pattern ih =>
    rcases pattern.param_or_not with ⟨index, name, rfl⟩ | noParam
    · cases matched
      split
      · exact presents
      · intro bound member
        rcases Table.mem_values_insert member with rfl | before
        · exact present
        · exact presents bound before
    · by_cases isOpen : pattern.isOpen = true ∨ ty.isOpen = true
      · rw [matchInto_of_isOpen noParam isOpen] at matched
        cases matched
        exact presents
      · simp only [not_or, Bool.not_eq_true] at isOpen
        rcases (matchInto_eq_ok_iff isOpen.1 isOpen.2).mp matched with ⟨pairs, compared, inner⟩
        refine recordsPresent_matchList ?_ inner presents
        intro part isPart partType isType before after step
        rcases List.mem_map.mp isPart with ⟨pair, member, rfl⟩
        rcases List.mem_map.mp isType with ⟨pair', member', rfl⟩
        have presentType := present.part (compared.mem_parts member').2
        exact ih pair.1 (compared.mem_parts member).1 presentType step

theorem isComplete_substMatch_of_present {source : Ty} (presents : RecordsPresent found)
    (complete : source.isComplete = true) : (source.substMatch found).isComplete = true := by
  rw [substMatch, bindParams_eq_bindLeaves]
  apply isComplete_bindLeaves complete (fun id _ => whole_var id)
  intro index name
  split
  · exact whole_param index name
  · rcases isFound : found.find? index with _ | bound
    · exact whole_param index name
    · have present := presents bound (Table.mem_values_of_find? isFound)
      exact ⟨isComplete_of_isPresent present, present.isAbsent⟩

end Ty

/-- A method was resolved to one that the selected impl provides, or to one with a default in the
trait of the impl. -/
def Resolution.HasBody (resolution : Resolution) (name : String) : Prop :=
  (∃ method, resolution.method? = some method ∧ resolution.impl.method? name = some method) ∨
    ∃ trait decl, resolution.method? = none ∧ resolution.declaration? = some (trait, decl) ∧
      resolution.impl.trait? = some trait ∧ trait.method? name = some decl ∧ decl.hasDefault = true

namespace Registry

variable {registry : Registry} {self : Ty} {name : String}

theorem Indexed.trait?_of_isOf (indexed : registry.Indexed) (registered : impl ∈ registry.impls)
    (isTrait : trait ∈ registry.traits) (isOf : impl.isOf trait.id = true) :
    impl.trait? = some trait := by
  rcases found : impl.trait? with _ | other
  · simp [Impl.isOf, found] at isOf
  · have same : other.id = trait.id := by simpa [Impl.isOf, found] using isOf
    have here := indexed.trait_at isTrait
    rw [← same, indexed.trait_at (indexed.linked impl registered other found)] at here
    exact here

theorem mem_of_inherentImpls (member : impl ∈ registry.ledger.inherentImpls self) :
    impl ∈ registry.impls ∧ impl.matches? self = some true := by
  rcases List.mem_filter.mp member with ⟨registered, accepted⟩
  rw [Bool.and_eq_true, decide_eq_true_eq] at accepted
  exact ⟨registered, accepted.2⟩

theorem mem_of_firstImpl? {trait : Nat}
    (first : registry.ledger.firstImpl? self trait = some impl) :
    impl ∈ registry.impls ∧ impl.isOf trait = true ∧ impl.matches? self = some true := by
  have accepted := List.find?_some first
  rw [Bool.and_eq_true, decide_eq_true_eq] at accepted
  exact ⟨List.mem_of_find?_eq_some first, accepted⟩

section Fulfilled

variable (indexed : registry.Indexed) (fulfilled : ∀ impl ∈ registry.impls, impl.Fulfils)

include indexed fulfilled

theorem Indexed.hasBody_select (registered : impl ∈ registry.impls)
    (isTrait : trait ∈ registry.traits) (isOf : impl.isOf trait.id = true)
    (declares : trait.method? name = some decl) :
    (impl.select name trait decl).impl = impl ∧ (impl.select name trait decl).HasBody name := by
  unfold Impl.select
  rcases provides : impl.method? name with _ | method
  · have itsTrait := indexed.trait?_of_isOf registered isTrait isOf
    have default := (fulfilled impl registered).hasDefault itsTrait declares provides
    exact ⟨rfl, .inr ⟨trait, decl, rfl, rfl, itsTrait, declares, default⟩⟩
  · exact ⟨rfl, .inl ⟨method, rfl, provides⟩⟩

theorem Indexed.hasBody_of_resolveMethod? {resolution : Resolution}
    (resolved : registry.resolveMethod? self name = some (some resolution)) :
    resolution.impl ∈ registry.impls ∧ resolution.impl.matches? self = some true ∧
      resolution.HasBody name := by
  rcases indexed.resolveMethod?_cases self name with ⟨found, _⟩ | ⟨stopped, _⟩
  · rw [found, Option.some.injEq, Ledger.resolveMethod?] at resolved
    split at resolved
    · next inherent isInherent =>
        cases resolved
        rcases List.exists_of_findSome?_eq_some isInherent with ⟨impl, member, provides⟩
        rcases Option.map_eq_some_iff.mp provides with ⟨method, provided, rfl⟩
        rcases mem_of_inherentImpls member with ⟨registered, matched⟩
        exact ⟨registered, matched, .inl ⟨method, rfl, provided⟩⟩
    · rcases List.exists_of_findSome?_eq_some resolved with ⟨trait, isTrait, here⟩
      simp only [Ledger.resolveOf?, Option.bind_eq_bind, Option.bind_eq_some_iff, Option.pure_def,
        Option.some.injEq] at here
      rcases here with ⟨decl, declares, impl, first, rfl⟩
      rcases mem_of_firstImpl? first with ⟨registered, isOf, matched⟩
      rcases indexed.hasBody_select fulfilled registered isTrait isOf declares with ⟨same, hasBody⟩
      rw [same]
      exact ⟨registered, matched, hasBody⟩
  · cases stopped.symm.trans resolved

theorem Indexed.exists_assocSource? (registered : impl ∈ registry.impls)
    (isTrait : trait ∈ registry.traits) (isOf : impl.isOf trait.id = true)
    (declares : ∃ decl ∈ trait.assocTypes, decl.name = name) :
    ∃ source, registry.assocSource? impl trait.id name = some source ∧
      ((∃ binding ∈ impl.assocTypes, source = binding.content) ∨
        ∃ decl ∈ trait.assocTypes, source = decl.default) := by
  unfold assocSource?
  rcases binds : impl.assocType? name with _ | binding
  · rcases declared : trait.assocType? name with _ | decl
    · rcases declares with ⟨decl, member, isNamed⟩
      exact absurd isNamed (by simpa using List.find?_eq_none.mp declared decl member)
    · have itsTrait := indexed.trait?_of_isOf registered isTrait isOf
      have default := (fulfilled impl registered).hasAssocDefault itsTrait declared binds
      refine ⟨decl.default, ?_, .inr ⟨decl, List.mem_of_find?_eq_some declared, rfl⟩⟩
      simp [indexed.trait_at isTrait, declared, default]
  · exact ⟨binding.content, rfl, .inl ⟨binding, List.mem_of_find?_eq_some binds, rfl⟩⟩

/-- Where an impl of a trait matches, every associated type of the trait is found, unless the search
comes to a record without the type of a field. -/
theorem Indexed.resolveAssocType?_of_matches (isTrait : trait ∈ registry.traits)
    (applies : ∃ impl ∈ registry.impls, impl.isOf trait.id = true ∧ impl.matches? self = some true)
    (declares : ∃ decl ∈ trait.assocTypes, decl.name = name) :
    (registry.findImpl? self trait.id = none ∧
      registry.resolveAssocType? self trait.id name = none) ∨
    ∃ impl source found, impl ∈ registry.impls ∧ impl.isOf trait.id = true ∧
      ((∃ binding ∈ impl.assocTypes, source = binding.content) ∨
        ∃ decl ∈ trait.assocTypes, source = decl.default) ∧
      impl.implementer.matchWith self = .ok found ∧
      registry.resolveAssocType? self trait.id name =
        ((source.substMatch found).substSelf? self).map some := by
  rcases indexed.findImpl?_cases self trait.id with ⟨found, _⟩ | ⟨stopped, _⟩
  · right
    rcases first : registry.ledger.firstImpl? self trait.id with _ | impl
    · rcases applies with ⟨impl, registered, isOf, matched⟩
      have rejected := List.find?_eq_none.mp first impl registered
      exact absurd (by simp [isOf, matched]) rejected
    · rcases mem_of_firstImpl? first with ⟨registered, isOf, matched⟩
      rcases indexed.exists_assocSource? fulfilled registered isTrait isOf declares with
        ⟨source, comes, origin⟩
      rcases Ty.isMatch?_eq_true.mp matched with ⟨recorded, steps⟩
      refine ⟨impl, source, recorded, registered, isOf, origin, steps, ?_⟩
      rw [first] at found
      simp only [resolveAssocType?, found, comes, Ty.matchWith, steps]
  · left
    exact ⟨stopped, by simp only [resolveAssocType?, stopped]⟩

end Fulfilled

/-- If all registered impls fulfil their traits, every method that is resolved is provided by the
selected impl or has a default in its trait, and a search for an associated type that a trait
declares never ends without one for a type that an impl of the trait matches. It does end if the
type is present and no record lacks the type of a field in what the trait and its impls say. -/
theorem fulfilled_resolves (requests : List Registration)
    (fulfilled : ∀ impl ∈ (ofAll requests).impls, impl.Fulfils) :
    let registry := ofAll requests
    (∀ self name resolution, registry.resolveMethod? self name = some (some resolution) →
      resolution.impl ∈ registry.impls ∧ resolution.impl.matches? self = some true ∧
        resolution.HasBody name) ∧
    ∀ self, ∀ trait ∈ registry.traits, ∀ name,
      (∃ impl ∈ registry.impls, impl.isOf trait.id = true ∧ impl.matches? self = some true) →
      (∃ decl ∈ trait.assocTypes, decl.name = name) →
      registry.resolveAssocType? self trait.id name ≠ some none ∧
      (self.isPresent = true →
        (∀ decl ∈ trait.assocTypes, decl.default.isComplete = true) →
        (∀ impl ∈ registry.impls, impl.isOf trait.id = true →
          impl.implementer.isComplete = true ∧
            ∀ binding ∈ impl.assocTypes, binding.content.isComplete = true) →
        ∃ ty, registry.resolveAssocType? self trait.id name = some (some ty)) := by
  have indexed := (indexed_ofAll requests).1
  refine ⟨fun self name resolution => indexed.hasBody_of_resolveMethod? fulfilled,
    fun self trait isTrait name applies declares => ?_⟩
  rcases indexed.resolveAssocType?_of_matches fulfilled isTrait applies declares with
    ⟨stopped, stuck⟩ | ⟨impl, source, found, registered, isOf, origin, matched, resolved⟩
  · refine ⟨by simp [stuck], fun present _ completes => ?_⟩
    have answers := indexed.isSome_findImpl? (Ty.isComplete_of_isPresent present)
      fun impl registered isOf => (completes impl registered isOf).1
    simp [stopped] at answers
  · refine ⟨by simp [resolved], fun present defaults completes => ?_⟩
    have complete : source.isComplete = true := by
      rcases origin with ⟨binding, member, rfl⟩ | ⟨decl, member, rfl⟩
      · exact (completes impl registered isOf).2 binding member
      · exact defaults decl member
    have recorded := Ty.recordsPresent_matchInto present matched nofun
    have whole := Ty.isComplete_substMatch_of_present recorded complete
    refine ⟨(source.substMatch found).substSelf self, ?_⟩
    simp only [resolved, Ty.substSelf?, Ty.complete?, whole, ↓reduceIte, Option.map_some]

/-- A trait that declares a method and an associated type twice, an impl of it for lists, and the
trait registered again with nothing to fulfil. -/
def shelves : List Registration :=
  [.trait ⟨1⟩ "Shelf"
      [⟨"size", [.param (-1) "Self"], .int, true, .empty⟩, ⟨"get", [], .int, false, .empty⟩,
        ⟨"get", [], .bool, true, .empty⟩]
      [⟨"Item", [], .absent, .empty⟩, ⟨"Key", [], .int, .empty⟩, ⟨"Item", [], .bool, .empty⟩],
    .impl ⟨⟨2⟩, some ⟨1⟩, .list (.param 0 "T"), [⟨"get", ⟨3⟩, .fn [] .int, .empty⟩],
      [⟨"Item", .record [("a", .param 0 "T")], .empty⟩], .empty⟩,
    .trait ⟨1⟩ "Shelf" [⟨"size", [], .int, false, .empty⟩] []]

theorem fulfilled_resolves_shelves :
    (∀ impl ∈ (ofAll shelves).impls, impl.Fulfils) ∧
    (∃ resolution, (ofAll shelves).resolveMethod? (.list .bool) "size" = some (some resolution) ∧
      resolution.HasBody "size") ∧
    (∃ ty, (ofAll shelves).resolveAssocType? (.list .bool) 0 "Item" = some (some ty)) ∧
    ∃ ty, (ofAll shelves).resolveAssocType? (.list .bool) 0 "Key" = some (some ty) := by
  have fulfilled : ∀ impl ∈ (ofAll shelves).impls, impl.Fulfils := by decide
  have resolves := fulfilled_resolves shelves fulfilled
  have resolved : ∃ resolution,
      (ofAll shelves).resolveMethod? (.list .bool) "size" = some (some resolution) := by
    rw [resolveMethod?, resolveInherent?, (indexed_ofAll shelves).1.inherentImpls?_eq]
    exact ⟨_, rfl⟩
  have found : ∀ name, (∃ decl ∈ (ofAll shelves).traits.head!.assocTypes, decl.name = name) →
      ∃ ty, (ofAll shelves).resolveAssocType? (.list .bool) 0 name = some (some ty) := by
    intro name declares
    exact (resolves.2 (.list .bool) _ List.mem_cons_self name ⟨_, List.mem_cons_self, rfl, rfl⟩
      declares).2 rfl (by decide) (by decide)
  refine ⟨fulfilled, ?_, found "Item" (by decide), found "Key" (by decide)⟩
  rcases resolved with ⟨resolution, here⟩
  exact ⟨resolution, here, (resolves.1 _ _ _ here).2.2⟩

/-- A trait with one associated type, and impls of it that bind this type. -/
def binders (impls : List (Ty × Ty)) : List Registration :=
  .trait ⟨1⟩ "Container" [] [⟨"Item", [], .absent, .empty⟩] ::
    impls.map fun impl => .impl ⟨⟨2⟩, some ⟨1⟩, impl.1, [], [⟨"Item", impl.2, .empty⟩], .empty⟩

/-- The search does not end if the type that is bound, or becomes so when parameters are replaced,
holds a record without the type of a field, or if an impl before the one that matches has such a
record. -/
theorem fulfilled_openRecord :
    (∀ impl ∈ (ofAll (binders [(.int, .record [("a", .absent)])])).impls,
      impl.Fulfils ∧ impl.isOf 0 = true ∧ impl.matches? .int = some true) ∧
    ((ofAll (binders [(.int, .record [("a", .absent)])])).resolveAssocType? .int 0 "Item").isNone =
      true ∧
    (∀ impl ∈ (ofAll (binders [(.tuple [.param 0 "T"], .record [("a", .param 0 "T")])])).impls,
      impl.Fulfils ∧ impl.isOf 0 = true ∧ impl.matches? (.tuple [.absent]) = some true) ∧
    ((ofAll (binders [(.tuple [.param 0 "T"], .record [("a", .param 0 "T")])])).resolveAssocType?
      (.tuple [.absent]) 0 "Item").isNone = true ∧
    (∀ impl ∈ (ofAll (binders [(.record [("a", .absent)], .int), (.param 0 "T", .int)])).impls,
      impl.Fulfils ∧ impl.isOf 0 = true) ∧
    (Ty.param 0 "T").isMatch? (.record [("a", .int)]) = some true ∧
    ((ofAll (binders [(.record [("a", .absent)], .int), (.param 0 "T", .int)])).resolveAssocType?
      (.record [("a", .int)]) 0 "Item").isNone = true := by
  decide

end Registry

end TraitCheck
