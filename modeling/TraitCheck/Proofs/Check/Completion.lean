import TraitCheck.Proofs.AliasGraph
import TraitCheck.Proofs.Check.Visits
import TraitCheck.Proofs.Check.WholeSyntax

/-!
# Checks that come to their end

A module is well-formed if its items are whole and no two of its functions share a number.
Collecting its declarations leaves the state intact, and so do the comparison of impls with traits
and the check of each body; hence the check of a well-formed module always comes to its end,
whatever it reports on the way.
-/

namespace TraitCheck

open Ty (Present)
open Std.Do

set_option mvcgen.warning false

variable {item : FunctionItem} {items : List Item}
variable {trait : Trait} {impl : Impl} {signature : Signature} {decl : DefId} {name : String}

/-- Whether no part of an item is missing that may not be left out. -/
def Item.isWhole : Item → Bool
  | .missing => false
  | .function item => item.written.all Ty.isWritten && (item.body.isMissing || item.body.isWhole)
  | .alias item => item.target.isPresent
  | item => item.annotations.all Ty.isWritten

/-- A module of whole items, in which functions are told apart by their numbers. -/
structure Item.WellFormed (items : List Item) : Prop where
  whole : ∀ item ∈ items, item.isWhole = true
  distinct : ((Item.functions items).map (·.id)).Nodup

/-- Whether every type written in an item is whole. What is not the target of an alias may be left
out. -/
def Item.isTyped : Item → Bool
  | .alias item => item.target.isPresent
  | item => item.annotations.all Ty.isWritten

/-- The item is whole as far as the regime asks for it. -/
def Item.fits (regime : Checker.Regime) : Item → Bool
  | .missing => regime.lenient
  | .function item => regime.accepts (item.written ++ item.body.annotations)
      (item.written.all Ty.isWritten && (item.body.isMissing || item.body.isWhole))
  | .alias item => item.target.isPresent
  | item => item.annotations.all Ty.isWritten

theorem Item.fits_of_isWhole {regime : Checker.Regime} {item : Item}
    (strict : regime.lenient = false) (whole : item.isWhole = true) : item.fits regime = true := by
  cases item with
  | missing => cases whole
  | function item =>
    rw [fits, Checker.Regime.accepts, strict]
    exact whole
  | _ => exact whole

theorem Item.fits_of_isTyped {regime : Checker.Regime} {item : Item}
    (lenient : regime.lenient = true) (typed : item.isTyped = true) : item.fits regime = true := by
  cases item with
  | missing => exact lenient
  | function item =>
    rw [fits, Checker.Regime.accepts, lenient]
    exact typed
  | _ => exact typed

namespace Checker

variable {regime : Regime} {functions : List FunctionItem} {ty : Ty} {params : List Ty}
  {result : Ty} {types : List Ty}

@[spec high]
theorem delivers_resolveAll (written : types.all Ty.isWritten = true) :
    Delivers regime (types.mapM resolveType) fun resolved =>
      resolved.length = types.length ∧ ∀ ty ∈ resolved, ty.Present :=
  delivers_mapM fun _ member =>
    delivers_resolveType (Ty.isWritten_iff.mp (List.all_eq_true.mp written _ member))

@[spec]
theorem delivers_declareName : Delivers regime (declareName decl name) fun _ => True :=
  delivers_modify fun _ intact => { intact with }

theorem delivers_declareItem {item : Item} (whole : item.fits regime = true) :
    Delivers regime (declareItem item) fun _ => True := by
  have header : regime.lenient = false → item.header?.isSome = true := by
    intro strict
    cases item with
    | missing => cases strict.symm.trans whole
    | _ => rfl
  refine delivers_bind (delivers_need header) fun header _ => ?_
  refine delivers_bind (delivers_modify fun _ intact => { intact with }) fun _ _ => ?_
  cases item with
  | missing | impl item => exact delivers_pure trivial
  | function item | trait item => exact delivers_declareName
  | struct item =>
    refine delivers_bind delivers_declareName fun _ _ => delivers_modify fun before intact => ?_
    exact { intact with
      declared := fun ty member => intact.declared ty (mem_declaredTypes_declareStruct member) }
  | enum item =>
    refine delivers_bind delivers_declareName fun _ _ => delivers_modify fun before intact => ?_
    exact { intact with
      declared := fun ty member => intact.declared ty (mem_declaredTypes_declareEnum member) }
  | «alias» item =>
    refine delivers_bind delivers_declareName fun _ _ => delivers_modify fun before intact => ?_
    refine { intact with aliases := fun info member => ?_ }
    rcases Table.mem_values_insert member with rfl | old
    · exact whole
    · exact intact.aliases info old
  | foreign name decl span => exact delivers_reportUnsupported

theorem ordinary_cycleDiagnostic (first : AliasItem) (others : List AliasItem) :
    (Alias.cycleDiagnostic first others).Ordinary := by
  have labelled : ∀ (diagnostic : Diagnostic) (label : AliasItem → String),
      diagnostic.Ordinary → (others.foldl (fun (diagnostic : Diagnostic) item =>
        diagnostic.withLabel item.span (label item)) diagnostic).Ordinary := by
    intro diagnostic label ordinary
    induction others generalizing diagnostic with
    | nil => exact ordinary
    | cons item rest ih => exact ih _ ordinary
  refine labelled _ _ ?_
  split <;> simp

theorem delivers_checkAliasCycles {aliases : List AliasItem}
    (presents : ∀ item ∈ aliases, item.target.Present) :
    Delivers regime (checkAliasCycles aliases) fun _ => True := by
  have complete : Delivers regime
      (aliases.forM fun item => discard (ofComplete item.target.complete?)) fun _ => True := by
    refine delivers_forM fun item member => ?_
    rw [discard_eq]
    mvcgen
    all_goals grind [Ty.Present.complete?]
  refine delivers_bind complete fun _ _ => delivers_forM fun cycle _ => ?_
  cases cycle with
  | nil => exact delivers_pure trivial
  | cons first others =>
    have marks : Delivers regime (modify fun checker : Checker =>
        { checker with
          aliases := (first :: others).foldl
            (fun table item => table.modify item.id fun info => { info with cyclic := true })
            checker.aliases }) fun _ => True := by
      refine delivers_modify fun before intact => { intact with aliases := fun info member => ?_ }
      obtain ⟨old, oldMember, same⟩ := target_of_marked member
      exact same ▸ intact.aliases old oldMember
    exact delivers_bind marks fun _ _ => delivers_report (ordinary_cycleDiagnostic first others)

@[spec]
theorem delivers_addField (present : ty.Present) :
    Delivers regime (addField decl name ty) fun _ => True := by
  refine delivers_modify fun before intact => { intact with declared := fun other member => ?_ }
  rcases mem_declaredTypes_addField member with old | rfl
  · exact intact.declared other old
  · exact present

theorem delivers_collectField {item : StructItem} {field : Field Ty}
    (written : field.content.isWritten = true) :
    Delivers regime (collectField item field) fun _ => True := by
  mvcgen [collectField, reportRepeatedField]
  all_goals first | simp | grind [Ty.isWritten_iff]

@[spec]
theorem delivers_addVariant {fields : List Ty} (presents : ∀ ty ∈ fields, ty.Present) :
    Delivers regime (addVariant decl name fields) fun _ => True := by
  refine delivers_modify fun before intact => { intact with declared := fun other member => ?_ }
  rcases mem_declaredTypes_addVariant member with old | isNew
  · exact intact.declared other old
  · exact presents other isNew

theorem delivers_collectVariant {item : EnumItem} {variant : Field (List Ty)}
    (written : variant.content.all Ty.isWritten = true) :
    Delivers regime (collectVariant item variant) fun _ => True := by
  mvcgen [collectVariant] with grind

theorem delivers_collectMembers {item : Item} (whole : item.fits regime = true) :
    Delivers regime (collectMembers item) fun _ => True := by
  cases item with
  | struct item =>
    have written := List.all_eq_true.mp whole
    exact delivers_forM fun field member =>
      delivers_collectField (written _ (List.mem_map_of_mem member))
  | enum item =>
    have written := List.all_eq_true.mp whole
    exact delivers_forM fun variant member => delivers_collectVariant
      (List.all_eq_true.mpr fun _ inside => written _ (List.mem_flatMap_of_mem member inside))
  | _ => exact delivers_pure trivial

theorem present_scheme (presents : ∀ ty ∈ params, ty.Present)
    (present : result.Present) : (item.scheme params result).Present := by
  grind [FunctionItem.scheme, Ty.present_scheme]

theorem delivers_addSignature (sameArity : ∀ other ∈ regime.functions, other.id = item.id →
      other.params.length = params.length)
    (presents : ∀ ty ∈ params, ty.Present) (present : result.Present) :
    Delivers regime (addSignature item params result) fun _ => True := by
  refine delivers_modify fun before intact => { intact with
    declared := fun ty isDeclared => ?_
    arity := fun other inFunctions signature found => ?_ }
  · rcases mem_declaredTypes_addSignature isDeclared with old | rfl | inParams | rfl
    · exact intact.declared ty old
    · exact present_scheme presents present
    · exact presents ty inParams
    · exact present
  · rw [Table.find?_insert] at found
    split at found
    · next same =>
        cases found
        exact (sameArity other inFunctions same.symm).symm
    · exact intact.arity other inFunctions signature found

theorem delivers_collectSignature (sameArity : ∀ other ∈ regime.functions, other.id = item.id →
      other.params.length = item.params.length) (written : item.written.all Ty.isWritten = true) :
    Delivers regime (collectSignature item) fun _ => True := by
  have each := List.all_eq_true.mp written
  have params : Delivers regime (item.params.mapM fun param => resolveType param.ty)
      fun types => types.length = item.params.length ∧ ∀ ty ∈ types, ty.Present := by
    refine delivers_mapM fun param inParams => delivers_resolveType (Ty.isWritten_iff.mp ?_)
    exact each _ (List.mem_append_left _ (List.mem_map_of_mem inParams))
  have result : item.result.isWritten = true :=
    each _ (List.mem_append_right _ (List.mem_singleton_self _))
  refine delivers_bind params fun types resolved => ?_
  refine delivers_bind (delivers_resolveType (Ty.isWritten_iff.mp result)) fun _ present => ?_
  exact delivers_addSignature (resolved.1 ▸ sameArity) resolved.2 present

theorem delivers_collectMethod {method : MethodDecl}
    (written : method.types.all Ty.isWritten = true) :
    Delivers regime (collectMethod method) fun decl => ∀ ty ∈ decl.types, ty.Present := by
  mvcgen [collectMethod]
  all_goals grind [MethodDecl.types, Ty.isWritten_iff]

theorem delivers_collectAssoc {assoc : AssocDecl} (written : assoc.default.isWritten = true) :
    Delivers regime (collectAssoc assoc) fun decl => ∀ ty ∈ decl.types, ty.Present := by
  mvcgen [collectAssoc]
  all_goals grind [AssocDecl.types, Ty.isWritten_iff, Ty.isAbsent]

theorem delivers_addTrait {item : TraitItem} {methods : List MethodDecl}
    {assocTypes : List AssocDecl} (presentMethods : ∀ decl ∈ methods, ∀ ty ∈ decl.types, ty.Present)
    (presentTypes : ∀ decl ∈ assocTypes, ∀ ty ∈ decl.types, ty.Present) :
    Delivers regime (addTrait item methods assocTypes) fun _ => True := by
  refine delivers_modify fun before intact => { intact with
    declared := fun ty member => ?_
    indexed := intact.indexed.addTrait item.id item.name methods assocTypes }
  rcases mem_declaredTypes_addTrait member with
    old | ⟨decl, inMethods, inside⟩ | ⟨decl, inTypes, inside⟩
  · exact intact.declared ty old
  · exact presentMethods decl inMethods ty inside
  · exact presentTypes decl inTypes ty inside

theorem delivers_collectTrait {item : TraitItem}
    (written : item.annotations.all Ty.isWritten = true) :
    Delivers regime (collectTrait item) fun _ => True := by
  have each := List.all_eq_true.mp written
  refine delivers_bind (delivers_mapM fun decl member => delivers_collectMethod ?_)
    fun methods resolvedMethods => ?_
  · exact List.all_eq_true.mpr fun _ inside =>
      each _ (List.mem_append_left _ (List.mem_flatMap_of_mem member inside))
  refine delivers_bind (delivers_mapM fun decl member => delivers_collectAssoc ?_)
    fun assocTypes resolvedTypes => ?_
  · exact each _ (List.mem_append_right _ (List.mem_map_of_mem member))
  exact delivers_addTrait resolvedMethods.2 resolvedTypes.2

theorem delivers_collectImplMethod {method : Field DefId} :
    Delivers regime (collectImplMethod method) fun method => method.ty.Present := by
  mvcgen [collectImplMethod]
  all_goals first | grind | simp

theorem delivers_collectBinding {assoc : Field Ty} (written : assoc.content.isWritten = true) :
    Delivers regime (collectBinding assoc) fun entry => entry.content.Present := by
  mvcgen [collectBinding]
  all_goals grind [Ty.isWritten_iff]

theorem Intact.registerImpl {functions : List FunctionItem} {checker : Checker}
    (intact : Intact functions checker) {decl : Registry.ImplDecl}
    (present : decl.implementer.Present)
    (presentMethods : ∀ method ∈ decl.methods, method.ty.Present)
    (presentTypes : ∀ entry ∈ decl.assocTypes, entry.content.Present) :
    Intact functions { checker with registry := (checker.registry.registerImpl decl).2 } := by
  have indexed := (intact.indexed.follow (.impl decl)).1
  refine { intact with declared := fun ty member => ?_, indexed }
  rcases mem_declaredTypes_registerImpl member with
    old | rfl | ⟨method, inMethods, rfl⟩ | ⟨entry, inTypes, rfl⟩
  · exact intact.declared ty old
  · exact present
  · exact presentMethods method inMethods
  · exact presentTypes entry inTypes

theorem delivers_addImpl {item : ImplItem} {implementer : Ty} {methods : List ImplMethod}
    {assocTypes : List (Field Ty)} (present : implementer.Present)
    (presentMethods : ∀ method ∈ methods, method.ty.Present)
    (presentTypes : ∀ entry ∈ assocTypes, entry.content.Present) :
    Delivers regime (addImpl item implementer methods assocTypes) fun _ => True := by
  mvcgen [addImpl]
  case vc1.h_1 intact _ _ _ =>
    exact ⟨trivial, intact.registerImpl present presentMethods presentTypes⟩
  case vc2.ordinary => simp
  case vc3.h_2 intact _ _ _ => exact intact.registerImpl present presentMethods presentTypes

theorem delivers_collectImpl {item : ImplItem}
    (written : item.annotations.all Ty.isWritten = true) :
    Delivers regime (collectImpl item) fun _ => True := by
  rw [ImplItem.annotations, List.all_cons, Bool.and_eq_true, Ty.isWritten_iff] at written
  refine delivers_bind (delivers_resolveType written.1) fun implementer present => ?_
  refine delivers_bind (delivers_mapM fun _ _ => delivers_collectImplMethod)
    fun methods provided => ?_
  refine delivers_bind (delivers_mapM fun entry member => delivers_collectBinding ?_)
    fun assocTypes bound => ?_
  · exact List.all_eq_true.mp written.2 _ (List.mem_map_of_mem member)
  exact delivers_addImpl present provided.2 bound.2

theorem delivers_collect (whole : ∀ item ∈ items, item.fits regime = true)
    (sameArity : ∀ item ∈ Item.functions items, ∀ other ∈ regime.functions,
      other.id = item.id → other.params.length = item.params.length) :
    Delivers regime (collect items) fun _ => True := by
  refine delivers_bind (delivers_forM fun item member => delivers_declareItem (whole item member))
    fun _ _ => ?_
  refine delivers_bind (delivers_checkAliasCycles fun item member => ?_) fun _ _ => ?_
  · exact whole _ (alias_mem member)
  refine delivers_bind
    (delivers_forM fun item member => delivers_collectMembers (whole item member)) fun _ _ => ?_
  refine delivers_bind (delivers_forM fun item member => ?_) fun _ _ => ?_
  · have written := (Regime.accepts_and.mp (whole _ (function_mem member))).1
    exact delivers_collectSignature (sameArity item member) (Regime.written_of_accepts rfl written)
  refine delivers_bind (delivers_forM fun item member => ?_) fun _ _ => ?_
  · exact delivers_collectTrait (whole _ (trait_mem member))
  · exact delivers_forM fun item member => delivers_collectImpl (whole _ (impl_mem member))

@[spec]
theorem delivers_checkImplMethod {method : ImplMethod} (declared : ∀ ty ∈ trait.types, ty.Present)
    (present : impl.implementer.Present) (provided : method.ty.Present) :
    Delivers regime (checkImplMethod trait impl method) fun _ => True := by
  have signature : ∀ decl, trait.method? method.name = some decl →
      ∃ wanted, decl.signature? impl.implementer = some wanted ∧ wanted.Present := by
    intro decl found
    have inTrait : ∀ ty ∈ decl.types, ty.Present := fun ty inside =>
      declared ty (List.mem_append_left _
        (List.mem_flatMap_of_mem (List.mem_of_find?_eq_some found) inside))
    exact MethodDecl.exists_signature (fun ty member => inTrait ty (List.mem_append_left _ member))
      (inTrait _ (List.mem_append_right _ (List.mem_singleton_self _))) present
  mvcgen [checkImplMethod, reportNonconforming, reportMismatch] with grind

theorem delivers_checkImpl (declared : ∀ ty ∈ trait.types, ty.Present)
    (provided : ∀ ty ∈ impl.types, ty.Present) :
    Delivers regime (checkImpl trait impl) fun _ => True := by
  mvcgen [checkImpl, reportImplItems, reportMissingItem, reportExtraItem]
  all_goals first
    | simp; done
    | grind [Impl.types, Ty.hasParams?, Ty.Present.search?]

theorem delivers_checkImpls : Delivers regime checkImpls fun _ => True := by
  refine delivers_iff.mpr fun checker intact => ?_
  refine delivers_iff.mp (delivers_forM fun ⟨trait, impl⟩ member => ?_) checker intact
  obtain ⟨_, inTraits, found⟩ := List.mem_flatMap.mp member
  obtain ⟨_, _, found⟩ := List.mem_filterMap.mp found
  obtain ⟨_, atNumber, ⟨⟩⟩ := Option.map_eq_some_iff.mp found
  have inImpls := List.mem_of_getElem? atNumber
  refine delivers_checkImpl (fun ty inside => ?_) fun ty inside => ?_
  · have := List.mem_flatMap_of_mem inTraits inside
    exact intact.declared ty (mem_declaredTypes.mpr (by tauto))
  · have := List.mem_flatMap_of_mem inImpls inside
    exact intact.declared ty (mem_declaredTypes.mpr (by tauto))

@[spec]
theorem delivers_checkUnused : Delivers regime checkUnused fun _ => True := by
  mvcgen [checkUnused]
  all_goals first | grind | simp

@[spec]
theorem delivers_bindGenerics (count : Nat) :
    Delivers regime (bindGenerics count) fun _ => True := by
  have clears : Delivers regime (modify fun checker : Checker =>
      { checker with subst := checker.subst.clearParams }) fun _ => True :=
    delivers_modify fun _ intact => { intact with params := nofun }
  refine delivers_bind clears fun _ _ => delivers_forM fun position _ => ?_
  refine delivers_bind delivers_fresh fun ty present => ?_
  refine delivers_modify fun _ intact => { intact with params := fun other member => ?_ }
  rcases Table.mem_values_insert member with rfl | old
  · exact present
  · exact intact.params other old

@[spec]
theorem delivers_bindSignature {params : List Param}
    (enough : regime.lenient = false → types.length = params.length)
    (presents : ∀ ty ∈ types, ty.Present) :
    Delivers regime (bindSignature params types) fun _ => True := by
  fun_induction bindSignature params types with
  | case1 => exact delivers_pure trivial
  | case2 =>
    mvcgen
    all_goals grind
  | case3 param params ty types ih =>
    rw [List.forall_mem_cons] at presents
    have ih := ih (fun strict => Nat.succ.inj (enough strict)) presents.2
    mvcgen [ih] with grind

@[spec]
theorem delivers_expectBody {result body : Ty} (whole : item.body.fits regime = true)
    (presentResult : result.Present) (presentBody : body.Present) :
    Delivers regime (expectBody item signature result body) fun _ => True := by
  mvcgen [expectBody, reportBody, reportMismatch] with grind

@[spec]
theorem delivers_enterBody
    (enough : regime.lenient = false → signature.params.length = item.params.length)
    (presents : ∀ ty ∈ signature.types, ty.Present) :
    Delivers regime (enterBody item signature) Present := by
  refine delivers_bind (delivers_modify fun _ intact => { intact with }) fun _ _ => ?_
  mvcgen
  all_goals grind [Signature.types]

@[spec]
theorem delivers_leaveBody : Delivers regime leaveBody fun _ => True :=
  delivers_modify fun _ intact => { intact with params := nofun, locals := nofun }

theorem delivers_checkBody (whole : item.body.fits regime = true)
    (enough : regime.lenient = false → signature.params.length = item.params.length)
    (presents : ∀ ty ∈ signature.types, ty.Present) :
    Delivers regime (checkBody item signature) fun _ => True := by
  have inner := delivers_inferExpr item.body whole
  mvcgen [checkBody, inner] with grind

theorem delivers_checkFunction (member : regime.lenient = false → item ∈ regime.functions)
    (whole :
      regime.accepts item.body.annotations (item.body.isMissing || item.body.isWhole) = true) :
    Delivers regime (checkFunction item) fun _ => True := by
  have checks := @delivers_checkBody item
  mvcgen [checkFunction, checks]
  · exact Regime.accepts_of_or whole ‹_›
  · exact fun strict => Intact.arity ‹_› item (member strict) _ ‹_›
  · intro ty inside
    have := List.mem_flatMap_of_mem (Table.mem_values_of_find? ‹_›) inside
    exact Intact.declared ‹_› ty (mem_declaredTypes.mpr (by tauto))

theorem delivers_checking (whole : ∀ item ∈ items, item.fits regime = true)
    (sameArity : ∀ item ∈ Item.functions items, ∀ other ∈ regime.functions,
      other.id = item.id → other.params.length = item.params.length)
    (members : regime.lenient = false → ∀ item ∈ Item.functions items, item ∈ regime.functions) :
    Delivers regime (checkItems items) fun _ => True := by
  refine delivers_bind (delivers_collect whole sameArity) fun _ _ => ?_
  refine delivers_bind delivers_checkImpls fun _ _ => delivers_forM fun item member => ?_
  have wholeBody := (Regime.accepts_and.mp (whole _ (function_mem member))).2
  exact delivers_checkFunction (fun strict => members strict item member) wholeBody

theorem delivers_checkItems (wellFormed : Item.WellFormed items) (before : Checker)
    (intact : Intact (Item.functions items) before) :
    ∃ after, checkItems items before = .ok () after ∧ Intact (Item.functions items) after := by
  have delivers : Delivers ⟨Item.functions items, false⟩ (checkItems items) fun _ => True := by
    refine delivers_checking ?_ ?_ fun _ _ member => member
    · exact fun item member => Item.fits_of_isWhole rfl (wellFormed.whole item member)
    · intro item member other inFunctions same
      rw [List.inj_on_of_nodup_map wellFormed.distinct inFunctions member same]
  have delivered := delivers_iff.mp delivers before intact
  split at delivered
  · next after ran => exact ⟨after, ran, delivered.2⟩
  · cases delivered.1

theorem intact_initial (settings : Settings) : Intact functions (initial settings) where
  acyclic := Subst.acyclic_empty
  bound := nofun
  params := nofun
  locals := nofun
  declared := nofun
  aliases := nofun
  indexed := Registry.indexed_empty
  arity := nofun
  ordinary := nofun

end Checker

theorem mem_mergeAscending {number : Nat} {first second : List Nat} :
    number ∈ mergeAscending first second ↔ number ∈ first ∨ number ∈ second := by
  fun_induction mergeAscending first second with
  | case1 second => simp
  | case2 first => simp
  | case3 a first b second _ ih | case4 a first b second _ ih =>
    simp only [List.mem_cons, ih]
    tauto

namespace Registry

/-- The indexes hold numbers of traits and impls only, a trait that is indexed by the name of a
method declares the method, and whatever an impl lacks is declared by its trait. -/
structure WellNumbered (registry : Registry) : Prop where
  traits : ∀ decl id, registry.traitOfDecl.find? decl = some id → id < registry.traits.length
  methods : ∀ name, ∀ id ∈ (registry.traitsOfMethod.find? name).getD [],
    ∃ trait, registry.traits[id]? = some trait ∧ (trait.method? name).isSome = true
  impls : ∀ trait, ∀ id ∈ registry.implsOf trait, id < registry.impls.length
  inherent : ∀ self, ∀ id ∈ registry.inherentCandidates self, id < registry.impls.length
  missing : ∀ trait impl, (trait, impl) ∈ Checker.traitImpls registry →
    (∀ name ∈ impl.missingMethods, (trait.method? name).isSome = true) ∧
      ∀ name ∈ impl.missingAssocTypes, (trait.assocType? name).isSome = true

variable {registry : Registry}

theorem Indexed.lt_of_mem_numbersOf (indexed : registry.Indexed)
    {condition : Impl → Bool} {id : Nat}
    (member : id ∈ registry.numbersOf condition) : id < registry.impls.length := by
  obtain ⟨impl, filtered, rfl⟩ := List.mem_map.mp member
  exact (List.getElem?_eq_some_iff.mp (indexed.impl_at (List.mem_filter.mp filtered).1)).1

theorem Indexed.trait?_of_traitImpls (indexed : registry.Indexed)
    (listed : (trait, impl) ∈ Checker.traitImpls registry) : impl.trait? = some trait := by
  obtain ⟨_, inTraits, found⟩ := List.mem_flatMap.mp listed
  obtain ⟨id, numbered, found⟩ := List.mem_filterMap.mp found
  obtain ⟨_, atNumber, ⟨⟩⟩ := Option.map_eq_some_iff.mp found
  rw [indexed.implsOfTrait] at numbered
  obtain ⟨other, filtered, rfl⟩ := List.mem_map.mp numbered
  obtain ⟨inImpls, isOf⟩ := List.mem_filter.mp filtered
  cases atNumber.symm.trans (indexed.impl_at inImpls)
  cases named : impl.trait? with
  | none => simp [Impl.isOf, named] at isOf
  | some other =>
    have sameId : other.id = trait.id := by simpa [Impl.isOf, named] using isOf
    have atTrait := indexed.trait_at (indexed.linked _ inImpls other named)
    rw [sameId, indexed.trait_at inTraits] at atTrait
    exact atTrait.symm

theorem Indexed.wellNumbered (indexed : registry.Indexed) : registry.WellNumbered where
  traits decl id found := by
    rw [indexed.traitOfDecl] at found
    obtain ⟨trait, foundTrait, rfl⟩ := Option.map_eq_some_iff.mp found
    have member := List.mem_reverse.mp (List.mem_of_find?_eq_some foundTrait)
    exact (List.getElem?_eq_some_iff.mp (indexed.trait_at member)).1
  methods name id member := by
    rw [indexed.traitsOfMethod] at member
    obtain ⟨trait, inTraits, repeated⟩ := List.mem_flatMap.mp member
    obtain ⟨declares, rfl⟩ := List.mem_replicate.mp repeated
    refine ⟨trait, indexed.trait_at inTraits, ?_⟩
    obtain ⟨decl, inMethods, same⟩ := List.countP_pos_iff.mp (Nat.pos_of_ne_zero declares)
    exact List.find?_isSome.mpr ⟨decl, inMethods, same⟩
  impls trait id member := by
    rw [indexed.implsOfTrait] at member
    exact indexed.lt_of_mem_numbersOf member
  inherent self id member := by
    unfold inherentCandidates at member
    split at member
    · rcases mem_mergeAscending.mp member with atHead | isOpen
      · rw [indexed.inherentOfHead] at atHead
        exact indexed.lt_of_mem_numbersOf atHead
      · rw [indexed.inherentOpen] at isOpen
        exact indexed.lt_of_mem_numbersOf isOpen
    · rw [indexed.inherentAll] at member
      exact indexed.lt_of_mem_numbersOf member
  missing trait impl listed := by
    have named := indexed.trait?_of_traitImpls listed
    rw [Impl.missingMethods, Impl.missingAssocTypes, named]
    refine ⟨fun name member => ?_, fun name member => ?_⟩
    · obtain ⟨decl, filtered, rfl⟩ := List.mem_map.mp member
      exact List.find?_isSome.mpr ⟨decl, (List.mem_filter.mp filtered).1, by simp⟩
    · obtain ⟨decl, filtered, rfl⟩ := List.mem_map.mp member
      exact List.find?_isSome.mpr ⟨decl, (List.mem_filter.mp filtered).1, by simp⟩

end Registry

namespace Checker

variable {settings : Settings} {items : List Item}

/-- Lists taken side by side have the same length. -/
def Task.Paired : {α : Type} → Task α → Prop
  | _, .patterns shapes types => shapes.length = types.length
  | _, .fields entries types => entries.length = types.length
  | _, .args _ found nodes => found.length = nodes.length
  | _, _ => True

theorem paired_of_reached {α : Type} {task : Task α} {start : Checker}
    (reached : Reached settings items task start) : task.Paired := by
  have ready := (any_of_reached reached).2
  cases task with
  | patterns shapes types | fields entries types | args declared found nodes => exact ready.1
  | _ => trivial

theorem hasErrors_of_foreign {final : Checker} {span : Span}
    (ran : checkItems items (initial settings) = .ok () final)
    (member : .foreign name decl span ∈ items) : final.log.hasErrors = true := by
  have declares :
      Walk.Makes (fun call => ∃ start, call = ⟨.declare (.foreign name decl span), start⟩)
      (Task.collect items).walk :=
    .bind (.forM member (Walk.makes_call fun start => ⟨start, rfl⟩)) _
  obtain ⟨_, reached, start, rfl⟩ := reached_of_makes ran (.call .start mem_calls_call) declares
  have reported : 0 < ((Task.declare (.foreign name decl span)).finish start).log.errorCount :=
    Log.errorCount_add_pos start.log rfl
  have stays := (changes_of_reached reached).errorCount_le
  rw [finish_of_ok ran] at stays
  exact decide_eq_true (reported.trans_le stays)

/-- The check of a well-formed module comes to its end, and nothing is reported about the check
itself. Every call on the way has a result and goes through lists of the same length where it takes
two of them side by side; the calls are those that the procedures make, since recording them changes
nothing (`Task.run_walk`). The body of every function that has one is checked against the signature
of the function. The numbers by which traits, impls and aliases are looked up are numbers of traits,
impls and aliases. -/
theorem check_completes (settings : Settings) (wellFormed : Item.WellFormed items) :
    let final := check settings (some items)
    checkItems items (initial settings) = .ok () final ∧
    (∀ diagnostic ∈ final.log.items,
      ¬"internal checker error".toList <+: diagnostic.message.toList) ∧
    (∀ call : Call, Reached settings items call.task call.start → call.Returns ∧ call.task.Paired) ∧
    (∀ item ∈ Item.functions items, item.body.isMissing = false →
      ∃ signature start left, start.signatures.find? item.id = some signature ∧
        Reached settings items (.body item signature) start ∧
        checkBody item signature start = .ok () left) ∧
    final.registry.WellNumbered ∧ Alias.WellNumbered (Item.aliases items) := by
  obtain ⟨final, ran, intact⟩ := delivers_checkItems wellFormed _ (intact_initial settings)
  have same : check settings (some items) = final := by
    rw [check_some, ran]
  rw [same]
  refine ⟨ran, intact.ordinary, fun call reached => ?_, fun item member present => ?_,
    intact.indexed.wellNumbered, Alias.wellNumbered _⟩
  · exact ⟨returns_of_reached reached ran, paired_of_reached reached⟩
  · obtain ⟨signature, start, signed, reached⟩ := reached_checkBody ran member present
    obtain ⟨_, left, ranBody⟩ := returns_of_reached reached ran
    exact ⟨signature, start, left, signed, reached, ranBody⟩

/-- A module with mistakes of many kinds: an item, a statement, an expression and a type outside the
language, a cyclic alias, a field declared twice, an impl that lacks what its trait declares, an
impl of an unknown trait, wrong numbers of arguments, an operator without a meaning, and references
to nothing. -/
def mishaps : List Item :=
  [.foreign "Macro" ⟨1⟩ .empty,
    .alias ⟨⟨2⟩, "Loop", .empty, [], .tuple [.named ⟨2⟩ [], .int]⟩,
    .struct ⟨⟨3⟩, "Point", .empty, [],
      [⟨"x", .absent, .empty⟩, ⟨"x", .int, .empty⟩, ⟨"y", .foreign "Never", .empty⟩]⟩,
    .enum ⟨⟨4⟩, "Shape", .empty, ["T"], [⟨"dot", [], .empty⟩, ⟨"line", [.param 0 "T"], .empty⟩]⟩,
    .trait ⟨⟨5⟩, "Show", .empty, [⟨"show", [.param (-1) "Self"], .absent, false, .empty⟩],
      [⟨"Out", [], .absent, .empty⟩]⟩,
    .impl ⟨⟨6⟩, some ⟨5⟩, .named ⟨3⟩ [], .empty, [], [⟨"print", ⟨90⟩, .empty⟩], []⟩,
    .impl ⟨⟨7⟩, some ⟨91⟩, .absent, .empty, [], [], []⟩,
    .function ⟨⟨8⟩, "declared", .empty, [], [⟨⟨1⟩, "n", .absent, .empty⟩], .named ⟨2⟩ [], .missing⟩,
    .function
      { id := ⟨9⟩, name := "checked", span := .empty, generics := ["T"]
        params := [⟨⟨2⟩, "p", .named ⟨3⟩ [], .empty⟩], result := .absent
        body := .block
          [.foreign "Goto" .empty,
            .letBind (.tuple [.bind ⟨3⟩ "a" .empty, .wildcard .empty] .empty) .absent
              (.call (.globalRef ⟨8⟩ .empty) [] .empty) .empty,
            .run (.conditional (.localRef ⟨92⟩ .empty)
              (.methodCall (.localRef ⟨2⟩ .empty) "show" [] .empty) .missing .empty) .empty,
            .run (.matchOn (.variant ⟨4⟩ "line" [] .empty)
              [.mk (.ctor ⟨4⟩ "circle" [.wildcard .empty] .empty) .missing
                (.binary (.reserved 0) (.localRef ⟨2⟩ .empty) (.foreign "Await" .empty) .empty)
                  .empty]
              .empty) .empty]
          .missing .empty }]

theorem check_completes_mishaps :
    let final := check {} (some mishaps)
    Item.WellFormed mishaps ∧ final.log.hasErrors = true ∧
      checkItems mishaps (initial {}) = .ok () final ∧
      (∀ diagnostic ∈ final.log.items,
        ¬"internal checker error".toList <+: diagnostic.message.toList) ∧
      ∃ item ∈ Item.functions mishaps, item.body.isMissing = false ∧
        ∃ signature start left, Reached {} mishaps (.body item signature) start ∧
          checkBody item signature start = .ok () left := by
  have wellFormed : Item.WellFormed mishaps := ⟨by decide, by decide⟩
  have ⟨ran, ordinary, _, bodies, _⟩ := check_completes {} wellFormed
  have hasErrors := hasErrors_of_foreign ran List.mem_cons_self
  refine ⟨wellFormed, hasErrors, ran, ordinary, _,
    List.mem_cons_of_mem _ List.mem_cons_self, rfl, ?_⟩
  obtain ⟨signature, start, left, _, reached, ranBody⟩ :=
    bodies _ (List.mem_cons_of_mem _ List.mem_cons_self) rfl
  exact ⟨signature, start, left, reached, ranBody⟩

end Checker

end TraitCheck
