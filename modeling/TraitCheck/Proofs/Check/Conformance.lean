import TraitCheck.Proofs.Check.Collecting
import TraitCheck.Proofs.Check.Visits

/-!
# Impls conform to their traits

In a check without errors every trait impl provides what its trait asks for and nothing else. Where
the self type of the impl is closed, the type of each provided method has an instance that was made
equal to the declared type before any body was inferred. The two stay equal to the end of the check,
since later steps only add bindings.
-/

namespace TraitCheck

variable {trait : Trait} {impl : Impl}

/-- The names that a scheme quantifies. -/
def Ty.quantifiers : Ty → List String
  | .scheme names _ => names
  | _ => []

/-- The instance of a scheme at given arguments. -/
def Ty.instanceAt (args : List Ty) : Ty → Ty
  | .scheme _ body => body.substParams args
  | ty => ty

/-- An impl provides what a trait declares without a default, and nothing that the trait does not
declare. -/
structure Impl.Completes (impl : Impl) (trait : Trait) : Prop where
  methods : ∀ decl ∈ trait.methods, decl.hasDefault = false →
    ∃ method ∈ impl.methods, method.name = decl.name
  assocTypes : ∀ decl ∈ trait.assocTypes, decl.default.isAbsent = true →
    ∃ binding ∈ impl.assocTypes, binding.name = decl.name
  onlyMethods : ∀ method ∈ impl.methods, ∃ decl ∈ trait.methods, decl.name = method.name
  onlyAssocTypes : ∀ binding ∈ impl.assocTypes, ∃ decl ∈ trait.assocTypes, decl.name = binding.name

theorem Impl.completes_of_nil (named : impl.trait? = some trait)
    (missingMethods : impl.missingMethods = []) (missingAssocTypes : impl.missingAssocTypes = [])
    (extraMethods : impl.extraMethods = []) (extraAssocTypes : impl.extraAssocTypes = []) :
    impl.Completes trait := by
  simp only [Impl.missingMethods, Impl.missingAssocTypes, Impl.extraMethods, Impl.extraAssocTypes,
    named, List.map_eq_nil_iff, List.filter_eq_nil_iff] at *
  refine ⟨fun decl member required => ?_, fun decl member required => ?_, fun method member => ?_,
    fun binding member => ?_⟩
  · have provided := missingMethods decl member
    simpa [required, Impl.method?] using provided
  · have bound := missingAssocTypes decl member
    simpa [required, Impl.assocType?] using bound
  · have declared := extraMethods method member
    simpa [Trait.method?] using declared
  · have declared := extraAssocTypes binding member
    simpa [Trait.assocType?] using declared

namespace Checker

variable {before after : Checker} {α : Type} {decl : MethodDecl} {method : ImplMethod}

theorem errorCount_of_reports {list : List α} {each : α → CheckM Unit}
    (reports : ∀ {value before after}, each value before = .ok () after →
      after.log.errorCount = before.log.errorCount + 1)
    (ran : list.forM each before = .ok () after) :
    after.log.errorCount = before.log.errorCount + list.length := by
  induction list generalizing before with
  | nil =>
    cases ran
    rfl
  | cons value rest ih =>
    obtain ⟨_, middle, ranValue, ranRest⟩ := bind_eq_ok.mp ran
    rw [ih ranRest, reports ranValue, List.length_cons]
    omega

theorem errorCount_of_reportMissingItem {code : Code} {subject what shown name : String}
    {declared : Span}
    (ran : reportMissingItem code impl subject what shown name declared before = .ok () after) :
    after.log.errorCount = before.log.errorCount + 1 := by
  cases ran
  exact Log.errorCount_add _ rfl

theorem errorCount_of_reportExtraItem {span : Span} {what name : String}
    (ran : reportExtraItem trait span what name before = .ok () after) :
    after.log.errorCount = before.log.errorCount + 1 := by
  cases ran
  exact Log.errorCount_add _ rfl

theorem of_reportImplItems (named : impl.trait? = some trait)
    (ran : reportImplItems trait impl before = .ok () after) (clean : after.log.errorCount = 0) :
    impl.Completes trait := by
  obtain ⟨subject, _, _, ran⟩ := bind_eq_ok.mp ran
  obtain ⟨_, _, ranMethods, ran⟩ := bind_eq_ok.mp ran
  obtain ⟨_, _, ranAssoc, ran⟩ := bind_eq_ok.mp ran
  obtain ⟨_, _, ranExtra, ranExtraAssoc⟩ := bind_eq_ok.mp ran
  have missingMethods := errorCount_of_reports errorCount_of_reportMissingItem ranMethods
  have missingAssoc := errorCount_of_reports errorCount_of_reportMissingItem ranAssoc
  have extraMethods := errorCount_of_reports errorCount_of_reportExtraItem ranExtra
  have extraAssoc := errorCount_of_reports errorCount_of_reportExtraItem ranExtraAssoc
  refine impl.completes_of_nil named ?_ ?_ ?_ ?_ <;> refine List.length_eq_zero_iff.mp ?_ <;> omega

theorem of_instantiate {ty value : Ty} (ran : instantiate ty before = .ok value after) :
    ∃ args, args.length = ty.quantifiers.length ∧ value = ty.instanceAt args := by
  have made := (runs_withSupply.mp (runs_of_quiet ran)).1
  cases ty with
  | scheme names body =>
    exact ⟨_, by simp [Ty.quantifiers], Ty.substParams?_eq_some made⟩
  | _ => exact ⟨[], rfl, (Option.some.inj made).symm⟩

theorem errorCount_of_reportNonconforming {wanted provided : Ty} {error : UnifyError}
    (ran : reportNonconforming trait decl method wanted provided error before = .ok () after) :
    0 < after.log.errorCount := by
  refine errorCount_of_reportMismatch (fun ranExplain => ?_) ran
  cases ranExplain
  rfl

section Module

variable {settings : Settings} {items : List Item} {start : Checker} {trait : Trait} {impl : Impl}

theorem conforms_of_reached (clean : (check settings (some items)).log.hasErrors = false)
    (declared : trait.method? method.name = some decl)
    (reached : Reached settings items (.implMethod trait impl method) start) :
    ∃ signature args, decl.signature? impl.implementer = some signature ∧
      args.length = method.ty.quantifiers.length ∧
      (check settings (some items)).subst.apply (method.ty.instanceAt args) =
        (check settings (some items)).subst.apply signature := by
  obtain ⟨_, after, ran, noError, toEnd⟩ := ends_of_reached clean reached
  obtain ⟨obeysStart, ready⟩ := any_of_reached reached
  have obeysAfter : after.Obeys .any := by
    have obeys := obeys_finish obeysStart ready
    rwa [Task.finish, finish_of_ok ran] at obeys
  change checkImplMethod trait impl method start = .ok () after at ran
  rw [checkImplMethod, declared] at ran
  obtain ⟨signature, _, ranWanted, ran⟩ := bind_eq_ok.mp ran
  obtain ⟨provided, middle, ranProvided, ranCompare⟩ := bind_eq_ok.mp ran
  obtain ⟨made, same⟩ := of_ofComplete ranWanted
  rw [same] at ranWanted ranProvided
  obtain ⟨args, count, rfl⟩ := of_instantiate ranProvided
  have called : ⟨.unify signature (method.ty.instanceAt args), middle⟩ ∈
      (Task.implMethod trait impl method).walk.calls start := by
    simp only [Task.walk, Walk.ofImplMethod, declared]
    exact Walk.mem_calls_after ranWanted (Walk.mem_calls_after ranProvided mem_calls_call)
  obtain ⟨obeys, fitsWanted, fitsProvided⟩ := any_of_reached (.call reached called)
  have unified := of_compare errorCount_of_reportNonconforming ranCompare noError
  refine ⟨signature, args, made, count, ?_⟩
  exact (apply_eq_of_unify obeys fitsWanted fitsProvided obeysAfter unified toEnd).symm

theorem of_reached_conformance (clean : (check settings (some items)).log.hasErrors = false)
    (named : impl.trait? = some trait)
    (reached : Reached settings items (.conformance trait impl) start) :
    impl.Completes trait ∧ (impl.implementer.any Ty.isParam = false → ∀ method ∈ impl.methods,
      ∃ start, Reached settings items (.implMethod trait impl method) start) := by
  obtain ⟨_, after, ran, noError, _⟩ := ends_of_reached clean reached
  have ⟨obeys, fitDeclared, fitProvided⟩ := any_of_reached reached
  obtain ⟨_, reported, ranReport, ranRest⟩ := bind_eq_ok.mp ran
  obtain ⟨hasParams, _, ranSearch, ranMethods⟩ := bind_eq_ok.mp ranRest
  obtain ⟨searched, same⟩ := of_ofComplete ranSearch
  rw [same] at ranSearch ranMethods
  have sameParams := Option.some.inj (Option.ite_none_left_eq_some.mp searched).2
  have toReported :=
    Keeps.changes (keeps_reads : Keeps .any true (reportImplItems trait impl) start _)
    obeys ranReport
  cases hasParams with
  | true =>
    cases ranMethods
    refine ⟨of_reportImplItems named ranReport noError, fun closed => ?_⟩
    rw [closed] at sameParams
    cases sameParams
  | false =>
    have ready : ∀ method ∈ impl.methods, ∀ middle, Changes .any true reported middle →
        Ready .any true (.implMethod trait impl method) middle := by
      intro method member middle later
      have changes := toReported.trans later
      refine ⟨changes.fitAll fitDeclared,
        changes.fits (fitProvided _ List.mem_cons_self), ?_⟩
      refine changes.fits (fitProvided _ (List.mem_cons_of_mem _ ?_))
      exact List.mem_append_left _ (List.mem_map_of_mem member)
    change impl.methods.forM (fun entry => (Task.implMethod trait impl entry).run) reported = _
      at ranMethods
    have later := (Keeps.changes (keeps_forM_call (.implMethod trait impl) ready)
        (toReported.obeys obeys) ranMethods).errorCount_le
    refine ⟨of_reportImplItems named ranReport (Nat.le_zero.mp (noError ▸ later)),
      fun _ method member => ?_⟩
    have calls : Walk.Makes (fun call => ∃ start, call = ⟨.implMethod trait impl method, start⟩)
        (impl.methods.forM fun entry => Walk.call (.implMethod trait impl entry)) :=
      .forM member (Walk.makes_call fun start => ⟨start, rfl⟩)
    obtain ⟨_, called, begun, rfl⟩ := calls _ _ _ ((congrFun (Walk.run_forM ..) _).trans ranMethods)
    exact ⟨begun,
      .call reached (Walk.mem_calls_after ranReport (Walk.mem_calls_after ranSearch called))⟩

theorem mem_traitImpls {registry : Registry} (indexed : registry.Indexed)
    (member : impl ∈ registry.impls) (named : impl.trait? = some trait) :
    (trait, impl) ∈ traitImpls registry := by
  refine List.mem_flatMap.mpr ⟨trait, indexed.linked impl member trait named, ?_⟩
  refine List.mem_filterMap.mpr ⟨impl.id, ?_, by rw [indexed.impl_at member]; rfl⟩
  rw [indexed.implsOfTrait]
  refine List.mem_map_of_mem (List.mem_filter.mpr ⟨member, ?_⟩)
  simp [Impl.isOf, named]

theorem collected_of_clean (clean : (check settings (some items)).log.hasErrors = false) :
    ∃ middle, collect items (initial settings) = .ok () middle ∧ middle.log.errorCount = 0 ∧
      SameDeclarations middle (check settings (some items)) := by
  obtain ⟨_, middle, ranCollect, ranRest⟩ := bind_eq_ok.mp (checkItems_of_clean clean)
  have reached : Reached settings items (.collect items) (initial settings) :=
    .call .start mem_calls_call
  obtain ⟨_, _, ran, noError, _⟩ := ends_of_reached clean reached
  cases ranCollect.symm.trans ran
  have ⟨obeysStart, ready⟩ := any_of_reached reached
  have obeys : middle.Obeys .any := by
    have obeys := obeys_finish obeysStart ready
    rwa [Task.finish, finish_of_ok ran] at obeys
  refine ⟨middle, ranCollect, noError, ?_⟩
  have keeps := (watches_checking (Item.functions items) middle).keeps
  simp only [Walk.run_bind, Walk.run_call, Walk.run_forM] at keeps
  exact (keeps.changes obeys ranRest).sameDeclarations

theorem registered_of_clean (clean : (check settings (some items)).log.hasErrors = false) :
    (check settings (some items)).Registered ∧
      ∀ item ∈ Item.impls items, ∃ impl ∈ (check settings (some items)).registry.impls,
        Stands item impl := by
  obtain ⟨middle, ranCollect, noError, same⟩ := collected_of_clean clean
  obtain ⟨registered, stands⟩ := registered_of_collect ranCollect noError
  rw [same.registry]
  refine ⟨⟨?_, ?_⟩, stands⟩
  · rw [same.registry]
    exact registered.indexed
  · rw [same.registry, same.globals]
    exact registered.typed

theorem reached_conformance (clean : (check settings (some items)).log.hasErrors = false)
    (member : impl ∈ (check settings (some items)).registry.impls)
    (named : impl.trait? = some trait) :
    ∃ start, Reached settings items (.conformance trait impl) start := by
  obtain ⟨middle, ranCollect, noError, same⟩ := collected_of_clean clean
  have reached : Reached settings items .impls middle :=
    .call .start (Walk.mem_calls_after ranCollect mem_calls_call)
  obtain ⟨_, after, ran, _⟩ := ends_of_reached clean reached
  rw [same.registry] at member
  have indexed := (registered_of_collect ranCollect noError).1.indexed
  have calls : Walk.Makes (fun call => ∃ start, call = ⟨.conformance trait impl, start⟩)
      ((traitImpls middle.registry).forM fun pair => Walk.call (.conformance pair.1 pair.2)) :=
    .forM (mem_traitImpls indexed member named) (Walk.makes_call fun start => ⟨start, rfl⟩)
  obtain ⟨_, called, start, rfl⟩ :=
    calls middle () after ((congrFun (Walk.run_forM ..) _).trans ran)
  exact ⟨start, .call reached called⟩

/-- In a check without errors every impl of the module is registered, and the trait impls conform to
their traits: each provides all that its trait asks for and nothing else, and if its self type is
closed, an instance of the type of each provided function is, in the end, the declared type of the
method. -/
theorem impls_conform (clean : (check settings (some items)).log.hasErrors = false) :
    let final := check settings (some items)
    (∀ item ∈ Item.impls items, ∃ impl ∈ final.registry.impls, Stands item impl) ∧
    ∀ impl ∈ final.registry.impls, ∀ trait, impl.trait? = some trait →
      impl.Completes trait ∧
      (impl.implementer.any Ty.isParam = false → ∀ method ∈ impl.methods,
        ∃ decl signature ty args, trait.method? method.name = some decl ∧
          decl.signature? impl.implementer = some signature ∧
          final.globals.find? method.function = some ty ∧ args.length = ty.quantifiers.length ∧
          final.subst.apply (ty.instanceAt args) = final.subst.apply signature) := by
  obtain ⟨registered, stands⟩ := registered_of_clean clean
  refine ⟨stands, fun impl member trait named => ?_⟩
  obtain ⟨_, reached⟩ := reached_conformance clean member named
  obtain ⟨completes, compared⟩ := of_reached_conformance clean named reached
  refine ⟨completes, fun closed method provided => ?_⟩
  obtain ⟨_, reachedMethod⟩ := compared closed method provided
  obtain ⟨decl, declared⟩ : ∃ decl, trait.method? method.name = some decl := by
    obtain ⟨decl, inTrait, same⟩ := completes.onlyMethods method provided
    refine Option.isSome_iff_exists.mp (List.find?_isSome.mpr ⟨decl, inTrait, ?_⟩)
    exact decide_eq_true same
  obtain ⟨signature, args, made, count, equal⟩ := conforms_of_reached clean declared reachedMethod
  exact ⟨decl, signature, method.ty, args, declared, made,
    registered.typed impl member method provided, count, equal⟩

end Module

/-- A trait with a method and an associated type, and an impl for `Int` whose method is a
polymorphic function. -/
def pairsInt : List Item :=
  [.trait ⟨⟨1⟩, "Pair", .empty,
      [⟨"pair", [.param (-1) "Self"], .tuple [.param (-1) "Self", .param (-1) "Self"],
        false, .empty⟩],
      [⟨"Out", [], .absent, .empty⟩]⟩,
    .impl ⟨⟨2⟩, some ⟨1⟩, .int, .empty, [], [⟨"pair", ⟨3⟩, .empty⟩], [⟨"Out", .bool, .empty⟩]⟩,
    .function
      { id := ⟨3⟩, name := "pair", span := .empty, generics := ["T"]
        params := [⟨⟨1⟩, "x", .param 0 "T", .empty⟩], result := .tuple [.param 0 "T", .param 0 "T"]
        body := .tuple [.localRef ⟨1⟩ .empty, .localRef ⟨1⟩ .empty] .empty }]

theorem impls_conform_pairsInt :
    let final := check {} (some pairsInt)
    final.log.hasErrors = false ∧
      ∃ impl ∈ final.registry.impls, ∃ trait, impl.trait? = some trait ∧ impl.Completes trait ∧
        ∃ method ∈ impl.methods, ∃ decl signature ty args,
          trait.method? method.name = some decl ∧
          decl.signature? impl.implementer = some signature ∧
          final.globals.find? method.function = some ty ∧ args.length = ty.quantifiers.length ∧
          final.subst.apply (ty.instanceAt args) = final.subst.apply signature := by
  have clean : (check {} (some pairsInt)).log.hasErrors = false := by decide +kernel
  have found : ∃ impl ∈ (check {} (some pairsInt)).registry.impls, impl.trait?.isSome = true ∧
      impl.implementer.any Ty.isParam = false ∧ impl.methods.length = 1 := by
    decide +kernel
  obtain ⟨impl, member, named, closed, provides⟩ := found
  obtain ⟨trait, named⟩ := Option.isSome_iff_exists.mp named
  obtain ⟨method, only⟩ := List.length_eq_one_iff.mp provides
  have provided : method ∈ impl.methods := only ▸ List.mem_cons_self
  have ⟨completes, conforming⟩ := (impls_conform clean).2 impl member trait named
  exact ⟨clean, impl, member, trait, named, completes, method, provided,
    conforming closed method provided⟩

end Checker

end TraitCheck
