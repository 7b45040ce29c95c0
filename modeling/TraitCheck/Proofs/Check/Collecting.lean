import TraitCheck.Proofs.Check.Stages
import TraitCheck.Proofs.Check.Functions
import TraitCheck.Proofs.Trait.Indexes

/-!
# The registry that collecting leaves

Traits and impls are collected last, when the types of all functions are known. Then nothing but the
registry and the supply of variables changes, so each provided method is registered with the type
that its function has in the end, unless an error is reported, and the indexes are those of the
registered traits and impls.
-/

namespace TraitCheck.Checker

variable {α β γ : Type} {before middle after : Checker}
variable {item : ImplItem} {impls : List ImplItem} {methods : List ImplMethod}

theorem of_ofComplete {option : Option α} {value : α}
    (ran : ofComplete option before = .ok value after) : option = some value ∧ after = before :=
  runs_ofComplete.mp (runs_of_quiet ran)

/-- Nothing changed but the variables, their solutions and the trace. -/
def Draws (before after : Checker) : Prop :=
  ∃ supply subst trace, after = { before with supply, subst, trace }

instance : Steady Draws where
  refl _ := ⟨_, _, _, rfl⟩
  trans := by
    rintro first _ _ ⟨_, _, _, rfl⟩ ⟨supply, subst, trace, rfl⟩
    exact ⟨supply, subst, trace, rfl⟩
  trace _ _ := ⟨_, _, _, rfl⟩

instance : Solving Draws where
  take _ _ := ⟨_, _, _, rfl⟩
  solve _ _ := ⟨_, _, _, rfl⟩

/-- A part of the state is as it was. -/
def Same (part : Checker → γ) (before after : Checker) : Prop := part after = part before

/-- A part of the state that only structs, traits and impls belong to. -/
class Unmoved (part : Checker → γ) : Prop where
  unmoved : ∀ (checker : Checker) log supply subst trace aliases enums signatures globals,
    part { checker with log, supply, subst, trace, aliases, enums, signatures, globals } =
      part checker

section Unmoved

variable {part : Checker → γ} [Unmoved part]

instance : Steady (Same part) where
  refl _ := rfl
  trans early late := Eq.trans late early
  trace checker trace := Unmoved.unmoved checker _ _ _ trace _ _ _ _

instance : Reporting (Same part) where
  report checker diagnostic := Unmoved.unmoved checker (checker.log.add diagnostic) _ _ _ _ _ _ _

instance : Solving (Same part) where
  take checker supply := Unmoved.unmoved checker _ supply _ _ _ _ _ _
  solve checker subst := Unmoved.unmoved checker _ _ subst _ _ _ _ _

instance (aliases : List AliasItem) : Along (Same part) (checkAliasCycles aliases) := by
  have (group : List AliasItem) : Along (Same part) (match group with
      | [] => (pure () : CheckM Unit)
      | first :: others => do
        modify fun checker => { checker with
          aliases := (first :: others).foldl (fun table item => table.modify item.id fun info =>
            { info with cyclic := true }) checker.aliases }
        report (Alias.cycleDiagnostic first others)) := by
    cases group with
    | nil => infer_instance
    | cons first others => exact ⟨fun before => Unmoved.unmoved before _ _ _ _ _ _ _ _⟩
  unfold checkAliasCycles
  infer_instance

instance (item : EnumItem) (entry : Field (List Ty)) :
    Along (Same part) (collectVariant item entry) := by
  have (fields : List Ty) : Along (Same part) (addVariant item.id entry.name fields) :=
    ⟨fun before => Unmoved.unmoved before _ _ _ _ _ _ _ _⟩
  unfold collectVariant
  infer_instance

instance (item : FunctionItem) : Along (Same part) (collectSignature item) := by
  have (params : List Ty) (result : Ty) : Along (Same part) (addSignature item params result) :=
    ⟨fun before => Unmoved.unmoved before _ _ _ _ _ _ _ _⟩
  unfold collectSignature
  infer_instance

theorem along_collectMembers {item : Item}
    (structs : ∀ declared : StructItem, item = .struct declared → ∀ checker change,
      part { checker with structs := checker.structs.modify declared.id change } = part checker) :
    Along (Same part) (collectMembers item) := by
  cases item with
  | struct item =>
    have (name : String) (ty : Ty) : Along (Same part) (addField item.id name ty) :=
      ⟨fun before => structs item rfl before _⟩
    unfold collectMembers collectField
    infer_instance
  | enum item =>
    unfold collectMembers
    infer_instance
  | _ => exact inferInstanceAs (Along _ (pure ()))

end Unmoved

instance : Unmoved (·.registry) := ⟨fun _ _ _ _ _ _ _ _ _ => rfl⟩

instance (item : Item) : Along (Same (·.registry)) (declareItem item) :=
  ⟨fun before => by cases item <;> rfl⟩

instance (item : Item) : Along (Same (·.registry)) (collectMembers item) :=
  along_collectMembers fun _ _ _ _ => rfl

theorem of_collectTrait {item : TraitItem} (ran : collectTrait item before = .ok () after) :
    ∃ methods assocTypes supply subst trace, after = { before with
      supply, subst, trace
      registry := before.registry.addTrait item.id item.name methods assocTypes } := by
  obtain ⟨methods, _, ranMethods, ran⟩ := bind_eq_ok.mp ran
  obtain ⟨assocTypes, _, ranAssoc, ⟨⟩⟩ := bind_eq_ok.mp ran
  obtain ⟨_, _, _, rfl⟩ := along_of_ok Draws ranMethods
  obtain ⟨_, _, _, rfl⟩ := along_of_ok Draws ranAssoc
  exact ⟨methods, assocTypes, _, _, _, rfl⟩

theorem of_collectImplMethods {entries : List (Field DefId)}
    (ran : entries.mapM collectImplMethod before = .ok methods after)
    (clean : after.log.errorCount = 0) :
    Draws before after ∧
      (∀ method ∈ methods, before.globals.find? method.function = some method.ty) ∧
      methods.map (fun method => (method.name, method.function)) =
        entries.map fun entry => (entry.name, entry.content) := by
  induction entries generalizing before methods with
  | nil =>
    cases ran
    exact ⟨Steady.refl _, nofun, rfl⟩
  | cons entry rest ih =>
    rw [List.mapM_cons] at ran
    obtain ⟨method, middle, ranMethod, ran⟩ := bind_eq_ok.mp ran
    obtain ⟨others, last, ranRest, ⟨⟩⟩ := bind_eq_ok.mp ran
    obtain ⟨draws, types, names⟩ := ih ranRest
    obtain ⟨_, _, ⟨⟩, ranFind⟩ := bind_eq_ok.mp ranMethod
    rcases found : before.globals.find? entry.content with _ | ty
    · rw [found] at ranFind
      obtain ⟨_, _, ⟨⟩, ranFresh⟩ := bind_eq_ok.mp ranFind
      obtain ⟨_, _, ⟨⟩, ⟨⟩⟩ := bind_eq_ok.mp ranFresh
      obtain ⟨_, _, _, rfl⟩ := draws
      exact absurd clean (Log.errorCount_add_pos _ rfl).ne'
    · rw [found] at ranFind
      cases ranFind
      refine ⟨draws, fun method member => ?_, ?_⟩
      · rcases List.mem_cons.mp member with rfl | inRest
        · exact found
        · exact types method inRest
      · rw [List.map_cons, List.map_cons, names]

theorem of_addImpl {implementer : Ty} {assocTypes : List (Field Ty)}
    (ran : addImpl item implementer methods assocTypes before = .ok () after)
    (clean : after.log.errorCount = 0) :
    ∃ number registry, before.registry.registerImpl
      ⟨item.id, item.trait?, implementer, methods, assocTypes, item.span⟩ = (.ok number, registry) ∧
      after = { before with registry } := by
  obtain ⟨_, _, ⟨⟩, ran⟩ := bind_eq_ok.mp ran
  rcases before.registry.registerImpl_cases
      ⟨item.id, item.trait?, implementer, methods, assocTypes, item.span⟩ with
    ⟨trait, refused⟩ | ⟨number, registry, registered⟩
  · rw [refused] at ran
    cases ran
    exact absurd clean (Log.errorCount_add_pos _ rfl).ne'
  · rw [registered] at ran
    cases ran
    exact ⟨number, registry, registered, rfl⟩

/-- An impl as an item declares it. -/
structure Declares (item : ImplItem) (declared : Registry.ImplDecl) : Prop where
  decl : declared.decl = item.id
  trait? : declared.trait? = item.trait?
  methods : declared.methods.map (fun method => (method.name, method.function)) =
    item.methods.map fun entry => (entry.name, entry.content)

theorem of_collectImpl (ran : collectImpl item before = .ok () after)
    (clean : after.log.errorCount = 0) :
    ∃ decl number registry supply subst trace,
      after = { before with supply, subst, trace, registry } ∧
      before.registry.registerImpl decl = (.ok number, registry) ∧ Declares item decl ∧
      ∀ method ∈ decl.methods, before.globals.find? method.function = some method.ty := by
  obtain ⟨implementer, _, ranResolve, ran⟩ := bind_eq_ok.mp ran
  obtain ⟨methods, _, ranMethods, ran⟩ := bind_eq_ok.mp ran
  obtain ⟨assocTypes, _, ranAssoc, ran⟩ := bind_eq_ok.mp ran
  obtain ⟨_, _, _, rfl⟩ := along_of_ok Draws ranResolve
  obtain ⟨_, _, _, rfl⟩ := along_of_ok Draws ranAssoc
  obtain ⟨number, registry, registered, rfl⟩ := of_addImpl ran clean
  obtain ⟨⟨_, _, _, rfl⟩, types, names⟩ := of_collectImplMethods ranMethods clean
  exact ⟨_, number, registry, _, _, _, rfl, registered, ⟨rfl, rfl, names⟩, types⟩

/-- The indexes of the registry are complete, and provided methods have the types of their
functions. -/
structure Registered (checker : Checker) : Prop where
  indexed : checker.registry.Indexed
  typed : ∀ impl ∈ checker.registry.impls, ∀ method ∈ impl.methods,
    checker.globals.find? method.function = some method.ty

theorem registered_of_traits {traits : List TraitItem} (registered : before.Registered)
    (ran : traits.forM collectTrait before = .ok () after) : after.Registered := by
  induction traits generalizing before with
  | nil =>
    cases ran
    exact registered
  | cons item rest ih =>
    obtain ⟨_, middle, ranItem, ranRest⟩ := bind_eq_ok.mp ran
    obtain ⟨methods, assocTypes, _, _, _, rfl⟩ := of_collectTrait ranItem
    refine ih ?_ ranRest
    exact ⟨registered.indexed.addTrait item.id item.name methods assocTypes, registered.typed⟩

/-- An impl is registered as an item declares it. -/
structure Stands (item : ImplItem) (impl : Impl) : Prop where
  decl : impl.decl = item.id
  trait? : impl.trait?.map (·.decl) = item.trait?
  methods : impl.methods.map (fun method => (method.name, method.function)) =
    item.methods.map fun entry => (entry.name, entry.content)

theorem registered_of_impl (registered : before.Registered)
    (ran : collectImpl item before = .ok () after) (clean : after.log.errorCount = 0) :
    after.Registered ∧ after.log = before.log ∧
      ∃ impl, Stands item impl ∧ after.registry.impls = before.registry.impls ++ [impl] := by
  obtain ⟨decl, number, registry, _, _, _, rfl, ranRegister, declares, types⟩ :=
    of_collectImpl ran clean
  obtain ⟨trait?, sameTrait, linked, rfl⟩ := registered.indexed.of_registerImpl ranRegister
  refine ⟨⟨registered.indexed.addImpl rfl linked, fun impl member => ?_⟩, rfl, _, ?_,
    Registry.impls_addImpl ..⟩
  · rw [Registry.impls_addImpl] at member
    rcases List.mem_append.mp member with old | new
    · exact registered.typed impl old
    · cases List.mem_singleton.mp new
      exact types
  · exact ⟨declares.decl, sameTrait.trans declares.trait?, declares.methods⟩

theorem log_of_impls (ran : impls.forM collectImpl before = .ok () after)
    (clean : after.log.errorCount = 0) : after.log = before.log := by
  induction impls generalizing before with
  | nil =>
    cases ran
    rfl
  | cons item rest ih =>
    obtain ⟨_, middle, ranItem, ranRest⟩ := bind_eq_ok.mp ran
    have same := ih ranRest
    rw [same] at clean ⊢
    obtain ⟨_, _, _, _, _, _, rfl, _⟩ := of_collectImpl ranItem clean
    rfl

theorem registered_of_impls (registered : before.Registered)
    (ran : impls.forM collectImpl before = .ok () after) (clean : after.log.errorCount = 0) :
    after.Registered ∧ before.registry.impls ⊆ after.registry.impls ∧
      ∀ item ∈ impls, ∃ impl ∈ after.registry.impls, Stands item impl := by
  induction impls generalizing before with
  | nil =>
    cases ran
    exact ⟨registered, List.Subset.refl _, nofun⟩
  | cons item rest ih =>
    obtain ⟨_, middle, ranItem, ranRest⟩ := bind_eq_ok.mp ran
    have cleanMiddle : middle.log.errorCount = 0 := log_of_impls ranRest clean ▸ clean
    obtain ⟨registeredMiddle, _, impl, stands, grown⟩ :=
      registered_of_impl registered ranItem cleanMiddle
    obtain ⟨registeredAfter, kept, each⟩ := ih registeredMiddle ranRest
    rw [grown] at kept
    refine ⟨registeredAfter, fun _ old => kept (List.mem_append_left _ old), fun other member => ?_⟩
    rcases List.mem_cons.mp member with rfl | inRest
    · exact ⟨impl, kept (List.mem_append_right _ List.mem_cons_self), stands⟩
    · exact each other inRest

theorem registered_of_collect {settings : Settings} {items : List Item}
    (ran : collect items (initial settings) = .ok () after) (clean : after.log.errorCount = 0) :
    after.Registered ∧ ∀ item ∈ Item.impls items, ∃ impl ∈ after.registry.impls,
      Stands item impl := by
  rcases of_collect ran with ⟨declared, cyclic, members, signed, traits, ranDeclare, ranCycles,
    ranMembers, ranSignatures, ranTraits, ranImpls⟩
  have noneYet : signed.registry = .empty :=
    calc signed.registry
      _ = members.registry := along_of_ok (Same (·.registry)) ranSignatures
      _ = cyclic.registry := along_of_ok (Same (·.registry)) ranMembers
      _ = declared.registry := along_of_ok (Same (·.registry)) ranCycles
      _ = .empty := along_of_ok (Same (·.registry)) ranDeclare
  have registered : signed.Registered := by
    refine ⟨?_, ?_⟩
    · rw [noneYet]
      exact Registry.indexed_empty
    · rw [noneYet]
      exact nofun
  obtain ⟨registeredAfter, _, each⟩ :=
    registered_of_impls (registered_of_traits registered ranTraits) ranImpls clean
  exact ⟨registeredAfter, each⟩

end TraitCheck.Checker
