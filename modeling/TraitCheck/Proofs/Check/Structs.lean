import TraitCheck.Proofs.Check.Collecting
import TraitCheck.Proofs.Check.CyclicAliases

/-!
# The structs that collecting leaves

A struct is declared without fields, and its fields are added one after the other; a name that is
declared again is reported and left out. If no two items share a number, no other item touches the
struct. So whenever impls or functions are checked, a declared struct has each of the names that
were written in its declaration, once.
-/

namespace TraitCheck

variable {item : StructItem}

/-- The struct has the given labels, each once. -/
structure StructInfo.Lists (info : StructInfo) (names : List String) : Prop where
  nodup : (info.fields.map Prod.fst).Nodup
  mem_iff : ∀ name, name ∈ info.fields.map Prod.fst ↔ name ∈ names

namespace StructInfo

variable {info : StructInfo} {names : List String}

theorem Lists.perm_dedup (lists : info.Lists names) :
    (info.fields.map Prod.fst).Perm names.dedup := by
  refine (List.perm_ext_iff_of_nodup lists.nodup names.nodup_dedup).mpr fun name => ?_
  rw [lists.mem_iff, List.mem_dedup]

theorem isSome_field? (info : StructInfo) (name : String) :
    (info.field? name).isSome = true ↔ name ∈ info.fields.map Prod.fst := by
  unfold field?
  induction info.fields with
  | nil => simp
  | cons field rest ih =>
    obtain ⟨label, ty⟩ := field
    by_cases same : name = label
    · simp [same]
    · have differs : (name == label) = false := beq_false_of_ne same
      simp only [List.lookup_cons, differs, List.map_cons, List.mem_cons, same, false_or]
      exact ih

end StructInfo

namespace Checker

variable {before after : Checker} {items : List Item}

/-- A struct is declared with the given labels. -/
def HasStruct (checker : Checker) (decl : DefId) (names : List String) : Prop :=
  ∃ info, checker.structs.find? decl = some info ∧ info.Lists names

theorem hasStruct_of_collectField {entry : Field Ty} {names : List String}
    (has : before.HasStruct item.id names) (ran : collectField item entry before = .ok () after) :
    after.HasStruct item.id (names ++ [entry.name]) := by
  obtain ⟨info, found, lists⟩ := has
  obtain ⟨_, _, ⟨⟩, ran⟩ := bind_eq_ok.mp ran
  rw [found, Option.bind_some] at ran
  split at ran
  · next known =>
      cases ran
      refine ⟨info, found, lists.nodup, fun name => ?_⟩
      have listed := (lists.mem_iff _).mp ((info.isSome_field? _).mp known)
      rw [lists.mem_iff, List.mem_append, List.mem_singleton]
      exact ⟨Or.inl, fun either => either.elim id fun same => same ▸ listed⟩
  · next unknown =>
      obtain ⟨ty, middle, ranResolve, ⟨⟩⟩ := bind_eq_ok.mp ran
      obtain ⟨_, _, _, rfl⟩ := along_of_ok Draws ranResolve
      refine ⟨{ info with fields := info.fields ++ [(entry.name, ty)] }, ?_, ?_, fun name => ?_⟩
      · dsimp only
        rw [Table.find?_modify, if_pos rfl, found]
        rfl
      · have isNew : entry.name ∉ info.fields.map Prod.fst := fun listed =>
          unknown ((info.isSome_field? _).mpr listed)
        rw [List.map_append, List.map_singleton]
        exact List.nodup_append_comm.mp (List.nodup_cons.mpr ⟨isNew, lists.nodup⟩)
      · rw [List.map_append, List.mem_append, List.mem_append, lists.mem_iff]
        rfl

theorem hasStruct_of_collectFields {fields : List (Field Ty)} {names : List String}
    (has : before.HasStruct item.id names)
    (ran : fields.forM (collectField item) before = .ok () after) :
    after.HasStruct item.id (names ++ fields.map (·.name)) := by
  induction fields generalizing before names with
  | nil =>
    cases ran
    rwa [List.map_nil, List.append_nil]
  | cons entry rest ih =>
    obtain ⟨_, middle, ranEntry, ranRest⟩ := bind_eq_ok.mp ran
    have further := ih (hasStruct_of_collectField has ranEntry) ranRest
    rwa [List.append_assoc] at further

instance (decl : DefId) : Unmoved (·.structs.find? decl) := ⟨fun _ _ _ _ _ _ _ _ _ => rfl⟩

theorem same_collectMembers {item : Item} {decl : DefId} (other : item.id? ≠ some decl) :
    Along (Same (·.structs.find? decl)) (collectMembers item) := by
  refine along_collectMembers ?_
  rintro declared rfl checker change
  dsimp only
  rw [Table.find?_modify, if_neg fun same => other (congrArg some same)]

theorem hasStruct_of_collectMembers (distinct : (items.filterMap Item.id?).Nodup)
    (member : .struct item ∈ items) (has : before.HasStruct item.id [])
    (ran : items.forM collectMembers before = .ok () after) :
    after.HasStruct item.id (item.fields.map (·.name)) := by
  -- Neither the items before the struct nor those after it have its number.
  induction items generalizing before with
  | nil => cases member
  | cons first rest ih =>
    obtain ⟨_, middle, ranFirst, ranRest⟩ := bind_eq_ok.mp ran
    rcases List.mem_cons.mp member with rfl | inRest
    · have others : ∀ other ∈ rest, other.id? ≠ some item.id := fun other inRest same =>
        (List.nodup_cons.mp distinct).1 (List.mem_filterMap.mpr ⟨other, inRest, same⟩)
      obtain ⟨info, found, lists⟩ := hasStruct_of_collectFields has ranFirst
      have := along_forM fun other inRest => same_collectMembers (others other inRest)
      have same := along_of_ok (Same (·.structs.find? item.id)) ranRest
      exact ⟨info, same.trans found, lists⟩
    · have distinctRest : (rest.filterMap Item.id?).Nodup :=
        ((List.sublist_cons_self first rest).filterMap Item.id?).nodup distinct
      have other : first.id? ≠ some item.id := by
        intro same
        rw [List.filterMap_cons_some same] at distinct
        exact (List.nodup_cons.mp distinct).1 (List.mem_filterMap.mpr ⟨_, inRest, rfl⟩)
      obtain ⟨info, found, lists⟩ := has
      have := same_collectMembers other
      have same := along_of_ok (Same (·.structs.find? item.id)) ranFirst
      have hasMiddle : middle.HasStruct item.id [] := ⟨info, same.trans found, lists⟩
      exact ih distinctRest inRest hasMiddle ranRest

theorem hasStruct_of_declared (distinct : (items.filterMap Item.id?).Nodup)
    (member : .struct item ∈ items) (ran : items.forM declareItem before = .ok () after) :
    after.HasStruct item.id [] := by
  rw [forM_declareItem (missing_notMem_of_declared ran)] at ran
  cases ran
  have keys : ((items.filterMap Item.structEntry?).map Prod.fst).Nodup :=
    Item.nodup_keys distinct fun item entry made => by
      cases item with
      | struct item =>
        cases made
        rfl
      | _ => cases made
  refine ⟨{ name := item.name, generics := item.generics }, ?_, List.nodup_nil, fun name => Iff.rfl⟩
  exact (Table.find?_insertAll keys).mpr (.inl (List.mem_filterMap.mpr ⟨_, member, rfl⟩))

instance : Unmoved (·.structs) := ⟨fun _ _ _ _ _ _ _ _ _ => rfl⟩

instance (item : TraitItem) : Along (Same (·.structs)) (collectTrait item) := by
  have (methods : List MethodDecl) (assocTypes : List AssocDecl) :
      Along (Same (·.structs)) (addTrait item methods assocTypes) := ⟨fun _ => rfl⟩
  unfold collectTrait collectMethod collectAssoc
  infer_instance

instance (entry : Field DefId) : Along (Same (·.structs)) (collectImplMethod entry) := by
  have (found : Option Ty) : Along (Same (·.structs)) (match found with
      | some ty => pure ⟨entry.name, entry.content, ty, entry.span⟩
      | none => do
        report (.error .unboundVariable entry.span
          ("method `" ++ entry.name ++ "` refers to an unknown function " ++ entry.content.text))
        return ⟨entry.name, entry.content, ← fresh, entry.span⟩ : CheckM ImplMethod) := by
    cases found <;> infer_instance
  unfold collectImplMethod
  infer_instance

instance (item : ImplItem) (implementer : Ty) (methods : List ImplMethod)
    (assocTypes : List (Field Ty)) :
    Along (Same (·.structs)) (addImpl item implementer methods assocTypes) := by
  refine ⟨fun before => ?_⟩
  rcases before.registry.registerImpl_cases
      ⟨item.id, item.trait?, implementer, methods, assocTypes, item.span⟩ with
    ⟨trait, answered⟩ | ⟨number, registry, answered⟩
  all_goals
    rw [addImpl, finish, get_bind, answered]
    rfl

instance (item : ImplItem) : Along (Same (·.structs)) (collectImpl item) := by
  unfold collectImpl collectBinding
  infer_instance

theorem hasStruct_of_collect {settings : Settings} (distinct : (items.filterMap Item.id?).Nodup)
    (member : .struct item ∈ items) (ran : collect items (initial settings) = .ok () after) :
    after.HasStruct item.id (item.fields.map (·.name)) := by
  rcases of_collect ran with ⟨declared, cyclic, members, signed, traits, ranDeclare, ranCycles,
    ranMembers, ranSignatures, ranTraits, ranImpls⟩
  have sameCyclic : cyclic.structs = declared.structs := along_of_ok (Same (·.structs)) ranCycles
  have sameAfter : after.structs = members.structs :=
    calc after.structs
      _ = traits.structs := along_of_ok (Same (·.structs)) ranImpls
      _ = signed.structs := along_of_ok (Same (·.structs)) ranTraits
      _ = members.structs := along_of_ok (Same (·.structs)) ranSignatures
  have room : cyclic.HasStruct item.id [] := by
    obtain ⟨info, found, lists⟩ := hasStruct_of_declared distinct member ranDeclare
    exact ⟨info, sameCyclic ▸ found, lists⟩
  obtain ⟨info, found, lists⟩ := hasStruct_of_collectMembers distinct member room ranMembers
  exact ⟨info, sameAfter ▸ found, lists⟩

variable {settings : Settings} {α : Type} {task : Task α} {start : Checker}

section Reached

variable (reached : Reached settings items task start)
include reached

theorem collects_of_reached :
    (∃ after, collect items (initial settings) = .ok () after) ∨ task.stage = .collecting ∨
      (⟨task, start⟩ : Call) = ⟨.items items, initial settings⟩ := by
  induction reached with
  | start => exact .inr (.inr rfl)
  | @call _ _ caller callee before start reached called ih =>
    rcases ih with collects | stage | whole
    · exact .inl collects
    · exact .inr (.inl (Task.callsOnly_collecting stage _ _ called))
    · -- Collecting is the first call, and the others are made only if it has a result.
      cases whole
      change _ ∈ (Walk.call (.collect items) >>= _).calls _ at called
      rw [calls_bind] at called
      split at called
      · next middle ran => exact .inl ⟨middle, ran⟩
      · cases List.mem_singleton.mp called
        exact .inr (.inl rfl)

theorem sameDeclarations_of_reached
    (stage : task.stage = .checking) : SameDeclarations (collected settings items) start := by
  cases placed_of_reached reached with
  | whole => cases stage
  | collecting collecting =>
    rw [stage] at collecting
    cases collecting
  | checking _ _ same => exact same

theorem sameDeclarations_of_ok {result : α}
    (stage : task.stage = .checking) (ran : task.run start = .ok result after) :
    SameDeclarations start after := by
  cases placed_of_reached reached with
  | whole => cases stage
  | collecting collecting =>
    rw [stage] at collecting
    cases collecting
  | checking obeys ready _ =>
    exact (((holds task).keeps ready).changes obeys ran).sameDeclarations

/-- Whenever impls or functions are checked, a declared struct has the names written in its
declaration, each of them once. -/
theorem hasStruct_of_reached (distinct : (items.filterMap Item.id?).Nodup)
    (member : .struct item ∈ items)
    (stage : task.stage = .checking) : start.HasStruct item.id (item.fields.map (·.name)) := by
  have ⟨after, ran⟩ : ∃ after, collect items (initial settings) = .ok () after := by
    rcases collects_of_reached reached with collects | collecting | whole
    · exact collects
    · rw [stage] at collecting
      cases collecting
    · have wrong : task.stage = .whole := congrArg (fun call : Call => call.task.stage) whole
      rw [stage] at wrong
      cases wrong
  obtain ⟨info, found, lists⟩ := hasStruct_of_collect distinct member ran
  refine ⟨info, ?_, lists⟩
  rw [(sameDeclarations_of_reached reached stage).structs, collected, finish_of_ok ran]
  exact found

end Reached

end Checker

end TraitCheck
