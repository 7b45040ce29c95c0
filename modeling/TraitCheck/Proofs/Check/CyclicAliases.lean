import TraitCheck.Proofs.AliasCycles
import TraitCheck.Proofs.Check.Emissions

/-!
# Marked and reported cycles

If the items of a module have different numbers, the aliases that a check marks as cyclic are those
that depend on themselves. Nothing that follows the search for cycles marks an alias, and none of it
reports a cycle, so the marks and the reports are the same after the collection and after the whole
check, however it ends.
-/

namespace TraitCheck

namespace Alias

variable {aliases : List AliasItem}

theorem find?_markCyclic (table : Table DefId AliasInfo) (group : List AliasItem) (decl : DefId) :
    (markCyclic table group).find? decl = (table.find? decl).map fun info =>
      if decl ∈ group.map (·.id) then { info with cyclic := true } else info := by
  induction group generalizing table with
  | nil => simp [markCyclic]
  | cons item rest ih =>
    change (markCyclic (table.modify item.id _) rest).find? decl = _
    rw [ih, Table.find?_modify]
    by_cases same : item.id = decl
    · subst same
      cases table.find? item.id <;> simp
    · simp [same, Ne.symm same]

theorem foldl_markCyclic (table : Table DefId AliasInfo) (groups : List (List AliasItem)) :
    groups.foldl markCyclic table = markCyclic table groups.flatten := by
  unfold markCyclic
  rw [List.foldl_flatten]

theorem mem_ids_cycles (distinct : (aliases.map (·.id)).Nodup) {item : AliasItem}
    (member : item ∈ aliases) :
    item.id ∈ (cycles aliases).flatten.map (·.id) ↔ DependsOn aliases item.id item.id := by
  have classes := cycleClasses distinct
  rw [← classes.cyclic item member]
  constructor
  · intro listed
    rcases List.mem_map.mp listed with ⟨other, inClasses, same⟩
    rcases List.mem_flatten.mp inClasses with ⟨group, isClass, inGroup⟩
    have declared := (classes.inOrder group isClass).2.subset inGroup
    have equal := List.inj_on_of_nodup_map distinct declared member same
    exact ⟨group, isClass, equal ▸ inGroup⟩
  · rintro ⟨group, isClass, inGroup⟩
    exact List.mem_map_of_mem (List.mem_flatten_of_mem isClass inGroup)

/-- The report about a class of cyclic aliases: an error at the first member, with a secondary label
at each other one. -/
structure Reports (group : List AliasItem) (diagnostic : Diagnostic) : Prop where
  severity : diagnostic.severity = .error
  code : diagnostic.code = .cyclicDependency
  labels : ∃ first others, group = first :: others ∧
    diagnostic.labels = ⟨first.span, "", true⟩ :: others.map fun item =>
      ⟨item.span, "`" ++ item.name ++ "`" ++ " is part of the cycle", false⟩

theorem reports_cycleDiagnostic (first : AliasItem) (others : List AliasItem) :
    Reports (first :: others) (cycleDiagnostic first others) := by
  unfold cycleDiagnostic
  simp only [foldl_withLabel]
  exact ⟨rfl, rfl, first, others, rfl, rfl⟩

theorem forall₂_reports (distinct : (aliases.map (·.id)).Nodup) :
    List.Forall₂ Reports (cycles aliases) (cycleDiagnostics aliases) := by
  have inhabited : ∀ group ∈ cycles aliases, group ≠ [] := fun group isClass =>
    ((cycleClasses distinct).inOrder group isClass).1
  unfold cycleDiagnostics
  generalize cycles aliases = groups at inhabited ⊢
  induction groups with
  | nil => exact .nil
  | cons group rest ih =>
    have further := ih fun other isClass => inhabited other (List.mem_cons_of_mem group isClass)
    cases group with
    | nil => exact absurd rfl (inhabited [] List.mem_cons_self)
    | cons first others => exact .cons (reports_cycleDiagnostic first others) further

end Alias

namespace Checker

variable {items : List Item} {settings : Settings} {checker : Checker} {α : Type} {after : Checker}

/-- The cyclic ones among the aliases are found: exactly they are marked and have no expansion, and
among the diagnostics there is one report for each class of them, in the order of the classes. -/
structure CyclesFound (settings : Settings) (aliases : List AliasItem) (checker : Checker) :
    Prop where
  marked : ∀ item ∈ aliases, ∃ info, checker.aliases.find? item.id = some info ∧
    (info.cyclic = true ↔ Alias.DependsOn aliases item.id item.id)
  refused : ∀ item ∈ aliases, ∀ args,
    (checker.resolveAlias item.id args).1 = some none ↔ Alias.DependsOn aliases item.id item.id
  reported : ∃ (classes : List (List AliasItem)) (emitted : List Diagnostic),
    Alias.CycleClasses aliases classes ∧
    checker.log = (Log.empty settings.maxErrors).addAll emitted ∧
    List.Forall₂ Alias.Reports classes (emitted.filter (·.code = .cyclicDependency))

theorem resolveAlias_eq_none {decl : DefId} {args : List Ty} {info : AliasInfo}
    (found : checker.aliases.find? decl = some info) :
    (checker.resolveAlias decl args).1 = some none ↔ info.cyclic = true := by
  unfold resolveAlias
  rw [found]
  by_cases cyclic : info.cyclic = true <;> simp [cyclic]

def withCycles (checker : Checker) (aliases : List AliasItem) : Checker :=
  { checker with
    aliases := (Alias.cycles aliases).foldl Alias.markCyclic checker.aliases
    log := checker.log.addAll (Alias.cycleDiagnostics aliases) }

theorem forM_complete {aliases : List AliasItem} :
    (aliases.forM fun item => discard (ofComplete item.target.complete?)) checker = .ok () after ↔
      (∀ item ∈ aliases, item.target.isComplete = true) ∧ after = checker := by
  induction aliases with
  | nil =>
    constructor
    · rintro ⟨⟩
      exact ⟨List.forall_mem_nil _, rfl⟩
    · rintro ⟨_, rfl⟩
      rfl
  | cons item rest ih =>
    change (discard (ofComplete item.target.complete?) >>= fun _ => List.forM rest _)
      checker = _ ↔ _
    rw [discard_eq, Ty.complete?]
    by_cases complete : item.target.isComplete = true
    · rw [if_pos complete, List.forall_mem_cons, and_iff_right complete]
      exact ih
    · rw [if_neg complete]
      constructor
      · rintro ⟨⟩
      · intro both
        exact absurd (both.1 item List.mem_cons_self) complete

theorem checkAliasCycles_eq_ok {aliases : List AliasItem} :
    checkAliasCycles aliases checker = .ok () after ↔
      (∀ item ∈ aliases, item.target.isComplete = true) ∧ after = checker.withCycles aliases := by
  have marks : (markCycles (Alias.cycles aliases) >>= fun _ =>
      emit (Alias.cycleDiagnostics aliases)) checker = .ok () (checker.withCycles aliases) := by
    have shown : (Alias.cycleDiagnostics aliases).filter checker.settings.shows =
        Alias.cycleDiagnostics aliases := by
      refine List.filter_eq_self.mpr fun diagnostic member => ?_
      exact shows_of_cyclic _ (Alias.code_of_mem_cycleDiagnostics member)
    change EStateM.Result.ok () { checker with
      aliases := _
      log := checker.log.addAll (List.filter _ _) } = _
    rw [shown]
    rfl
  rw [checkAliasCycles_eq, bind_eq_ok]
  constructor
  · rintro ⟨_, _, ran, ranRest⟩
    rcases forM_complete.mp ran with ⟨complete, rfl⟩
    rw [marks] at ranRest
    cases ranRest
    exact ⟨complete, rfl⟩
  · rintro ⟨complete, rfl⟩
    exact ⟨(), checker, forM_complete.mpr ⟨complete, rfl⟩, marks⟩

theorem missing_notMem_of_declared
    (ran : items.forM declareItem checker = .ok () after) : Item.missing ∉ items := by
  induction items generalizing checker with
  | nil => exact List.not_mem_nil
  | cons item rest ih =>
    rcases bind_eq_ok.mp ran with ⟨_, middle, ranItem, ranRest⟩
    rw [List.mem_cons, not_or]
    refine ⟨?_, ih ranRest⟩
    rintro rfl
    cases ranItem

theorem Agrees.together {step : CheckM α} {effects : Effects} {good : α → Prop} {value : α}
    (agrees : Agrees settings settings effects step good)
    (ofSettings : checker.settings = settings) (ran : step checker = .ok value after) :
    Together settings settings effects checker checker after after := by
  have outcomes := agrees (.refl ofSettings)
  rw [ran] at outcomes
  cases outcomes with
  | ok holds together => exact together
  | stops apart => exact absurd rfl apart

theorem cyclesFound_of_together (distinct : (items.filterMap Item.id?).Nodup)
    (together : Together settings settings .settled
      (((initial settings).withItems items).withCycles (Item.aliases items))
      (((initial settings).withItems items).withCycles (Item.aliases items)) checker checker) :
    CyclesFound settings (Item.aliases items) checker := by
  have distinctAliases : ((Item.aliases items).map (·.id)).Nodup :=
    Item.nodup_keys distinct fun item _ found => by
      cases item <;> cases found
      rfl
  rcases together with ⟨_, aliases, later, silent, logs, _⟩
  have marked : ∀ item ∈ Item.aliases items, ∃ info, checker.aliases.find? item.id = some info ∧
      (info.cyclic = true ↔ Alias.DependsOn (Item.aliases items) item.id item.id) := by
    intro item member
    have declared : ((initial settings).withItems items).aliases.find? item.id =
        some { target := item.target } := by
      have keys : ((items.filterMap Item.aliasEntry?).map Prod.fst).Nodup :=
        Item.nodup_keys distinct fun item _ found => by
          cases item <;> cases found
          rfl
      rcases List.mem_filterMap.mp member with ⟨declaration, inItems, isAlias⟩
      refine (Table.find?_insertAll keys).mpr (.inl ?_)
      refine List.mem_filterMap.mpr ⟨declaration, inItems, ?_⟩
      cases declaration <;> cases isAlias
      rfl
    rw [aliases rfl, withCycles, Alias.foldl_markCyclic, Alias.find?_markCyclic, declared,
      ← Alias.mem_ids_cycles distinctAliases member]
    refine ⟨_, rfl, ?_⟩
    split
    · next listed => exact iff_of_true rfl listed
    · next unlisted => exact iff_of_false Bool.false_ne_true unlisted
  refine ⟨marked, fun item member args => ?_, ?_⟩
  · rcases marked item member with ⟨info, found, cyclic⟩
    rw [resolveAlias_eq_none found, cyclic]
  · refine ⟨Alias.cycles (Item.aliases items), items.filterMap Item.foreignReport? ++
      Alias.cycleDiagnostics (Item.aliases items) ++ later.filter settings.shows,
      Alias.cycleClasses distinctAliases, ?_, ?_⟩
    · rw [logs, Log.addAll_append, Log.addAll_append]
      rfl
    · have early :
          (items.filterMap Item.foreignReport?).filter (·.code = .cyclicDependency) = [] := by
        refine List.filter_eq_nil_iff.mpr fun diagnostic member => ?_
        rcases List.mem_filterMap.mp member with ⟨item, _, reported⟩
        cases item <;> cases reported
        exact (by decide : ¬decide (Code.internal = .cyclicDependency) = true)
      have late : (later.filter settings.shows).filter (·.code = .cyclicDependency) = [] := by
        refine List.filter_eq_nil_iff.mpr fun diagnostic member => ?_
        have other : diagnostic.code ≠ .cyclicDependency :=
          silent diagnostic (List.mem_of_mem_filter member)
        simpa using other
      have own : (Alias.cycleDiagnostics (Item.aliases items)).filter
          (·.code = .cyclicDependency) = Alias.cycleDiagnostics (Item.aliases items) := by
        refine List.filter_eq_self.mpr fun diagnostic member => ?_
        simpa using Alias.code_of_mem_cycleDiagnostics member
      rw [List.filter_append, List.filter_append, early, late, own, List.nil_append,
        List.append_nil]
      exact Alias.forall₂_reports distinctAliases

/-- The search for cyclic aliases is exact, once the collection is over and also once the check is
over. The check comes to the search if all items are there and all targets are complete. -/
theorem aliasCycles_exact (settings : Settings) (distinct : (items.filterMap Item.id?).Nodup) :
    (∀ collected, collect items (initial settings) = .ok () collected →
      CyclesFound settings (Item.aliases items) collected) ∧
    (Item.missing ∉ items → (∀ item ∈ Item.aliases items, item.target.isComplete = true) →
      CyclesFound settings (Item.aliases items) (check settings (some items))) := by
  constructor
  · intro collected ran
    rw [collect_eq, bind_eq_ok] at ran
    rcases ran with ⟨_, _, ranDeclare, ran⟩
    rw [forM_declareItem (missing_notMem_of_declared ranDeclare)] at ranDeclare
    cases ranDeclare
    rcases bind_eq_ok.mp ran with ⟨_, _, ranCycles, ranContents⟩
    rcases checkAliasCycles_eq_ok.mp ranCycles with ⟨_, rfl⟩
    exact cyclesFound_of_together distinct
      ((agrees_collectContents items).together rfl ranContents)
  · intro present complete
    have ran : checkItems items (initial settings) = settle items
        (((initial settings).withItems items).withCycles (Item.aliases items)) := by
      rw [checkItems_eq]
      change EStateM.bind (items.forM declareItem) _ _ = _
      rw [EStateM.bind, forM_declareItem present]
      change EStateM.bind (checkAliasCycles _) _ _ = _
      rw [EStateM.bind, checkAliasCycles_eq_ok.mpr ⟨complete, rfl⟩]
    rw [check_eq_conclude, ran]
    have alike : Alike settings settings
        (((initial settings).withItems items).withCycles (Item.aliases items))
        (((initial settings).withItems items).withCycles (Item.aliases items)) := .refl rfl
    exact cyclesFound_of_together distinct ((agrees_settle items alike).conclude
      (fun _ plain => plain.plain.ne_cyclicDependency) fun apart => absurd rfl apart)

/-- Two aliases that refer to each other inside of other types, one that only mentions them, and one
that refers to itself, between other items. -/
def tangledItems : List Item :=
  [.alias ⟨⟨1⟩, "Forth", .empty, [], .tuple [.int, .named ⟨4⟩ []]⟩,
    .struct ⟨⟨2⟩, "Point", .empty, [], [⟨"x", .named ⟨3⟩ [], .empty⟩]⟩,
    .alias ⟨⟨3⟩, "Over", .empty, [], .named ⟨1⟩ []⟩,
    .alias ⟨⟨4⟩, "Back", .empty, [], .fn [.record [("next", .named ⟨1⟩ [])]] .int⟩,
    .alias ⟨⟨5⟩, "Self", .empty, [], .named ⟨2⟩ [.named ⟨5⟩ []]⟩]

theorem aliasCycles_exact_tangled :
    (tangledItems.filterMap Item.id?).Nodup ∧ Item.missing ∉ tangledItems ∧
      (∀ item ∈ Item.aliases tangledItems, item.target.isComplete = true) ∧
      CyclesFound {} (Item.aliases tangledItems) (check {} (some tangledItems)) ∧
      ((check {} (some tangledItems)).resolveAlias ⟨1⟩ []).1 = some none := by
  have distinct : (tangledItems.filterMap Item.id?).Nodup := by decide
  have present : Item.missing ∉ tangledItems := by simp [tangledItems]
  have complete : ∀ item ∈ Item.aliases tangledItems, item.target.isComplete = true := by decide
  have found := (aliasCycles_exact {} distinct).2 present complete
  refine ⟨distinct, present, complete, found, ?_⟩
  have forth : Alias.Refers (Item.aliases tangledItems) ⟨1⟩ ⟨4⟩ := by
    refine ⟨_, .head _, _, .tail _ (.tail _ (.head _)), rfl, rfl, ?_⟩
    exact .elem (.tail _ (.head _)) (.named [])
  have back : Alias.Refers (Item.aliases tangledItems) ⟨4⟩ ⟨1⟩ := by
    refine ⟨_, .tail _ (.tail _ (.head _)), _, .head _, rfl, rfl, ?_⟩
    exact .param (.head _) (.field (.head _) (.named []))
  exact (found.refused _ (.head _) []).mpr (.head forth (.single back))

end Checker

end TraitCheck
