import TraitCheck.Proofs.Check.Bindings
import TraitCheck.Proofs.Check.Parallel

/-!
# What whole checks emit

Two steps of a check report more than ordinary diagnostics: the search for cyclic aliases and the
search for unused locals. Each of them is a change of the state followed by a list of diagnostics,
of which the settings show all or some. With them the whole check has the same outcome from states
that are alike, and its diagnostics come in three parts: those of the declared items, one for each
group of cyclic aliases, and those of everything after.
-/

namespace TraitCheck

variable {diagnostic : Diagnostic}

theorem Table.find?_insert_congr {Key Value : Type} [DecidableEq Key]
    {first second : Table Key Value} (same : ∀ key, second.find? key = first.find? key) (key : Key)
    (value : Value) (other : Key) :
    (second.insert key value).find? other = (first.insert key value).find? other := by
  rw [Table.find?_insert, Table.find?_insert, same]

namespace Alias

/-- One diagnostic for each group of cyclic aliases. -/
def cycleDiagnostics (aliases : List AliasItem) : List Diagnostic :=
  (cycles aliases).filterMap fun
    | [] => none
    | first :: others => some (cycleDiagnostic first others)

/-- The table with the aliases of a group marked. -/
def markCyclic (table : Table DefId AliasInfo) (group : List AliasItem) : Table DefId AliasInfo :=
  group.foldl (fun table item => table.modify item.id fun info => { info with cyclic := true })
    table

theorem foldl_withLabel (others : List AliasItem) (label : AliasItem → String)
    (diagnostic : Diagnostic) :
    others.foldl (fun (diagnostic : Diagnostic) item =>
        diagnostic.withLabel item.span (label item)) diagnostic =
      { diagnostic with
        labels := diagnostic.labels ++ others.map fun item => ⟨item.span, label item, false⟩ } := by
  induction others generalizing diagnostic with
  | nil => simp
  | cons item rest ih =>
    rw [List.foldl_cons, ih, List.map_cons, Diagnostic.withLabel, List.append_assoc]
    rfl

theorem code_cycleDiagnostic (first : AliasItem) (others : List AliasItem) :
    (cycleDiagnostic first others).code = .cyclicDependency := by
  unfold cycleDiagnostic
  simp only [foldl_withLabel]
  rfl

theorem code_of_mem_cycleDiagnostics {aliases : List AliasItem}
    (member : diagnostic ∈ cycleDiagnostics aliases) : diagnostic.code = .cyclicDependency := by
  obtain ⟨group, _, made⟩ := List.mem_filterMap.mp member
  cases group with
  | nil => cases made
  | cons first others =>
    cases made
    exact code_cycleDiagnostic first others

end Alias

namespace Item

variable {items : List Item}

/-- The number of an item. -/
def id? (item : Item) : Option DefId := item.header?.map (·.2.1)

def naming? : Item → Option (DefId × String)
  | .function item => some (item.id, item.name)
  | .struct item => some (item.id, item.name)
  | .enum item => some (item.id, item.name)
  | .alias item => some (item.id, item.name)
  | .trait item => some (item.id, item.name)
  | .missing | .impl _ | .foreign _ _ _ => none

def placing? (item : Item) : Option (DefId × Span) := item.header?.map (·.2)

def structEntry? : Item → Option (DefId × StructInfo)
  | .struct item => some (item.id, { name := item.name, generics := item.generics })
  | _ => none

def enumEntry? : Item → Option (DefId × EnumInfo)
  | .enum item => some (item.id, { name := item.name, generics := item.generics })
  | _ => none

def aliasEntry? : Item → Option (DefId × AliasInfo)
  | .alias item => some (item.id, { target := item.target })
  | _ => none

def foreignReport? : Item → Option Diagnostic
  | .foreign _ _ span =>
    some ((Diagnostic.error .internal span "unsupported syntax").withNote "<dump>")
  | _ => none

theorem nodup_keys {α : Type} {record? : Item → Option α} {key : α → DefId}
    (distinct : (items.filterMap id?).Nodup)
    (fits : ∀ item entry, record? item = some entry → item.id? = some (key entry)) :
    ((items.filterMap record?).map key).Nodup := by
  have restricted : (items.filterMap record?).map key =
      (items.filter (record? · |>.isSome)).filterMap id? := by
    rw [List.map_filterMap, List.filterMap_filter]
    refine List.filterMap_congr fun item _ => ?_
    rcases found : record? item with _ | entry
    · simp
    · simp [fits item entry found]
  rw [restricted]
  exact (List.filter_sublist.filterMap id?).nodup distinct

end Item

namespace Checker

variable {left right : Settings} {effects : Effects} {α : Type} {items : List Item}
  {first second : Checker} {locals : List LocalInfo}

/-- Reports diagnostics as far as the settings show them. -/
def emit (diagnostics : List Diagnostic) : CheckM Unit :=
  modify fun checker =>
    { checker with log := checker.log.addAll (diagnostics.filter checker.settings.shows) }

theorem Alike.settings (alike : Alike left right first second) :
    first.settings = left ∧ second.settings = right := by
  cases alike with
  | intro surface ofLeft ofRight names spans => exact ⟨ofLeft, ofRight⟩

theorem Alike.withLog (alike : Alike left right first second) (log log' : Log) :
    Alike left right { first with log } { second with log := log' } := by
  cases alike with
  | intro surface ofLeft ofRight names spans =>
    exact .intro { first with log } { surface with log := log' } ofLeft ofRight names spans

theorem agrees_emit {diagnostics : List Diagnostic}
    (each : ∀ diagnostic ∈ diagnostics, effects.reports diagnostic) :
    Agrees left right effects (emit diagnostics) fun _ => True := by
  intro first second alike
  obtain ⟨ofLeft, ofRight⟩ := alike.settings
  refine .ok trivial ⟨alike.withLog _ _, fun _ => rfl, diagnostics, each, ?_, ?_⟩
  · rw [← ofLeft]
  · rw [← ofRight]

theorem emit_append (early late : List Diagnostic) :
    emit (early ++ late) = (do emit early; emit late) := by
  funext checker
  change EStateM.Result.ok () { checker with log := checker.log.addAll (List.filter _ _) } = _
  rw [List.filter_append, Log.addAll_append]
  rfl

instance (decl : DefId) (name : String) : Lockstep left right (declareName decl name) where
  agrees := by
    intro first second alike
    refine .ok trivial (.of_silent ?_ (fun _ => rfl) rfl rfl)
    cases alike with
    | intro surface ofLeft ofRight names spans =>
      exact .intro { first with names := first.names.insert decl name }
        { surface with names := surface.names.insert decl name } ofLeft ofRight
        (Table.find?_insert_congr names decl name) spans

theorem lockstep_declareSpan (decl : DefId) (span : Span) : Lockstep left right
    (modify fun checker : Checker => { checker with spans := checker.spans.insert decl span }) where
  agrees := by
    intro first second alike
    refine .ok trivial (.of_silent ?_ (fun _ => rfl) rfl rfl)
    cases alike with
    | intro surface ofLeft ofRight names spans =>
      exact .intro { first with spans := first.spans.insert decl span }
        { surface with spans := surface.spans.insert decl span } ofLeft ofRight names
        (Table.find?_insert_congr spans decl span)

theorem Lockstep.any (step : CheckM α) [steps : Lockstep left right step] :
    Agrees left right .any step fun _ => True :=
  steps.agrees.mono (Effects.within_any _) fun _ _ => trivial

theorem agrees_declareItem (item : Item) :
    Agrees left right .any (declareItem item) fun _ => True := by
  have := @lockstep_declareSpan left right
  unfold declareItem
  refine agrees_bind (Lockstep.any _) fun header _ => agrees_bind (Lockstep.any _) fun _ _ => ?_
  split
  case h_2 | h_3 | h_4 =>
    exact agrees_bind (Lockstep.any _) fun _ _ => agrees_modify (fun _ _ => rfl) nofun
  all_goals exact Lockstep.any _

/-- The state after declaring items. -/
def withItems (checker : Checker) (items : List Item) : Checker :=
  { checker with
    names := checker.names.insertAll (items.filterMap Item.naming?)
    spans := checker.spans.insertAll (items.filterMap Item.placing?)
    structs := checker.structs.insertAll (items.filterMap Item.structEntry?)
    enums := checker.enums.insertAll (items.filterMap Item.enumEntry?)
    aliases := checker.aliases.insertAll (items.filterMap Item.aliasEntry?)
    log := checker.log.addAll (items.filterMap Item.foreignReport?) }

theorem forM_declareItem (present : Item.missing ∉ items) (checker : Checker) :
    items.forM declareItem checker = .ok () (checker.withItems items) := by
  induction items generalizing checker with
  | nil => rfl
  | cons item rest ih =>
    rw [List.mem_cons, not_or] at present
    have declared : declareItem item checker = .ok () (checker.withItems [item]) := by
      cases item with
      | missing => exact absurd rfl present.1
      | _ => rfl
    have split : checker.withItems (item :: rest) = (checker.withItems [item]).withItems rest := by
      cases item <;> rfl
    rw [split, ← ih present.2]
    change EStateM.bind (declareItem item) _ checker = _
    rw [EStateM.bind, declared]

instance (step : CheckM α) [Lockstep left right step] : Lockstep left right (discard step) := by
  rw [discard_eq]
  infer_instance

def markCycles (groups : List (List AliasItem)) : CheckM Unit :=
  modify fun checker => { checker with aliases := groups.foldl Alias.markCyclic checker.aliases }

theorem shows_of_cyclic (settings : Settings) (cyclic : diagnostic.code = .cyclicDependency) :
    settings.shows diagnostic = true := by
  have other : diagnostic.code ≠ .unusedVariable := by
    rw [cyclic]
    decide
  simp [Settings.shows, Diagnostic.isUnused, other]

theorem checkAliasCycles_eq (aliases : List AliasItem) :
    checkAliasCycles aliases = (do
      aliases.forM fun item => discard (ofComplete item.target.complete?)
      markCycles (Alias.cycles aliases)
      emit (Alias.cycleDiagnostics aliases)) := by
  unfold checkAliasCycles
  refine congrArg _ (funext fun _ => ?_)
  unfold Alias.cycleDiagnostics
  induction Alias.cycles aliases with
  | nil => rfl
  | cons group rest ih =>
    change _ >>= (fun _ => List.forM rest _) = _
    rw [ih]
    cases group with
    | nil => rfl
    | cons first others =>
      have shown : ∀ settings : Settings,
          settings.shows (Alias.cycleDiagnostic first others) = true := fun settings =>
        shows_of_cyclic settings (Alias.code_cycleDiagnostic first others)
      funext checker
      change _ = EStateM.Result.ok () { checker with
        aliases := _
        log := checker.log.addAll (List.filter _ (Alias.cycleDiagnostic first others :: _)) }
      rw [List.filter_cons_of_pos (shown _)]
      rfl

theorem agrees_checkAliasCycles (aliases : List AliasItem) :
    Agrees left right .any (checkAliasCycles aliases) fun _ => True := by
  rw [checkAliasCycles_eq]
  refine agrees_bind (Lockstep.any _) fun _ _ => ?_
  exact agrees_bind (agrees_modify (fun _ _ => rfl) nofun) fun _ _ => agrees_emit fun _ _ => trivial

/-- The warning about a local, unless the local is used or its name starts with an underscore. -/
def unusedWarning? (info : LocalInfo) : Option Diagnostic :=
  if info.used || info.name.startsWith "_" then none
  else some ((Diagnostic.warning .unusedVariable info.span
    ("unused variable: `" ++ info.name ++ "`")).withHelp
    ("if this is intentional, prefix it with an underscore: `_" ++ info.name ++ "`"))

/-- The warnings about unused locals. -/
def unusedWarnings (locals : List LocalInfo) : List Diagnostic := locals.filterMap unusedWarning?

theorem isUnused_of_mem_unusedWarnings
    (member : diagnostic ∈ unusedWarnings locals) : diagnostic.isUnused = true := by
  obtain ⟨info, _, made⟩ := List.mem_filterMap.mp member
  unfold unusedWarning? at made
  split at made
  · cases made
  · cases made
    rfl

theorem forM_unusedWarning {checker : Checker} (warns : checker.settings.warnUnused = true) :
    (locals.forM fun info => ((unusedWarning? info).elim (pure ()) report : CheckM Unit)) checker =
      emit (unusedWarnings locals) checker := by
  induction locals generalizing checker with
  | nil => rfl
  | cons info rest ih =>
    change ((unusedWarning? info).elim (pure ()) report >>= fun _ => List.forM rest _) checker = _
    rcases unused : unusedWarning? info with _ | diagnostic
    · rw [unusedWarnings, List.filterMap_cons_none unused]
      exact ih warns
    · have shown : checker.settings.shows diagnostic = true := by simp [Settings.shows, warns]
      rw [unusedWarnings, List.filterMap_cons_some unused, ← List.singleton_append, emit_append]
      have warned : emit [diagnostic] checker = report diagnostic checker := by
        change EStateM.Result.ok () { checker with log := checker.log.addAll (List.filter _ _) } = _
        rw [List.filter_singleton, shown]
        rfl
      change EStateM.bind _ _ checker = EStateM.bind _ _ checker
      rw [EStateM.bind, EStateM.bind, warned]
      exact ih warns

/-- Unused locals are always found; it is up to the settings whether they show. -/
theorem checkUnused_eq :
    checkUnused = (do emit (unusedWarnings (← get).locals.values)) := by
  have each : ∀ info : LocalInfo, (unless info.used || info.name.startsWith "_" do
      report ((Diagnostic.warning .unusedVariable info.span
        ("unused variable: `" ++ info.name ++ "`")).withHelp
        ("if this is intentional, prefix it with an underscore: `_" ++ info.name ++ "`"))) =
        (unusedWarning? info).elim (pure ()) report := by
    intro info
    unfold unusedWarning?
    split <;> rfl
  funext checker
  change (if checker.settings.warnUnused then _ else pure () : CheckM Unit) checker =
    emit (unusedWarnings checker.locals.values) checker
  split
  · next warns =>
      rw [← forM_unusedWarning warns]
      simp only [each]
  · next silent =>
      have hidden : (unusedWarnings checker.locals.values).filter checker.settings.shows = [] := by
        refine List.filter_eq_nil_iff.mpr fun diagnostic member => ?_
        simp [Settings.shows, silent, isUnused_of_mem_unusedWarnings member]
      change EStateM.Result.ok () checker = .ok () { checker with
        log := checker.log.addAll (List.filter _ _) }
      rw [hidden]
      rfl

theorem Lockstep.settled (step : CheckM α) [steps : Lockstep left right step] :
    Agrees left right .settled step fun _ => True :=
  steps.agrees.mono Effects.plain_within_settled fun _ _ => trivial

theorem agrees_checkUnused :
    Agrees left right .settled checkUnused fun _ => True := by
  rw [checkUnused_eq]
  refine agrees_get (fun _ _ alike => ?_) fun checker => agrees_emit fun diagnostic member => ?_
  · cases alike
    rfl
  · have unused := isUnused_of_mem_unusedWarnings member
    simp only [Diagnostic.isUnused, Bool.and_eq_true, decide_eq_true_eq] at unused
    change diagnostic.code ≠ _
    rw [unused.2]
    decide

theorem agrees_checkBody (item : FunctionItem) (signature : Signature) :
    Agrees left right .settled (checkBody item signature) fun _ => True := by
  refine agrees_bind (Lockstep.settled _) fun result _ => ?_
  refine agrees_bind (Lockstep.settled _) fun body _ => ?_
  refine agrees_bind (Lockstep.settled _) fun _ _ => ?_
  exact agrees_bind agrees_checkUnused fun _ _ => Lockstep.settled _

theorem agrees_checkFunction (item : FunctionItem) :
    Agrees left right .settled (checkFunction item) fun _ => True := by
  refine agrees_get (fun _ _ alike => ?_) fun checker => ?_
  · cases alike
    rfl
  · split
    · exact agrees_pure trivial
    · split
      · exact agrees_pure trivial
      · exact agrees_checkBody item _

/-- What is left of the collection once the cyclic aliases are marked. -/
def collectContents (items : List Item) : CheckM Unit := do
  items.forM collectMembers
  (Item.functions items).forM collectSignature
  (Item.traits items).forM collectTrait
  (Item.impls items).forM collectImpl

/-- What a check does once aliases are marked. -/
def settle (items : List Item) : CheckM Unit := do
  collectContents items
  checkImpls
  (Item.functions items).forM checkFunction

theorem collect_eq (items : List Item) :
    collect items = (do
      items.forM declareItem
      checkAliasCycles (Item.aliases items)
      collectContents items) := rfl

theorem checkItems_eq (items : List Item) :
    checkItems items = (do
      items.forM declareItem
      checkAliasCycles (Item.aliases items)
      settle items) := by
  simp only [checkItems, collect_eq, settle, bind_assoc]

theorem agrees_collectContents (items : List Item) :
    Agrees left right .settled (collectContents items) fun _ => True := by
  unfold collectContents
  exact Lockstep.settled _

theorem agrees_settle (items : List Item) :
    Agrees left right .settled (settle items) fun _ => True := by
  refine agrees_bind (agrees_collectContents items) fun _ _ => ?_
  refine agrees_bind (Lockstep.settled _) fun _ _ => ?_
  exact agrees_forM fun item _ => agrees_checkFunction item

theorem agrees_checkItems (items : List Item) :
    Agrees left right .any (checkItems items) fun _ => True := by
  rw [checkItems_eq]
  refine agrees_bind (agrees_forM fun item _ => agrees_declareItem item) fun _ _ => ?_
  refine agrees_bind (agrees_checkAliasCycles _) fun _ _ => ?_
  exact (agrees_settle items).mono (Effects.within_any _) fun _ _ => trivial

/-- The state in which a check ends, given how the check of the items ended. -/
def conclude : EStateM.Result Fault Checker Unit → Checker
  | .ok _ checker => checker
  | .error _ checker => { checker with log := checker.log.add (faultDiagnostic checker.current) }

theorem check_eq_conclude (settings : Settings) (items : List Item) :
    check settings (some items) = conclude (checkItems items (initial settings)) := by
  rw [check_some]
  cases checkItems items (initial settings) <;> rfl

instance (current : Option Span) : (faultDiagnostic current).Plain := by
  unfold faultDiagnostic
  infer_instance

/-- Where no run stopped because of its trace, the checks end alike. -/
theorem Outcomes.conclude {good : Unit → Prop} {result result' : EStateM.Result Fault Checker Unit}
    (outcomes : Outcomes left right effects good first second result result')
    (allows : ∀ diagnostic : Diagnostic, diagnostic.Plain → effects.reports diagnostic)
    (goesOn : left.trace ≠ right.trace → ¬StopsIncomplete result ∧ ¬StopsIncomplete result') :
    Together left right effects first second (Checker.conclude result)
    (Checker.conclude result') := by
  cases outcomes with
  | ok _ together => exact together
  | @error fault first' second' together =>
    have same : faultDiagnostic second'.current = faultDiagnostic first'.current := by
      cases together.alike
      rfl
    have reported := together.alike.report (allows (faultDiagnostic first'.current) inferInstance)
      (left.shows_of_plain _) (right.shows_of_plain _)
    refine together.trans ?_
    rwa [Checker.conclude, Checker.conclude, same]
  | stops apart stopped => exact absurd stopped (not_or.mpr (goesOn apart))

theorem alike_initial (left right : Settings) : Alike left right (initial left) (initial right) :=
  .intro (initial left) (initial right).surface rfl rfl (fun _ => rfl) fun _ => rfl

end Checker

end TraitCheck
