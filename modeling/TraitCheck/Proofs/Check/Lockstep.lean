import TraitCheck.Proofs.Check.States

/-!
# Two checks side by side

What a check finds out does not depend on what it is told to report. Two states are `Alike` if they
differ only in the settings, the log and the trace, and in the order of entries in the tables of
names and spans. A step taken from two such states leads to two such states again, with the same
result, and both logs receive the same diagnostics, as far as the settings show them.

There is one way for the two runs to part. A line is composed only where steps are traced, and
composing it stops the check at a type that is not complete. That is the last case of `Outcomes`.
-/

namespace TraitCheck

variable {diagnostic : Diagnostic}

def Diagnostic.isUnused (diagnostic : Diagnostic) : Bool :=
  diagnostic.severity = .warning && diagnostic.code = .unusedVariable

/-- Whether the settings ask for a diagnostic. -/
def Settings.shows (settings : Settings) (diagnostic : Diagnostic) : Bool :=
  settings.warnUnused || !diagnostic.isUnused

/-- The log after adding diagnostics in order. -/
def Log.addAll (log : Log) (diagnostics : List Diagnostic) : Log := diagnostics.foldl Log.add log

theorem Log.addAll_grows (log : Log) (diagnostics : List Diagnostic) :
    log.addAll diagnostics = log ∨ log.total < (log.addAll diagnostics).total := by
  induction diagnostics generalizing log with
  | nil => exact .inl rfl
  | cons diagnostic rest ih =>
    right
    have first := Log.total_lt_add log diagnostic
    rcases ih (log.add diagnostic) with same | grew
    · exact first.trans_eq (congrArg Log.total same).symm
    · exact first.trans grew

theorem Log.addAll_append (log : Log) (first second : List Diagnostic) :
    log.addAll (first ++ second) = (log.addAll first).addAll second :=
  List.foldl_append

/-- A class of diagnostics that ordinary steps report: they are neither about cyclic aliases nor
about unused locals. -/
class Code.Plain (code : Code) : Prop where
  ne_cyclicDependency : code ≠ .cyclicDependency
  ne_unusedVariable : code ≠ .unusedVariable

instance : Code.typeMismatch.Plain := ⟨by decide, by decide⟩
instance : Code.infiniteType.Plain := ⟨by decide, by decide⟩
instance : Code.unboundVariable.Plain := ⟨by decide, by decide⟩
instance : Code.missingMethod.Plain := ⟨by decide, by decide⟩
instance : Code.missingField.Plain := ⟨by decide, by decide⟩
instance : Code.unknownField.Plain := ⟨by decide, by decide⟩
instance : Code.nonExhaustiveMatch.Plain := ⟨by decide, by decide⟩
instance : Code.unreachablePattern.Plain := ⟨by decide, by decide⟩
instance : Code.ambiguousType.Plain := ⟨by decide, by decide⟩
instance : Code.missingAssocType.Plain := ⟨by decide, by decide⟩
instance : Code.unknownTrait.Plain := ⟨by decide, by decide⟩
instance : Code.extraImplItem.Plain := ⟨by decide, by decide⟩
instance : Code.internal.Plain := ⟨by decide, by decide⟩

/-- A diagnostic that ordinary steps report. -/
class Diagnostic.Plain (diagnostic : Diagnostic) : Prop where
  plain : diagnostic.code.Plain

theorem Settings.shows_of_plain (settings : Settings) (diagnostic : Diagnostic)
    [plain : diagnostic.Plain] : settings.shows diagnostic = true := by
  simp [shows, Diagnostic.isUnused, plain.plain.ne_unusedVariable]

section Plain

variable {diagnostic : Diagnostic} {span : Span} {message : String} {code : Code}

instance [plain : code.Plain] : (Diagnostic.error code span message).Plain := ⟨plain⟩

instance [plain : code.Plain] : (Diagnostic.warning code span message).Plain :=
  ⟨plain⟩

instance [plain : diagnostic.Plain] : (diagnostic.withLabel span message).Plain := ⟨plain.plain⟩

instance [plain : diagnostic.Plain] : (diagnostic.withPrimaryMessage message).Plain := ⟨plain.plain⟩

instance [plain : diagnostic.Plain] : (diagnostic.withNote message).Plain := ⟨plain.plain⟩

instance [plain : diagnostic.Plain] : (diagnostic.withHelp message).Plain := ⟨plain.plain⟩

instance {α : Type} (option : Option α) (extend : α → Diagnostic) [plain : diagnostic.Plain]
    [extended : ∀ value, (extend value).Plain] : (option.elim diagnostic extend).Plain := by
  cases option with
  | none => exact plain
  | some value => exact extended value

end Plain

namespace Checker

/-- The parts of a state that belong to reporting, with the tables that are only asked for single
entries. -/
structure Surface where
  settings : Settings
  log : Log
  names : Table DefId String
  spans : Table DefId Span
  trace : List String

/-- The state with another surface. -/
def under (checker : Checker) (surface : Surface) : Checker :=
  { checker with
    settings := surface.settings
    log := surface.log
    names := surface.names
    spans := surface.spans
    trace := surface.trace }

/-- What settings and order can change in a state. -/
def surface (checker : Checker) : Surface :=
  ⟨checker.settings, checker.log, checker.names, checker.spans, checker.trace⟩

/-- Two states of checks under the given settings that differ only in their surface. -/
inductive Alike (left right : Settings) : Checker → Checker → Prop where
  | intro (checker : Checker) (surface : Surface) (ofLeft : checker.settings = left)
      (ofRight : surface.settings = right)
      (names : ∀ decl, surface.names.find? decl = checker.names.find? decl)
      (spans : ∀ decl, surface.spans.find? decl = checker.spans.find? decl) :
      Alike left right checker (checker.under surface)

variable {left right : Settings} {effects : Effects} {α β : Type}
  {first second first' second' : Checker}

theorem Alike.refl (ofSettings : first.settings = left) : Alike left left first first :=
  .intro first first.surface ofSettings ofSettings (fun _ => rfl) fun _ => rfl

section Alike

variable (alike : Alike left right first second)
include alike

theorem Alike.nameOf : first.nameOf = second.nameOf := by
  cases alike with
  | intro surface ofLeft ofRight names spans => exact funext fun decl => (names decl).symm

theorem Alike.typeText? (ty : Ty) : first.typeText? ty = second.typeText? ty := by
  have same := alike.nameOf
  cases alike with
  | intro surface ofLeft ofRight names spans =>
    rw [Checker.typeText?, Checker.typeText?, same]
    rfl

theorem Alike.itemName (decl : DefId) : first.itemName decl = second.itemName decl := by
  rw [Checker.itemName, Checker.itemName, alike.nameOf]

theorem Alike.spanOf? (decl : DefId) : first.spans.find? decl = second.spans.find? decl := by
  cases alike with
  | intro surface ofLeft ofRight names spans => exact (spans decl).symm

theorem Alike.change (change : Checker → Checker)
    (commutes :
      ∀ checker surface, change (checker.under surface) = (change checker).under surface) :
    Alike left right (change first) (change second) ∧ (change first).log = first.log ∧
      (change second).log = second.log := by
  have keeps : ∀ checker : Checker, (change checker).surface = checker.surface := fun checker => by
    have same := congrArg surface (commutes checker checker.surface)
    exact same
  have keepsLog : ∀ checker : Checker, (change checker).log = checker.log := fun checker =>
    congrArg Surface.log (keeps checker)
  refine ⟨?_, keepsLog first, keepsLog second⟩
  cases alike with
  | intro surface ofLeft ofRight names spans =>
    have sameNames := congrArg Surface.names (keeps first)
    have sameSpans := congrArg Surface.spans (keeps first)
    rw [commutes]
    refine .intro _ surface ((congrArg Surface.settings (keeps first)).trans ofLeft) ofRight ?_ ?_
    · exact fun decl => (names decl).trans (congrArg (Table.find? · decl) sameNames.symm)
    · exact fun decl => (spans decl).trans (congrArg (Table.find? · decl) sameSpans.symm)

end Alike

/-- What a step may do besides inferring. -/
structure Effects where
  /-- The diagnostics that it may report. -/
  reports : Diagnostic → Prop
  /-- Whether it leaves the aliases alone. -/
  fixesAliases : Bool

namespace Effects

def plain : Effects := ⟨Diagnostic.Plain, true⟩

/-- The effects of everything that follows the search for cyclic aliases. -/
def settled : Effects := ⟨(·.code ≠ .cyclicDependency), true⟩

def any : Effects := ⟨fun _ => True, false⟩

/-- Whatever has some effects at most has also the others at most. -/
structure Within (effects effects' : Effects) : Prop where
  reports : ∀ diagnostic, effects.reports diagnostic → effects'.reports diagnostic
  fixesAliases : effects'.fixesAliases = true → effects.fixesAliases = true

theorem within_any (effects : Effects) : effects.Within .any := ⟨fun _ _ => trivial, nofun⟩

theorem plain_within_settled : plain.Within .settled :=
  ⟨fun _ plain => plain.plain.ne_cyclicDependency, fun _ => rfl⟩

end Effects

/-- Two runs went from one pair of states to another: the states are alike in the end, and both logs
received the same diagnostics, as far as the settings show them. Nothing happened beyond the given
effects. -/
structure Together (left right : Settings) (effects : Effects)
    (first second first' second' : Checker) : Prop where
  alike : Alike left right first' second'
  aliases : effects.fixesAliases = true → first'.aliases = first.aliases
  logs : ∃ emitted : List Diagnostic, (∀ diagnostic ∈ emitted, effects.reports diagnostic) ∧
    first'.log = first.log.addAll (emitted.filter left.shows) ∧
    second'.log = second.log.addAll (emitted.filter right.shows)

theorem Together.of_silent (alike : Alike left right first' second')
    (aliases : effects.fixesAliases = true → first'.aliases = first.aliases)
    (sameFirst : first'.log = first.log) (sameSecond : second'.log = second.log) :
    Together left right effects first second first' second' :=
  ⟨alike, aliases, [], nofun, sameFirst, sameSecond⟩

theorem Together.trans {first'' second'' : Checker}
    (early : Together left right effects first second first' second')
    (late : Together left right effects first' second' first'' second'') :
    Together left right effects first second first'' second'' := by
  obtain ⟨_, aliasesEarly, emitted, allowedEarly, earlyFirst, earlySecond⟩ := early
  obtain ⟨alike, aliasesLate, further, allowedLate, lateFirst, lateSecond⟩ := late
  refine ⟨alike, fun fixed => (aliasesLate fixed).trans (aliasesEarly fixed), emitted ++ further,
    ?_, ?_, ?_⟩
  · intro diagnostic member
    exact (List.mem_append.mp member).elim (allowedEarly diagnostic) (allowedLate diagnostic)
  · rw [lateFirst, earlyFirst, List.filter_append, Log.addAll_append]
  · rw [lateSecond, earlySecond, List.filter_append, Log.addAll_append]

/-- The step stops at a type that is not complete. -/
def StopsIncomplete (result : EStateM.Result Fault Checker α) : Prop :=
  ∃ after, result = .error .incompleteType after

/-- The outcomes of a step that was taken from two states. -/
inductive Outcomes (left right : Settings) (effects : Effects) (good : α → Prop)
    (first second : Checker) :
    EStateM.Result Fault Checker α → EStateM.Result Fault Checker α → Prop where
  | ok {value : α} {first' second' : Checker} (holds : good value)
      (together : Together left right effects first second first' second') :
      Outcomes left right effects good first second (.ok value first') (.ok value second')
  | error {fault : Fault} {first' second' : Checker}
      (together : Together left right effects first second first' second') :
      Outcomes left right effects good first second (.error fault first') (.error fault second')
  | stops {result result' : EStateM.Result Fault Checker α} (apart : left.trace ≠ right.trace)
      (stopped : StopsIncomplete result ∨ StopsIncomplete result') :
      Outcomes left right effects good first second result result'

/-- Taken from states that are alike, a step has the same outcome. -/
def Agrees (left right : Settings) (effects : Effects) (step : CheckM α)
    (good : α → Prop) : Prop :=
  ∀ ⦃first second⦄, Alike left right first second →
    Outcomes left right effects good first second (step first) (step second)

section Rules

variable {step : CheckM α} {good : α → Prop}

theorem agrees_pure {value : α} (holds : good value) :
    Agrees left right effects (pure value) good :=
  fun _ _ alike => .ok holds (.of_silent alike (fun _ => rfl) rfl rfl)

theorem agrees_throw {fault : Fault} : Agrees left right effects (throw fault) good :=
  fun _ _ alike => .error (.of_silent alike (fun _ => rfl) rfl rfl)

theorem agrees_bind {next : α → CheckM β} {good' : β → Prop}
    (early : Agrees left right effects step good)
    (late : ∀ value, good value → Agrees left right effects (next value) good') :
    Agrees left right effects (step >>= next) good' := by
  intro first second alike
  have outcomes := early alike
  change Outcomes left right effects good' first second (EStateM.bind step next first)
    (EStateM.bind step next second)
  unfold EStateM.bind
  generalize step first = result at outcomes
  generalize step second = result' at outcomes
  cases outcomes with
  | @ok value _ _ holds together =>
    have further := late value holds together.alike
    dsimp only
    generalize next value _ = last at further
    generalize next value _ = last' at further
    cases further with
    | ok holds' together' => exact .ok holds' (together.trans together')
    | error together' => exact .error (together.trans together')
    | stops apart stopped => exact .stops apart stopped
  | error together => exact .error together
  | stops apart stopped =>
    refine .stops apart ?_
    rcases stopped with ⟨after, rfl⟩ | ⟨after, rfl⟩
    · exact .inl ⟨after, rfl⟩
    · exact .inr ⟨after, rfl⟩

theorem Agrees.mono {effects' : Effects} {good' : α → Prop}
    (agrees : Agrees left right effects step good)
    (within : effects.Within effects')
    (keeps : ∀ value, good value → good' value) : Agrees left right effects' step good' := by
  have together : ∀ {first second first' second' : Checker},
      Together left right effects first second first' second' →
        Together left right effects' first second first' second' := by
    rintro _ _ _ _ ⟨alike, aliases, emitted, each, logs⟩
    exact ⟨alike, fun fixed => aliases (within.fixesAliases fixed), emitted,
      fun diagnostic member => within.reports diagnostic (each diagnostic member), logs⟩
  intro first second alike
  have outcomes := agrees alike
  generalize step first = result at outcomes
  generalize step second = result' at outcomes
  cases outcomes with
  | ok holds both => exact .ok (keeps _ holds) (together both)
  | error both => exact .error (together both)
  | stops apart stopped => exact .stops apart stopped

theorem agrees_get {next : Checker → CheckM α}
    (same : ∀ first second, Alike left right first second → next first = next second)
    (agrees : ∀ checker, Agrees left right effects (next checker) good) :
    Agrees left right effects (get >>= next) good := by
  intro first second alike
  change Outcomes left right effects good first second (next first first) (next second second)
  rw [same first second alike]
  exact agrees second alike

theorem agrees_modifyGet {change : Checker → α × Checker}
    (values : ∀ checker surface, (change (checker.under surface)).1 = (change checker).1)
    (commutes : ∀ checker surface,
      (change (checker.under surface)).2 = (change checker).2.under surface)
    (aliases : effects.fixesAliases = true → ∀ checker, (change checker).2.aliases =
      checker.aliases)
    (holds : ∀ checker, good (change checker).1) :
    Agrees left right effects (modifyGet change) good := by
  intro first second alike
  obtain ⟨after, sameFirst, sameSecond⟩ :=
    alike.change (fun checker => (change checker).2) commutes
  have sameValue : (change second).1 = (change first).1 := by
    cases alike with
    | intro surface ofLeft ofRight names spans => exact values first surface
  change Outcomes left right effects good first second (.ok (change first).1 (change first).2)
    (.ok (change second).1 (change second).2)
  rw [sameValue]
  exact .ok (holds first) (.of_silent after (fun fixed => aliases fixed first) sameFirst sameSecond)

theorem agrees_modify {change : Checker → Checker}
    (commutes : ∀ checker surface, change (checker.under surface) = (change checker).under surface)
    (aliases : effects.fixesAliases = true → ∀ checker, (change checker).aliases =
      checker.aliases) :
    Agrees left right effects (modify change) fun _ => True :=
  agrees_modifyGet (fun _ _ => rfl) commutes aliases fun _ => trivial

theorem Alike.report (alike : Alike left right first second)
    (isAllowed : effects.reports diagnostic) (shownLeft : left.shows diagnostic = true)
    (shownRight : right.shows diagnostic = true) :
    Together left right effects first second { first with log := first.log.add diagnostic }
      { second with log := second.log.add diagnostic } := by
  refine ⟨?_, fun _ => rfl, [diagnostic], by simpa using isAllowed, ?_, ?_⟩
  · cases alike with
    | intro surface ofLeft ofRight names spans =>
      exact .intro { first with log := first.log.add diagnostic }
        { surface with log := surface.log.add diagnostic } ofLeft ofRight names spans
  · rw [List.filter_singleton, shownLeft]
    rfl
  · rw [List.filter_singleton, shownRight]
    rfl

theorem agrees_report (isAllowed : effects.reports diagnostic)
    (shownLeft : left.shows diagnostic = true) (shownRight : right.shows diagnostic = true) :
    Agrees left right effects (report diagnostic) fun _ => True :=
  fun _ _ alike => .ok trivial (alike.report isAllowed shownLeft shownRight)

theorem agrees_forM {each : β → CheckM Unit} {list : List β}
    (agrees : ∀ value ∈ list, Agrees left right effects (each value) fun _ => True) :
    Agrees left right effects (list.forM each) fun _ => True := by
  induction list with
  | nil => exact agrees_pure trivial
  | cons value rest ih =>
    refine agrees_bind (agrees value List.mem_cons_self) fun _ _ => ?_
    exact ih fun other member => agrees other (List.mem_cons_of_mem _ member)

end Rules

/-- A step that has the same outcome from states that are alike, and reports nothing about cyclic
aliases or unused locals. -/
class Lockstep (left right : Settings) (step : CheckM α) : Prop where
  agrees : Agrees left right .plain step fun _ => True

section Lockstep

variable {step : CheckM α}

instance (value : α) : Lockstep left right (pure value : CheckM α) := ⟨agrees_pure trivial⟩

instance (fault : Fault) : Lockstep left right (throw fault : CheckM α) := ⟨agrees_throw⟩

theorem lockstep_bind {next : α → CheckM β} [early : Lockstep left right step]
    (late : ∀ value, Lockstep left right (next value)) : Lockstep left right (step >>= next) :=
  ⟨agrees_bind early.agrees fun value _ => (late value).agrees⟩

instance (next : α → CheckM β) [Lockstep left right step]
    [late : ∀ value, Lockstep left right (next value)] : Lockstep left right (step >>= next) :=
  lockstep_bind late

instance (condition : Prop) [Decidable condition] (yes no : CheckM α) [Lockstep left right yes]
    [Lockstep left right no] : Lockstep left right (if condition then yes else no) := by
  split <;> infer_instance

theorem lockstep_get {next : Checker → CheckM α}
    (same : ∀ first second, Alike left right first second → next first = next second)
    (steps : ∀ checker, Lockstep left right (next checker)) :
    Lockstep left right (get >>= next) :=
  ⟨agrees_get same fun checker => (steps checker).agrees⟩

theorem lockstep_read {next : Checker → CheckM α}
    (same : ∀ checker surface, next (checker.under surface) = next checker)
    (steps : ∀ checker, Lockstep left right (next checker)) :
    Lockstep left right (get >>= next) := by
  refine lockstep_get (fun first _ alike => ?_) steps
  cases alike with
  | intro surface => exact (same first surface).symm

theorem lockstep_modifyGet {change : Checker → α × Checker}
    (values : ∀ checker surface, (change (checker.under surface)).1 = (change checker).1)
    (commutes : ∀ checker surface,
      (change (checker.under surface)).2 = (change checker).2.under surface)
    (aliases : ∀ checker, (change checker).2.aliases = checker.aliases) :
    Lockstep left right (modifyGet change : CheckM α) :=
  ⟨agrees_modifyGet values commutes (fun _ => aliases) fun _ => trivial⟩

theorem lockstep_modify {change : Checker → Checker}
    (commutes : ∀ checker surface, change (checker.under surface) = (change checker).under surface)
    (aliases : ∀ checker, (change checker).aliases = checker.aliases) :
    Lockstep left right (modify change : CheckM Unit) :=
  ⟨agrees_modify commutes fun _ => aliases⟩

instance [plain : diagnostic.Plain] : Lockstep left right (report diagnostic) :=
  ⟨agrees_report plain (left.shows_of_plain diagnostic) (right.shows_of_plain diagnostic)⟩

instance (each : β → CheckM Unit) (list : List β)
    [steps : ∀ value, Lockstep left right (each value)] :
    Lockstep left right (list.forM each) :=
  ⟨agrees_forM fun value _ => (steps value).agrees⟩

instance (each : β → CheckM α) (list : List β) [steps : ∀ value, Lockstep left right (each value)] :
    Lockstep left right (list.mapM each) := by
  induction list with
  | nil => exact inferInstanceAs (Lockstep left right (pure []))
  | cons value rest ih =>
    rw [List.mapM_cons]
    infer_instance

/-- A step that only looks at the state. It may stop at a type. -/
class Inspects (step : CheckM α) : Prop where
  same : ∀ before, (∃ value, step before = .ok value before) ∨
    step before = .error .incompleteType before

instance (value : α) : Inspects (pure value : CheckM α) := ⟨fun _ => Or.inl ⟨value, rfl⟩⟩

instance : Inspects (get : CheckM Checker) := ⟨fun before => Or.inl ⟨before, rfl⟩⟩

instance (option : Option α) : Inspects (ofComplete option) := by
  cases option with
  | none => exact ⟨fun _ => Or.inr rfl⟩
  | some value => exact inferInstanceAs (Inspects (pure value))

instance (next : α → CheckM β) [early : Inspects step] [late : ∀ value, Inspects (next value)] :
    Inspects (step >>= next) where
  same := by
    intro before
    change (∃ value, EStateM.bind step next before = _) ∨ EStateM.bind step next before = _
    unfold EStateM.bind
    rcases early.same before with ⟨value, ran⟩ | stopped
    · rw [ran]
      exact (late value).same before
    · rw [stopped]
      exact .inr rfl

instance (ty : Ty) : Inspects (typeText ty) := by
  unfold typeText
  infer_instance

def addTrace (text : String) : CheckM Unit :=
  modify fun checker => { checker with trace := checker.trace ++ [text] }

/-- Where only one run composes the line, it stops or goes on as if it had not. -/
theorem traceStep_inspects (line : CheckM String) [inspects : Inspects line] (before : Checker) :
    (∃ trace, traceStep line before = .ok () { before with trace }) ∨
      before.settings.trace = true ∧ StopsIncomplete (traceStep line before) := by
  change (∃ trace,
    (if before.settings.trace then line >>= addTrace else pure () : CheckM Unit) before
    = _) ∨ _ ∧ StopsIncomplete ((if _ then line >>= addTrace else pure () : CheckM Unit) before)
  split
  · next traced =>
      rcases inspects.same before with ⟨text, ran⟩ | stopped
      · exact .inl ⟨before.trace ++ [text], bind_eq_ok.mpr ⟨text, before, ran, rfl⟩⟩
      · refine .inr ⟨traced, before, ?_⟩
        change EStateM.bind line _ before = _
        rw [EStateM.bind, stopped]
  · exact .inl ⟨before.trace, rfl⟩

theorem Alike.trace (alike : Alike left right first second) (trace trace' : List String) :
    Alike left right { first with trace } { second with trace := trace' } := by
  cases alike with
  | intro surface ofLeft ofRight names spans =>
    exact .intro { first with trace } { surface with trace := trace' } ofLeft ofRight names spans

theorem agrees_addTrace {text : String} :
    Agrees left right effects (addTrace text) fun _ => True :=
  fun _ _ alike => .ok trivial (.of_silent (alike.trace _ _) (fun _ => rfl) rfl rfl)

instance (line : CheckM String) [inspects : Inspects line] [steps : Lockstep left right line] :
    Lockstep left right (traceStep line) where
  agrees := by
    by_cases apart : left.trace = right.trace
    · refine agrees_get (fun first second alike => ?_) fun checker => ?_
      · cases alike with
        | intro surface ofLeft ofRight names spans =>
          have same : (first.under surface).settings.trace = first.settings.trace := by
            rw [ofLeft, apart, ← ofRight]
            rfl
          rw [same]
      · split
        · exact agrees_bind steps.agrees fun _ _ => agrees_addTrace
        · exact agrees_pure trivial
    · intro first second alike
      rcases traceStep_inspects line first with ⟨trace, ran⟩ | ⟨_, stopped⟩
      · rcases traceStep_inspects line second with ⟨trace', ran'⟩ | ⟨_, stopped'⟩
        · rw [ran, ran']
          exact .ok trivial (.of_silent (alike.trace trace trace') (fun _ => rfl) rfl rfl)
        · exact .stops apart (.inr stopped')
      · exact .stops apart (.inl stopped)

/-- No step looks at the log, so all that one does to it is to add to it. -/
instance (priority := low) [steps : ∀ settings, Lockstep settings settings step] : Logs step where
  grows := by
    intro before result after ran
    have alike : Alike before.settings before.settings before before := .refl rfl
    have outcomes := (steps before.settings).agrees alike
    rw [ran] at outcomes
    cases outcomes with
    | ok _ together =>
      obtain ⟨_, _, emitted, _, grown, _⟩ := together
      rw [grown]
      exact Log.addAll_grows _ _
    | stops apart _ => exact absurd rfl apart

end Lockstep

end Checker

end TraitCheck
