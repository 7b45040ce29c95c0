import TraitCheck.Checker.Infer
import TraitCheck.Proofs.Locals
import TraitCheck.Proofs.Unification.Completeness

/-!
# Runs without diagnostics

A run of a step is quiet if the step gives a result and reports nothing. Reports only ever add to
the log, so a sequence of steps runs quietly exactly if each of them does (`runs_bind`). The class
`Logs` holds the condition on steps that this needs.

What a step leaves alone is a relation between states that holds `Along` the step. Instances say so
for every relation that what the step does is nothing to, and are found by resolution.
-/

namespace TraitCheck

variable {before : Checker} {expected ty : Ty} {done : Unit} {failure : Option UnifyError}
  {handle : UnifyError → CheckM Unit}
variable {after : Checker} {found result : Ty} {span : Span} {text : String} {line : CheckM String}
  {error : UnifyError}

/-- Grows with every report. -/
def Log.total (log : Log) : Nat := log.errorCount + log.items.length

theorem Log.total_lt_add (log : Log) (diagnostic : Diagnostic) :
    log.total < (log.add diagnostic).total := by
  unfold Log.add Log.total
  split
  · dsimp only
    split
    · simp
    · simp
      omega
  · simp

namespace Checker

variable {α β : Type} {next : α → CheckM β} {step : CheckM α}

/-- A step gives a result without reporting anything. -/
structure Runs (step : CheckM α) (before : Checker) (result : α) (after : Checker) : Prop where
  ok : step before = .ok result after
  quiet : after.log = before.log

/-- A step either leaves the log alone or adds to it. -/
class Logs (step : CheckM α) : Prop where
  grows : ∀ ⦃before result after⦄, step before = .ok result after →
    after.log = before.log ∨ before.log.total < after.log.total

theorem Runs.unique {after' : Checker} {result result' : α}
    (ran : Runs step before result after) (ran' : Runs step before result' after') :
    result = result' ∧ after = after' := by
  have same := ran.ok.symm.trans ran'.ok
  cases same
  exact ⟨rfl, rfl⟩

theorem bind_eq_ok {result : β} : (step >>= next) before = .ok result after ↔
      ∃ value middle, step before = .ok value middle ∧ next value middle = .ok result after := by
  change EStateM.bind step next before = _ ↔ _
  rw [EStateM.bind]
  rcases step before with ⟨value, middle⟩ | ⟨fault, middle⟩ <;> simp

theorem get_bind {next : Checker → CheckM α} :
    ((get : CheckM Checker) >>= next) before = next before before :=
  rfl

/-- The state that a step leaves. -/
def finish (step : CheckM α) (before : Checker) : Checker :=
  match step before with
  | .ok _ after => after
  | .error _ after => after

theorem finish_bind (step : CheckM α) (next : α → CheckM β) (before : Checker) :
    finish (step >>= next) before =
      match step before with
      | .ok value middle => finish (next value) middle
      | .error _ middle => middle := by
  change finish (EStateM.bind step next) before = _
  unfold finish EStateM.bind
  cases step before <;> rfl

theorem finish_of_ok {value : α} (ran : step before = .ok value after) :
    finish step before = after := by
  rw [finish, ran]

/-- A relation between states that holds from step to step, whatever is traced. -/
class Steady (rel : Checker → Checker → Prop) : Prop where
  refl (checker : Checker) : rel checker checker
  trans {first second third : Checker} : rel first second → rel second third → rel first third
  trace (checker : Checker) (trace : List String) : rel checker { checker with trace }

/-- A relation that reports are nothing to. -/
class Reporting (rel : Checker → Checker → Prop) : Prop where
  report (checker : Checker) (diagnostic : Diagnostic) :
    rel checker { checker with log := checker.log.add diagnostic }

/-- A relation that new variables and bindings are nothing to. -/
class Solving (rel : Checker → Checker → Prop) : Prop where
  take (checker : Checker) (supply : Supply) : rel checker { checker with supply }
  solve (checker : Checker) (subst : Subst) : rel checker { checker with subst }

/-- A relation that the locals are nothing to. -/
class Naming (rel : Checker → Checker → Prop) : Prop where
  name (checker : Checker) (locals : Locals) : rel checker { checker with locals }

/-- A relation holds between the states in which a step starts and ends. -/
class Along (rel : Checker → Checker → Prop) (step : CheckM α) : Prop where
  ends : ∀ before, rel before (finish step before)

theorem along_of_ok (rel : Checker → Checker → Prop) {value : α}
    [along : Along rel step] (ran : step before = .ok value after) : rel before after :=
  finish_of_ok ran ▸ along.ends before

section Along

variable {rel : Checker → Checker → Prop} [Steady rel]

instance (value : α) : Along rel (pure value : CheckM α) := ⟨Steady.refl⟩

instance (fault : Fault) : Along rel (throw fault : CheckM α) := ⟨Steady.refl⟩

instance : Along rel (get : CheckM Checker) := ⟨Steady.refl⟩

instance : Along rel (modify fun checker => { checker with trace := checker.trace ++ [text] }) :=
  ⟨fun before => Steady.trace before _⟩

instance [Reporting rel] (diagnostic : Diagnostic) : Along rel (report diagnostic) :=
  ⟨fun before => Reporting.report before diagnostic⟩

instance (step : CheckM α) (next : α → CheckM β) [first : Along rel step]
    [second : ∀ value, Along rel (next value)] : Along rel (step >>= next) where
  ends before := by
    have early := first.ends before
    rw [finish_bind]
    unfold finish at early
    generalize step before = outcome at early ⊢
    rcases outcome with ⟨value, middle⟩ | ⟨fault, middle⟩
    · exact Steady.trans early ((second value).ends middle)
    · exact early

instance (condition : Prop) [Decidable condition] (yes no : CheckM α) [Along rel yes]
    [Along rel no] : Along rel (if condition then yes else no) := by
  split <;> infer_instance

theorem along_forM {each : β → CheckM Unit} {list : List β}
    (every : ∀ value ∈ list, Along rel (each value)) : Along rel (list.forM each) := by
  induction list with
  | nil => exact inferInstanceAs (Along rel (pure ()))
  | cons value rest ih =>
    have := every value List.mem_cons_self
    have := ih fun other inRest => every other (List.mem_cons_of_mem _ inRest)
    exact inferInstanceAs (Along rel (each value >>= fun _ => rest.forM each))

instance (each : β → CheckM Unit) [∀ value, Along rel (each value)] (list : List β) :
    Along rel (list.forM each) :=
  along_forM fun _ _ => inferInstance

instance (each : β → CheckM α) [∀ value, Along rel (each value)] (list : List β) :
    Along rel (list.mapM each) := by
  induction list with
  | nil => exact inferInstanceAs (Along rel (pure []))
  | cons value rest ih =>
    rw [List.mapM_cons]
    infer_instance

theorem discard_eq (step : CheckM α) : discard step = (step >>= fun _ => pure PUnit.unit) := by
  funext before
  change EStateM.map (fun _ => PUnit.unit) step before =
    EStateM.bind step (fun _ => EStateM.pure PUnit.unit) before
  unfold EStateM.map EStateM.bind
  cases step before <;> rfl

instance (step : CheckM α) [Along rel step] : Along rel (discard step) := by
  rw [discard_eq]
  infer_instance

end Along

/-- The log is as it was or has more in it. -/
def Grew (before after : Checker) : Prop :=
  after.log = before.log ∨ before.log.total < after.log.total

theorem Grew.trans {first second third : Checker} (early : Grew first second)
    (late : Grew second third) : Grew first third := by
  rcases early with same | grew <;> rcases late with same' | grew'
  · exact .inl (same'.trans same)
  · exact .inr (same ▸ grew')
  · exact .inr (same' ▸ grew)
  · exact .inr (grew.trans grew')

instance : Steady Grew where
  refl _ := Or.inl rfl
  trans := Grew.trans
  trace _ _ := Or.inl rfl

instance : Reporting Grew where
  report _ _ := Or.inr (Log.total_lt_add _ _)

instance : Solving Grew where
  take _ _ := Or.inl rfl
  solve _ _ := Or.inl rfl

instance : Naming Grew where
  name _ _ := Or.inl rfl

instance [Along Grew step] : Logs step where
  grows _ _ _ ran := along_of_ok Grew ran

/-- Of what follows a step only the part that the step can lead to has to log. -/
theorem logs_bind [first : Logs step]
    (second : ∀ value before middle, step before = .ok value middle → Logs (next value)) :
    Logs (step >>= next) where
  grows := by
    intro before result after ran
    obtain ⟨value, middle, ranFirst, ranSecond⟩ := bind_eq_ok.mp ran
    exact Grew.trans (first.grows ranFirst)
      ((second value before middle ranFirst).grows ranSecond)

instance (step : CheckM α) (next : α → CheckM β) [Logs step]
    [second : ∀ value, Logs (next value)] : Logs (step >>= next) :=
  logs_bind fun value _ _ _ => second value

instance (condition : Prop) [Decidable condition] (yes no : CheckM α) [Logs yes] [Logs no] :
    Logs (if condition then yes else no) := by
  split <;> infer_instance

theorem Runs.of_bind [first : Logs step]
    (second : ∀ value before middle, step before = .ok value middle → Logs (next value))
    {result : β} (ran : Runs (step >>= next) before result after) :
    ∃ value middle, Runs step before value middle ∧ Runs (next value) middle result after := by
  obtain ⟨ok, quiet⟩ := ran
  obtain ⟨value, middle, ranFirst, ranSecond⟩ := bind_eq_ok.mp ok
  have early := first.grows ranFirst
  have late := (second value before middle ranFirst).grows ranSecond
  have sameTotal : after.log.total = before.log.total := by rw [quiet]
  have sameFirst : middle.log = before.log := by
    rcases early with same | grew
    · exact same
    · rcases late with same' | grew'
      · rw [← same'] at grew
        omega
      · omega
  exact ⟨value, middle, ⟨ranFirst, sameFirst⟩, ⟨ranSecond, quiet.trans sameFirst.symm⟩⟩

theorem runs_bind [Logs step] [second : ∀ value, Logs (next value)] {result : β} :
    Runs (step >>= next) before result after ↔
      ∃ value middle, Runs step before value middle ∧ Runs (next value) middle result after := by
  constructor
  · exact Runs.of_bind fun value _ _ _ => second value
  · rintro ⟨value, middle, ranFirst, ranSecond⟩
    exact ⟨bind_eq_ok.mpr ⟨value, middle, ranFirst.ok, ranSecond.ok⟩,
      ranSecond.quiet.trans ranFirst.quiet⟩

@[simp]
theorem runs_pure {value result : α} :
    Runs (pure value) before result after ↔ result = value ∧ after = before := by
  constructor
  · rintro ⟨⟨⟩, _⟩
    exact ⟨rfl, rfl⟩
  · rintro ⟨rfl, rfl⟩
    exact ⟨rfl, rfl⟩

@[simp]
theorem runs_get {result : Checker} :
    Runs get before result after ↔ result = before ∧ after = before := by
  constructor
  · rintro ⟨⟨⟩, _⟩
    exact ⟨rfl, rfl⟩
  · rintro ⟨rfl, rfl⟩
    exact ⟨rfl, rfl⟩

@[simp]
theorem not_runs_throw {fault : Fault} {result : α} : ¬Runs (throw fault) before result after := by
  rintro ⟨⟨⟩, _⟩

@[simp]
theorem not_runs_report {diagnostic : Diagnostic} :
    ¬Runs (report diagnostic) before done after := by
  rintro ⟨⟨⟩, quiet⟩
  have louder := Log.total_lt_add before.log diagnostic
  have same : (before.log.add diagnostic).total = before.log.total := congrArg Log.total quiet
  omega

theorem runs_modifyGet {change : Checker → α × Checker}
    (same : ∀ checker, (change checker).2.log = checker.log) {result : α} :
    Runs (modifyGet change) before result after ↔ (result, after) = change before := by
  constructor
  · rintro ⟨⟨⟩, _⟩
    rfl
  · intro changed
    refine ⟨?_, ?_⟩
    · change EStateM.Result.ok (change before).1 (change before).2 = _
      rw [← changed]
    · have := same before
      rwa [← changed] at this

variable {rel : Checker → Checker → Prop} [Steady rel] {checker : Checker}

instance (option : Option α) : Along rel (ofComplete option) := by
  cases option with
  | none => exact inferInstanceAs (Along rel (throw _))
  | some value => exact inferInstanceAs (Along rel (pure value))

@[simp]
theorem runs_ofComplete {option : Option α} {result : α} :
    Runs (ofComplete option) before result after ↔ option = some result ∧ after = before := by
  cases option with
  | none => simp [ofComplete]
  | some value => simp [ofComplete, eq_comm]

instance : Along rel (solved ty) := by
  unfold solved
  infer_instance

instance : Along rel (shallow ty) := by
  unfold shallow
  infer_instance

instance : Along rel (typeText ty) := by
  unfold typeText
  infer_instance

theorem runs_solved :
    Runs (solved ty) before result after ↔
      before.subst.applied? ty = some result ∧ after = before := by
  simp [solved, runs_bind, and_comm]

theorem runs_typeText {result : String} :
    Runs (typeText ty) before result after ↔
      before.typeText? ty = some result ∧ after = before := by
  simp [typeText, runs_bind, and_comm]

instance [Along rel line] : Along rel (traceStep line) := by
  unfold traceStep
  infer_instance

theorem Runs.of_traceStep [Logs line]
    (reads : ∀ text middle, Runs line before text middle → middle = before)
    (ran : Runs (traceStep line) before done after) : ∃ trace, after = { before with trace } := by
  simp only [traceStep, runs_bind, runs_get] at ran
  obtain ⟨_, _, ⟨rfl, rfl⟩, ran⟩ := ran
  split at ran
  · rw [runs_bind] at ran
    obtain ⟨text, middle, ranLine, changed⟩ := ran
    cases reads text middle ranLine
    cases changed.ok
    exact ⟨_, rfl⟩
  · rw [runs_pure] at ran
    exact ⟨_, ran.2⟩

theorem runs_traceStep [Logs line]
    (composed : before.settings.trace = true → ∃ text, Runs line before text before) :
    ∃ trace, Runs (traceStep line) before () { before with trace } := by
  by_cases traced : before.settings.trace = true
  · obtain ⟨text, ranLine⟩ := composed traced
    refine ⟨before.trace ++ [text], ?_⟩
    rw [traceStep, runs_bind]
    refine ⟨before, before, by simp, ?_⟩
    rw [if_pos traced, runs_bind]
    exact ⟨text, before, ranLine, ⟨rfl, rfl⟩⟩
  · exact ⟨before.trace, by simp [traceStep, runs_bind, traced]⟩

theorem exists_typeText (inside : checker.subst.Within (·.isPresent = true))
    (present : ty.isPresent = true) : ∃ text, checker.typeText? ty = some text := by
  have solvable : checker.subst.applied? ty = some (checker.subst.apply ty) :=
    if_pos (inside.applies present)
  have solvedPresent := inside.isPresent_apply present
  refine ⟨(checker.subst.apply ty).render checker.nameOf, ?_⟩
  rw [typeText?, solvable, Option.bind_some, Ty.render?, Ty.complete?,
    if_pos (Ty.isComplete_of_isPresent solvedPresent), Option.map_some]

/-- What is left to do once two types were compared: a failure is traced, unless it stops the
check. -/
def passOn (failure : Option UnifyError) : CheckM (Option UnifyError) :=
  match failure with
  | some error =>
    if error.fault = .incomplete then do
      let _ ← (throw .incompleteType : CheckM Unit)
      let _ ← traceStep (pure ("  failed: " ++ error.message))
      pure failure
    else do
      let _ ← traceStep (pure ("  failed: " ++ error.message))
      pure failure
  | none => pure failure

def comparing (expected found : Ty) : CheckM String := do
  return "unify " ++ (← typeText expected) ++ " ~ " ++ (← typeText found)

theorem unify_eq (expected found : Ty) :
    unify expected found = (do
      traceStep (comparing expected found)
      let failure ← modifyGet fun checker =>
        ((checker.subst.unify expected found).2,
          { checker with subst := (checker.subst.unify expected found).1 })
      passOn failure) := by
  unfold unify
  refine congrArg _ (funext fun _ => congrArg _ (funext fun failure => ?_))
  cases failure <;> rfl

instance : Along rel (comparing expected found) := by
  unfold comparing
  infer_instance

instance [Solving rel] : Along rel (modifyGet fun checker : Checker =>
    ((checker.subst.unify expected found).2,
      { checker with subst := (checker.subst.unify expected found).1 }) : CheckM _) :=
  ⟨fun before => Solving.solve before _⟩

instance : Along rel (passOn failure) := by
  cases failure <;> (unfold passOn; infer_instance)

instance [Solving rel] : Along rel (unify expected found) := by
  rw [unify_eq]
  infer_instance

theorem runs_comparing :
    Runs (comparing expected found) before text after ↔
      ∃ first second, before.typeText? expected = some first ∧
        before.typeText? found = some second ∧ text = "unify " ++ first ++ " ~ " ++ second ∧
        after = before := by
  simp only [comparing, runs_bind, runs_typeText, runs_pure]
  constructor
  · rintro ⟨first, _, ⟨hasFirst, rfl⟩, second, _, ⟨hasSecond, rfl⟩, same, rfl⟩
    exact ⟨first, second, hasFirst, hasSecond, same, rfl⟩
  · rintro ⟨first, second, hasFirst, hasSecond, same, rfl⟩
    exact ⟨first, after, ⟨hasFirst, rfl⟩, second, after, ⟨hasSecond, rfl⟩, same, rfl⟩

theorem Runs.of_passOn {result : Option UnifyError}
    (ran : Runs (passOn failure) before result after) :
    result = failure ∧ ∃ trace, after = { before with trace } := by
  cases failure with
  | none =>
    rw [passOn, runs_pure] at ran
    exact ⟨ran.1, before.trace, ran.2⟩
  | some error =>
    rw [passOn] at ran
    split at ran
    · rw [runs_bind] at ran
      obtain ⟨_, _, stopped, _⟩ := ran
      exact (not_runs_throw stopped).elim
    · simp only [runs_bind, runs_pure] at ran
      obtain ⟨_, middle, traced, same, rfl⟩ := ran
      exact ⟨same, traced.of_traceStep (by simp)⟩

theorem Runs.of_unify (ran : Runs (unify expected found) before failure after) :
    failure = (before.subst.unify expected found).2 ∧
      ∃ trace, after = { before with subst := (before.subst.unify expected found).1, trace } := by
  simp only [unify_eq, runs_bind] at ran
  obtain ⟨_, _, traced, _, _, changed, passed⟩ := ran
  obtain ⟨trace, rfl⟩ := traced.of_traceStep fun text middle ran => by
    obtain ⟨_, _, _, _, _, same⟩ := runs_comparing.mp ran
    exact same
  cases changed.ok
  obtain ⟨rfl, further, rfl⟩ := passed.of_passOn
  exact ⟨rfl, further, rfl⟩

theorem Runs.comparing_of_unify (ran : Runs (unify expected found) before failure after)
    (traced : before.settings.trace = true) :
    ∃ text, Runs (comparing expected found) before text before := by
  simp only [unify_eq, traceStep, runs_bind, runs_get] at ran
  obtain ⟨_, _, ⟨_, _, ⟨rfl, rfl⟩, tracing⟩, _⟩ := ran
  rw [if_pos traced, runs_bind] at tracing
  obtain ⟨text, middle, composed, _⟩ := tracing
  obtain ⟨_, _, _, _, _, rfl⟩ := runs_comparing.mp composed
  exact ⟨text, composed⟩

theorem exists_runs_unify {subst : Subst} (composed : checker.settings.trace = true →
      ∃ text, Runs (comparing expected found) checker text checker)
    (unified : checker.subst.unify expected found = (subst, none)) :
    ∃ trace, Runs (unify expected found) checker none { checker with subst, trace } := by
  obtain ⟨trace, traced⟩ := runs_traceStep composed
  refine ⟨trace, ?_⟩
  simp only [unify_eq, runs_bind]
  refine ⟨(), _, traced, none, { checker with subst, trace }, ⟨?_, rfl⟩, by simp [passOn]⟩
  change EStateM.Result.ok (checker.subst.unify expected found).2 _ = _
  rw [unified]

theorem runs_unify {subst : Subst} (inside : checker.subst.Within (·.isPresent = true))
    (expectedPresent : expected.isPresent = true) (foundPresent : found.isPresent = true)
    (unified : checker.subst.unify expected found = (subst, none)) :
    ∃ trace, Runs (unify expected found) checker none { checker with subst, trace } := by
  obtain ⟨first, hasFirst⟩ := exists_typeText inside expectedPresent
  obtain ⟨second, hasSecond⟩ := exists_typeText inside foundPresent
  exact exists_runs_unify
    (fun _ => ⟨_, runs_comparing.mpr ⟨first, second, hasFirst, hasSecond, rfl, rfl⟩⟩) unified

instance (part : Option α) : Along rel (need part) := by
  cases part with
  | none => exact inferInstanceAs (Along rel (throw _))
  | some part => exact inferInstanceAs (Along rel (pure part))

@[simp]
theorem runs_spanOf {expr : Expr} :
    Runs (spanOf expr) before span after ↔ expr.span? = some span ∧ after = before := by
  rcases known : expr.span? with _ | found
  · simp [spanOf, need, known]
  · simp [spanOf, need, known, eq_comm]

instance : Along rel (mismatch error expected found span) := by
  unfold mismatch
  infer_instance

instance [Reporting rel] (explain : Diagnostic → CheckM Diagnostic)
    [∀ diagnostic, Along rel (explain diagnostic)] :
    Along rel (reportMismatch error expected found span explain) := by
  unfold reportMismatch
  infer_instance

theorem not_runs_reportMismatch {explain : Diagnostic → CheckM Diagnostic}
    [∀ diagnostic, Logs (explain diagnostic)] :
    ¬Runs (reportMismatch error expected found span explain) before done after := by
  simp [reportMismatch, runs_bind]

/-- Compares two types and handles a failure. -/
def compare (expected found : Ty) (handle : UnifyError → CheckM Unit) : CheckM Unit := do
  match ← unify expected found with
  | none => pure ()
  | some error => handle error

instance [∀ error, Along rel (handle error)] :
    Along rel (match failure with
      | none => pure ()
      | some error => handle error) := by
  cases failure <;> infer_instance

instance [Solving rel] [∀ error, Along rel (handle error)] :
    Along rel (compare expected found handle) := by
  unfold compare
  infer_instance

theorem runs_compare [∀ error, Along Grew (handle error)]
    (loud : ∀ error done before after, ¬Runs (handle error) before done after) :
    Runs (compare expected found handle) before done after ↔
      Runs (unify expected found) before none after := by
  rw [compare, runs_bind]
  constructor
  · rintro ⟨failure, middle, compared, rest⟩
    cases failure with
    | none =>
      obtain ⟨_, rfl⟩ := runs_pure.mp rest
      exact compared
    | some error => exact (loud error _ _ _ rest).elim
  · intro compared
    exact ⟨none, after, compared, runs_pure.mpr ⟨rfl, rfl⟩⟩

theorem expect_eq (expected found : Ty) (span : Span) :
    expect expected found span =
      compare expected found fun error => reportMismatch error expected found span pure := rfl

instance [Reporting rel] [Solving rel] : Along rel (expect expected found span) := by
  rw [expect_eq]
  infer_instance

theorem runs_expect :
    Runs (expect expected found span) before done after ↔
      Runs (unify expected found) before none after := by
  rw [expect_eq]
  exact runs_compare fun _ _ _ _ => not_runs_reportMismatch

theorem expectElse_eq (thenBranch elseBranch : Expr) (result elseTy : Ty) :
    expectElse thenBranch elseBranch result elseTy = compare result elseTy (fun error => do
      let elseSpan ← spanOf elseBranch
      let thenSpan ← spanOf thenBranch
      reportMismatch error result elseTy elseSpan fun diagnostic =>
        return (diagnostic.withLabel thenSpan "expected because of this").withNote
          "`if` and `else` have incompatible types") := rfl

instance [Reporting rel] [Solving rel] (thenBranch elseBranch : Expr) (elseTy : Ty) :
    Along rel (expectElse thenBranch elseBranch result elseTy) := by
  rw [expectElse_eq]
  infer_instance

theorem runs_expectElse {thenBranch elseBranch : Expr} {elseTy : Ty} :
    Runs (expectElse thenBranch elseBranch result elseTy) before done after ↔
      Runs (unify result elseTy) before none after := by
  rw [expectElse_eq]
  refine runs_compare fun error done before after ran => ?_
  simp only [runs_bind] at ran
  obtain ⟨_, _, _, _, _, _, reported⟩ := ran
  exact not_runs_reportMismatch reported

def checkGuard (guard : Expr) : CheckM Unit :=
  unless guard.isMissing do
    let guardTy ← inferExpr guard
    expect .bool guardTy (← spanOf guard)

/-- Checks one arm of a match and returns the place of the first body. -/
def inferArm (scrutinee result : Ty) (first : Option Span) : Arm → CheckM Span
  | .mk pattern guard body _ => do
    checkPattern pattern scrutinee
    checkGuard guard
    let bodyTy ← inferExpr body
    let place ← first.elim (spanOf body) pure
    expectArm result bodyTy body place
    return place

theorem inferArms_cons (scrutinee result : Ty) (first : Option Span) (arm : Arm) (rest : List Arm) :
    inferArms scrutinee result first (arm :: rest) =
      inferArm scrutinee result first arm >>= fun place =>
        inferArms scrutinee result (some place) rest := by
  cases arm with
  | mk pattern guard body span =>
    by_cases unguarded : guard.isMissing = true <;>
      cases first <;> simp [inferArms, inferArm, checkGuard, unguarded]

end Checker

end TraitCheck
