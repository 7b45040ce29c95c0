import TraitCheck.Proofs.Matching.Coverage

/-!
# Matches that leave nothing out

What a quietly checked pattern was found to match stays true under later bindings, so it is still
true of all arms when their coverage is looked at. Then no missing case means that no value is
missed, and an arm that is reported as unreachable is never taken. Declarations are told apart by
their numbers alone, so an enum that shares its number with a struct is excluded.
-/

namespace TraitCheck

namespace Log

variable {log : Log} {diagnostic : Diagnostic}

/-- Where unreachable patterns are reported. -/
def unreachablePlaces (log : Log) : List Span :=
  (log.withCode .unreachablePattern).map Diagnostic.span

theorem errorCount_add_ne (isError : diagnostic.severity = .error) :
    (log.add diagnostic).errorCount ≠ log.errorCount := by
  unfold add
  rw [if_pos isError]
  dsimp only
  split <;> exact Nat.succ_ne_self _

theorem unreachablePlaces_add_nonExhaustive (other : diagnostic.code = .nonExhaustiveMatch) :
    (log.add diagnostic).unreachablePlaces = log.unreachablePlaces := by
  have skipped : (log.items ++ [diagnostic]).filter (·.code = .unreachablePattern) =
      log.items.filter (·.code = .unreachablePattern) := by
    simp [List.filter_append, other, Code.nonExhaustiveMatch, Code.unreachablePattern]
  unfold unreachablePlaces withCode add
  split
  · dsimp only
    split
    · rfl
    · rw [skipped]
  · rw [skipped]

theorem add_warning (isWarning : diagnostic.severity = .warning) :
    log.add diagnostic = { log with items := log.items ++ [diagnostic] } := by
  unfold add
  rw [if_neg (by rw [isWarning]; nofun)]

end Log

namespace Checker

variable {scrutinee result : Ty} {first : Option Span} {before middle after : Checker} {arm : Arm}
  {early late : List Arm} {scrutineeExpr : Expr}

theorem of_inferArms_append
    (ran : inferArms scrutinee result first (early ++ late) before = .ok () after) :
    ∃ place middle, inferArms scrutinee result first early before = .ok () middle ∧
      inferArms scrutinee result place late middle = .ok () after := by
  induction early generalizing first before with
  | nil => exact ⟨first, before, by rw [inferArms]; rfl, ran⟩
  | cons arm rest ih =>
    rw [List.cons_append, inferArms_cons] at ran
    obtain ⟨place, between, ranArm, ranRest⟩ := bind_eq_ok.mp ran
    obtain ⟨last, middle, ranEarly, ranLate⟩ := ih ranRest
    refine ⟨last, middle, ?_, ranLate⟩
    rw [inferArms_cons]
    exact bind_eq_ok.mpr ⟨place, between, ranArm, ranEarly⟩

theorem of_inferArms_cons {rest : List Arm} (obeys : before.Obeys .any)
    (fitsScrutinee : Policy.any.FitsIn before scrutinee)
    (fitsResult : Policy.any.FitsIn before result)
    (ran : inferArms scrutinee result first (arm :: rest) before = .ok () after) :
    ∃ middle, checkPattern arm.pattern scrutinee before = .ok () middle ∧
      Changes .any false middle after := by
  have contract : Holds .any false (.arms scrutinee result first (arm :: rest)) := holds _
  have watches := contract before ⟨fitsScrutinee, fitsResult, fun ty _ => Policy.writes_any ty⟩
  have called : ⟨.pattern arm.pattern scrutinee, before⟩ ∈
      (Task.arms scrutinee result first (arm :: rest)).walk.calls before := by
    cases arm with
    | mk pattern guard body span => exact mem_calls_call
  have ranWalk : (Task.arms scrutinee result first (arm :: rest)).walk.run before =
      .ok () after := by
    rw [Task.run_walk]
    exact ran
  obtain ⟨_, middle, ranPattern⟩ := watches.returns obeys () after ranWalk _ called
  have changes := watches.rest obeys _ called
  rw [finish_of_ok ranWalk, Task.finish, finish_of_ok ranPattern] at changes
  exact ⟨middle, ranPattern, changes⟩

theorem of_need {α : Type} {part : Option α} {value : α}
    (ran : need part before = .ok value after) : part = some value ∧ after = before := by
  cases part with
  | none => cases ran
  | some _ =>
    cases ran
    exact ⟨rfl, rfl⟩

theorem of_reportUnreachable {finding : Unreachable}
    (ran : reportUnreachable finding before = .ok () after) :
    ∃ warning : Diagnostic, after = { before with log := before.log.add warning } ∧
      warning.severity = .warning ∧ warning.code = .unreachablePattern ∧
      (Coverage.pattern finding).span? = some warning.span := by
  cases finding with
  | afterCatchAll pattern catchAll =>
    obtain ⟨place, _, ranPlace, ranRest⟩ := bind_eq_ok.mp ran
    obtain ⟨known, rfl⟩ := of_need ranPlace
    obtain ⟨other, _, ranOther, reported⟩ := bind_eq_ok.mp ranRest
    obtain ⟨_, rfl⟩ := of_need ranOther
    cases reported
    exact ⟨_, rfl, rfl, rfl, known⟩
  | repeated pattern key =>
    obtain ⟨place, _, ranPlace, reported⟩ := bind_eq_ok.mp ran
    obtain ⟨known, rfl⟩ := of_need ranPlace
    cases reported
    exact ⟨_, rfl, rfl, rfl, known⟩

theorem of_reportUnreachables {findings : List Unreachable}
    (ran : findings.forM reportUnreachable before = .ok () after) :
    ∃ log : Log, after = { before with log } ∧ log.errorCount = before.log.errorCount ∧
      log.unreachablePlaces.map some = before.log.unreachablePlaces.map some ++
        findings.map fun finding => (Coverage.pattern finding).span? := by
  induction findings generalizing before with
  | nil =>
    cases ran
    exact ⟨_, rfl, rfl, by simp⟩
  | cons finding rest ih =>
    obtain ⟨_, middle, ranFirst, ranRest⟩ := bind_eq_ok.mp ran
    obtain ⟨warning, rfl, isWarning, isUnreachable, place⟩ := of_reportUnreachable ranFirst
    obtain ⟨log, rfl, errors, places⟩ := ih ranRest
    refine ⟨log, rfl, ?_, ?_⟩
    · rw [errors, Log.add_warning isWarning]
    · rw [places, Log.add_warning isWarning]
      simp [Log.unreachablePlaces, Log.withCode, List.filter_append, isUnreachable, place]

theorem of_reportUncovered {missing : List String}
    (ran : reportUncovered scrutineeExpr missing before = .ok () after) :
    after.log.unreachablePlaces = before.log.unreachablePlaces ∧
      (after.log.errorCount = before.log.errorCount → missing = []) := by
  unfold reportUncovered at ran
  split at ran
  · next none =>
      cases ran
      exact ⟨rfl, fun _ => List.isEmpty_iff.mp none⟩
  · obtain ⟨span, _, ranSpan, reported⟩ := bind_eq_ok.mp ran
    obtain ⟨_, rfl⟩ := of_need ranSpan
    cases reported
    refine ⟨Log.unreachablePlaces_add_nonExhaustive rfl, fun same => ?_⟩
    refine absurd same (Log.errorCount_add_ne ?_)
    rfl

theorem of_checkCoverage {arms : List Arm} {span : Span}
    (ran : checkCoverage scrutineeExpr arms span scrutinee before = .ok () after) :
    (after.log.unreachablePlaces.map some = before.log.unreachablePlaces.map some ++
        (Coverage.ofArms before.enums arms).unreachable.map fun finding =>
          (Coverage.pattern finding).span?) ∧
      (after.log.errorCount = before.log.errorCount →
        (Coverage.ofArms before.enums arms).catchAll.isSome = true ∨
          Coverage.missing before.enums (Coverage.ofArms before.enums arms)
            (before.subst.apply scrutinee) = []) := by
  unfold checkCoverage at ran
  split at ran
  · next empty =>
      cases List.isEmpty_iff.mp empty
      cases ran
      refine ⟨?_, fun same => ?_⟩
      · rw [Coverage.ofArms, List.foldl_nil, List.map_nil, List.append_nil]
        refine congrArg _ (Log.unreachablePlaces_add_nonExhaustive ?_)
        rfl
      · refine absurd same (Log.errorCount_add_ne ?_)
        rfl
  · obtain ⟨_, _, ⟨⟩, ranReports⟩ := bind_eq_ok.mp ran
    obtain ⟨_, middle, ranFindings, ranRest⟩ := bind_eq_ok.mp ranReports
    obtain ⟨log, rfl, errors, places⟩ := of_reportUnreachables ranFindings
    split at ranRest
    · obtain ⟨shape, _, ranShape, ranMissing⟩ := bind_eq_ok.mp ranRest
      obtain ⟨rfl, rfl⟩ := of_solved ranShape
      obtain ⟨samePlaces, complete⟩ := of_reportUncovered ranMissing
      refine ⟨?_, fun same => Or.inr (complete (same.trans errors.symm))⟩
      rw [samePlaces, places]
    · next found =>
        cases ranRest
        refine ⟨places, fun _ => Or.inl ?_⟩
        rw [Option.isNone_iff_eq_none] at found
        exact Option.isSome_iff_ne_none.mpr found

/-- A match that is checked to its end in a module: the type of its scrutinee is inferred, its arms
are gone through, and then it is looked at what they cover. -/
structure MatchCheck (settings : Settings) (items : List Item) where
  scrutineeExpr : Expr
  arms : List Arm
  span : Span
  scrutinee : Ty
  result : Ty
  origin : Checker
  typed : Checker
  start : Checker
  covering : Checker
  final : Checker
  reached : Reached settings items (.expr (.matchOn scrutineeExpr arms span)) origin
  inferred : inferExpr scrutineeExpr origin = .ok scrutinee typed
  taken : fresh typed = .ok result start
  ran : inferArms scrutinee result none arms start = .ok () covering
  covered : checkCoverage scrutineeExpr arms span scrutinee covering = .ok () final

namespace MatchCheck

variable {settings : Settings} {items : List Item} {Scalar : Type} [DecidableEq Scalar]
  {assignment : VarId → Ty}

/-- The declarations and the bindings when the coverage is looked at, with types for variables that
are still unsolved. -/
def world (run : MatchCheck settings items) (assignment : VarId → Ty) : World :=
  ⟨run.covering.structs, run.covering.enums, assignment⟩

/-- Nothing is reported while the patterns are checked, each of them after the arms before it. -/
def QuietPatterns (run : MatchCheck settings items) : Prop :=
  ∀ early arm late, run.arms = early ++ arm :: late → ∀ entered left,
    inferArms run.scrutinee run.result none early run.start = .ok () entered →
    checkPattern arm.pattern run.scrutinee entered = .ok () left → left.log = entered.log

theorem ready (run : MatchCheck settings items) :
    run.start.Obeys .any ∧ Policy.any.FitsIn run.start run.scrutinee ∧
      Policy.any.FitsIn run.start run.result := by
  have obeys := (any_of_reached run.reached).1
  have keeps : Keeps .any false (inferExpr run.scrutineeExpr) run.origin fun ty after =>
      Policy.any.FitsIn after ty :=
    (holds (.expr run.scrutineeExpr)).keeps fun ty _ => Policy.writes_any ty
  have toTyped := keeps.changes obeys run.inferred
  have obeysTyped := toTyped.obeys obeys
  have keepsFresh : Keeps .any false fresh run.typed fun ty after => Policy.any.FitsIn after ty :=
    keeps_fresh
  have toStart := keepsFresh.changes obeysTyped run.taken
  exact ⟨toStart.obeys obeysTyped,
    toStart.fits ((keeps obeys).2 _ _ run.inferred),
    (keepsFresh obeysTyped).2 _ _ run.taken⟩

theorem exists_quietly (run : MatchCheck settings items)
    (quiet : run.QuietPatterns) (satisfies : Subst.Satisfies assignment run.covering.subst)
    (split : run.arms = early ++ arm :: late) :
    ∃ entered left, Policy.any.FitsIn entered run.scrutinee ∧
      Quietly (run.world assignment) (checkPattern arm.pattern run.scrutinee) entered () left := by
  have ran := run.ran
  rw [split] at ran
  obtain ⟨obeys, fitsScrutinee, fitsResult⟩ := run.ready
  obtain ⟨place, entered, ranEarly, ranLate⟩ := of_inferArms_append ran
  have readyEarly : Ready .any false (.arms run.scrutinee run.result none early) run.start :=
    ⟨fitsScrutinee, fitsResult, fun ty _ => Policy.writes_any ty⟩
  have toEntered := ((holds _).keeps readyEarly).changes obeys ranEarly
  have obeysEntered := toEntered.obeys obeys
  have fitsEntered := toEntered.fits fitsScrutinee
  obtain ⟨left, ranPattern, toCovering⟩ := of_inferArms_cons obeysEntered fitsEntered
    (toEntered.fits fitsResult) ranLate
  have toLeft := (keeps_checkPattern fitsEntered).changes obeysEntered ranPattern
  have models : Models (run.world assignment) run.covering := ⟨rfl, rfl, satisfies⟩
  exact ⟨entered, left, fitsEntered, obeysEntered,
    ⟨ranPattern, quiet early arm late split entered left ranEarly ranPattern⟩,
    models.earlier toCovering (toLeft.obeys obeysEntered)⟩

theorem obeys_covering (run : MatchCheck settings items) : run.covering.Obeys .any := by
  obtain ⟨obeys, fitsScrutinee, fitsResult⟩ := run.ready
  have keeps : Keeps .any false (inferArms run.scrutinee run.result none run.arms) run.start
      fun _ _ => True :=
    (holds (.arms run.scrutinee run.result none run.arms)).keeps
      ⟨fitsScrutinee, fitsResult, fun ty _ => Policy.writes_any ty⟩
  exact (keeps.changes obeys run.ran).obeys obeys

theorem faithful (run : MatchCheck settings items)
    {reading : Reading Scalar} (quiet : run.QuietPatterns)
    (distinct : ∀ arm ∈ run.arms, arm.pattern.distinctLabels = true)
    (hasCases : (run.covering.subst.apply run.scrutinee).hasCases run.covering.enums = true)
    (separate : (run.world assignment).Separate)
    (satisfies : Subst.Satisfies assignment run.covering.subst) :
    ∀ arm ∈ run.arms, arm.pattern.Faithful (run.world assignment) reading
      (run.scrutinee.bindVars assignment) := by
  intro arm member
  obtain ⟨early, late, split⟩ := List.append_of_mem member
  obtain ⟨entered, left, fits, quietly⟩ := run.exists_quietly quiet satisfies split
  have distinctArm := distinct arm member
  have solvedCases : (run.scrutinee.bindVars assignment).hasCases run.covering.enums = true := by
    rw [← satisfies.bindVars_apply]
    exact Ty.hasCases_bindVars hasCases assignment
  exact ⟨fun irrefutable value inhabits =>
      acceptsAll_of_isIrrefutable separate arm.pattern irrefutable distinctArm fits
        quietly inhabits,
    fun key keyed value inhabits =>
      accepts_iff_hasKey inhabits separate solvedCases distinctArm fits quietly keyed⟩

end MatchCheck

def quietPatterns (scrutinee result : Ty) (arms : List Arm) (start : Checker) : Bool :=
  (List.range arms.length).all fun position =>
    match arms[position]?, inferArms scrutinee result none (arms.take position) start with
    | some arm, .ok _ entered =>
      match checkPattern arm.pattern scrutinee entered with
      | .ok _ left => left.log = entered.log
      | .error _ _ => true
    | _, _ => true

theorem MatchCheck.quietPatterns_of_test {settings : Settings} {items : List Item}
    {run : MatchCheck settings items}
    (tested : quietPatterns run.scrutinee run.result run.arms run.start = true) :
    run.QuietPatterns := by
  intro early arm late split entered left ranEarly ranPattern
  have inside : early.length < run.arms.length := by
    rw [split]
    simp
  have atArm := List.all_eq_true.mp tested early.length (List.mem_range.mpr inside)
  have isArm : run.arms[early.length]? = some arm := by
    rw [split]
    simp
  have isEarly : run.arms.take early.length = early := by
    rw [split]
    simp
  simp only [isArm, isEarly, ranEarly, ranPattern] at atArm
  exact of_decide_eq_true atArm

/-- A call that checks a match as expected. -/
def Call.checksMatch
    (expected : List Arm → (scrutinee result : Ty) → (start covering final : Checker) → Bool) :
    Call → Bool
  | ⟨.expr (.matchOn scrutineeExpr arms span), origin⟩ =>
    match inferExpr scrutineeExpr origin with
    | .error _ _ => false
    | .ok scrutinee typed =>
      match fresh typed with
      | .error _ _ => false
      | .ok result start =>
        match inferArms scrutinee result none arms start with
        | .error _ _ => false
        | .ok _ covering =>
          match checkCoverage scrutineeExpr arms span scrutinee covering with
          | .error _ _ => false
          | .ok _ final => expected arms scrutinee result start covering final
  | _ => false

theorem exists_matchCheck (items : List Item) (path : List Nat)
    (expected : List Arm → (scrutinee result : Ty) → (start covering final : Checker) → Bool)
    (found : (Call.follow ⟨.items items, initial {}⟩ path).any (Call.checksMatch expected) = true) :
    ∃ run : MatchCheck {} items,
      expected run.arms run.scrutinee run.result run.start run.covering run.final = true := by
  obtain ⟨call, followed, checks⟩ := (Option.any_eq_true _ _).mp found
  have reached := Reached.follow .start followed
  unfold Call.checksMatch at checks
  split at checks
  · split at checks
    · cases checks
    · next inferred =>
        split at checks
        · cases checks
        · next taken =>
            split at checks
            · cases checks
            · next ran =>
                split at checks
                · cases checks
                · next covered =>
                    exact ⟨⟨_, _, _, _, _, _, _, _, _, _, reached, inferred, taken, ran, covered⟩,
                      checks⟩
  · cases checks

/-- If no error is reported, each value of the scrutinee's type is matched by an arm without a
guard. Arms that are reported as unreachable are not taken for any value, whatever the guards
evaluate to. -/
theorem MatchCheck.coverage_sound {settings : Settings} {items : List Item} {Scalar : Type}
    [DecidableEq Scalar] (run : MatchCheck settings items) {assignment : VarId → Ty}
    (reading : Reading Scalar) (quiet : run.QuietPatterns)
    (distinct : ∀ arm ∈ run.arms, arm.pattern.distinctLabels = true)
    (hasCases : (run.covering.subst.apply run.scrutinee).hasCases run.covering.enums = true)
    (separate : (run.world assignment).Separate)
    (satisfies : Subst.Satisfies assignment run.covering.subst) :
    (run.final.log.errorCount = run.covering.log.errorCount →
      ∀ value :
        Value Scalar, Inhabits (run.world assignment) (run.scrutinee.bindVars assignment) value →
        ∃ arm ∈ run.arms, arm.guard.isMissing = true ∧
          arm.pattern.accepts run.covering.enums reading value = true) ∧
    ∃ reported : List Nat, reported.Pairwise (· < ·) ∧
      run.final.log.unreachablePlaces.map some = run.covering.log.unreachablePlaces.map some ++
        reported.map (fun position => run.arms[position]?.bind (·.pattern.span?)) ∧
      ∀ position ∈ reported, ∀ (guards : Nat → Bool) (value : Value Scalar),
        Inhabits (run.world assignment) (run.scrutinee.bindVars assignment) value →
        Arm.taken? run.covering.enums reading guards run.arms value ≠ some position := by
  have faithful : ∀ arm ∈ run.arms, arm.pattern.Faithful (run.world assignment) reading
      (run.scrutinee.bindVars assignment) :=
    run.faithful quiet distinct hasCases separate satisfies
  obtain ⟨places, complete⟩ := of_checkCoverage run.covered
  refine ⟨fun clean value inhabits => ?_, ?_⟩
  · have sound := Coverage.sound_ofArms faithful
    rcases complete clean with catchAll | noneMissing
    · exact sound.catchAll catchAll value inhabits
    · rw [← satisfies.bindVars_apply] at sound inhabits
      exact Coverage.settle_of_missing separate sound hasCases noneMissing inhabits
  · obtain ⟨positions, idle, patterns⟩ := Coverage.exists_idle faithful
    refine ⟨positions, idle.ascending, ?_, fun position member guards value inhabits =>
      idle.not_taken member guards inhabits⟩
    have spans :=
      congrArg (List.map fun found : Option Pattern => found.bind Pattern.span?) patterns
    rw [List.map_map, List.map_map] at spans
    rw [places]
    refine congrArg _ (Eq.trans spans ?_)
    refine List.map_congr_left fun position _ => ?_
    exact Option.bind_map ..

/-- Literals stand for their texts. -/
def verbatim : Reading String := ⟨(· == "true"), fun _ text => text, rfl, rfl⟩

/-- Matches the single parameter of a function, which is of the type with number 1. -/
def matchesParam (arms : List Arm) : Item :=
  .function
    { id := ⟨2⟩, name := "main", span := .empty, generics := []
      params := [⟨⟨1⟩, "x", .named ⟨1⟩ [], .empty⟩], result := .absent
      body := .matchOn (.localRef ⟨1⟩ .empty) arms .empty }

/-- An arm without a guard. -/
def plainArm (pattern : Pattern) : Arm :=
  .mk pattern .missing (.literal ⟨.int, "1", .empty⟩) .empty

/-- `match x { Dot => 1, (_, _) => 1, Dot => 1 }` for an enum with a variant `Dot` without arguments
and a variant `Pair` with two. -/
def matchesShapes : List Item :=
  [.enum ⟨⟨1⟩, "Shape", .empty, [],
      [⟨"Dot", [], .empty⟩, ⟨"Pair", [.int, .int], .empty⟩]⟩,
    .struct ⟨⟨3⟩, "Point", .empty, [], [⟨"a", .int, .empty⟩]⟩,
    matchesParam
      [plainArm (.ctor ⟨1⟩ "Dot" [] .empty),
        plainArm (.ctor ⟨1⟩ "" [.wildcard .empty, .wildcard .empty] .empty),
        plainArm (.ctor ⟨1⟩ "Dot" [] ⟨5, 8, ""⟩)]]

/-- Whether arms are checked in a way that makes their coverage sound, against the type with number
1, and without errors about what they cover. -/
def isRegular (arms : List Arm) (scrutinee result : Ty) (start covering final : Checker) : Bool :=
  quietPatterns scrutinee result arms start && arms.all (·.pattern.distinctLabels) &&
    (covering.subst.apply scrutinee).hasCases covering.enums &&
    (match covering.subst.apply scrutinee with
      | .named ⟨1⟩ [] => true
      | _ => false) &&
    final.log.errorCount = covering.log.errorCount

/-- Whether an enum has a variant with the given name that takes only numbers. -/
def hasVariant (enums : Table DefId EnumInfo) (decl : DefId) (name : String) (arity : Nat) : Bool :=
  (enums.find? decl).any fun info => info.variants.any fun variant =>
    variant.name = name && variant.fields.length = arity && variant.fields.all fun
      | .prim .int => true
      | _ => false

namespace MatchCheck

variable {items : List Item} {run : MatchCheck {} items}

/-- The solution of a variable when coverage is checked. -/
def solution (run : MatchCheck {} items) (id : VarId) : Ty := run.covering.subst.apply (.var id)

theorem of_isRegular
    (regular :
      isRegular run.arms run.scrutinee run.result run.start run.covering run.final = true) :
    run.QuietPatterns ∧ (∀ arm ∈ run.arms, arm.pattern.distinctLabels = true) ∧
      (run.covering.subst.apply run.scrutinee).hasCases run.covering.enums = true ∧
      Subst.Satisfies run.solution run.covering.subst ∧
      run.scrutinee.bindVars run.solution = .named ⟨1⟩ [] ∧
      run.final.log.errorCount = run.covering.log.errorCount := by
  simp only [isRegular, Bool.and_eq_true, decide_eq_true_eq, List.all_eq_true] at regular
  obtain ⟨⟨⟨⟨quiet, distinct⟩, hasCases⟩, shape⟩, clean⟩ := regular
  have satisfies : Subst.Satisfies run.solution run.covering.subst :=
    run.obeys_covering.acyclic.apply_satisfies
  refine ⟨quietPatterns_of_test quiet, distinct, hasCases, satisfies, ?_, clean⟩
  rw [← satisfies.bindVars_apply]
  split at shape
  · next same => rw [same, Ty.bindVars_named, List.map_nil]
  · cases shape

theorem inhabit_scalars {world : World} {fields : List Ty} {scalars : List String}
    (sameLength : fields.length = scalars.length) (numbers : ∀ ty ∈ fields, ty = .int) :
    List.Forall₂ (Inhabits world) (fields.map (world.component []))
      (scalars.map fun scalar => .scalar scalar) := by
  induction fields generalizing scalars with
  | nil =>
    cases List.length_eq_zero_iff.mp sameLength.symm
    exact .nil
  | cons ty fields ih =>
    cases scalars with
    | nil => cases sameLength
    | cons scalar scalars =>
      obtain ⟨rfl, others⟩ := List.forall_mem_cons.mp numbers
      exact .cons (.scalar (by decide) scalar) (ih (Nat.succ.inj sameLength) others)

theorem inhabits_of_hasVariant (world : World) {decl : DefId} {name : String}
    (scalars : List String) (declared : hasVariant world.enums decl name scalars.length = true) :
    Inhabits world (.named decl []) (.variant decl name (scalars.map .scalar)) := by
  obtain ⟨info, found, declares⟩ := (Option.any_eq_true _ _).mp declared
  obtain ⟨variant, member, isVariant⟩ := List.any_eq_true.mp declares
  simp only [Bool.and_eq_true, decide_eq_true_eq, List.all_eq_true] at isVariant
  obtain ⟨⟨rfl, sameLength⟩, numbers⟩ := isVariant
  refine .variant found member (inhabit_scalars sameLength fun ty inFields => ?_)
  have isNumber := numbers ty inFields
  split at isNumber
  · rfl
  · cases isNumber

/-- All values of an enum are matched, say a pair, and the arm that repeats another is idle. -/
theorem coverage_sound_matchesShapes :
    ∃ run : MatchCheck {} matchesShapes,
      Inhabits (run.world run.solution) (run.scrutinee.bindVars run.solution)
        (.variant ⟨1⟩ "Pair" [.scalar "7", .scalar "8"] : Value String) ∧
      (∃ arm ∈ run.arms, arm.guard.isMissing = true ∧
        arm.pattern.accepts run.covering.enums verbatim
          (.variant ⟨1⟩ "Pair" [.scalar "7", .scalar "8"]) = true) ∧
      run.final.log.unreachablePlaces ≠ run.covering.log.unreachablePlaces := by
  obtain ⟨run, tested⟩ := exists_matchCheck matchesShapes [2, 0, 0]
    (fun arms scrutinee result start covering final =>
      isRegular arms scrutinee result start covering final &&
        covering.structs.keys = [⟨3⟩] && covering.enums.keys = [⟨1⟩] &&
        final.log.unreachablePlaces ≠ covering.log.unreachablePlaces &&
        hasVariant covering.enums ⟨1⟩ "Pair" 2)
    (by decide +kernel)
  simp only [Bool.and_eq_true, decide_eq_true_eq] at tested
  obtain ⟨⟨⟨⟨regular, structs⟩, enums⟩, reports⟩, declared⟩ := tested
  obtain ⟨quiet, distinct, hasCases, satisfies, shape, clean⟩ := of_isRegular regular
  have separate : (run.world run.solution).Separate := by
    refine World.separate_of_keys ?_ ?_ ?_ <;> simp [world, structs, enums, DefId.list]
  have inhabits : Inhabits (run.world run.solution) (run.scrutinee.bindVars run.solution)
      (.variant ⟨1⟩ "Pair" [.scalar "7", .scalar "8"] : Value String) := by
    rw [shape]
    exact inhabits_of_hasVariant (run.world run.solution) ["7", "8"] declared
  exact ⟨run, inhabits,
    (run.coverage_sound verbatim quiet distinct hasCases separate satisfies).1 clean _ inhabits,
    reports⟩

end MatchCheck

/-- `match x { #{ a = _ } => 1 }`, where a struct with the field `a` and an enum have the same
number. -/
def sharesNumber : List Item :=
  [.struct ⟨⟨1⟩, "Point", .empty, [], [⟨"a", .int, .empty⟩]⟩,
    .enum ⟨⟨1⟩, "Flag", .empty, [], [⟨"On", [], .empty⟩, ⟨"Off", [], .empty⟩]⟩,
    matchesParam [plainArm (.record [⟨"a", .wildcard .empty, .empty⟩] .empty)]]

/-- Where an enum shares its number with a struct, a pattern for the struct passes for one that
matches everything, and no variant is matched. -/
theorem MatchCheck.coverage_misses_sharesNumber :
    (check {} (some sharesNumber)).log.items = [] ∧
      ∃ run : MatchCheck {} sharesNumber, run.QuietPatterns ∧
        (∀ arm ∈ run.arms, arm.pattern.distinctLabels = true) ∧
        (run.covering.subst.apply run.scrutinee).hasCases run.covering.enums = true ∧
        Subst.Satisfies run.solution run.covering.subst ∧
        run.final.log.errorCount = run.covering.log.errorCount ∧
        ∃ value : Value String,
          Inhabits (run.world run.solution) (run.scrutinee.bindVars run.solution) value ∧
          ∀ arm ∈ run.arms, arm.pattern.accepts run.covering.enums verbatim value = false := by
  refine ⟨by decide +kernel, ?_⟩
  obtain ⟨run, tested⟩ := exists_matchCheck sharesNumber [2, 0, 0]
    (fun arms scrutinee result start covering final =>
      isRegular arms scrutinee result start covering final &&
        (arms.all fun arm => !arm.pattern.accepts covering.enums verbatim (.variant ⟨1⟩ "On" [])) &&
        hasVariant covering.enums ⟨1⟩ "On" 0)
    (by decide +kernel)
  simp only [Bool.and_eq_true, List.all_eq_true, Bool.not_eq_true'] at tested
  obtain ⟨⟨regular, rejected⟩, declared⟩ := tested
  obtain ⟨quiet, distinct, hasCases, satisfies, shape, clean⟩ := of_isRegular regular
  refine ⟨run, quiet, distinct, hasCases, satisfies, clean, .variant ⟨1⟩ "On" [], ?_, rejected⟩
  rw [shape]
  exact inhabits_of_hasVariant (run.world run.solution) [] declared

end Checker

end TraitCheck
