import TraitCheck.Proofs.Check.Reporting

/-!
# What a single step reports

No step looks at the log, so what a step reports does not depend on what was reported before it.
That gives every step a list of diagnostics of its own, and the list of a sequence of steps is made
up of those of its parts.
-/

namespace TraitCheck

variable {first second start : Checker}

namespace Checker

variable {α β : Type} {before after : Checker} {settings : Settings} {result : α}

/-- The diagnostics that a step reports, be it to its end or to where it stops. -/
def reported (step : CheckM α) (before : Checker) : List Diagnostic :=
  (finish step { before with log := .empty 0 }).log.items

theorem together_finish (step : CheckM α) [steps : Lockstep settings settings step]
    (alike : Alike settings settings first second) :
    Together settings settings .plain first second (finish step first) (finish step second) := by
  have outcomes := steps.agrees alike
  unfold finish
  generalize step first = result at outcomes
  generalize step second = result' at outcomes
  cases outcomes with
  | ok _ together | error together => exact together
  | stops apart _ => exact absurd rfl apart

theorem Together.same_reports {effects : Effects} {first' second' : Checker}
    (together : Together settings settings effects first second first' second') :
    ∃ emitted : List Diagnostic, first'.log = first.log.addAll emitted ∧
      second'.log = second.log.addAll emitted := by
  obtain ⟨_, _, emitted, _, ofFirst, ofSecond⟩ := together
  exact ⟨_, ofFirst, ofSecond⟩

section Steps

variable (step : CheckM α) [steps : ∀ settings, Lockstep settings settings step]

theorem reported_congr (alike : Alike settings settings first second) :
    reported step first = reported step second := by
  obtain ⟨emitted, ofFirst, ofSecond⟩ :=
    (together_finish step (alike.withLog (.empty 0) (.empty 0))).same_reports
  rw [reported, reported, ofFirst, ofSecond]

theorem log_finish (before : Checker) :
    (finish step before).log = before.log.addAll (reported step before) := by
  have alike : Alike before.settings before.settings { before with log := .empty 0 } before :=
    (Alike.refl rfl).withLog (.empty 0) before.log
  obtain ⟨emitted, ofEmpty, ofLog⟩ := (together_finish step alike).same_reports
  have kept := @Log.addAll_of_unlimited (.empty 0) emitted (le_refl 0)
  rw [ofLog, reported, ofEmpty, kept.1]
  rfl

theorem log_eq_iff_of_ok (ran : step before = .ok result after) :
    after.log = before.log ↔ reported step before = [] := by
  have grown := log_finish step before
  rw [finish_of_ok ran] at grown
  rw [grown]
  constructor
  · intro same
    rcases reports : reported step before with _ | ⟨diagnostic, rest⟩
    · rfl
    · rw [reports] at same
      have first := Log.total_lt_add before.log diagnostic
      rcases Log.addAll_grows (before.log.add diagnostic) rest with stays | grew
      · have louder := congrArg Log.total (stays.symm.trans same)
        omega
      · have louder := congrArg Log.total same
        change ((before.log.add diagnostic).addAll rest).total = _ at louder
        omega
  · intro reports
    rw [reports]
    rfl

/-- A sequence reports what its parts report. -/
theorem reported_bind (next : α → CheckM β)
    [later : ∀ value settings, Lockstep settings settings (next value)] (before : Checker) :
    reported (step >>= next) before = reported step before ++
      match step before with
      | .ok value middle => reported (next value) middle
      | .error _ _ => [] := by
  have alike : Alike before.settings before.settings { before with log := .empty 0 } before :=
    (Alike.refl rfl).withLog (.empty 0) before.log
  have outcomes := (steps before.settings).agrees alike
  have early := log_finish step { before with log := .empty 0 }
  have kept (diagnostics : List Diagnostic) :=
    (@Log.addAll_of_unlimited (.empty 0) diagnostics (le_refl 0)).1
  rw [reported, finish_bind]
  unfold finish at early
  generalize step { before with log := .empty 0 } = result at outcomes early
  generalize step before = result' at outcomes
  cases outcomes with
  | @ok value first' second' _ together =>
    -- The states before the second step differ in their logs only, so it reports the same in both.
    have late := log_finish (next value) first'
    dsimp only at early ⊢
    rw [late, early, ← Log.addAll_append, kept, reported_congr (next value) together.alike]
    rfl
  | error together =>
    dsimp only at early ⊢
    rw [early, kept, List.append_nil]
    rfl
  | stops apart _ => exact absurd rfl apart

theorem mem_reported_bind {next : α → CheckM β}
    [later : ∀ value settings, Lockstep settings settings (next value)] {diagnostic : Diagnostic}
    (member : diagnostic ∈ reported (step >>= next) before) :
    diagnostic ∈ reported step before ∨
      ∃ value middle, step before = .ok value middle ∧
        diagnostic ∈ reported (next value) middle := by
  rw [reported_bind, List.mem_append] at member
  refine member.imp_right fun late => ?_
  split at late
  · next value middle ran => exact ⟨value, middle, ran, late⟩
  · cases late

end Steps

theorem reported_of_quiet (step : CheckM α) [quiet : Quiet step] (before : Checker) :
    reported step before = [] := by
  rw [reported, quiet.keeps]
  rfl

theorem reported_report (diagnostic : Diagnostic) (before : Checker) :
    reported (report diagnostic) before = [diagnostic] :=
  (@Log.addAll_of_unlimited (.empty 0) [diagnostic] (le_refl 0)).1

variable {items : List Item} {task : Task α}

theorem subst_check (settings : Settings) (items : List Item) :
    (check settings (some items)).subst = (finish (checkItems items) (initial settings)).subst := by
  obtain ⟨log, same⟩ := check_eq_finish settings items
  rw [same]

theorem goes_on (reached : Reached settings items task start)
    (ran : task.run start = .ok result after) :
    after.Obeys .any ∧ Changes .any true after (finish (checkItems items) (initial settings)) := by
  obtain ⟨obeys, ready⟩ := any_of_reached reached
  have ended : task.finish start = after := finish_of_ok ran
  rw [← ended]
  exact ⟨obeys_finish obeys ready, changes_of_reached reached⟩

/-- The bindings at the end of a check go beyond those at the end of any of its calls. -/
theorem apply_apply_of_reached
    (reached : Reached settings items task start) (ran : task.run start = .ok result after)
    (ty : Ty) :
    (check settings (some items)).subst.apply (after.subst.apply ty) =
      (check settings (some items)).subst.apply ty := by
  obtain ⟨obeys, later⟩ := goes_on reached ran
  rw [subst_check]
  exact (later.extends obeys).apply_apply (later.obeys obeys).acyclic ty

/-- The types are equal once the check is over. -/
def EndsEqual (settings : Settings) (items : List Item) (first second : Ty) : Prop :=
  (check settings (some items)).subst.apply first = (check settings (some items)).subst.apply second

theorem endsEqual_of_expect {expected found : Ty} {span : Span} {done : Unit}
    (reached : Reached settings items (.expect expected found span) start)
    (quiet : Runs (expect expected found span) start done after) :
    EndsEqual settings items expected found := by
  obtain ⟨obeys, fitsExpected, fitsFound⟩ := any_of_reached reached
  obtain ⟨obeysAfter, later⟩ := goes_on reached quiet.ok
  obtain ⟨unified, trace, rfl⟩ := (runs_expect.mp quiet).of_unify
  rw [EndsEqual, subst_check]
  exact apply_eq_of_unify obeys fitsExpected fitsFound obeysAfter (Prod.ext rfl unified.symm) later

end Checker

end TraitCheck
