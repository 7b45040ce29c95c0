import TraitCheck.Proofs.Solving
import TraitCheck.Proofs.Unification.Soundness

/-!
# Solved types, and what unification adds to them

A solved type holds no bound variable, so solving it once more changes nothing. Unification only
refines: it keeps all bindings and binds no variable but those of its solved arguments. What a type
is solved to later, and whether it can be solved, can therefore be found from what it is solved to
now.
-/

namespace TraitCheck

variable {source target : VarId}

namespace Subst

open Ty (var)

variable {subst after : Subst} {ty solved : Ty}

/-- No variable of the type is bound. -/
def Solved (subst : Subst) (ty : Ty) : Prop := ∀ id ∈ ty.vars, subst.lookup id = none

theorem Solved.apply_eq (isSolved : subst.Solved ty) : subst.apply ty = ty :=
  Ty.bindVars_eq_self fun id occurs => apply_var_of_unbound (isSolved id occurs)

theorem Acyclic.solved_apply (acyclic : subst.Acyclic) (ty : Ty) : subst.Solved (subst.apply ty) :=
  fun _ occurs => acyclic.unbound_of_mem_apply occurs

theorem Acyclic.applied?_solved (acyclic : subst.Acyclic)
    (solves : subst.applied? ty = some solved) :
    subst.Solved solved ∧ subst.applied? solved = some solved := by
  rcases applied?_eq_some.mp solves with ⟨applies, rfl⟩
  have isSolved := acyclic.solved_apply ty
  refine ⟨isSolved, applied?_eq_some.mpr ⟨?_, isSolved.apply_eq⟩⟩
  apply acyclic.applies_iff.mpr
  rcases acyclic.applies_iff.mp applies with empty | followable
  · exact .inl empty
  · exact .inr (followable_of_unbound followable.isComplete_apply isSolved)

theorem Extends.points (growth : subst.Extends after) (step : subst.Points source target) :
    after.Points source target := by
  rcases step with ⟨bound, isBound, occurs⟩
  exact ⟨bound, growth isBound, occurs⟩

theorem path_of_mem_apply (found : target ∈ (subst.apply (var source)).vars) :
    Relation.ReflTransGen subst.Points source target := by
  revert found
  refine solution_induction (motive := fun source solved => target ∈ solved.vars →
    Relation.ReflTransGen subst.Points source target) (fun source found => ?_)
    (fun isBound ih found => ?_) subst.size source
  · rw [Ty.vars_var, List.mem_singleton] at found
    rw [found]
  · rcases Ty.mem_vars_bindVars.mp found with ⟨next, inBound, further⟩
    exact .head ⟨_, isBound, inBound⟩ (ih next further)

/-- A path through later bindings keeps to the earlier ones, or leaves them at a variable of what
its first variable was solved to. -/
theorem Extends.path_cases (growth : subst.Extends after) (acyclic : subst.Acyclic)
    (path : Relation.ReflTransGen after.Points source target) :
    Relation.ReflTransGen subst.Points source target ∨
      ∃ middle ∈ (subst.apply (var source)).vars,
        Relation.ReflTransGen after.Points middle target := by
  -- The induction follows the path to its end; the first variable on it that was unbound before is
  -- one that the first variable was solved to.
  induction path with
  | refl => exact .inl .refl
  | @tail last next _ step ih =>
    rcases ih with early | ⟨middle, leaves, late⟩
    · rcases isBound : subst.lookup last with _ | bound
      · exact .inr ⟨last, acyclic.mem_apply_of_path early isBound, .single step⟩
      · rcases step with ⟨bound', isBound', occurs⟩
        rw [growth isBound] at isBound'
        cases isBound'
        exact .inl (early.tail ⟨bound, isBound, occurs⟩)
    · exact .inr ⟨middle, leaves, late.tail step⟩

section Growth

variable (growth : subst.Extends after) (acyclic : subst.Acyclic)

include growth acyclic

theorem Extends.followable_apply (followable : subst.Followable ty) :
    after.Followable (subst.apply ty) ↔ after.Followable ty := by
  constructor
  · intro later
    refine ⟨followable.complete, ?_⟩
    rintro id bound ⟨source, occurs, path⟩ isBound
    have inSolved : ∀ middle ∈ (subst.apply (var source)).vars, middle ∈ (subst.apply ty).vars :=
      fun middle leaves => Ty.mem_vars_bindVars.mpr ⟨source, occurs, leaves⟩
    rcases growth.path_cases acyclic path with early | ⟨middle, leaves, late⟩
    · rcases wasBound : subst.lookup id with _ | bound'
      · have unsolved := acyclic.mem_apply_of_path early wasBound
        exact later.bindings (reached_of_mem (inSolved id unsolved)) isBound
      · rw [growth wasBound] at isBound
        cases isBound
        exact followable.bindings ⟨source, occurs, early⟩ wasBound
    · exact later.bindings ⟨middle, inSolved middle leaves, late⟩ isBound
  · intro later
    refine ⟨followable.isComplete_apply, ?_⟩
    rintro id bound ⟨middle, inSolved, late⟩ isBound
    rcases Ty.mem_vars_bindVars.mp inSolved with ⟨source, occurs, leaves⟩
    have early : Relation.ReflTransGen after.Points source middle :=
      Relation.ReflTransGen.mono (fun _ _ step => growth.points step) _ _ (path_of_mem_apply leaves)
    exact later.bindings ⟨source, occurs, early.trans late⟩ isBound

theorem Extends.applied?_solved (afterAcyclic : after.Acyclic)
    (solves : subst.applied? ty = some solved) : after.applied? solved = after.applied? ty := by
  rcases applied?_eq_some.mp solves with ⟨applies, rfl⟩
  have same : after.applies (subst.apply ty) = after.applies ty := by
    rcases acyclic.applies_iff.mp applies with empty | followable
    · rw [apply_of_size_eq_zero empty]
    · rw [Bool.eq_iff_iff, afterAcyclic.applies_iff, afterAcyclic.applies_iff,
        growth.followable_apply acyclic followable]
  rw [applied?, applied?, same, growth.apply_apply afterAcyclic]

end Growth

section Relevant

variable {expected found : Ty}

/-- The variables that a type is solved to are among those that two other types are solved to. -/
def Relevant (subst : Subst) (expected found ty : Ty) : Prop :=
  ∀ id ∈ (subst.apply ty).vars, id ∈ (subst.apply expected).vars ∨ id ∈ (subst.apply found).vars

theorem hereditary_relevant : Hereditary (subst.Relevant expected found) := by
  intro ty part isPart relevant id inPart
  rcases Ty.mem_vars_bindVars.mp inPart with ⟨source, occurs, inSource⟩
  exact relevant id (Ty.mem_vars_bindVars.mpr ⟨source, Ty.mem_vars_of_part isPart occurs, inSource⟩)

theorem Acyclic.closed_relevant (acyclic : subst.Acyclic) :
    subst.Closed (subst.Relevant expected found) := by
  intro id bound isBound relevant
  rwa [Relevant, acyclic.apply_var isBound] at relevant

theorem Acyclic.relevant_of_unify (acyclic : subst.Acyclic) {id : VarId}
    (unbound : subst.lookup id = none) (bound : (subst.unify expected found).1.lookup id ≠ none) :
    id ∈ (subst.apply expected).vars ∨ id ∈ (subst.apply found).vars := by
  have steps : Steps (subst.Relevant expected found) subst (subst.unify expected found).1 :=
    acyclic.closed_relevant.unify_steps hereditary_relevant acyclic (fun _ => Or.inl)
      fun _ => Or.inr
  rcases Option.ne_none_iff_exists'.mp bound with ⟨binding, isBound⟩
  rcases steps.lookup isBound with early | ⟨relevant, _⟩
  · rw [unbound] at early
    cases early
  · exact relevant id (by simp [apply_var_of_unbound unbound])

end Relevant

/-- What a call may change in a substitution: it may bind variables of its solved arguments. -/
structure Refines (before after : Subst) (expected found : Ty) : Prop where
  keeps : ∀ {id bound}, before.lookup id = some bound → after.lookup id = some bound
  params : after.params = before.params
  relevant : ∀ {id}, before.lookup id = none → after.lookup id ≠ none →
    id ∈ (before.apply expected).vars ∨ id ∈ (before.apply found).vars
  absorbs : ∀ {ty solved}, before.applied? ty = some solved →
    after.applied? solved = after.applied? ty

/-- Solving is idempotent and leaves no bound variable, and a call of the unifier refines the
substitution, whether it succeeds or fails. Without absent types every type can be solved, before
the call and after it. -/
theorem unify_refines (acyclic : subst.Acyclic) :
    (∀ ty solved, subst.applied? ty = some solved →
      (∀ id ∈ solved.vars, subst.lookup id = none) ∧ subst.applied? solved = some solved) ∧
    (∀ expected found, Refines subst (subst.unify expected found).1 expected found) ∧
    (subst.Within (·.isPresent = true) → ∀ ty, ty.isPresent = true →
      subst.applied? ty = some (subst.apply ty) ∧
      ∀ expected found, expected.isPresent = true → found.isPresent = true →
        (subst.unify expected found).1.applied? ty =
          some ((subst.unify expected found).1.apply ty)) := by
  refine ⟨fun ty solved solves => acyclic.applied?_solved solves, fun expected found => ?_, ?_⟩
  · have steps := acyclic.unify_steps expected found
    exact {
      keeps := fun isBound => steps.extends isBound
      params := steps.params_eq
      relevant := acyclic.relevant_of_unify
      absorbs := steps.extends.applied?_solved acyclic (steps.acyclic acyclic) }
  · intro inside ty present
    refine ⟨if_pos (inside.applies present), fun expected found expectedPresent foundPresent => ?_⟩
    have steps := unify_steps hereditary_isPresent acyclic inside expectedPresent foundPresent
    exact if_pos ((steps.within inside).applies present)

/-- A call that binds two variables, one of them through an earlier binding, and then fails. -/
theorem unify_refines_failing :
    (empty.bind 0 (.list (var 1))).Acyclic ∧
    (empty.bind 0 (.list (var 1))).unify (.tuple [var 0, var 3, .int])
        (.tuple [.list (var 2), .list (var 0), .bool]) =
      (((empty.bind 0 (.list (var 1))).bind 1 (var 2)).bind 3 (.list (var 0)),
        some ⟨.mismatch, .int, .bool⟩) ∧
    (empty.bind 0 (.list (var 1))).applied? (.fn [var 0] (var 3)) =
      some (.fn [.list (var 1)] (var 3)) ∧
    (((empty.bind 0 (.list (var 1))).bind 1 (var 2)).bind 3 (.list (var 0))).applied?
        (.fn [.list (var 1)] (var 3)) =
      (((empty.bind 0 (.list (var 1))).bind 1 (var 2)).bind 3 (.list (var 0))).applied?
        (.fn [var 0] (var 3)) ∧
    (((empty.bind 0 (.list (var 1))).bind 1 (var 2)).bind 3 (.list (var 0))).applied?
        (.fn [var 0] (var 3)) = some (.fn [.list (var 2)] (.list (.list (var 2)))) := by
  have acyclic : (empty.bind 0 (.list (var 1))).Acyclic := acyclic_empty.bind rfl (by decide)
  have refines := (unify_refines acyclic).2.1 (.tuple [var 0, var 3, .int])
    (.tuple [.list (var 2), .list (var 0), .bool])
  exact ⟨acyclic, rfl, rfl, refines.absorbs rfl, rfl⟩

end Subst

end TraitCheck
