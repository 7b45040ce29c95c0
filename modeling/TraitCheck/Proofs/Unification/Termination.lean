import TraitCheck.Proofs.Unification.Completeness

/-!
# Termination of unification

The unifier follows bindings, so it descends into types that are no components of its arguments, and
`Subst.unify` does so within a limit. Here the same work is described without any limit: `Runs`
unifies the pairs of a list from left to right and counts the calls that this takes. On an acyclic
substitution every call has a run, since chains of bindings end as ranks fall along them, and the
descent ends as the height of the solved arguments falls, whatever is bound on the way.
-/

namespace TraitCheck

variable {ty : Ty}

namespace Subst

open Ty (var)

variable {subst : Subst} {after : Subst} {first second : List (Ty × Ty)}

/-- A type is solved: an unbound variable stays, a bound one is solved as its binding is, and any
other type is rebuilt from its solved components. -/
inductive Solves (subst : Subst) : Ty → Ty → Prop
  | unbound {id : VarId} (unbound : subst.lookup id = none) : Solves subst (var id) (var id)
  | bound {id : VarId} {ty solved : Ty} (bound : subst.lookup id = some ty)
      (further : Solves subst ty solved) : Solves subst (var id) solved
  | former {ty solved : Ty} (noVar : ∀ id, ty ≠ var id) (same : ty.sameFormer solved = true)
      (parts : ∀ pair ∈ ty.parts.zip solved.parts, Solves subst pair.1 pair.2) :
      Solves subst ty solved

theorem solves_bindVars {image : VarId → Ty}
    (each : ∀ id ∈ ty.vars, subst.Solves (var id) (image id)) :
    subst.Solves ty (ty.bindVars image) := by
  induction ty with
  | step ty ih =>
    rcases ty.var_or_not with ⟨id, rfl⟩ | noVar
    · exact each id (by simp)
    · apply Solves.former noVar
      · cases ty <;> simp [Ty.sameFormer] at noVar ⊢
      · rw [Ty.parts_bindVars noVar, List.zip_map_right]
        intro pair member
        rcases List.mem_map.mp member with ⟨source, sourceMem, rfl⟩
        rw [List.zip, List.zipWith_self] at sourceMem
        rcases List.mem_map.mp sourceMem with ⟨part, partMem, rfl⟩
        exact ih part partMem fun id occurs => each id (Ty.mem_vars_of_part partMem occurs)

theorem Acyclic.solves_apply (acyclic : subst.Acyclic) (ty : Ty) :
    subst.Solves ty (subst.apply ty) := by
  have each (id : VarId) : subst.Solves (var id) (subst.apply (var id)) := by
    induction id using acyclic.induction with
    | unbound unbound =>
      rw [apply_var_of_unbound unbound]
      exact .unbound unbound
    | bound bound ih =>
      rw [acyclic.apply_var bound]
      exact .bound bound (solves_bindVars ih)
  exact solves_bindVars fun id _ => each id

/-- Looking through the bindings at the head of a type, which must not end in a variable bound to an
absent type. -/
structure Reaches (subst : Subst) (ty head : Ty) : Prop where
  leads : subst.Leads ty head
  present : head = .absent → ty = .absent

/-- The heads of two types, neither of them a variable. -/
structure Formers (subst : Subst) (expected found head other : Ty) : Prop where
  expected : subst.Reaches expected head
  found : subst.Reaches found other
  noVar : ∀ id, head ≠ var id
  noVar' : ∀ id, other ≠ var id

/-- Binding an unbound variable to a type. The variable must not occur in what the type is solved
to; without a complete type to look into, that cannot be found out. -/
inductive Binds (subst : Subst) (id : VarId) (ty : Ty) (swapped : Bool) : Outcome → Prop
  | itself (same : ty = var id) : Binds subst id ty swapped (subst, none)
  | placeholder (unknown : ty = .unknown) : Binds subst id ty swapped (subst, none)
  | incomplete (proper : ty ≠ var id) (known : ty ≠ .unknown)
      (stuck : (ty.isComplete && subst.applies ty) = false) :
      Binds subst id ty swapped (subst, some ⟨.incomplete, var id, ty⟩)
  | infinite {solved : Ty} (proper : ty ≠ var id) (known : ty ≠ .unknown)
      (complete : (ty.isComplete && subst.applies ty) = true) (solves : subst.Solves ty solved)
      (occurs : id ∈ solved.vars) :
      Binds subst id ty swapped (subst, some
        (if swapped then ⟨.infiniteType, solved, var id⟩ else ⟨.infiniteType, var id, solved⟩))
  | bind {solved : Ty} (proper : ty ≠ var id) (known : ty ≠ .unknown)
      (complete : (ty.isComplete && subst.applies ty) = true) (solves : subst.Solves ty solved)
      (fresh : id ∉ solved.vars) :
      Binds subst id ty swapped (subst.bind id ty, none)

/-- A call that ends without further calls. -/
inductive Closes (subst : Subst) (expected found : Ty) : Outcome → Prop
  | astray (stuck : subst.Leads expected .absent ∧ expected ≠ .absent ∨
      subst.Leads found .absent ∧ found ≠ .absent) :
      Closes subst expected found (subst, some ⟨.incomplete, expected, found⟩)
  | left {id : VarId} {other : Ty} {outcome : Outcome} (isVar : subst.Reaches expected (var id))
      (reached : subst.Reaches found other) (binds : subst.Binds id other false outcome) :
      Closes subst expected found outcome
  | right {id : VarId} {head : Ty} {outcome : Outcome} (noVar : ∀ id, head ≠ var id)
      (reached : subst.Reaches expected head) (isVar : subst.Reaches found (var id))
      (binds : subst.Binds id head true outcome) :
      Closes subst expected found outcome
  | placeholder {head other : Ty} (formers : subst.Formers expected found head other)
      (unknown : head = .unknown ∨ other = .unknown) :
      Closes subst expected found (subst, none)
  | clash {head other : Ty} {error : UnifyError} (formers : subst.Formers expected found head other)
      (known : head ≠ .unknown ∧ other ≠ .unknown) (differ : head.components other = .error error) :
      Closes subst expected found (subst, some error.settle)

/-- A call that goes on with pairs of components. -/
def Opens (subst : Subst) (expected found : Ty) (pairs : List (Ty × Ty)) : Prop :=
  ∃ head other, subst.Formers expected found head other ∧ head.components other = .ok pairs

/-- The unification of pairs from left to right up to the first failure, with the number of calls it
takes. -/
inductive Runs : Subst → List (Ty × Ty) → Nat → Outcome → Prop
  | done (subst : Subst) : Runs subst [] 0 (subst, none)
  | solved {subst after : Subst} {expected found : Ty} {rest : List (Ty × Ty)} {calls : Nat}
      {outcome : Outcome} (closes : subst.Closes expected found (after, none))
      (further : Runs after rest calls outcome) :
      Runs subst ((expected, found) :: rest) (1 + calls) outcome
  | failed {subst after : Subst} {expected found : Ty} {rest : List (Ty × Ty)} {error : UnifyError}
      (closes : subst.Closes expected found (after, some error)) :
      Runs subst ((expected, found) :: rest) 1 (after, some error)
  | solvedInside {subst after : Subst} {expected found : Ty} {pairs rest : List (Ty × Ty)}
      {calls more : Nat} {outcome : Outcome} (opens : subst.Opens expected found pairs)
      (inside : Runs subst pairs calls (after, none)) (further : Runs after rest more outcome) :
      Runs subst ((expected, found) :: rest) (1 + calls + more) outcome
  | failedInside {subst after : Subst} {expected found : Ty} {pairs rest : List (Ty × Ty)}
      {calls : Nat} {error : UnifyError} (opens : subst.Opens expected found pairs)
      (inside : Runs subst pairs calls (after, some error)) :
      Runs subst ((expected, found) :: rest) (1 + calls) (after, some error)

section Calls

variable {expected found : Ty}

theorem Acyclic.reaches (acyclic : subst.Acyclic) {head : Ty}
    (reached : subst.shallow? ty = some head) : subst.Reaches ty head := by
  have same := shallow?_eq_some reached
  refine ⟨same ▸ acyclic.leads_shallow ty, ?_⟩
  rintro rfl
  rw [shallow?, same] at reached
  dsimp only at reached
  split at reached
  · cases ty <;> trivial
  · cases reached

theorem Acyclic.astray (acyclic : subst.Acyclic) (missing : subst.shallow? ty = none) :
    subst.Leads ty .absent ∧ ty ≠ .absent := by
  have same := shallow?_eq_none missing
  refine ⟨same ▸ acyclic.leads_shallow ty, ?_⟩
  rintro rfl
  rw [shallow?, same] at missing
  cases missing

theorem Acyclic.binds_solve (acyclic : subst.Acyclic) (id : VarId) (ty : Ty) (swapped : Bool) :
    subst.Binds id ty swapped (subst.solve id ty swapped) := by
  unfold solve
  split
  · next trivially =>
      rcases trivially with same | unknown
      · apply Binds.itself
        cases ty <;> simp_all [Ty.var?]
      · apply Binds.placeholder
        cases ty <;> simp_all [Ty.isUnknown]
  · next nontrivial =>
      have proper : ty ≠ var id := by
        rintro rfl
        exact nontrivial (.inl rfl)
      have known : ty ≠ .unknown := by
        rintro rfl
        exact nontrivial (.inr rfl)
      split
      · next stuck => exact .incomplete proper known (Bool.not_eq_true' _ |>.mp stuck)
      · next follows =>
          have complete : (ty.isComplete && subst.applies ty) = true := by simpa using follows
          have solves := acyclic.solves_apply ty
          dsimp only
          split
          · next occurs =>
              have infinite : subst.Binds id ty swapped _ :=
                .infinite proper known complete solves (Ty.occurs_iff.mp occurs)
              cases swapped <;> exact infinite
          · next fresh =>
              exact .bind proper known complete solves fun occurs =>
                fresh (Ty.occurs_iff.mpr occurs)

/-- A call either ends at once or goes on with the components of both heads. -/
theorem Acyclic.closes_or_opens (acyclic : subst.Acyclic) (limit : Nat) (expected found : Ty) :
    subst.Closes expected found (unifyWithin (limit + 1) subst expected found) ∨
      ∃ pairs, subst.Opens expected found pairs ∧
        pairs = (subst.shallow expected).parts.zip (subst.shallow found).parts ∧
        unifyWithin (limit + 1) subst expected found = solveAll (unifyWithin limit)
          subst pairs := by
  rcases reached : subst.shallow? expected with _ | head
  · rw [unifyWithin_astray (.inl reached)]
    exact .inl (.astray (.inl (acyclic.astray reached)))
  · rcases reached' : subst.shallow? found with _ | other
    · rw [unifyWithin_astray (.inr reached')]
      exact .inl (.astray (.inr (acyclic.astray reached')))
    · rcases head.var_or_not with ⟨id, rfl⟩ | noVar
      · rw [unifyWithin_left reached reached']
        exact .inl (.left (acyclic.reaches reached) (acyclic.reaches reached')
          (acyclic.binds_solve id other false))
      · rcases other.var_or_not with ⟨id, rfl⟩ | noVar'
        · rw [unifyWithin_right noVar reached reached']
          exact .inl (.right noVar (acyclic.reaches reached) (acyclic.reaches reached')
            (acyclic.binds_solve id head true))
        · have formers : subst.Formers expected found head other :=
            ⟨acyclic.reaches reached, acyclic.reaches reached', noVar, noVar'⟩
          rw [unifyWithin_formers noVar noVar' reached reached']
          split
          · next unknown =>
              refine .inl (.placeholder formers ?_)
              rw [Bool.or_eq_true] at unknown
              apply unknown.imp
              · cases head <;> simp [Ty.isUnknown]
              · cases other <;> simp [Ty.isUnknown]
          · next known =>
              rw [Bool.or_eq_true, not_or] at known
              split
              · next error differ =>
                  refine .inl (.clash formers ⟨?_, ?_⟩ differ)
                  · rintro rfl
                    exact known.1 rfl
                  · rintro rfl
                    exact known.2 rfl
              · next pairs taken =>
                  refine .inr ⟨pairs, ⟨head, other, formers, taken⟩, ?_, rfl⟩
                  rw [shallow?_eq_some reached, shallow?_eq_some reached']
                  exact (Ty.components_eq_ok taken).2

end Calls

theorem Runs.append {calls more : Nat}
    {outcome : Outcome} (early : Runs subst first calls (after, none))
    (late : Runs after second more outcome) :
    Runs subst (first ++ second) (calls + more) outcome := by
  generalize reached : (after, none) = result at early
  induction early with
  | done before =>
    cases reached
    rwa [Nat.zero_add]
  | solved closes _ ih =>
    rw [Nat.add_assoc]
    exact .solved closes (ih reached)
  | solvedInside opens inside _ _ ih =>
    rw [Nat.add_assoc]
    exact .solvedInside opens inside (ih reached)
  | failed | failedInside => cases reached

theorem Runs.append_failed {calls : Nat}
    {error : UnifyError} (early : Runs subst first calls (after, some error)) :
    Runs subst (first ++ second) calls (after, some error) := by
  generalize reached : (after, some error) = result at early ⊢
  induction early with
  | done before => cases reached
  | solved closes _ ih => exact .solved closes (ih reached)
  | failed closes => exact .failed closes
  | solvedInside opens inside _ _ ih => exact .solvedInside opens inside (ih reached)
  | failedInside opens inside => exact .failedInside opens inside

theorem exists_runs_solveAll (allowed : Ty → Prop) {solvePair : Subst → Ty → Ty → Outcome}
    {pairs : List (Ty × Ty)}
    (each : ∀ pair ∈ pairs, ∀ before, Steps allowed subst before →
      Steps allowed before (solvePair before pair.1 pair.2).1 ∧
      ∃ calls, Runs before [pair] calls (solvePair before pair.1 pair.2)) :
    ∃ calls, Runs subst pairs calls (solveAll solvePair subst pairs) := by
  induction pairs generalizing subst with
  | nil => exact ⟨0, .done subst⟩
  | cons pair rest ih =>
    rcases each pair List.mem_cons_self subst Relation.ReflTransGen.refl with ⟨steps, calls, run⟩
    rw [solveAll]
    split
    · next middle solved =>
        rw [solved] at steps run
        rcases ih fun other member before further =>
          each other (List.mem_cons_of_mem _ member) before (steps.trans further) with ⟨more, runs⟩
        exact ⟨calls + more, run.append runs⟩
    · next middle error failed =>
        rw [failed] at run
        exact ⟨calls, run.append_failed⟩

/-- A call has a run if its limit is beyond the height of the solved types, whatever is bound on the
way. -/
theorem exists_runs_unifyWithin {allowed : Ty → Prop} (hereditary : Hereditary allowed)
    {limit : Nat} {expected found : Ty} (acyclic : subst.Acyclic) (inside : subst.Within allowed)
    (expectedAllowed : allowed expected) (foundAllowed : allowed found)
    (low : ∀ after, Steps allowed subst after → (after.apply expected).height < limit) :
    ∃ calls, Runs subst [(expected, found)] calls (unifyWithin limit subst expected found) := by
  induction limit generalizing subst expected found with
  | zero => exact absurd (low subst Relation.ReflTransGen.refl) (Nat.not_lt_zero _)
  | succ limit ih =>
    rcases acyclic.closes_or_opens limit expected found with closes | ⟨pairs, opens, zipped, goesOn⟩
    · rcases outcome : unifyWithin (limit + 1) subst expected found with ⟨after, _ | error⟩
      · rw [outcome] at closes
        exact ⟨_, .solved closes (.done after)⟩
      · rw [outcome] at closes
        exact ⟨_, .failed closes⟩
    · rw [goesOn]
      have runs : ∃ calls, Runs subst pairs calls (solveAll (unifyWithin limit) subst pairs) := by
        apply exists_runs_solveAll allowed
        intro pair member before steps
        rw [zipped] at member
        have firstAllowed := hereditary (List.of_mem_zip member).1 (inside.shallow expectedAllowed)
        have secondAllowed := hereditary (List.of_mem_zip member).2 (inside.shallow foundAllowed)
        have beforeAcyclic := steps.acyclic acyclic
        have beforeInside := steps.within inside
        refine ⟨unifyWithin_steps hereditary limit beforeAcyclic beforeInside firstAllowed
          secondAllowed, ih beforeAcyclic beforeInside firstAllowed secondAllowed ?_⟩
        intro after further
        have sofar : Steps allowed subst after := steps.trans further
        have whole := low after sofar
        have part := sofar.height_part_lt acyclic (List.of_mem_zip member).1
        omega
      rcases outcome : solveAll (unifyWithin limit) subst pairs with ⟨after, _ | error⟩
      · rw [outcome] at runs
        rcases runs with ⟨calls, run⟩
        exact ⟨_, .solvedInside opens run (.done after)⟩
      · rw [outcome] at runs
        rcases runs with ⟨calls, run⟩
        exact ⟨_, .failedInside opens run⟩

/-- Unification terminates: on an acyclic substitution a call has a run of finitely many calls that
ends as the call does, and the substitution that it leaves is acyclic again, whether the call
succeeds or fails. Without absent types it never stops short because of an incomplete one. -/
theorem unify_terminates (acyclic : subst.Acyclic) (expected found : Ty) :
    (∃ calls, Runs subst [(expected, found)] calls (subst.unify expected found)) ∧
    (subst.unify expected found).1.Acyclic ∧
    (subst.Within (·.isPresent = true) → expected.isPresent = true → found.isPresent = true →
      ∀ error, (subst.unify expected found).2 = some error → error.fault ≠ .incomplete) := by
  refine ⟨?_, (acyclic.unify_steps expected found).acyclic acyclic, ?_⟩
  · exact exists_runs_unifyWithin (hereditary_fits subst expected found) acyclic within_fits
      fits_expected fits_found fun _ steps =>
        height_apply_lt_unifyLimit (fun _ fits => fits) within_fits steps fits_expected
  · intro inside expectedPresent foundPresent error failed
    exact fault_of_unifyWithin acyclic inside expectedPresent foundPresent (Prod.ext rfl failed)

/-- A call that goes through two bindings, makes a third one and fails after it. -/
theorem unify_terminates_failing :
    ((empty.bind 0 (.tuple [var 1, var 1])).bind 1 (.tuple [var 2, var 2])).Acyclic ∧
    (∃ calls, Runs ((empty.bind 0 (.tuple [var 1, var 1])).bind 1 (.tuple [var 2, var 2]))
      [(.list (var 0), .list (.tuple [var 3, .int]))] calls
      (((empty.bind 0 (.tuple [var 1, var 1])).bind 1 (.tuple [var 2, var 2])).bind 3
        (.tuple [var 2, var 2]), some ⟨.mismatch, .tuple [var 2, var 2], .int⟩)) ∧
    (((empty.bind 0 (.tuple [var 1, var 1])).bind 1 (.tuple [var 2, var 2])).bind 3
      (.tuple [var 2, var 2])).Acyclic := by
  have acyclic : ((empty.bind 0 (.tuple [var 1, var 1])).bind 1 (.tuple [var 2, var 2])).Acyclic :=
    (acyclic_empty.bind rfl (by decide)).bind rfl (by decide)
  have terminates := unify_terminates acyclic (.list (var 0)) (.list (.tuple [var 3, .int]))
  exact ⟨acyclic, terminates.1, terminates.2.1⟩

/-- The types that are unified are there, but one of them is bound to a record without the type of
its field, and the call stops short when it has to name that record. -/
theorem unify_stops_openBinding :
    (empty.bind 0 (.record [("a", .absent)])).Acyclic ∧
    (var 0).isPresent = true ∧ Ty.int.isPresent = true ∧
    ((empty.bind 0 (.record [("a", .absent)])).unify (var 0) .int).2.map (·.fault) =
      some .incomplete :=
  ⟨acyclic_empty.bind rfl (by decide), rfl, rfl, rfl⟩

end Subst

end TraitCheck
