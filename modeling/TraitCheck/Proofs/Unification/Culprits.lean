import TraitCheck.Proofs.Unification.Refinement
import TraitCheck.Proofs.Unification.Symmetry

/-!
# The types at fault

A failure of the unifier names a pair of types. They stand at the same place of both arguments: one
path of components leads to them, through the bindings of the moment in which they were met.
Bindings only grow, and the path goes on through types that are no variables, so it is still there
when the call ends. The pair is at fault by itself: unifying it once more fails before anything is
bound.
-/

namespace TraitCheck

namespace Ty

/-- Where a component stands in a type: an argument of a declared type, a parameter or the result of
a function, an element of a tuple or a field of a record. -/
inductive Place where
  | argument (number : Nat)
  | parameter (number : Nat)
  | result
  | element (number : Nat)
  | field (label : String)

/-- A type has a component at a place. -/
inductive Component : Ty → Place → Ty → Prop
  | argument {decl : DefId} {args : List Ty} {number : Nat} {part : Ty}
      (stands : args[number]? = some part) : Component (.named decl args) (.argument number) part
  | parameter {params : List Ty} {result : Ty} {number : Nat} {part : Ty}
      (stands : params[number]? = some part) :
        Component (.fn params result) (.parameter number) part
  | result {params : List Ty} {result : Ty} : Component (.fn params result) .result result
  | element {elems : List Ty} {number : Nat} {part : Ty} (stands : elems[number]? = some part) :
      Component (.tuple elems) (.element number) part
  | field {fields : Row} {label : String} {part : Ty} (member : (label, part) ∈ fields) :
      Component (.record fields) (.field label) part

theorem exists_getElem?_of_mem_zip {first second : List Ty} {pair : Ty × Ty}
    (member : pair ∈ first.zip second) :
    ∃ number : Nat, first[number]? = some pair.1 ∧ second[number]? = some pair.2 := by
  rcases List.mem_iff_getElem?.mp member with ⟨number, stands⟩
  exact ⟨number, List.getElem?_zip_eq_some.mp stands⟩

theorem exists_label_of_mem_zip {fields row : Row} (same : Row.labels fields = Row.labels row)
    {pair : Ty × Ty} (member : pair ∈ (Row.types fields).zip (Row.types row)) :
    ∃ label, (label, pair.1) ∈ fields ∧ (label, pair.2) ∈ row := by
  rcases exists_getElem?_of_mem_zip member with ⟨number, stands, stands'⟩
  rw [Row.types, List.getElem?_map, Option.map_eq_some_iff] at stands stands'
  rcases stands with ⟨⟨label, ty⟩, inFields, rfl⟩
  rcases stands' with ⟨⟨label', ty'⟩, inRow, sameTy⟩
  have labels : (fields.map Prod.fst)[number]? = (row.map Prod.fst)[number]? :=
    congrArg (·[number]?) same
  rw [List.getElem?_map, List.getElem?_map, inFields, inRow] at labels
  cases labels
  exact ⟨label, List.mem_of_getElem? inFields, sameTy ▸ List.mem_of_getElem? inRow⟩

theorem exists_place_of_components {expected found : Ty} {pairs : List (Ty × Ty)}
    (taken : expected.components found = .ok pairs) {pair : Ty × Ty} (member : pair ∈ pairs) :
    ∃ place, expected.Component place pair.1 ∧ found.Component place pair.2 := by
  cases expected with
  | named decl args =>
    cases found <;> simp only [components, reduceCtorEq] at taken
    split_ifs at taken
    cases taken
    rcases exists_getElem?_of_mem_zip member with ⟨number, stands, stands'⟩
    exact ⟨.argument number, .argument stands, .argument stands'⟩
  | fn params result =>
    cases found <;> simp only [components, reduceCtorEq] at taken
    split_ifs at taken
    cases taken
    rcases List.mem_append.mp member with inParams | isResult
    · rcases exists_getElem?_of_mem_zip inParams with ⟨number, stands, stands'⟩
      exact ⟨.parameter number, .parameter stands, .parameter stands'⟩
    · rw [List.mem_singleton.mp isResult]
      exact ⟨.result, .result, .result⟩
  | tuple elems =>
    cases found <;> simp only [components, reduceCtorEq] at taken
    split_ifs at taken
    cases taken
    rcases exists_getElem?_of_mem_zip member with ⟨number, stands, stands'⟩
    exact ⟨.element number, .element stands, .element stands'⟩
  | record fields =>
    cases found <;> simp only [components, reduceCtorEq] at taken
    split_ifs at taken with _ same
    cases taken
    rcases exists_label_of_mem_zip (not_not.mp same) member with ⟨label, inFields, inRow⟩
    exact ⟨.field label, .field inFields, .field inRow⟩
  | _ =>
    cases found <;> simp only [components, reduceCtorEq] at taken
    all_goals
      split_ifs at taken
      cases taken
      cases member

end Ty

namespace Subst

open Ty (var Place)

variable {subst after : Subst} {expected found ty head other : Ty} {error : UnifyError}

/-- A path of places leads from a type to a type, where bindings are looked through at each of them
and in the end. -/
inductive Walks (subst : Subst) : Ty → List Place → Ty → Prop
  | here {ty head : Ty} (leads : subst.Leads ty head) : Walks subst ty [] head
  | inside {ty head part target : Ty} {place : Place} {path : List Place}
      (leads : subst.Leads ty head) (stands : head.Component place part)
      (further : Walks subst part path target) : Walks subst ty (place :: path) target

/-- A chain that does not end in a variable is not changed by further bindings. -/
theorem Leads.of_extends (leads : subst.Leads ty head) (growth : subst.Extends after)
    (noVar : ∀ id, head ≠ var id) : after.Leads ty head := by
  induction leads with
  | ends _ => exact leads_noVar noVar
  | step bound _ ih => exact .step (growth bound) (ih noVar)

/-- How a failure shows the types that were found to differ: as they are, or solved if one of them
occurs in the other. -/
inductive Shows (subst : Subst) (error : UnifyError) (head other : Ty) : Prop
  | plain (expected : error.expected = head) (found : error.found = other)
  | solved (fault : error.fault = .infiniteType) (expected : error.expected = subst.apply head)
      (found : error.found = subst.apply other)

/-- The types that a failure shows stand at the same place of two types, and they fail by
themselves. -/
structure Blames (subst : Subst) (expected found : Ty) (error : UnifyError) : Prop where
  located : ∃ path head other, subst.Walks expected path head ∧ subst.Walks found path other ∧
    subst.Shows error head other
  again : subst.unify error.expected error.found = (subst, some error)

theorem shallow?_of_noVar (noVar : ∀ id, ty ≠ var id) : subst.shallow? ty = some ty := by
  rw [shallow?, shallow, follow_of_noVar noVar]
  cases ty <;> rfl

theorem shallow?_of_unbound {id : VarId} (unbound : subst.lookup id = none) :
    subst.shallow? (var id) = some (var id) := by
  rw [shallow?, shallow, follow_of_unbound unbound]

theorem blames_of_clash (leads : subst.Leads expected head) (leads' : subst.Leads found other)
    (noVar : ∀ id, head ≠ var id) (noVar' : ∀ id, other ≠ var id)
    (known : ¬(head.isUnknown || other.isUnknown) = true)
    (differ : head.components other = .error error) (finished : error.settle.fault ≠ .incomplete) :
    subst.Blames expected found error.settle := by
  have done : Finished (subst, some error.settle) := by
    rintro _ ⟨⟩
    exact finished
  rcases Ty.components_eq_error differ with ⟨isHead, isOther⟩
  have again : subst.unify head other = (subst, some error.settle) := by
    rw [unify, unifyLimit, unifyWithin_formers noVar noVar' (shallow?_of_noVar noVar)
      (shallow?_of_noVar noVar'), if_neg known, differ]
  rw [done.settle] at again ⊢
  exact ⟨⟨[], head, other, .here leads, .here leads', .plain isHead isOther⟩,
    isHead.symm ▸ isOther.symm ▸ again⟩

section OccursCheck

variable {id : VarId}

theorem apply_ne_var (reached : subst.Leads other ty) (proper : ty ≠ var id)
    (occurs : id ∈ (subst.apply ty).vars) (source : VarId) : subst.apply ty ≠ var source := by
  intro isVar
  rcases ty.var_or_not with ⟨last, rfl⟩ | noVar
  · rw [apply_var_of_unbound reached.unbound, Ty.vars_var, List.mem_singleton] at occurs
    exact proper (congrArg var occurs.symm)
  · cases ty <;> simp [apply] at isVar noVar

/-- A variable that cannot be bound to a type, because the type holds it, cannot be bound to the
solved type either. -/
theorem Acyclic.solve_again {swapped : Bool} (acyclic : subst.Acyclic)
    (reached : subst.Leads other ty) (failed : subst.solve id ty swapped = (after, some error))
    (finished : error.fault ≠ .incomplete) :
    after = subst ∧ (∀ source, subst.apply ty ≠ var source) ∧
      error = (if swapped then ⟨.infiniteType, subst.apply ty, var id⟩
        else ⟨.infiniteType, var id, subst.apply ty⟩) ∧
      subst.solve id (subst.apply ty) swapped = (subst, some error) := by
  unfold solve at failed
  dsimp only at failed
  split_ifs at failed with trivial stuck occurs <;> cases failed
  · exact absurd rfl finished
  all_goals
    have proper : ty ≠ var id := fun same => trivial (.inl (same ▸ rfl))
    have inside := Ty.occurs_iff.mp occurs
    have noVar := apply_ne_var reached proper inside
    rcases Bool.and_eq_true_iff.mp (by simpa using stuck) with ⟨complete, applies⟩
    have solves : subst.applied? ty = some (subst.apply ty) := applied?_eq_some.mpr ⟨applies, rfl⟩
    rcases applied?_eq_some.mp (acyclic.applied?_solved solves).2 with ⟨applies', same⟩
    have nontrivial : ¬((subst.apply ty).var? = some id ∨ (subst.apply ty).isUnknown = true) := by
      generalize subst.apply ty = solution at noVar inside
      cases solution <;> simp_all [Ty.var?, Ty.isUnknown]
    simp_all [solve, acyclic.isComplete_of_applied? complete solves]

end OccursCheck

theorem Blames.of_components {pairs : List (Ty × Ty)} {pair : Ty × Ty}
    (leads : subst.Leads expected head) (leads' : subst.Leads found other)
    (taken : head.components other = .ok pairs) (member : pair ∈ pairs)
    (blames : subst.Blames pair.1 pair.2 error) : subst.Blames expected found error := by
  rcases Ty.exists_place_of_components taken member with ⟨place, stands, stands'⟩
  rcases blames.located with ⟨path, target, target', walks, walks', shows⟩
  exact ⟨⟨place :: path, target, target', .inside leads stands walks, .inside leads' stands' walks',
    shows⟩, blames.again⟩

/-- A call whose limit is beyond the height of the solved types blames a place of its arguments, if
it fails at types that can be looked into. -/
theorem blames_of_unifyWithin {allowed : Ty → Prop} (hereditary : Hereditary allowed) {limit : Nat}
    (acyclic : subst.Acyclic) (inside : subst.Within allowed) (expectedAllowed : allowed expected)
    (foundAllowed : allowed found)
    (low : ∀ after, Steps allowed subst after → (after.apply expected).height < limit)
    (failed : unifyWithin limit subst expected found = (after, some error))
    (finished : error.fault ≠ .incomplete) : after.Blames expected found error := by
  induction limit generalizing subst expected found with
  | zero => exact absurd (low subst Relation.ReflTransGen.refl) (Nat.not_lt_zero _)
  | succ limit ih =>
    have comparable : Finished (unifyWithin (limit + 1) subst expected found) := by
      rw [failed]
      rintro _ ⟨⟩
      exact finished
    rcases comparable.reached with ⟨reached, reached'⟩
    have leads := acyclic.leads_shallow expected
    have leads' := acyclic.leads_shallow found
    have headAllowed := inside.shallow expectedAllowed
    have otherAllowed := inside.shallow foundAllowed
    have lower : ∀ part ∈ (subst.shallow expected).parts, ∀ after, Steps allowed subst after →
        (after.apply part).height < limit := by
      intro part isPart after steps
      have whole := low after steps
      have below := steps.height_part_lt acyclic isPart
      omega
    generalize subst.shallow expected = head at reached leads headAllowed lower
    generalize subst.shallow found = other at reached' leads' otherAllowed
    rcases head.var_or_not with ⟨id, rfl⟩ | noVar
    · rw [unifyWithin_left reached reached'] at failed
      rcases acyclic.solve_again leads' failed finished with ⟨rfl, noVar, rfl, again⟩
      exact ⟨⟨[], var id, other, .here leads, .here leads',
        .solved rfl (apply_var_of_unbound leads.unbound).symm rfl⟩,
        (unifyWithin_left (shallow?_of_unbound leads.unbound) (shallow?_of_noVar noVar)).trans
          again⟩
    · rcases other.var_or_not with ⟨id, rfl⟩ | noVar'
      · rw [unifyWithin_right noVar reached reached'] at failed
        rcases acyclic.solve_again leads failed finished with ⟨rfl, noVar, rfl, again⟩
        exact ⟨⟨[], head, var id, .here leads, .here leads',
          .solved rfl rfl (apply_var_of_unbound leads'.unbound).symm⟩,
          (unifyWithin_right noVar (shallow?_of_noVar noVar)
            (shallow?_of_unbound leads'.unbound)).trans again⟩
      · rw [unifyWithin_formers noVar noVar' reached reached'] at failed
        split at failed
        · cases failed
        · next known =>
            split at failed
            · next differ =>
                cases failed
                exact blames_of_clash leads leads' noVar noVar' known differ finished
            · next pairs taken =>
                have zipped := (Ty.components_eq_ok taken).2
                have pairAllowed : ∀ pair ∈ pairs, allowed pair.1 ∧ allowed pair.2 := by
                  rw [zipped]
                  intro pair member
                  exact ⟨hereditary (List.of_mem_zip member).1 headAllowed,
                    hereditary (List.of_mem_zip member).2 otherAllowed⟩
                rcases exists_failed_of_solveAll allowed (fun pair member before steps =>
                    unifyWithin_steps hereditary limit (steps.acyclic acyclic) (steps.within inside)
                      (pairAllowed pair member).1 (pairAllowed pair member).2) failed with
                  ⟨pair, member, before, early, late, here⟩
                have growth := early.extends.trans late.extends
                -- the heads are no variables, so the bindings made since then do not move them
                refine .of_components (leads.of_extends growth noVar)
                  (leads'.of_extends growth noVar') taken member ?_
                refine ih (early.acyclic acyclic) (early.within inside) (pairAllowed pair member).1
                  (pairAllowed pair member).2 ?_ here
                intro after steps
                rw [zipped] at member
                exact lower pair.1 (List.of_mem_zip member).1 after (early.trans steps)

/-- Failures name a genuine culprit: one path of components leads from both arguments of a failed
call to the types that the failure shows, through the bindings that the call leaves, and unifying
these types fails again for the same reason and binds nothing. Only a call that stops at an
incomplete type names none, and without absent types no call does. -/
theorem unify_blames_culprit (acyclic : subst.Acyclic)
    (failed : subst.unify expected found = (after, some error)) :
    (error.fault ≠ .incomplete → after.Blames expected found error) ∧
    (subst.Within (·.isPresent = true) → expected.isPresent = true → found.isPresent = true →
      error.fault ≠ .incomplete) := by
  constructor
  · intro finished
    exact blames_of_unifyWithin (hereditary_fits subst expected found) acyclic within_fits
      fits_expected fits_found
      (fun _ steps =>
        height_apply_lt_unifyLimit (fun _ fits => fits) within_fits steps fits_expected)
      failed finished
  · intro inside expectedPresent foundPresent
    exact fault_of_unifyWithin acyclic inside expectedPresent foundPresent failed

/-- The first elements are at fault, and on the left it is found through a binding. -/
theorem unify_blames_culprit_inElement :
    (empty.bind 0 (.list (var 1))).Blames (.tuple [var 0]) (.tuple [var 1])
      ⟨.infiniteType, .list (var 1), var 1⟩ :=
  have acyclic : (empty.bind 0 (.list (var 1))).Acyclic := acyclic_empty.bind rfl (by decide)
  (unify_blames_culprit acyclic rfl).1 (by decide)

end Subst

end TraitCheck
