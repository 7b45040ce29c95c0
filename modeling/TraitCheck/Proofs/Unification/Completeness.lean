import TraitCheck.Proofs.Unification.Soundness

/-!
# Completeness of unification

On plain types the unifier fails only where no assignment of types to variables solves the problem,
and every assignment that solves the problem satisfies the bindings that it makes. So the resulting
substitution is a most general unifier.

That the limit on the descent is never reached is seen as follows. A call at depth `n` stands under
`n` formers of a solved argument. All types that are bound on the way come from the problem, so the
solved arguments are no higher than the number of bindings times the height of the problem, and
there are at most as many bindings as there are variables in the problem.
-/

namespace TraitCheck

variable {ty expected : Ty} {assignment : VarId → Ty}
variable {after : Subst} {found : Ty} {error : UnifyError} {allowed : Ty → Prop} {id : VarId}
  {limit : Nat}

namespace Subst

open Ty (var)

variable {subst : Subst} {pairs : List (Ty × Ty)} {pool : Finset VarId}
  {solvePair : Subst → Ty → Ty → Outcome}

/-- An assignment solves a unification problem if it satisfies the bindings at hand and makes the
two types equal. -/
structure Unifies (assignment : VarId → Ty) (subst : Subst) (expected found : Ty) : Prop where
  satisfies : Satisfies assignment subst
  equal : expected.bindVars assignment = found.bindVars assignment

theorem Within.height_apply_le {bound : Nat} (inside : subst.Within (·.height ≤ bound))
    (low : ty.height ≤ bound) : (subst.apply ty).height ≤ (subst.size + 1) * bound := by
  have solved : ∀ limit id, (subst.solution limit id).height ≤ limit * bound := by
    intro limit
    induction limit with
    | zero =>
      intro id
      exact Nat.zero_le _
    | succ limit ih =>
      intro id
      rcases bound : subst.lookup id with _ | binding
      · rw [solution_of_unbound bound]
        exact Nat.zero_le _
      · rw [solution_of_bound bound, Nat.succ_mul]
        have higher := Ty.height_bindVars_le fun id (_ : id ∈ binding.vars) => ih id
        have := inside bound
        omega
  have higher := Ty.height_bindVars_le fun id (_ : id ∈ ty.vars) => solved subst.size id
  rw [Nat.succ_mul]
  change (subst.apply ty).height ≤ _ at higher
  omega

theorem Steps.height_part_lt {part : Ty} (steps : Steps allowed subst after)
    (acyclic : subst.Acyclic) (member : part ∈ (subst.shallow ty).parts) :
    (after.apply part).height < (after.apply ty).height := by
  have head : after.apply (subst.shallow ty) = after.apply ty :=
    (steps.extends.satisfies (steps.acyclic acyclic).apply_satisfies).bindVars_shallow ty
  rw [← head]
  exact Ty.height_part_lt (Ty.part_bindVars_mem _ member)

/-- The variables of a pool that are not bound. -/
def unboundIn (subst : Subst) (pool : Finset VarId) : Finset VarId :=
  pool.filter fun id => (subst.lookup id).isNone

theorem size_bind (unbound : subst.lookup id = none) (ty : Ty) :
    (subst.bind id ty).size = subst.size + 1 :=
  Table.size_insert_of_new ty unbound

theorem unboundIn_bind (id : VarId) (ty : Ty) :
    (subst.bind id ty).unboundIn pool = (subst.unboundIn pool).erase id := by
  ext other
  by_cases same : id = other
  · simp [unboundIn, same]
  · simp [unboundIn, same, Ne.symm same]

theorem Steps.size_add_card_le {before : Subst}
    (inPool : ∀ id, allowed (var id) → id ∈ pool) (steps : Steps allowed before after) :
    after.size + (after.unboundIn pool).card ≤ before.size + (before.unboundIn pool).card := by
  induction steps with
  | refl => exact le_rfl
  | @tail middle after _ step ih =>
    obtain ⟨id, ty, unbound, _, idAllowed, _, rfl⟩ := step
    have member : id ∈ middle.unboundIn pool := by
      simp [unboundIn, inPool id idAllowed, unbound]
    have shrunk := Finset.card_erase_add_one member
    rw [size_bind unbound, unboundIn_bind]
    omega

/-- All variables of a problem. -/
def problemVars (subst : Subst) (expected found : Ty) : List VarId :=
  subst.vars.entries.flatMap (fun entry => entry.2.vars) ++ (expected.vars ++ found.vars)

/-- The types that a unification can meet: no higher than the problem is heavy, and with variables
of the problem. -/
structure Fits (subst : Subst) (expected found ty : Ty) : Prop where
  low : ty.height ≤ subst.weight + expected.weight + found.weight
  inProblem : ∀ id ∈ ty.vars, id ∈ (subst.problemVars expected found).toFinset

theorem hereditary_fits (subst : Subst) (expected found : Ty) :
    Hereditary (subst.Fits expected found) := by
  intro ty part member fits
  refine ⟨le_trans (Ty.height_part_lt member).le fits.low, ?_⟩
  exact fun id occurs => fits.inProblem id (Ty.mem_vars_of_part member occurs)

/-- The types that a unification of plain types can meet: plain, no heavier than the problem and
with variables of the problem. -/
structure Met (subst : Subst) (expected found ty : Ty) : Prop where
  plain : ty.isPlain (fun _ => true) = true
  low : ty.height ≤ subst.weight + expected.weight + found.weight
  inProblem : ∀ id ∈ ty.vars, id ∈ (subst.problemVars expected found).toFinset

theorem Met.fits (met : subst.Met expected found ty) : subst.Fits expected found ty :=
  ⟨met.low, met.inProblem⟩

theorem Fits.met (fits : subst.Fits expected found ty) (plain : ty.isPlain (fun _ => true) = true) :
    subst.Met expected found ty :=
  ⟨plain, fits.low, fits.inProblem⟩

theorem hereditary_met (subst : Subst) (expected found : Ty) :
    Hereditary (subst.Met expected found) := by
  intro ty part member met
  exact (hereditary_fits subst expected found member met.fits).met (Ty.all_of_part met.plain member)

theorem weight_eq_sum (subst : Subst) :
    subst.weight = (subst.vars.entries.map fun entry => entry.2.weight + 1).sum := by
  rw [weight, List.sum, List.foldr_map]

theorem size_add_length_problemVars_le (subst : Subst) (expected found : Ty) :
    subst.size + (subst.problemVars expected found).length ≤
      subst.weight + expected.weight + found.weight := by
  have bindings : ∀ entries : List (VarId × Ty),
      entries.length + (entries.flatMap fun entry => entry.2.vars).length ≤
        (entries.map fun entry => entry.2.weight + 1).sum := by
    intro entries
    induction entries with
    | nil => simp
    | cons entry rest ih =>
      have := Ty.length_vars_le_weight entry.2
      simp only [List.length_cons, List.flatMap_cons, List.length_append, List.map_cons,
        List.sum_cons]
      omega
  have := bindings subst.vars.entries
  have := Ty.length_vars_le_weight expected
  have := Ty.length_vars_le_weight found
  simp only [problemVars, List.length_append, size, Table.size, weight_eq_sum] at *
  omega

section Problem

variable {expected found : Ty}

theorem fits_expected : subst.Fits expected found expected where
  low := by
    have := Ty.height_le_weight expected
    omega
  inProblem id occurs := by simp [problemVars, occurs]

theorem fits_found : subst.Fits expected found found where
  low := by
    have := Ty.height_le_weight found
    omega
  inProblem id occurs := by simp [problemVars, occurs]

theorem within_fits : subst.Within (subst.Fits expected found) := by
  intro id ty bound
  have member := Table.mem_entries_of_find? bound
  refine ⟨?_, ?_⟩
  · have lighter : ty.weight + 1 ≤ subst.weight := by
      rw [weight_eq_sum]
      exact List.le_sum_of_mem (List.mem_map_of_mem (f := fun entry => entry.2.weight + 1) member)
    have := Ty.height_le_weight ty
    omega
  · intro other occurs
    rw [List.mem_toFinset, problemVars, List.mem_append]
    exact .inl (List.mem_flatMap.mpr ⟨_, member, occurs⟩)

theorem within_met (inside : subst.Within (·.isPlain (fun _ => true) = true)) :
    subst.Within (subst.Met expected found) :=
  fun _ _ bound => (within_fits bound).met (inside bound)

/-- Whatever is bound in the course of a unification, the limit on the descent is beyond the height
of the solved types. -/
theorem height_apply_lt_unifyLimit (fits : ∀ ty, allowed ty → subst.Fits expected found ty)
    (inside : subst.Within allowed) (steps : Steps allowed subst after) (tyAllowed : allowed ty) :
    (after.apply ty).height < subst.unifyLimit expected found := by
  have afterInside := steps.within inside
  have height : (after.apply ty).height ≤
      (after.size + 1) * (subst.weight + expected.weight + found.weight) :=
    Within.height_apply_le (fun _ _ bound => (fits _ (afterInside bound)).low)
      (fits ty tyAllowed).low
  have used := steps.size_add_card_le fun id idAllowed =>
    (fits _ idAllowed).inProblem id (by simp)
  have pool : (subst.unboundIn (subst.problemVars expected found).toFinset).card ≤
      (subst.problemVars expected found).length :=
    le_trans (Finset.card_filter_le _ _) (List.toFinset_card_le _)
  have fit := size_add_length_problemVars_le subst expected found
  have size : after.size + 1 ≤ subst.weight + expected.weight + found.weight + 1 := by omega
  calc (after.apply ty).height
      ≤ (after.size + 1) * (subst.weight + expected.weight + found.weight) := height
    _ ≤ (subst.weight + expected.weight + found.weight + 1) *
          (subst.weight + expected.weight + found.weight + 1) :=
        Nat.mul_le_mul size (Nat.le_succ _)
    _ < subst.unifyLimit expected found := by
        rw [unifyLimit, Nat.pow_eq, pow_two]
        exact Nat.lt_succ_self _

end Problem

theorem solve_complete (inside : subst.Within (·.isPresent = true))
    (present : ty.isPresent = true) (head : ∀ other, ty = var other → subst.lookup other = none)
    (satisfies : Satisfies assignment subst) (equal : assignment id = ty.bindVars assignment)
    (swapped : Bool) :
    ∃ after, subst.solve id ty swapped = (after, none) ∧ Satisfies assignment after := by
  generalize outcome : subst.solve id ty swapped = result
  have step := outcome ▸ solveStep id ty swapped
  cases step with
  | itself same | placeholder unknown => exact ⟨subst, rfl, satisfies⟩
  | incomplete stuck =>
    rw [Ty.isComplete_of_isPresent present, inside.applies present] at stuck
    cases stuck
  | infinite proper occurs _ =>
    have solvedProper : subst.apply ty ≠ var id := by
      intro same
      cases ty with
      | var other =>
        rw [apply_var_of_unbound (head other rfl)] at same
        exact proper same
      | _ => simp [apply] at same
    rw [← satisfies.bindVars_apply ty] at equal
    exact (Ty.image_ne_bindVars assignment occurs solvedProper equal).elim
  | bind fresh =>
    refine ⟨subst.bind id ty, rfl, ?_⟩
    intro other binding bound
    rw [lookup_bind] at bound
    split at bound
    · next same =>
        cases bound
        rw [← same, equal]
    · exact satisfies bound

theorem solveAll_complete (allowed : Ty → Prop)
    (each : ∀ pair ∈ pairs, ∀ before, Steps allowed subst before → Satisfies assignment before →
      Steps allowed before (solvePair before pair.1 pair.2).1 ∧
      ∃ after, solvePair before pair.1 pair.2 = (after, none) ∧ Satisfies assignment after)
    (satisfies : Satisfies assignment subst) :
    ∃ after, solveAll solvePair subst pairs = (after, none) ∧ Satisfies assignment after := by
  induction pairs generalizing subst with
  | nil => exact ⟨subst, rfl, satisfies⟩
  | cons pair rest ih =>
    obtain ⟨steps, middle, solved, middleSatisfies⟩ :=
      each pair List.mem_cons_self subst Relation.ReflTransGen.refl satisfies
    rw [solved] at steps
    rw [solveAll, solved]
    exact ih (fun other member before further => each other (List.mem_cons_of_mem _ member) before
      (steps.trans further)) middleSatisfies

theorem Unifies.components (unifies : Unifies assignment subst expected found)
    (expectedPlain : expected.isPlain (fun _ => true) = true)
    (foundPlain : found.isPlain (fun _ => true) = true) (expectedNoVar : ∀ id, expected ≠ var id)
    (foundNoVar : ∀ id, found ≠ var id) :
    expected.components found = .ok (expected.parts.zip found.parts) ∧
      ∀ pair ∈ expected.parts.zip found.parts,
        pair.1.bindVars assignment = pair.2.bindVars assignment := by
  have same : expected.sameFormer found = true := by
    rw [← Ty.sameFormer_bindVars assignment expectedNoVar foundNoVar, unifies.equal]
    exact Ty.sameFormer_refl _
  refine ⟨Ty.components_of_sameFormer expectedPlain foundPlain expectedNoVar same, ?_⟩
  have sameParts : expected.parts.map (·.bindVars assignment) =
      found.parts.map (·.bindVars assignment) := by
    rw [← Ty.parts_bindVars expectedNoVar, ← Ty.parts_bindVars foundNoVar, unifies.equal]
  intro pair member
  obtain ⟨position, inZip, rfl⟩ := List.getElem_of_mem member
  have inBoth : position < expected.parts.length ∧ position < found.parts.length := by
    simpa using inZip
  have := List.getElem_of_eq sameParts (by simpa using inBoth.1)
  simpa using this

/-- Where some assignment solves the problem and the descent is long enough, unification succeeds
with bindings that the assignment satisfies. -/
theorem unifyWithin_complete (hereditary : Hereditary allowed)
    (plain : ∀ ty, allowed ty → ty.isPlain (fun _ => true) = true) (acyclic : subst.Acyclic)
    (inside : subst.Within allowed) (expectedAllowed : allowed expected)
    (foundAllowed : allowed found) (unifies : Unifies assignment subst expected found)
    (low : ∀ after, Steps allowed subst after → (after.apply expected).height < limit) :
    ∃ after, unifyWithin limit subst expected found = (after, none) ∧
      Satisfies assignment after := by
  induction limit generalizing subst expected found with
  | zero => exact absurd (low subst Relation.ReflTransGen.refl) (Nat.not_lt_zero _)
  | succ limit ih =>
    have expectedHead := inside.shallow expectedAllowed
    have foundHead := inside.shallow foundAllowed
    have present : ∀ ty, allowed ty → ty.isPresent = true :=
      fun ty tyAllowed => Ty.isPresent_of_isPlain (plain ty tyAllowed)
    have insidePresent : subst.Within (·.isPresent = true) :=
      fun _ _ bound => present _ (inside bound)
    have heads : Unifies assignment subst (subst.shallow expected) (subst.shallow found) := by
      refine ⟨unifies.satisfies, ?_⟩
      rw [unifies.satisfies.bindVars_shallow, unifies.satisfies.bindVars_shallow, unifies.equal]
    generalize outcome : unifyWithin (limit + 1) subst expected found = result
    have step := outcome ▸ unifyStep limit expected found
    cases step with
    | incomplete stuck =>
      rcases stuck with expectedAbsent | foundAbsent
      · have := plain _ expectedHead
        rw [expectedAbsent] at this
        cases this
      · have := plain _ foundHead
        rw [foundAbsent] at this
        cases this
    | left isVar =>
      have equal := heads.equal
      rw [isVar] at equal
      exact solve_complete insidePresent (present _ foundHead)
        (fun other same => acyclic.unbound_of_shallow same) unifies.satisfies equal _
    | right isVar =>
      have equal := heads.equal
      rw [isVar] at equal
      exact solve_complete insidePresent (present _ expectedHead)
        (fun other same => acyclic.unbound_of_shallow same) unifies.satisfies equal.symm _
    | placeholder unknown => exact ⟨subst, rfl, unifies.satisfies⟩
    | clash expectedNoVar foundNoVar differ =>
      rw [(heads.components (plain _ expectedHead) (plain _ foundHead) expectedNoVar
        foundNoVar).1] at differ
      cases differ
    | descend expectedNoVar foundNoVar decomposed =>
      obtain ⟨taken, equal⟩ := heads.components (plain _ expectedHead) (plain _ foundHead)
        expectedNoVar foundNoVar
      rw [taken] at decomposed
      cases decomposed
      refine solveAll_complete allowed ?_ unifies.satisfies
      intro pair member before steps satisfies
      have beforeAcyclic := steps.acyclic acyclic
      have beforeInside := steps.within inside
      have firstAllowed := hereditary (List.of_mem_zip member).1 expectedHead
      have secondAllowed := hereditary (List.of_mem_zip member).2 foundHead
      refine ⟨unifyWithin_steps hereditary limit beforeAcyclic beforeInside firstAllowed
        secondAllowed, ih beforeAcyclic beforeInside firstAllowed secondAllowed
        ⟨satisfies, equal pair member⟩ ?_⟩
      intro after further
      have sofar : Steps allowed subst after := steps.trans further
      have whole := low after sofar
      have part := sofar.height_part_lt acyclic (List.of_mem_zip member).1
      omega

/-- A failure that is about types without absent components, and can be put into words. -/
structure Genuine (error : UnifyError) : Prop where
  fault : error.fault ≠ .incomplete
  expected : error.expected.isPresent = true
  found : error.found.isPresent = true

theorem genuine_settle_of_components (differ : expected.components found = .error error)
    (expectedPresent : expected.isPresent = true) (foundPresent : found.isPresent = true) :
    Genuine error.settle := by
  have expectedComplete := Ty.isComplete_of_isPresent expectedPresent
  have foundComplete := Ty.isComplete_of_isPresent foundPresent
  have expectedFields := Ty.lacksField_of_isPresent expectedPresent
  have foundFields := Ty.lacksField_of_isPresent foundPresent
  have same := Ty.components_eq_error differ
  have sayable : error.isSayable = true ∧ error.fault ≠ .incomplete := by
    unfold Ty.components at differ
    split at differ <;> try split at differ
    all_goals try split at differ
    all_goals simp only [Except.error.injEq, reduceCtorEq] at differ
    all_goals subst differ
    all_goals simp_all [UnifyError.isSayable]
  rw [UnifyError.settle, if_pos sayable.1]
  exact ⟨sayable.2, same.1 ▸ expectedPresent, same.2 ▸ foundPresent⟩

theorem exists_failed_of_solveAll (allowed : Ty → Prop)
    (each : ∀ pair ∈ pairs, ∀ before, Steps allowed subst before →
      Steps allowed before (solvePair before pair.1 pair.2).1)
    (failed : solveAll solvePair subst pairs = (after, some error)) :
    ∃ pair ∈ pairs, ∃ before, Steps allowed subst before ∧ Steps allowed before after ∧
      solvePair before pair.1 pair.2 = (after, some error) := by
  induction pairs generalizing subst with
  | nil => cases failed
  | cons pair rest ih =>
    have steps := each pair List.mem_cons_self subst Relation.ReflTransGen.refl
    rw [solveAll] at failed
    split at failed
    · next middle solved =>
        rw [solved] at steps
        rcases ih (fun other member before further => each other (List.mem_cons_of_mem _ member)
          before (steps.trans further)) failed with ⟨found, member, before, early, late, here⟩
        exact ⟨found, List.mem_cons_of_mem _ member, before, steps.trans early, late, here⟩
    · next middle error firstFailed =>
        cases failed
        rw [firstFailed] at steps
        exact ⟨pair, List.mem_cons_self, subst, Relation.ReflTransGen.refl, steps, firstFailed⟩

theorem genuine_of_solve {swapped : Bool} (inside : subst.Within (·.isPresent = true))
    (present : ty.isPresent = true) (failed : subst.solve id ty swapped = (after, some error)) :
    Genuine error := by
  generalize outcome : subst.solve id ty swapped = result at failed
  have step := outcome ▸ solveStep id ty swapped
  cases step with
  | incomplete stuck =>
    rw [Ty.isComplete_of_isPresent present, inside.applies present] at stuck
    cases stuck
  | infinite _ _ fault types =>
    cases failed
    have solved := inside.isPresent_apply present
    rcases types with ⟨expected, found⟩ | ⟨expected, found⟩
    · exact ⟨by simp [fault], expected ▸ rfl, found ▸ solved⟩
    · exact ⟨by simp [fault], expected ▸ solved, found ▸ rfl⟩
  | _ => cases failed

theorem genuine_of_unifyWithin (acyclic : subst.Acyclic)
    (inside : subst.Within (·.isPresent = true)) (expectedPresent : expected.isPresent = true)
    (foundPresent : found.isPresent = true)
    (failed : unifyWithin limit subst expected found = (after, some error)) : Genuine error := by
  induction limit generalizing subst expected found after error with
  | zero =>
    cases failed
    exact ⟨by simp, expectedPresent, foundPresent⟩
  | succ limit ih =>
    have expectedHead : (subst.shallow expected).isPresent = true :=
      inside.shallow expectedPresent
    have foundHead : (subst.shallow found).isPresent = true := inside.shallow foundPresent
    generalize outcome : unifyWithin (limit + 1) subst expected found = result at failed
    have step := outcome ▸ unifyStep limit expected found
    cases step with
    | incomplete stuck =>
      rcases stuck with expectedAbsent | foundAbsent
      · rw [expectedAbsent] at expectedHead
        cases expectedHead
      · rw [foundAbsent] at foundHead
        cases foundHead
    | left isVar => exact genuine_of_solve inside foundHead failed
    | right isVar => exact genuine_of_solve inside expectedHead failed
    | placeholder unknown => cases failed
    | clash _ _ differ =>
      cases failed
      exact genuine_settle_of_components differ expectedHead foundHead
    | descend _ _ decomposed =>
      obtain ⟨_, rfl⟩ := Ty.components_eq_ok decomposed
      have present : ∀ pair ∈ (subst.shallow expected).parts.zip (subst.shallow found).parts,
          pair.1.isPresent = true ∧ pair.2.isPresent = true := fun pair member =>
        ⟨hereditary_isPresent (List.of_mem_zip member).1 expectedHead,
          hereditary_isPresent (List.of_mem_zip member).2 foundHead⟩
      obtain ⟨pair, member, before, steps, _, here⟩ :=
        exists_failed_of_solveAll (·.isPresent = true) (fun pair member before steps =>
          unifyWithin_steps hereditary_isPresent limit (steps.acyclic acyclic) (steps.within inside)
            (present pair member).1 (present pair member).2) failed
      exact ih (steps.acyclic acyclic) (steps.within inside) (present pair member).1
        (present pair member).2 here

theorem fault_of_unifyWithin (acyclic : subst.Acyclic)
    (inside : subst.Within (·.isPresent = true)) (expectedPresent : expected.isPresent = true)
    (foundPresent : found.isPresent = true)
    (failed : unifyWithin limit subst expected found = (after, some error)) :
    error.fault ≠ .incomplete :=
  (genuine_of_unifyWithin acyclic inside expectedPresent foundPresent failed).fault

section Plain

variable {expected found : Ty}

theorem unify_complete (acyclic : subst.Acyclic)
    (inside : subst.Within (·.isPlain (fun _ => true) = true))
    (expectedPlain : expected.isPlain (fun _ => true) = true)
    (foundPlain : found.isPlain (fun _ => true) = true)
    (unifies : Unifies assignment subst expected found) :
    ∃ after, subst.unify expected found = (after, none) ∧ Satisfies assignment after :=
  unifyWithin_complete (hereditary_met subst expected found) (fun _ met => met.plain) acyclic
    (within_met inside) (fits_expected.met expectedPlain) (fits_found.met foundPlain) unifies
    fun _ steps => height_apply_lt_unifyLimit (fun _ => Met.fits) (within_met inside) steps
      (fits_expected.met expectedPlain)

theorem unifies_of_unify (acyclic : subst.Acyclic)
    (inside : subst.Within (·.isPlain (fun _ => true) = true))
    (expectedPlain : expected.isPlain (fun _ => true) = true)
    (foundPlain : found.isPlain (fun _ => true) = true)
    (unified : subst.unify expected found = (after, none)) :
    Unifies (fun id => after.apply (var id)) subst expected found := by
  have steps := acyclic.unify_steps expected found
  rw [unified] at steps
  refine ⟨steps.extends.satisfies (steps.acyclic acyclic).apply_satisfies, ?_⟩
  exact unify_apply_eq acyclic (fun _ _ bound => Ty.isKnown_of_isPlain (inside bound))
    (Ty.isKnown_of_isPlain expectedPlain) (Ty.isKnown_of_isPlain foundPlain) unified

/-- Unification of plain types computes most general unifiers and fails only where there is none:
whatever assignment solves the problem, the call succeeds and the assignment satisfies all resulting
bindings. So asking whether two types unify answers whether some assignment solves the problem, and
the question leaves no trace. -/
theorem unify_most_general (acyclic : subst.Acyclic)
    (inside : subst.Within (·.isPlain (fun _ => true) = true))
    (expectedPlain : expected.isPlain (fun _ => true) = true)
    (foundPlain : found.isPlain (fun _ => true) = true) :
    (∀ assignment, Unifies assignment subst expected found →
      ∃ after, subst.unify expected found = (after, none) ∧ Satisfies assignment after) ∧
    ((subst.canUnify expected found).1 = some true ↔
      ∃ assignment, Unifies assignment subst expected found) ∧
    ((subst.canUnify expected found).1 = some false ↔
      ¬∃ assignment, Unifies assignment subst expected found) ∧
    (subst.canUnify expected found).2 = subst := by
  have complete : ∀ assignment, Unifies assignment subst expected found →
      ∃ after, subst.unify expected found = (after, none) ∧ Satisfies assignment after :=
    fun _ => unify_complete acyclic inside expectedPlain foundPlain
  refine ⟨complete, ?_⟩
  rcases outcome : subst.unify expected found with ⟨after, _ | error⟩
  · have solved : ∃ assignment, Unifies assignment subst expected found :=
      ⟨_, unifies_of_unify acyclic inside expectedPlain foundPlain outcome⟩
    simp [canUnify, outcome, solved]
  · have genuine : error.fault ≠ .incomplete :=
      fault_of_unifyWithin acyclic (fun _ _ bound => Ty.isPresent_of_isPlain (inside bound))
        (Ty.isPresent_of_isPlain expectedPlain) (Ty.isPresent_of_isPlain foundPlain) outcome
    have unsolved : ¬∃ assignment, Unifies assignment subst expected found := by
      rintro ⟨assignment, unifies⟩
      obtain ⟨other, unified, _⟩ := complete assignment unifies
      rw [outcome] at unified
      cases unified
    simp [canUnify, outcome, genuine, unsolved]

end Plain

/-- A problem with a solution, and one whose occurs check fails only through a binding. -/
theorem unify_most_general_through_binding :
    (empty.bind 0 (.list (var 1))).Acyclic ∧
    ((empty.bind 0 (.list (var 1))).canUnify (.fn [var 0] .bool) (.fn [.list .int] (var 2))).1 =
      some true ∧
    (∃ assignment, Unifies assignment (empty.bind 0 (.list (var 1)))
      (.fn [var 0] .bool) (.fn [.list .int] (var 2))) ∧
    ¬∃ assignment, Unifies assignment (empty.bind 0 (.list (var 1))) (var 1) (.list (var 0)) := by
  have acyclic : (empty.bind 0 (.list (var 1))).Acyclic := acyclic_empty.bind rfl (by decide)
  have inside : (empty.bind 0 (.list (var 1))).Within (·.isPlain (fun _ => true) = true) := by
    intro id ty bound
    rw [lookup_bind] at bound
    split at bound
    · cases bound
      rfl
    · cases bound
  exact ⟨acyclic, rfl, (unify_most_general acyclic inside rfl rfl).2.1.mp rfl,
    (unify_most_general acyclic inside rfl rfl).2.2.1.mp rfl⟩

end Subst

end TraitCheck
