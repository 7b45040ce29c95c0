import TraitCheck.Proofs.Solving
import TraitCheck.Proofs.Unification.Symmetry

/-!
# Unification and the names of variables

Unification does not depend on which variables it is given: renaming all variables of a substitution
and of two types by a permutation renames the outcome, the bindings as well as the failure. Each
function that unification is made of commutes with renaming, and `unify_rename` is put together from
these equations. No assumption on the substitution is needed.
-/

namespace TraitCheck

namespace Ty

variable (perm : VarId → VarId) {ty : Ty}

@[simp]
theorem rename_var (id : VarId) : (var id).rename perm = var (perm id) := rfl

theorem rename_ne_var (noVar : ∀ id, ty ≠ var id) (id : VarId) : ty.rename perm ≠ var id := by
  cases ty with
  | var other => exact absurd rfl (noVar other)
  | _ => simp [rename]

theorem parts_rename (ty : Ty) : (ty.rename perm).parts = ty.parts.map (rename perm) := by
  rcases ty.var_or_not with ⟨id, rfl⟩ | noVar
  · rfl
  · exact parts_bindVars noVar

theorem vars_rename (ty : Ty) : (ty.rename perm).vars = ty.vars.map perm := by
  induction ty with
  | step ty ih =>
    rcases ty.var_or_not with ⟨id, rfl⟩ | noVar
    · rfl
    · rw [vars_eq_flatMap (rename_ne_var perm noVar), vars_eq_flatMap noVar, parts_rename,
        List.flatMap_map, List.map_flatMap]
      exact List.flatMap_congr ih

@[simp]
theorem isAbsent_rename (ty : Ty) : (ty.rename perm).isAbsent = ty.isAbsent := by
  cases ty <;> simp [rename, isAbsent]

@[simp]
theorem isUnknown_rename (ty : Ty) : (ty.rename perm).isUnknown = ty.isUnknown := by
  cases ty <;> simp [rename, isUnknown]

@[simp]
theorem isScheme_rename (ty : Ty) : (ty.rename perm).isScheme = ty.isScheme := by
  cases ty <;> simp [rename, isScheme]

theorem var?_rename (ty : Ty) : (ty.rename perm).var? = ty.var?.map perm := by
  cases ty <;> simp [rename, var?]

@[simp]
theorem lacksField_rename (ty : Ty) : (ty.rename perm).lacksField = ty.lacksField := by
  cases ty with
  | record fields =>
    simp only [rename, bindVars_record, lacksField, List.any_map]
    exact List.any_congr rfl fun field => isAbsent_rename perm field.2
  | _ => simp [rename, lacksField]

@[simp]
theorem isComplete_rename (ty : Ty) : (ty.rename perm).isComplete = ty.isComplete := by
  induction ty with
  | step ty ih =>
    rw [Bool.eq_iff_iff, isComplete_iff, isComplete_iff, lacksField_rename, parts_rename,
      List.forall_mem_map]
    exact and_congr_right' (forall₂_congr fun part member => by rw [ih part member])

@[simp]
theorem weight_rename (ty : Ty) : (ty.rename perm).weight = ty.weight := by
  induction ty with
  | step ty ih =>
    rw [weight_eq, weight_eq ty, isAbsent_rename, parts_rename, List.map_map]
    exact congrArg _ (congrArg List.sum (List.map_congr_left ih))

theorem rename_bindVars (image : VarId → Ty) (ty : Ty) :
    (ty.bindVars image).rename perm = ty.bindVars fun id => (image id).rename perm :=
  bindVars_bindVars ..

theorem bindVars_rename (image : VarId → Ty) (ty : Ty) :
    (ty.rename perm).bindVars image = ty.bindVars fun id => image (perm id) :=
  bindVars_bindVars ..

theorem rename_eq_self {perm : VarId → VarId} (fixed : ∀ id ∈ ty.vars, perm id = id) :
    ty.rename perm = ty :=
  bindVars_eq_self fun id found => by rw [fixed id found]

theorem occurs_rename (perm : Equiv.Perm VarId) (id : VarId) (ty : Ty) :
    (ty.rename perm).occurs (perm id) = ty.occurs id := by
  rw [Bool.eq_iff_iff, occurs_iff, occurs_iff, mem_vars_rename]

end Ty

def UnifyError.rename (perm : VarId → VarId) (error : UnifyError) : UnifyError :=
  ⟨error.fault, error.expected.rename perm, error.found.rename perm⟩

theorem UnifyError.settle_rename (perm : VarId → VarId) (error : UnifyError) :
    (error.rename perm).settle = error.settle.rename perm := by
  have sayable : (error.rename perm).isSayable = error.isSayable := by
    obtain ⟨fault, expected, found⟩ := error
    cases fault <;> simp [isSayable, rename]
  unfold settle
  rw [sayable]
  split <;> rfl

theorem Ty.components_rename (perm : VarId → VarId) (expected found : Ty) :
    (expected.rename perm).components (found.rename perm) =
      match expected.components found with
      | .error error => .error (error.rename perm)
      | .ok pairs => .ok (pairs.map (Prod.map (rename perm) (rename perm))) := by
  have gaps := fun row => lacksField_rename perm (record row)
  have types : ∀ row : Row, Row.types (row.map fun field => (field.1, field.2.rename perm)) =
      (Row.types row).map (rename perm) := fun row => by simp [Row.types]
  simp only [rename, bindVars_record] at gaps types
  cases expected <;> cases found <;> try rfl
  all_goals
    simp only [rename, bindVars_prim, bindVars_param, bindVars_named, bindVars_fn, bindVars_tuple,
      bindVars_record, components, gaps, types, labels_map, List.length_map, List.zip_map]
    split_ifs <;> simp [UnifyError.rename, rename]

namespace Subst

open Ty (var)

/-- The same bindings under other numbers. -/
def rename (perm : VarId → VarId) (subst : Subst) : Subst :=
  { subst with
    vars := ⟨subst.vars.entries.map fun entry => (perm entry.1, entry.2.rename perm)⟩ }

variable (perm : Equiv.Perm VarId) (subst : Subst)

@[simp]
theorem size_rename : (subst.rename perm).size = subst.size := List.length_map ..

@[simp]
theorem lookup_rename (id : VarId) :
    (subst.rename perm).lookup (perm id) = (subst.lookup id).map (·.rename perm) := by
  change Table.entryAt? _ (subst.vars.entries.map _) = (Table.entryAt? _ subst.vars.entries).map _
  induction subst.vars.entries with
  | nil => rfl
  | cons entry rest ih =>
    simp only [List.map_cons, Table.entryAt?, perm.injective.eq_iff]
    split
    · rfl
    · exact ih

theorem bind_rename (id : VarId) (ty : Ty) :
    (subst.rename perm).bind (perm id) (ty.rename perm) = (subst.bind id ty).rename perm := by
  suffices same : ∀ entries : List (VarId × Ty),
      Table.setEntry (perm id) (ty.rename perm)
        (entries.map fun entry => (perm entry.1, entry.2.rename perm)) =
      (Table.setEntry id ty entries).map fun entry => (perm entry.1, entry.2.rename perm) by
    simp only [bind, Table.insert, rename, same]
  intro entries
  induction entries with
  | nil => rfl
  | cons entry rest ih =>
    simp only [List.map_cons, Table.setEntry, perm.injective.eq_iff]
    split
    · rfl
    · rw [ih, List.map_cons]

theorem rename_eq_self {perm : VarId → VarId} {subst : Subst}
    (keys : ∀ id ∈ subst.vars.keys, perm id = id)
    (values : ∀ ty ∈ subst.vars.values, ∀ id ∈ ty.vars, perm id = id) :
    subst.rename perm = subst := by
  have same : ∀ entry ∈ subst.vars.entries, (perm entry.1, entry.2.rename perm) = id entry := by
    intro entry member
    rw [keys _ (List.mem_map_of_mem member),
      Ty.rename_eq_self (values _ (List.mem_map_of_mem member)), id]
  rw [rename, List.map_congr_left same, List.map_id]

theorem follow_rename (limit : Nat) (ty : Ty) :
    (subst.rename perm).follow limit (ty.rename perm) = (subst.follow limit ty).rename perm := by
  induction limit generalizing ty with
  | zero => rfl
  | succ limit ih =>
    rcases ty.var_or_not with ⟨id, rfl⟩ | noVar
    · simp only [Ty.rename_var, follow, lookup_rename]
      cases subst.lookup id with
      | none => rfl
      | some bound => exact ih bound
    · rw [follow_of_noVar noVar, follow_of_noVar (Ty.rename_ne_var perm noVar)]

@[simp]
theorem shallow_rename (ty : Ty) :
    (subst.rename perm).shallow (ty.rename perm) = (subst.shallow ty).rename perm := by
  rw [shallow, size_rename, follow_rename, shallow]

theorem shallow?_rename (ty : Ty) :
    (subst.rename perm).shallow? (ty.rename perm) = (subst.shallow? ty).map (·.rename perm) := by
  rw [shallow?, shallow?, shallow_rename]
  cases subst.shallow ty with
  | absent =>
    change (if (ty.rename perm).isAbsent then some Ty.absent else none) = _
    rw [Ty.isAbsent_rename]
    dsimp only
    split <;> rfl
  | _ => rfl

theorem solution_rename (limit : Nat) (id : VarId) :
    (subst.rename perm).solution limit (perm id) = (subst.solution limit id).rename perm := by
  induction limit generalizing id with
  | zero => rfl
  | succ limit ih =>
    rw [solution, solution, lookup_rename]
    cases subst.lookup id with
    | none => rfl
    | some bound =>
      change (bound.rename perm).bindVars _ = (bound.bindVars _).rename perm
      rw [Ty.bindVars_rename, Ty.rename_bindVars]
      simp only [ih]

@[simp]
theorem apply_rename (ty : Ty) :
    (subst.rename perm).apply (ty.rename perm) = (subst.apply ty).rename perm := by
  rw [apply, apply, Ty.bindVars_rename, Ty.rename_bindVars, size_rename]
  simp only [solution_rename]

theorem isSound_rename (limit : Nat) (ty : Ty) :
    (subst.rename perm).isSound limit (ty.rename perm) = subst.isSound limit ty := by
  induction limit generalizing ty with
  | zero => exact Ty.isComplete_rename perm ty
  | succ limit ih =>
    rw [isSound, isSound, Ty.isComplete_rename, Ty.vars_rename, List.all_map]
    congr 1
    refine List.all_congr rfl fun id => ?_
    rw [Function.comp_apply, lookup_rename]
    cases subst.lookup id with
    | none => rfl
    | some bound => simp only [Option.map_some, Ty.isAbsent_rename, ih]

@[simp]
theorem applies_rename (ty : Ty) :
    (subst.rename perm).applies (ty.rename perm) = subst.applies ty := by
  rw [applies, applies, size_rename, isSound_rename]

theorem applied?_rename (ty : Ty) :
    (subst.rename perm).applied? (ty.rename perm) = (subst.applied? ty).map (·.rename perm) := by
  rw [applied?, applied?, applies_rename, apply_rename]
  split <;> rfl

/-- The same outcome under other numbers. -/
def Outcome.rename (perm : VarId → VarId) (outcome : Outcome) : Outcome :=
  (outcome.1.rename perm, outcome.2.map (·.rename perm))

theorem solve_rename (id : VarId) (ty : Ty) (swapped : Bool) :
    (subst.rename perm).solve (perm id) (ty.rename perm) swapped =
      Outcome.rename perm (subst.solve id ty swapped) := by
  have itself : (ty.rename perm).var? = some (perm id) ↔ ty.var? = some id := by
    rw [Ty.var?_rename, Option.map_eq_some_iff]
    simp
  simp only [solve, itself, Ty.isUnknown_rename, Ty.isComplete_rename, applies_rename, apply_rename,
    Ty.occurs_rename, bind_rename]
  split
  · rfl
  · split
    · rfl
    · split
      · split <;> rfl
      · rfl

theorem solveAll_rename {solvePair : Subst → Ty → Ty → Outcome}
    (pair : ∀ subst expected found,
      solvePair (subst.rename perm) (expected.rename perm) (found.rename perm) =
        Outcome.rename perm (solvePair subst expected found))
    (pairs : List (Ty × Ty)) :
    solveAll solvePair (subst.rename perm)
    (pairs.map (Prod.map (Ty.rename perm) (Ty.rename perm))) =
      Outcome.rename perm (solveAll solvePair subst pairs) := by
  induction pairs generalizing subst with
  | nil => rfl
  | cons head rest ih =>
    obtain ⟨expected, found⟩ := head
    simp only [List.map_cons, Prod.map_apply, solveAll, pair]
    obtain ⟨after, _ | error⟩ := solvePair subst expected found
    · exact ih after
    · rfl

theorem unifyWithin_rename (limit : Nat) (expected found : Ty) :
    unifyWithin limit (subst.rename perm) (expected.rename perm) (found.rename perm) =
      Outcome.rename perm (unifyWithin limit subst expected found) := by
  induction limit generalizing subst expected found with
  | zero => rfl
  | succ limit ih =>
    have reached := shallow?_rename perm subst expected
    have reached' := shallow?_rename perm subst found
    rcases first : subst.shallow? expected with _ | head
    · rw [first] at reached
      rw [unifyWithin_astray (.inl first), unifyWithin_astray (.inl reached)]
      rfl
    rcases second : subst.shallow? found with _ | other
    · rw [second] at reached'
      rw [unifyWithin_astray (.inr second), unifyWithin_astray (.inr reached')]
      rfl
    rw [first, Option.map_some] at reached
    rw [second, Option.map_some] at reached'
    rcases head.var_or_not with ⟨id, rfl⟩ | noVar
    · rw [unifyWithin_left first second, unifyWithin_left reached reached', solve_rename]
    rcases other.var_or_not with ⟨id, rfl⟩ | noVar'
    · rw [unifyWithin_right noVar first second,
        unifyWithin_right (Ty.rename_ne_var perm noVar) reached reached', solve_rename]
    rw [unifyWithin_formers noVar noVar' first second, unifyWithin_formers
      (Ty.rename_ne_var perm noVar) (Ty.rename_ne_var perm noVar') reached reached',
      Ty.isUnknown_rename, Ty.isUnknown_rename, Ty.components_rename]
    split
    · rfl
    · rcases head.components other with error | pairs
      · change (_, some (error.rename perm).settle) = _
        rw [UnifyError.settle_rename]
        rfl
      · exact solveAll_rename perm subst ih pairs

@[simp]
theorem weight_rename : (subst.rename perm).weight = subst.weight := by
  simp only [weight, rename, List.foldr_map, Ty.weight_rename]

theorem unify_rename (expected found : Ty) :
    (subst.rename perm).unify (expected.rename perm) (found.rename perm) =
      Outcome.rename perm (subst.unify expected found) := by
  rw [unify, unifyLimit, weight_rename, Ty.weight_rename, Ty.weight_rename]
  exact unifyWithin_rename perm subst _ expected found

end Subst

end TraitCheck
