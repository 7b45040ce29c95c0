import TraitCheck.Proofs.Acyclic
import TraitCheck.Unify

/-!
# What unification does to a substitution

Unification changes a substitution by binding unbound variables, one after the other, each to a type
in whose solved form it does not occur. `UnifyStep` and `SolveStep` say once what a call can do, and
`Steps` is the sequence of bindings that a call leaves behind. Whatever holds along bindings is read
off `Steps`, for calls that succeed and calls that fail alike.
-/

namespace TraitCheck

variable {expected ty first second : Ty}
variable {found : Ty}

namespace Ty

/-- Whether two types have the same outermost former, with the same names and labels and the same
number of components. -/
def sameFormer : Ty → Ty → Bool
  | .prim kind, .prim kind' => kind = kind'
  | .var id, .var id' => id = id'
  | .param index name, .param index' name' => index = index' ∧ name = name'
  | .named decl args, .named decl' args' => decl = decl' ∧ args.length = args'.length
  | .fn params _, .fn params' _ => params.length = params'.length
  | .tuple elems, .tuple elems' => elems.length = elems'.length
  | .record fields, .record fields' => Row.labels fields = Row.labels fields'
  | .scheme names _, .scheme names' _ => names = names'
  | .foreign name, .foreign name' => name = name'
  | .absent, .absent | .unknown, .unknown => true
  | _, _ => false

attribute [local simp] sameFormer parts

theorem sameFormer_refl (ty : Ty) : ty.sameFormer ty = true := by
  cases ty <;> simp [sameFormer]

theorem sameFormer_of_common (same : ty.sameFormer first = true)
    (same' : ty.sameFormer second = true) : first.sameFormer second = true := by
  cases ty <;> cases first <;> simp [sameFormer] at same <;> cases second <;>
    simp [sameFormer] at same' ⊢ <;> simp_all

theorem length_parts_of_sameFormer (same : first.sameFormer second = true) :
    first.parts.length = second.parts.length := by
  cases first <;> cases second <;> simp [sameFormer, parts] at same ⊢ <;> try omega
  rename_i fields fields'
  simpa [Row.labels] using congrArg List.length same

theorem eq_of_sameFormer (same : first.sameFormer second = true)
    (sameParts : first.parts = second.parts) : first = second := by
  cases first <;> cases second <;> simp [sameFormer, parts] at same sameParts ⊢ <;>
    try simp [same, sameParts]
  rename_i fields fields'
  have labels : fields.map Prod.fst = fields'.map Prod.fst := same
  rw [← List.zip_unzip fields, ← List.zip_unzip fields', List.unzip_eq_map, List.unzip_eq_map,
    labels, sameParts]

@[simp]
theorem labels_map (image : Ty → Ty) (fields : Row) :
    Row.labels (fields.map fun field => (field.1, image field.2)) = Row.labels fields := by
  rw [Row.labels, List.map_map]
  rfl

theorem sameFormer_bindVars (image : VarId → Ty) (firstNoVar : ∀ id, first ≠ var id)
    (secondNoVar : ∀ id, second ≠ var id) :
    (first.bindVars image).sameFormer (second.bindVars image) = first.sameFormer second := by
  cases first <;> cases second <;> simp [sameFormer] at firstNoVar secondNoVar ⊢

theorem components_eq_ok {pairs : List (Ty × Ty)}
    (decomposed : expected.components found = .ok pairs) :
    expected.sameFormer found = true ∧ pairs = expected.parts.zip found.parts := by
  cases expected <;> cases found <;> simp only [components, reduceCtorEq] at decomposed <;>
    split at decomposed <;> try split at decomposed
  all_goals simp only [Except.ok.injEq, reduceCtorEq] at decomposed
  all_goals subst decomposed
  all_goals simp_all [sameFormer, parts, Row.types, List.zip_append]

theorem components_eq_error {error : UnifyError}
    (differ : expected.components found = .error error) :
    error.expected = expected ∧ error.found = found := by
  unfold components at differ
  split at differ <;> try split at differ
  all_goals try split at differ
  all_goals simp only [Except.error.injEq, reduceCtorEq] at differ
  all_goals exact differ ▸ ⟨rfl, rfl⟩

theorem components_of_sameFormer {admits : Int → Bool}
    (expectedPlain : expected.isPlain admits = true) (foundPlain : found.isPlain admits = true)
    (expectedNoVar : ∀ id, expected ≠ var id) (same : expected.sameFormer found = true) :
    expected.components found = .ok (expected.parts.zip found.parts) := by
  have := lacksField_of_isPresent (isPresent_of_isPlain expectedPlain)
  have := lacksField_of_isPresent (isPresent_of_isPlain foundPlain)
  have expectedFormer := (all_iff.mp expectedPlain).1
  cases expected <;> cases found <;>
    simp_all [sameFormer, parts, components, Row.types, List.zip_append, isPlainFormer]

end Ty

namespace Subst

open Ty (var)

variable {subst : Subst}

/-- What binding an unbound variable to a type can do. -/
inductive SolveStep (subst : Subst) (id : VarId) (ty : Ty) : Outcome → Prop
  | itself (same : ty = var id) : SolveStep subst id ty (subst, none)
  | placeholder (unknown : ty = .unknown) : SolveStep subst id ty (subst, none)
  | incomplete (stuck : (ty.isComplete && subst.applies ty) = false) :
      SolveStep subst id ty (subst, some ⟨.incomplete, var id, ty⟩)
  | infinite (proper : ty ≠ var id) (occurs : id ∈ (subst.apply ty).vars) {error : UnifyError}
      (fault : error.fault = .infiniteType)
      (types : error.expected = var id ∧ error.found = subst.apply ty ∨
        error.expected = subst.apply ty ∧ error.found = var id) :
      SolveStep subst id ty (subst, some error)
  | bind (fresh : id ∉ (subst.apply ty).vars) : SolveStep subst id ty (subst.bind id ty, none)

theorem solveStep (id : VarId) (ty : Ty) (swapped : Bool) :
    SolveStep subst id ty (subst.solve id ty swapped) := by
  unfold solve
  split
  · next trivial =>
      rcases trivial with same | unknown
      · refine .itself ?_
        cases ty <;> simp_all [Ty.var?]
      · refine .placeholder ?_
        cases ty <;> simp_all [Ty.isUnknown]
  · next proper =>
      split
      · next stuck => exact .incomplete (Bool.not_eq_true' _ |>.mp stuck)
      · have notSame : ty ≠ var id := by
          rintro rfl
          exact proper (.inl rfl)
        dsimp only
        split
        · next occurs =>
            split
            · exact .infinite notSame (Ty.occurs_iff.mp occurs) rfl (.inr ⟨rfl, rfl⟩)
            · exact .infinite notSame (Ty.occurs_iff.mp occurs) rfl (.inl ⟨rfl, rfl⟩)
        · next fresh => exact .bind fun member => fresh (Ty.occurs_iff.mpr member)

/-- What a unification can do, once the bindings at the heads of both types are looked through. -/
inductive UnifyStep (limit : Nat) (subst : Subst) (expected found : Ty) : Outcome → Prop
  | incomplete (stuck : subst.shallow expected = .absent ∨ subst.shallow found = .absent) :
      UnifyStep limit subst expected found (subst, some ⟨.incomplete, expected, found⟩)
  | left {id : VarId} (isVar : subst.shallow expected = var id) :
      UnifyStep limit subst expected found (subst.solve id (subst.shallow found) false)
  | right {id : VarId} (isVar : subst.shallow found = var id) :
      UnifyStep limit subst expected found (subst.solve id (subst.shallow expected) true)
  | placeholder
      (unknown : subst.shallow expected = .unknown ∨ subst.shallow found = .unknown) :
      UnifyStep limit subst expected found (subst, none)
  | clash {error : UnifyError} (expectedNoVar : ∀ id, subst.shallow expected ≠ var id)
      (foundNoVar : ∀ id, subst.shallow found ≠ var id)
      (differ : (subst.shallow expected).components (subst.shallow found) = .error error) :
      UnifyStep limit subst expected found (subst, some error.settle)
  | descend {pairs : List (Ty × Ty)} (expectedNoVar : ∀ id, subst.shallow expected ≠ var id)
      (foundNoVar : ∀ id, subst.shallow found ≠ var id)
      (decomposed : (subst.shallow expected).components (subst.shallow found) = .ok pairs) :
      UnifyStep limit subst expected found (solveAll (unifyWithin limit) subst pairs)

theorem shallow?_eq_some {reached : Ty} (found : subst.shallow? ty = some reached) :
    subst.shallow ty = reached := by
  unfold shallow? at found
  split at found
  · next absent =>
      split at found
      · simpa [absent] using found
      · cases found
  · simpa using found

theorem shallow?_eq_none (missing : subst.shallow? ty = none) : subst.shallow ty = .absent := by
  unfold shallow? at missing
  split at missing
  · assumption
  · cases missing

theorem unifyStep (limit : Nat) (expected found : Ty) :
    UnifyStep limit subst expected found (unifyWithin (limit + 1) subst expected found) := by
  rw [unifyWithin]
  split
  · next id other expectedReached foundReached =>
      rw [← shallow?_eq_some foundReached]
      exact .left (shallow?_eq_some expectedReached)
  · next other id noVar expectedReached foundReached =>
      rw [← shallow?_eq_some expectedReached]
      exact .right (shallow?_eq_some foundReached)
  · next expectedReached _ => exact .placeholder (.inl (shallow?_eq_some expectedReached))
  · next foundReached => exact .placeholder (.inr (shallow?_eq_some foundReached))
  · next expectedNoVar foundNoVar _ _ expectedReached foundReached =>
      cases shallow?_eq_some expectedReached
      cases shallow?_eq_some foundReached
      split
      · next differ => exact .clash expectedNoVar foundNoVar differ
      · next decomposed => exact .descend expectedNoVar foundNoVar decomposed
  · next stuck =>
      apply UnifyStep.incomplete
      rcases expectedReached : subst.shallow? expected with _ | reached
      · exact .inl (shallow?_eq_none expectedReached)
      · rcases foundReached : subst.shallow? found with _ | other
        · exact .inr (shallow?_eq_none foundReached)
        · exact (stuck reached other expectedReached foundReached).elim

section Heads

variable {limit : Nat} {expected found head other : Ty} {id : VarId}

theorem unifyWithin_astray (stuck : subst.shallow? expected = none ∨ subst.shallow? found = none) :
    unifyWithin (limit + 1) subst expected found =
    (subst, some ⟨.incomplete, expected, found⟩) := by
  rw [unifyWithin]
  rcases stuck with missing | missing
  · rw [missing]
  · rw [missing]
    rcases subst.shallow? expected with _ | head
    · rfl
    · cases head <;> rfl

theorem unifyWithin_left (isVar : subst.shallow? expected = some (var id))
    (reached : subst.shallow? found = some other) :
    unifyWithin (limit + 1) subst expected found = subst.solve id other false := by
  rw [unifyWithin, isVar, reached]

theorem unifyWithin_right (noVar : ∀ id, head ≠ var id)
    (reached : subst.shallow? expected = some head) (isVar : subst.shallow? found = some (var id)) :
    unifyWithin (limit + 1) subst expected found = subst.solve id head true := by
  rw [unifyWithin, reached, isVar]
  cases head with
  | var id => exact absurd rfl (noVar id)
  | _ => rfl

/-- Where neither head is a variable, a placeholder settles the matter, and otherwise the heads are
taken apart. -/
theorem unifyWithin_formers (noVar : ∀ id, head ≠ var id) (noVar' : ∀ id, other ≠ var id)
    (reached : subst.shallow? expected = some head) (reached' : subst.shallow? found = some other) :
    unifyWithin (limit + 1) subst expected found =
      if head.isUnknown || other.isUnknown then (subst, none)
      else
        match head.components other with
        | .error error => (subst, some error.settle)
        | .ok pairs => solveAll (unifyWithin limit) subst pairs := by
  rw [unifyWithin, reached, reached']
  cases head with
  | var id => exact absurd rfl (noVar id)
  | unknown =>
    cases other with
    | var id => exact absurd rfl (noVar' id)
    | _ => rfl
  | _ =>
    cases other with
    | var id => exact absurd rfl (noVar' id)
    | _ => rfl

end Heads

/-- The class contains the parts of its types. -/
def Hereditary (allowed : Ty → Prop) : Prop :=
  ∀ ⦃ty part : Ty⦄, part ∈ ty.parts → allowed ty → allowed part

/-- One binding of an unbound variable to a type in whose solved form it does not occur, both of a
class. -/
def Step (allowed : Ty → Prop) (before after : Subst) : Prop :=
  ∃ id ty, before.lookup id = none ∧ id ∉ (before.apply ty).vars ∧ allowed (var id) ∧ allowed ty ∧
    after = before.bind id ty

/-- Any number of bindings. -/
abbrev Steps (allowed : Ty → Prop) : Subst → Subst → Prop := Relation.ReflTransGen (Step allowed)

section Steps

variable {allowed : Ty → Prop} {before after : Subst}

section Steps

variable (steps : Steps allowed before after)
include steps

theorem Steps.acyclic (acyclic : before.Acyclic) : after.Acyclic := by
  induction steps with
  | refl => exact acyclic
  | tail _ step ih =>
    obtain ⟨id, ty, unbound, fresh, _, _, rfl⟩ := step
    exact ih.bind unbound fresh

theorem Steps.extends : before.Extends after := by
  induction steps with
  | refl => exact .refl before
  | tail _ step ih =>
    obtain ⟨id, ty, unbound, _, _, _, rfl⟩ := step
    exact ih.trans (extends_bind unbound ty)

theorem Steps.lookup {id : VarId} (bound : after.lookup id = some ty) :
    before.lookup id = some ty ∨ allowed (var id) ∧ allowed ty := by
  induction steps with
  | refl => exact .inl bound
  | tail _ step ih =>
    obtain ⟨other, binding, _, _, varAllowed, tyAllowed, rfl⟩ := step
    rw [lookup_bind] at bound
    split at bound
    · next same =>
        cases bound
        cases same
        exact .inr ⟨varAllowed, tyAllowed⟩
    · exact ih bound

theorem Steps.within (inside : before.Within allowed) : after.Within allowed :=
  fun _ _ bound => (steps.lookup bound).elim (inside ·) And.right

theorem Steps.closed (closed : before.Closed allowed) : after.Closed allowed :=
  fun _ _ bound idAllowed => (steps.lookup bound).elim (closed · idAllowed) And.right

theorem Steps.params_eq : after.params = before.params := by
  induction steps with
  | refl => rfl
  | tail _ step ih =>
    obtain ⟨id, ty, _, _, _, _, rfl⟩ := step
    exact ih

end Steps

end Steps

section Unify

variable {allowed : Ty → Prop} {solvePair : Subst → Ty → Ty → Outcome}

theorem solve_steps {id : VarId} (unbound : subst.lookup id = none) (idAllowed : allowed (var id))
    (tyAllowed : allowed ty) (swapped : Bool) :
    Steps allowed subst (subst.solve id ty swapped).1 := by
  generalize outcome : subst.solve id ty swapped = result
  have step := outcome ▸ solveStep id ty swapped
  cases step with
  | bind fresh =>
    exact Relation.ReflTransGen.single
      ⟨id, ty, unbound, fresh, idAllowed, tyAllowed, rfl⟩
  | _ => exact Relation.ReflTransGen.refl

theorem solveAll_cons_eq_none {pair : Ty × Ty} {rest : List (Ty × Ty)} {after : Subst}
    (solved : solveAll solvePair subst (pair :: rest) = (after, none)) :
    ∃ middle, solvePair subst pair.1 pair.2 = (middle, none) ∧
      solveAll solvePair middle rest = (after, none) := by
  obtain ⟨expected, found⟩ := pair
  rw [solveAll] at solved
  split at solved
  · next middle first => exact ⟨middle, first, solved⟩
  · cases solved

theorem solveAll_steps {pairs : List (Ty × Ty)}
    (each : ∀ pair ∈ pairs, ∀ subst : Subst, subst.Acyclic → subst.Closed allowed →
      Steps allowed subst (solvePair subst pair.1 pair.2).1)
    (acyclic : subst.Acyclic) (closed : subst.Closed allowed) :
    Steps allowed subst (solveAll solvePair subst pairs).1 := by
  induction pairs generalizing subst with
  | nil => exact Relation.ReflTransGen.refl
  | cons pair rest ih =>
    obtain ⟨expected, found⟩ := pair
    have first := each (expected, found) List.mem_cons_self subst acyclic closed
    rw [solveAll]
    split
    · next after solved =>
        rw [solved] at first
        exact first.trans (ih (fun pair member => each pair (List.mem_cons_of_mem _ member))
          (first.acyclic acyclic) (first.closed closed))
    · next after error failed =>
        rw [failed] at first
        exact first

theorem Closed.unifyWithin_steps (closed : subst.Closed allowed) (hereditary : Hereditary allowed)
    (limit : Nat) (acyclic : subst.Acyclic) (expectedAllowed : allowed expected)
    (foundAllowed : allowed found) :
    Steps allowed subst (unifyWithin limit subst expected found).1 := by
  induction limit generalizing subst expected found with
  | zero => exact Relation.ReflTransGen.refl
  | succ limit ih =>
    have expectedHead := closed.shallow expectedAllowed
    have foundHead := closed.shallow foundAllowed
    generalize outcome : unifyWithin (limit + 1) subst expected found = result
    have step := outcome ▸ unifyStep limit expected found
    cases step with
    | left isVar =>
      exact solve_steps (acyclic.unbound_of_shallow isVar) (isVar ▸ expectedHead) foundHead _
    | right isVar =>
      exact solve_steps (acyclic.unbound_of_shallow isVar) (isVar ▸ foundHead) expectedHead _
    | descend _ _ decomposed =>
      obtain ⟨_, rfl⟩ := Ty.components_eq_ok decomposed
      refine solveAll_steps ?_ acyclic closed
      intro pair member after afterAcyclic afterClosed
      exact ih afterClosed afterAcyclic
        (hereditary (List.of_mem_zip member).1 expectedHead)
        (hereditary (List.of_mem_zip member).2 foundHead)
    | _ => exact Relation.ReflTransGen.refl

theorem unifyWithin_steps (hereditary : Hereditary allowed) (limit : Nat)
    (acyclic : subst.Acyclic) (inside : subst.Within allowed) (expectedAllowed : allowed expected)
    (foundAllowed : allowed found) :
    Steps allowed subst (unifyWithin limit subst expected found).1 :=
  inside.closed.unifyWithin_steps hereditary limit acyclic expectedAllowed foundAllowed

theorem Closed.unify_steps (closed : subst.Closed allowed) (hereditary : Hereditary allowed)
    (acyclic : subst.Acyclic) (expectedAllowed : allowed expected) (foundAllowed : allowed found) :
    Steps allowed subst (subst.unify expected found).1 :=
  closed.unifyWithin_steps hereditary _ acyclic expectedAllowed foundAllowed

/-- A call of the unifier binds variables one after the other, whether it succeeds or fails. -/
theorem unify_steps (hereditary : Hereditary allowed) (acyclic : subst.Acyclic)
    (inside : subst.Within allowed) (expectedAllowed : allowed expected)
    (foundAllowed : allowed found) : Steps allowed subst (subst.unify expected found).1 :=
  unifyWithin_steps hereditary _ acyclic inside expectedAllowed foundAllowed

end Unify

theorem Acyclic.unifyWithin_steps (acyclic : subst.Acyclic) (limit : Nat) (expected found : Ty) :
    Steps (fun _ => True) subst (unifyWithin limit subst expected found).1 :=
  Subst.unifyWithin_steps (fun _ _ _ _ => trivial) limit acyclic (fun _ _ _ => trivial) trivial
    trivial

theorem Acyclic.solveAll_steps (acyclic : subst.Acyclic) (limit : Nat) (pairs : List (Ty × Ty)) :
    Steps (fun _ => True) subst (solveAll (unifyWithin limit) subst pairs).1 :=
  Subst.solveAll_steps (fun pair _ _ acyclic _ => acyclic.unifyWithin_steps limit pair.1 pair.2)
    acyclic fun _ _ _ _ => trivial

theorem Acyclic.unify_steps (acyclic : subst.Acyclic) (expected found : Ty) :
    Steps (fun _ => True) subst (subst.unify expected found).1 :=
  acyclic.unifyWithin_steps _ expected found

end Subst

end TraitCheck
