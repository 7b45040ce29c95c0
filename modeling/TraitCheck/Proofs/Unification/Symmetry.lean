import TraitCheck.Proofs.Unification.Termination

/-!
# Symmetry of unification

The runs in both orders bind pairs of variables in opposite directions, so from the first such pair
on they are in different states. What stays is that both states lead each type to the same head, or
to variables that a renaming relates: `Mirrors` says so. Binding two variables changes the renaming
by a transposition, and binding a variable to another type does not change it.
-/

namespace TraitCheck

variable {ty : Ty}
variable {id : VarId}

namespace Ty

/-- The type with its variables renumbered. -/
def rename (perm : VarId → VarId) (ty : Ty) : Ty := ty.bindVars fun id => var (perm id)

theorem mem_vars_rename {perm : Equiv.Perm VarId} :
    perm id ∈ (ty.rename perm).vars ↔ id ∈ ty.vars := by
  rw [rename, mem_vars_bindVars]
  simp

theorem components_swap (expected found : Ty) :
    found.components expected =
      match expected.components found with
      | .error error => .error ⟨error.fault, error.found, error.expected⟩
      | .ok pairs => .ok (pairs.map Prod.swap) := by
  cases expected with
  | prim kind =>
    cases found with
    | prim kind' =>
      simp only [components, eq_comm (a := kind')]
      split <;> rfl
    | _ => rfl
  | param index name =>
    cases found with
    | param index' name' =>
      simp only [components, eq_comm (a := index'), eq_comm (a := name')]
      split <;> rfl
    | _ => rfl
  | named decl args =>
    cases found with
    | named decl' args' =>
      simp only [components, ne_comm (a := decl'), ne_comm (a := args'.length)]
      split
      · rfl
      · split
        · rfl
        · simp [List.zip_swap]
    | _ => rfl
  | fn params result =>
    cases found with
    | fn params' result' =>
      simp only [components, ne_comm (a := params'.length)]
      split
      · rfl
      · simp [List.zip_swap]
    | _ => rfl
  | tuple elems =>
    cases found with
    | tuple elems' =>
      simp only [components, ne_comm (a := elems'.length)]
      split
      · rfl
      · simp [List.zip_swap]
    | _ => rfl
  | record fields =>
    cases found with
    | record fields' =>
      simp only [components, ne_comm (a := Row.labels fields'),
        Bool.or_comm (lacksField (record fields'))]
      split
      · rfl
      · split
        · rfl
        · simp [List.zip_swap]
    | _ => rfl
  | _ => cases found <;> rfl

end Ty

namespace Subst

open Ty (var)

variable {subst first second : Subst} {perm : Equiv.Perm VarId} {expected found : Ty} {limit : Nat}
  {other : VarId}

theorem Leads.unique {head head' : Ty} (leads : subst.Leads ty head)
    (leads' : subst.Leads ty head') : head = head' := by
  induction leads with
  | ends last =>
    cases leads' with
    | ends => rfl
    | step bound =>
      rw [last _ rfl] at bound
      cases bound
  | step bound _ ih =>
    cases leads' with
    | ends last =>
      rw [last _ rfl] at bound
      cases bound
    | step bound' further =>
      rw [bound] at bound'
      cases bound'
      exact ih further

section Bind

variable {ty head binding : Ty} {id : VarId}

theorem Leads.bind (leads : subst.Leads ty head) (unbound : subst.lookup id = none)
    (other : head ≠ var id) : (subst.bind id binding).Leads ty head := by
  induction leads with
  | ends last =>
    apply Leads.ends
    rintro source rfl
    have different : id ≠ source := fun same => other (same ▸ rfl)
    rw [lookup_bind, if_neg different]
    exact last source rfl
  | step bound _ ih => exact .step (extends_bind unbound binding bound) (ih other)

theorem Leads.bind_head (leads : subst.Leads ty (var id)) (unbound : subst.lookup id = none)
    (last : ∀ other, binding = var other → other ≠ id ∧ subst.lookup other = none) :
    (subst.bind id binding).Leads ty binding := by
  generalize reached : var id = head at leads
  induction leads with
  | ends =>
    subst reached
    refine .step (by simp) (.ends fun other same => ?_)
    rw [lookup_bind, if_neg (last other same).1.symm]
    exact (last other same).2
  | step bound _ ih => exact .step (extends_bind unbound binding bound) (ih reached)

end Bind

theorem Acyclic.shallow_of_leads (acyclic : subst.Acyclic) {head : Ty}
    (leads : subst.Leads ty head) : subst.shallow ty = head :=
  (acyclic.leads_shallow ty).unique leads

/-- The heads that two substitutions lead a type to. -/
inductive SameHead (perm : Equiv.Perm VarId) : Ty → Ty → Prop
  | var (id : VarId) : SameHead perm (var id) (var (perm id))
  | former {ty : Ty} (noVar : ∀ id, ty ≠ var id) : SameHead perm ty ty

/-- Two acyclic substitutions that lead every type to the same head, or to variables that a
renaming relates. -/
structure Mirrors (perm : Equiv.Perm VarId) (first second : Subst) : Prop where
  acyclic : first.Acyclic
  acyclic' : second.Acyclic
  size : second.size = first.size
  heads : ∀ ty, SameHead perm (first.shallow ty) (second.shallow ty)

theorem Acyclic.mirrors (acyclic : subst.Acyclic) : Mirrors (Equiv.refl VarId) subst subst where
  acyclic := acyclic
  acyclic' := acyclic
  size := rfl
  heads ty := by
    rcases (subst.shallow ty).var_or_not with ⟨id, same⟩ | noVar
    · rw [same]
      exact .var id
    · exact .former noVar

section Mirrors

variable (mirrors : Mirrors perm first second)

include mirrors

theorem Mirrors.apply_var (id : VarId) :
    second.apply (var id) = (first.apply (var id)).rename perm := by
  -- the components of a head are solved to lighter types than the variable that leads to it
  induction weight :
    (first.apply (var id)).weight using Nat.strong_induction_on generalizing id with
  | _ bound ih =>
    rw [← mirrors.acyclic.apply_shallow, ← mirrors.acyclic'.apply_shallow]
    have heads := mirrors.heads (var id)
    generalize atFirst : first.shallow (var id) = head at heads ⊢
    generalize atSecond : second.shallow (var id) = head' at heads ⊢
    cases heads with
    | var other =>
      rw [apply_var_of_unbound (mirrors.acyclic.unbound_of_shallow atFirst),
        apply_var_of_unbound (mirrors.acyclic'.unbound_of_shallow atSecond)]
      rfl
    | former noVar =>
      rw [Ty.rename, apply, apply, Ty.bindVars_bindVars]
      apply Ty.bindVars_congr
      intro inner occurs
      refine ih _ ?_ inner rfl
      rw [← weight, ← mirrors.acyclic.apply_shallow (var id), atFirst]
      exact Ty.weight_image_lt _ occurs (noVar inner)

theorem Mirrors.apply (ty : Ty) : second.apply ty = (first.apply ty).rename perm := by
  rw [Ty.rename, Subst.apply, Subst.apply, Ty.bindVars_bindVars]
  exact Ty.bindVars_congr fun id _ => mirrors.apply_var id

theorem Mirrors.unbound (unbound : first.lookup id = none) : second.lookup (perm id) = none := by
  have heads := mirrors.heads (var id)
  rw [shallow, follow_of_unbound unbound] at heads
  generalize reached : second.shallow (var id) = head at heads
  cases heads with
  | var => exact mirrors.acyclic'.unbound_of_shallow reached
  | former noVar => exact absurd rfl (noVar id)

theorem Mirrors.mem_vars_apply (ty : Ty) :
    perm id ∈ (second.apply ty).vars ↔ id ∈ (first.apply ty).vars := by
  rw [mirrors.apply, Ty.mem_vars_rename]

/-- Bindings in both substitutions after which they mirror each other again, if the heads do. -/
theorem Mirrors.of_binds {id' : VarId} {ty' : Ty} {later : Equiv.Perm VarId}
    (unbound : first.lookup id = none) (unbound' : second.lookup id' = none)
    (acyclic : (first.bind id ty).Acyclic) (acyclic' : (second.bind id' ty').Acyclic)
    (heads : ∀ source head head', SameHead perm head head' → first.Leads source head →
      second.Leads source head' → ∃ reached reached', SameHead later reached reached' ∧
        (first.bind id ty).Leads source reached ∧ (second.bind id' ty').Leads source reached') :
    Mirrors later (first.bind id ty) (second.bind id' ty') where
  acyclic := acyclic
  acyclic' := acyclic'
  size := by rw [size_bind unbound, size_bind unbound', mirrors.size]
  heads source := by
    rcases heads source _ _ (mirrors.heads source) (mirrors.acyclic.leads_shallow source)
      (mirrors.acyclic'.leads_shallow source) with ⟨reached, reached', same, leads, leads'⟩
    rwa [acyclic.shallow_of_leads leads, acyclic'.shallow_of_leads leads']

theorem Mirrors.bind (noVar : ∀ other, ty ≠ var other) (unbound : first.lookup id = none)
    (fresh : id ∉ (first.apply ty).vars) :
    Mirrors perm (first.bind id ty) (second.bind (perm id) ty) := by
  have unbound' := mirrors.unbound unbound
  have last : ∀ (subst : Subst) (id other : VarId), ty = var other →
      other ≠ id ∧ subst.lookup other = none :=
    fun subst id other isVar => absurd isVar (noVar other)
  apply mirrors.of_binds unbound unbound' (mirrors.acyclic.bind unbound fresh)
    (mirrors.acyclic'.bind unbound' (mt (mirrors.mem_vars_apply ty).mp fresh))
  intro source head head' heads leads leads'
  cases heads with
  | var reached =>
    by_cases same : reached = id
    · subst same
      exact ⟨ty, ty, .former noVar, leads.bind_head unbound (last _ _),
        leads'.bind_head unbound' (last _ _)⟩
    · exact ⟨_, _, .var reached, leads.bind unbound (by simpa using same),
        leads'.bind unbound' (by simpa using same)⟩
  | former noVar =>
    exact ⟨head, head, .former noVar, leads.bind unbound (noVar id),
      leads'.bind unbound' (noVar (perm id))⟩

theorem Mirrors.bind_vars (different : other ≠ id)
    (unbound : first.lookup id = none) (otherUnbound : first.lookup other = none) :
    Mirrors ((Equiv.swap id other).trans perm) (first.bind id (var other))
      (second.bind (perm other) (var (perm id))) := by
  have unbound' := mirrors.unbound unbound
  have otherUnbound' := mirrors.unbound otherUnbound
  have different' : perm id ≠ perm other := fun same => different (perm.injective same).symm
  have fresh : id ∉ (first.apply (var other)).vars := by
    simpa [apply_var_of_unbound otherUnbound] using different.symm
  have fresh' : perm other ∉ (second.apply (var (perm id))).vars := by
    simpa [apply_var_of_unbound unbound'] using different
  apply mirrors.of_binds unbound otherUnbound' (mirrors.acyclic.bind unbound fresh)
    (mirrors.acyclic'.bind otherUnbound' fresh')
  intro source head head' heads leads leads'
  -- both variables now lead to `other` here and to `perm id` there
  have atOther : SameHead ((Equiv.swap id other).trans perm) (var other) (var (perm id)) := by
    have := (.var other : SameHead ((Equiv.swap id other).trans perm) _ _)
    simpa using this
  cases heads with
  | var reached =>
    by_cases atId : reached = id
    · subst atId
      refine ⟨_, _, atOther, leads.bind_head unbound ?_, leads'.bind otherUnbound' ?_⟩
      · rintro next ⟨⟩
        exact ⟨different, otherUnbound⟩
      · simpa using different'
    · by_cases same : reached = other
      · subst same
        refine ⟨_, _, atOther, leads.bind unbound ?_, leads'.bind_head otherUnbound' ?_⟩
        · simpa using different
        · rintro next ⟨⟩
          exact ⟨different', unbound'⟩
      · have kept :
            SameHead ((Equiv.swap id other).trans perm) (var reached) (var (perm reached)) := by
          have := (.var reached : SameHead ((Equiv.swap id other).trans perm) _ _)
          simpa [Equiv.swap_apply_of_ne_of_ne atId same] using this
        exact ⟨_, _, kept, leads.bind unbound (by simpa using atId),
          leads'.bind otherUnbound' (by simpa using same)⟩
  | former noVar =>
    exact ⟨head, head, .former noVar, leads.bind unbound (noVar id),
      leads'.bind otherUnbound' (noVar (perm other))⟩

end Mirrors

/-- No type stood in the way of the comparison. -/
def Finished (outcome : Outcome) : Prop :=
  ∀ error, outcome.2 = some error → error.fault ≠ .incomplete

/-- Two runs that both succeed or both fail, and then for the same reason and, up to a renaming,
because of the same types, with expected and found types exchanged. -/
structure Exchanged (perm : Equiv.Perm VarId) (first second : Outcome) : Prop where
  fault : second.2.map UnifyError.fault = first.2.map UnifyError.fault
  expected : (second.2.map fun error => second.1.apply error.expected) =
    first.2.map fun error => (first.1.apply error.found).rename perm
  found : (second.2.map fun error => second.1.apply error.found) =
    first.2.map fun error => (first.1.apply error.expected).rename perm

/-- Runs in both orders, with the states they leave. -/
structure Mirrored (perm : Equiv.Perm VarId) (first second : Outcome) : Prop where
  mirrors : Mirrors perm first.1 second.1
  exchanged : Exchanged perm first second

theorem Mirrors.solved (mirrors : Mirrors perm first second) :
    Mirrored perm (first, none) (second, none) :=
  ⟨mirrors, rfl, rfl, rfl⟩

theorem Mirrors.failed (mirrors : Mirrors perm first second) (fault : UnifyFault)
    (expected found : Ty) :
    Mirrored perm (first, some ⟨fault, expected, found⟩) (second, some ⟨fault, found, expected⟩) :=
  ⟨mirrors, rfl, congrArg some (mirrors.apply found), congrArg some (mirrors.apply expected)⟩

theorem solve_of_finished {swapped : Bool} (proper : ty ≠ var id) (known : ty ≠ .unknown)
    (finished : Finished (subst.solve id ty swapped)) :
    subst.solve id ty swapped =
      if id ∈ (subst.apply ty).vars then
        (subst, some (if swapped then ⟨.infiniteType, subst.apply ty, var id⟩
          else ⟨.infiniteType, var id, subst.apply ty⟩))
      else (subst.bind id ty, none) := by
  have nontrivial : ¬(ty.var? = some id ∨ ty.isUnknown = true) := by
    rintro (same | unknown)
    · cases ty <;> simp_all [Ty.var?]
    · cases ty <;> simp_all [Ty.isUnknown]
  simp only [Subst.solve, if_neg nontrivial, Ty.occurs_iff] at finished ⊢
  by_cases complete : (ty.isComplete && subst.applies ty) = true
  · simp only [complete, Bool.not_true, Bool.false_eq_true, ↓reduceIte]
    cases swapped <;> rfl
  · rw [if_pos (by simp [complete])] at finished
    exact absurd rfl (finished _ rfl)

section Runs

variable (mirrors : Mirrors perm first second)

include mirrors

theorem Mirrors.solve (swapped : Bool) (noVar : ∀ other, ty ≠ var other)
    (unbound : first.lookup id = none) (finished : Finished (first.solve id ty swapped))
    (finished' : Finished (second.solve (perm id) ty !swapped)) :
    Mirrored perm (first.solve id ty swapped) (second.solve (perm id) ty !swapped) := by
  by_cases unknown : ty = .unknown
  · subst unknown
    exact mirrors.solved
  · rw [solve_of_finished (noVar id) unknown finished,
      solve_of_finished (noVar (perm id)) unknown finished']
    by_cases occurs : id ∈ (first.apply ty).vars
    · rw [if_pos occurs, if_pos ((mirrors.mem_vars_apply ty).mpr occurs)]
      -- the failure shows solved types, so they are solved once more
      have atVar : second.apply (var (perm id)) = (first.apply (var id)).rename perm := by
        rw [apply_var_of_unbound unbound, apply_var_of_unbound (mirrors.unbound unbound)]
        rfl
      have atType :
          second.apply (second.apply ty) = (first.apply (first.apply ty)).rename perm := by
        rw [(Extends.refl first).apply_apply mirrors.acyclic,
          (Extends.refl second).apply_apply mirrors.acyclic', mirrors.apply]
      cases swapped with
      | false => exact ⟨mirrors, rfl, congrArg some atType, congrArg some atVar⟩
      | true => exact ⟨mirrors, rfl, congrArg some atVar, congrArg some atType⟩
    · rw [if_neg occurs, if_neg (mt (mirrors.mem_vars_apply ty).mp occurs)]
      exact (mirrors.bind noVar unbound occurs).solved

theorem Mirrors.solve_vars (unbound : first.lookup id = none)
    (otherUnbound : first.lookup other = none)
    (finished : Finished (first.solve id (var other) false))
    (finished' : Finished (second.solve (perm other) (var (perm id)) false)) :
    ∃ later, Mirrored later (first.solve id (var other) false)
      (second.solve (perm other) (var (perm id)) false) := by
  by_cases same : other = id
  · subst same
    refine ⟨perm, ?_⟩
    simpa [Subst.solve, Ty.var?] using mirrors.solved
  · refine ⟨(Equiv.swap id other).trans perm, ?_⟩
    have proper : var (perm id) ≠ var (perm other) := by simpa using Ne.symm same
    rw [solve_of_finished (by simpa using same) (by simp) finished,
      solve_of_finished proper (by simp) finished',
      apply_var_of_unbound otherUnbound, apply_var_of_unbound (mirrors.unbound unbound),
      if_neg (by simpa using Ne.symm same), if_neg (by simpa using same)]
    exact (mirrors.bind_vars same unbound otherUnbound).solved

end Runs

theorem Finished.of_solveAll {solvePair : Subst → Ty → Ty → Outcome} {pair : Ty × Ty}
    {rest : List (Ty × Ty)} (finished : Finished (solveAll solvePair subst (pair :: rest))) :
    Finished (solvePair subst pair.1 pair.2) := by
  rw [solveAll] at finished
  split at finished
  · next solved =>
      rw [solved]
      rintro error ⟨⟩
  · next failed =>
      rw [failed]
      exact finished

theorem Mirrors.solveAll {pairs : List (Ty × Ty)}
    (each : ∀ {perm : Equiv.Perm VarId} {first second : Subst}, Mirrors perm first second →
      ∀ expected found : Ty, Finished (unifyWithin limit first expected found) →
        Finished (unifyWithin limit second found expected) →
        ∃ later, Mirrored later (unifyWithin limit first expected found)
          (unifyWithin limit second found expected))
    (mirrors : Mirrors perm first second)
    (finished : Finished (solveAll (unifyWithin limit) first pairs))
    (finished' : Finished (solveAll (unifyWithin limit) second (pairs.map Prod.swap))) :
    ∃ later, Mirrored later (solveAll (unifyWithin limit) first pairs)
      (solveAll (unifyWithin limit) second (pairs.map Prod.swap)) := by
  induction pairs generalizing perm first second with
  | nil => exact ⟨perm, mirrors.solved⟩
  | cons pair rest ih =>
    rcases pair with ⟨expected, found⟩
    rcases each mirrors expected found finished.of_solveAll finished'.of_solveAll with
      ⟨later, mirrored⟩
    rw [List.map_cons, Prod.swap] at finished' ⊢
    rw [Subst.solveAll] at finished finished' ⊢
    rw [Subst.solveAll]
    generalize unifyWithin limit first expected found = outcome at mirrored finished ⊢
    generalize unifyWithin limit second found expected = outcome' at mirrored finished' ⊢
    rcases outcome with ⟨after, _ | error⟩
    · rcases outcome' with ⟨after', _ | error'⟩
      · exact ih mirrored.mirrors finished finished'
      · cases mirrored.exchanged.fault
    · rcases outcome' with ⟨after', _ | error'⟩
      · cases mirrored.exchanged.fault
      · exact ⟨later, mirrored⟩

theorem Finished.settle {error : UnifyError} (finished : Finished (subst, some error.settle)) :
    error.settle = error := by
  rw [UnifyError.settle] at finished ⊢
  split at finished
  · next sayable => rw [if_pos sayable]
  · exact absurd rfl (finished _ rfl)

theorem Finished.reached (finished : Finished (unifyWithin (limit + 1) subst expected found)) :
    subst.shallow? expected = some (subst.shallow expected) ∧
      subst.shallow? found = some (subst.shallow found) := by
  rcases reached : subst.shallow? expected with _ | head
  · rw [unifyWithin_astray (.inl reached)] at finished
    exact absurd rfl (finished _ rfl)
  · rcases reached' : subst.shallow? found with _ | other
    · rw [unifyWithin_astray (.inr reached')] at finished
      exact absurd rfl (finished _ rfl)
    · rw [shallow?_eq_some reached, shallow?_eq_some reached']
      exact ⟨rfl, rfl⟩

/-- Two types unified in one order, and in the other order from a mirrored state. -/
theorem Mirrors.unifyWithin (limit : Nat) (mirrors : Mirrors perm first second)
    (expected found : Ty) (finished : Finished (unifyWithin limit first expected found))
    (finished' : Finished (unifyWithin limit second found expected)) :
    ∃ later, Mirrored later (unifyWithin limit first expected found)
      (unifyWithin limit second found expected) := by
  induction limit generalizing perm first second expected found with
  | zero => exact ⟨perm, mirrors.failed .infiniteType expected found⟩
  | succ limit ih =>
    rcases finished.reached with ⟨reached, otherReached⟩
    rcases finished'.reached with ⟨otherReached', reached'⟩
    have heads := mirrors.heads expected
    have otherHeads := mirrors.heads found
    generalize atFirst : first.shallow expected = head at heads reached
    generalize second.shallow expected = head' at heads reached'
    generalize atFirst' : first.shallow found = other at otherHeads otherReached
    generalize second.shallow found = other' at otherHeads otherReached'
    cases heads with
    | var id =>
      have unbound := mirrors.acyclic.unbound_of_shallow atFirst
      rw [unifyWithin_left reached otherReached] at finished ⊢
      cases otherHeads with
      | var id' =>
        rw [unifyWithin_left otherReached' reached'] at finished' ⊢
        exact mirrors.solve_vars unbound (mirrors.acyclic.unbound_of_shallow atFirst') finished
          finished'
      | former noVar =>
        rw [unifyWithin_right noVar otherReached' reached'] at finished' ⊢
        exact ⟨perm, mirrors.solve false noVar unbound finished finished'⟩
    | former noVar =>
      cases otherHeads with
      | var id =>
        have unbound := mirrors.acyclic.unbound_of_shallow atFirst'
        rw [unifyWithin_right noVar reached otherReached] at finished ⊢
        rw [unifyWithin_left otherReached' reached'] at finished' ⊢
        exact ⟨perm, mirrors.solve true noVar unbound finished finished'⟩
      | former noVar' =>
        rw [unifyWithin_formers noVar noVar' reached otherReached] at finished ⊢
        rw [unifyWithin_formers noVar' noVar otherReached' reached',
          Bool.or_comm other.isUnknown, Ty.components_swap head other] at finished' ⊢
        by_cases unknown : (head.isUnknown || other.isUnknown) = true
        · simp only [unknown, ↓reduceIte]
          exact ⟨perm, mirrors.solved⟩
        · simp only [unknown, Bool.false_eq_true, ↓reduceIte] at finished finished' ⊢
          generalize head.components other = taken at finished finished' ⊢
          rcases taken with error | pairs
          · dsimp only at finished finished' ⊢
            rw [finished.settle, finished'.settle]
            exact ⟨perm, mirrors.failed error.fault error.expected error.found⟩
          · exact mirrors.solveAll ih finished finished'

theorem Acyclic.mirrored_unify (acyclic : subst.Acyclic)
    (finished : Finished (subst.unify expected found))
    (finished' : Finished (subst.unify found expected)) :
    ∃ perm, Mirrored perm (subst.unify expected found) (subst.unify found expected) := by
  have limits : subst.unifyLimit found expected = subst.unifyLimit expected found := by
    rw [unifyLimit, unifyLimit, Nat.add_right_comm subst.weight]
  have same : subst.unify found expected =
      unifyWithin (subst.unifyLimit expected found) subst found expected := by
    rw [unify, limits]
  rw [same] at finished' ⊢
  exact acyclic.mirrors.unifyWithin _ expected found finished finished'

/-- Unification is symmetric. Two types unified in both orders either both succeed or both fail for
the same reason, with the types at fault exchanged, and the substitutions that are left solve every
type alike, all up to one renaming of variables. Only a run that stops at an incomplete type is not
comparable, and without absent types no run does. -/
theorem unify_symmetric (acyclic : subst.Acyclic) (expected found : Ty) :
    (Finished (subst.unify expected found) → Finished (subst.unify found expected) →
      ∃ perm : Equiv.Perm VarId,
        Exchanged perm (subst.unify expected found) (subst.unify found expected) ∧
        ∀ ty, (subst.unify found expected).1.apply ty =
          ((subst.unify expected found).1.apply ty).rename perm) ∧
    (subst.Within (·.isPresent = true) → expected.isPresent = true → found.isPresent = true →
      Finished (subst.unify expected found) ∧ Finished (subst.unify found expected) ∧
      ∃ perm : Equiv.Perm VarId,
        Exchanged perm (subst.unify expected found) (subst.unify found expected) ∧
        ∀ ty, (subst.unify found expected).1.applied? ty =
          ((subst.unify expected found).1.applied? ty).map (·.rename perm)) := by
  constructor
  · intro finished finished'
    rcases acyclic.mirrored_unify finished finished' with ⟨perm, mirrored⟩
    exact ⟨perm, mirrored.exchanged, mirrored.mirrors.apply⟩
  · intro inside expectedPresent foundPresent
    have finished : Finished (subst.unify expected found) := fun error failed =>
      fault_of_unifyWithin acyclic inside expectedPresent foundPresent (Prod.ext rfl failed)
    have finished' : Finished (subst.unify found expected) := fun error failed =>
      fault_of_unifyWithin acyclic inside foundPresent expectedPresent (Prod.ext rfl failed)
    rcases acyclic.mirrored_unify finished finished' with ⟨perm, mirrored⟩
    refine ⟨finished, finished', perm, mirrored.exchanged, fun ty => ?_⟩
    have within := (unify_steps hereditary_isPresent acyclic inside expectedPresent
      foundPresent).within inside
    have within' := (unify_steps hereditary_isPresent acyclic inside foundPresent
      expectedPresent).within inside
    rw [applied?, applied?, applies, applies, within.isSound_eq, within'.isSound_eq,
      mirrored.mirrors.size, mirrored.mirrors.apply]
    split <;> rfl

/-- Both orders fail after two bindings of variables in opposite directions, one at the variable 3
and the other at the variable 1. -/
theorem unify_symmetric_infinite :
    (empty.bind 0 (.list (var 1))).Acyclic ∧
    ((empty.bind 0 (.list (var 1))).unify (.tuple [var 2, var 0, var 3])
      (.tuple [var 3, .list (var 2), var 0])).2 = some ⟨.infiniteType, var 3, .list (var 3)⟩ ∧
    ((empty.bind 0 (.list (var 1))).unify (.tuple [var 3, .list (var 2), var 0])
      (.tuple [var 2, var 0, var 3])).2 = some ⟨.infiniteType, .list (var 1), var 1⟩ ∧
    ∃ perm : Equiv.Perm VarId,
      Exchanged perm
        ((empty.bind 0 (.list (var 1))).unify (.tuple [var 2, var 0, var 3])
          (.tuple [var 3, .list (var 2), var 0]))
        ((empty.bind 0 (.list (var 1))).unify (.tuple [var 3, .list (var 2), var 0])
          (.tuple [var 2, var 0, var 3])) ∧
      ∀ ty,
        ((empty.bind 0 (.list (var 1))).unify (.tuple [var 3, .list (var 2), var 0])
          (.tuple [var 2, var 0, var 3])).1.applied? ty =
        (((empty.bind 0 (.list (var 1))).unify (.tuple [var 2, var 0, var 3])
          (.tuple [var 3, .list (var 2), var 0])).1.applied? ty).map (·.rename perm) := by
  have acyclic : (empty.bind 0 (.list (var 1))).Acyclic := acyclic_empty.bind rfl (by decide)
  have inside : (empty.bind 0 (.list (var 1))).Within (·.isPresent = true) := by
    intro id ty bound
    rw [lookup_bind] at bound
    split at bound
    · cases bound
      rfl
    · cases bound
  have symmetric := unify_symmetric acyclic (.tuple [var 2, var 0, var 3])
    (.tuple [var 3, .list (var 2), var 0])
  exact ⟨acyclic, rfl, rfl, (symmetric.2 inside rfl rfl).2.2⟩

/-- A failure names the scheme that comes first, so only one of the orders comes to the record
without the type of its field. -/
theorem unify_differs_openScheme :
    let subst := empty.bind 0 (.scheme ["T"] (.record [("a", .absent)]))
    subst.Acyclic ∧ (var 0).isPresent = true ∧
    (Ty.scheme ["T"] (.param 0 "T")).isPresent = true ∧
    (subst.unify (var 0) (.scheme ["T"] (.param 0 "T"))).2.map (·.fault) = some .incomplete ∧
    (subst.unify (.scheme ["T"] (.param 0 "T")) (var 0)).2.map (·.fault) = some .notInstantiated :=
  ⟨acyclic_empty.bind rfl (by decide), rfl, rfl, rfl, rfl⟩

end Subst

end TraitCheck
