import TraitCheck.Proofs.Tables
import TraitCheck.Proofs.Types
import TraitCheck.Subst

/-!
# Acyclic substitutions

A substitution is acyclic if no variable is reachable from itself through bindings. Acyclicity is
used through a rank: a number for each variable, at most the number of bindings, that falls along
every binding. So `Subst.solution` and `Subst.follow` are given enough steps, and bindings are then
followed by two equations only: a bound variable is solved as its binding is, an unbound one stays.
-/

namespace TraitCheck

variable {ty : Ty} {assignment : VarId → Ty}
variable {id : VarId} {allowed : Ty → Prop} {limit : Nat}

theorem not_transGen_of_falls {Vertex Height : Type} [Preorder Height]
    {step : Vertex → Vertex → Prop} (height : Vertex → Height)
    (falls : ∀ source target, step source target → height target < height source) (start : Vertex) :
    ¬Relation.TransGen step start start := by
  intro cycle
  have fallen : Relation.TransGen (· > ·) (height start) (height start) := cycle.lift height falls
  rw [Relation.transGen_eq_self] at fallen
  exact lt_irrefl _ fallen

namespace Subst

open Ty (var)

/-- The binding of `source` mentions `target`. -/
def Points (subst : Subst) (source target : VarId) : Prop :=
  ∃ ty, subst.lookup source = some ty ∧ target ∈ ty.vars

/-- No variable is reachable from itself through bindings. -/
def Acyclic (subst : Subst) : Prop :=
  ∀ id, ¬Relation.TransGen subst.Points id id

/-- A number for each variable that falls along bindings and is positive for bound variables. -/
structure Rank (subst : Subst) where
  /-- The number of a variable. -/
  of : VarId → Nat
  falls : ∀ {id ty}, subst.lookup id = some ty → ∀ target ∈ ty.vars, of target < of id
  positive : ∀ {id ty}, subst.lookup id = some ty → 0 < of id
  bounded : ∀ id, of id ≤ subst.size

theorem acyclic_of_falls {subst : Subst} (rank : VarId → Nat)
    (falls : ∀ source target, subst.Points source target → rank target < rank source) :
    subst.Acyclic :=
  not_transGen_of_falls rank falls

theorem acyclic_empty : empty.Acyclic := by
  refine acyclic_of_falls (fun _ => 0) ?_
  rintro source target ⟨ty, bound, _⟩
  cases bound

/-- The rank of a variable is its rank among the keys of the bindings. -/
theorem Acyclic.exists_rank {subst : Subst} (acyclic : subst.Acyclic) : Nonempty subst.Rank := by
  have fromKeys : ∀ {source target}, subst.Points source target → source ∈ subst.vars.keys := by
    rintro source target ⟨ty, bound, _⟩
    exact Table.mem_keys_of_find? bound
  obtain ⟨rank⟩ := Table.exists_rank fromKeys acyclic
  exact ⟨{
    of := rank.of
    falls := fun bound target member => rank.falls ⟨_, bound, member⟩
    positive := fun bound => rank.positive (Table.mem_keys_of_find? bound)
    bounded := rank.bounded }⟩

variable {subst : Subst} {earlier later : Subst}

theorem solution_of_unbound (unbound : subst.lookup id = none) (limit : Nat) :
    subst.solution limit id = var id := by
  cases limit with
  | zero => rfl
  | succ limit => rw [solution, unbound]

theorem solution_of_bound (bound : subst.lookup id = some ty) (limit : Nat) :
    subst.solution (limit + 1) id = ty.bindVars (subst.solution limit) := by
  rw [solution, bound]

theorem follow_of_noVar (noVar : ∀ id, ty ≠ var id) (limit : Nat) : subst.follow limit ty = ty := by
  cases ty with
  | var id => exact absurd rfl (noVar id)
  | _ => cases limit <;> rfl

theorem follow_of_unbound (unbound : subst.lookup id = none) (limit : Nat) :
    subst.follow limit (var id) = var id := by
  cases limit with
  | zero => rfl
  | succ limit => rw [follow, unbound]

theorem follow_of_bound (bound : subst.lookup id = some ty) (limit : Nat) :
    subst.follow (limit + 1) (var id) = subst.follow limit ty := by
  rw [follow, bound]

/-- What holds of variables that stay, and of bound ones if it holds of what their binding is made
of, holds of each variable and its solution. -/
theorem solution_induction {motive : VarId → Ty → Prop} (stays : ∀ id, motive id (var id))
    (bound : ∀ {id ty image}, subst.lookup id = some ty →
      (∀ target, motive target (image target)) → motive id (ty.bindVars image))
    (limit : Nat) (id : VarId) : motive id (subst.solution limit id) := by
  induction limit generalizing id with
  | zero => exact stays id
  | succ limit ih =>
    rcases isBound : subst.lookup id with _ | ty
    · rw [solution_of_unbound isBound]
      exact stays id
    · rw [solution_of_bound isBound]
      exact bound isBound ih

theorem follow_induction {motive : Ty → Ty → Prop} (stays : ∀ ty, motive ty ty)
    (bound : ∀ {id ty head}, subst.lookup id = some ty → motive ty head → motive (var id) head)
    (limit : Nat) (ty : Ty) : motive ty (subst.follow limit ty) := by
  induction limit generalizing ty with
  | zero => exact stays ty
  | succ limit ih =>
    rcases ty.var_or_not with ⟨id, rfl⟩ | noVar
    · rcases isBound : subst.lookup id with _ | binding
      · rw [follow_of_unbound isBound]
        exact stays (var id)
      · rw [follow_of_bound isBound]
        exact bound isBound (ih binding)
    · rw [follow_of_noVar noVar]
      exact stays ty

/-- A chain of bindings, from a type to an unbound variable or a type that is no variable. -/
inductive Leads (subst : Subst) : Ty → Ty → Prop
  | ends {ty : Ty} (last : ∀ id, ty = var id → subst.lookup id = none) : Leads subst ty ty
  | step {id : VarId} {ty head : Ty} (bound : subst.lookup id = some ty)
      (further : Leads subst ty head) : Leads subst (var id) head

theorem leads_unbound (unbound : subst.lookup id = none) : subst.Leads (var id) (var id) := by
  apply Leads.ends
  rintro other ⟨⟩
  exact unbound

theorem leads_noVar (noVar : ∀ id, ty ≠ var id) : subst.Leads ty ty :=
  .ends fun id same => absurd same (noVar id)

theorem Leads.unbound (leads : subst.Leads ty (var id)) : subst.lookup id = none := by
  generalize reached : var id = head at leads
  induction leads with
  | ends last => exact last id reached.symm
  | step _ _ ih => exact ih reached

section Rank

variable (rank : subst.Rank)

theorem Rank.solution_succ (enough : rank.of id ≤ limit) :
    subst.solution (limit + 1) id = subst.solution limit id := by
  induction limit generalizing id with
  | zero =>
    rcases bound : subst.lookup id with _ | ty
    · rw [solution_of_unbound bound, solution_of_unbound bound]
    · have := rank.positive bound
      omega
  | succ limit ih =>
    rcases bound : subst.lookup id with _ | ty
    · rw [solution_of_unbound bound, solution_of_unbound bound]
    · rw [solution_of_bound bound, solution_of_bound bound]
      apply Ty.bindVars_congr
      intro target member
      have := rank.falls bound target member
      exact ih (by omega)

theorem Rank.leads_follow (enough : ∀ id, ty = var id → rank.of id ≤ limit) :
    subst.Leads ty (subst.follow limit ty) := by
  induction limit generalizing ty with
  | zero =>
    refine .ends fun id same => ?_
    rcases bound : subst.lookup id with _ | binding
    · rfl
    · have := rank.positive bound
      have := enough id same
      omega
  | succ limit ih =>
    rcases ty.var_or_not with ⟨id, rfl⟩ | noVar
    · rcases bound : subst.lookup id with _ | binding
      · rw [follow_of_unbound bound]
        exact leads_unbound bound
      · rw [follow_of_bound bound]
        refine .step bound (ih fun next same => ?_)
        have := rank.falls bound next (by simp [same])
        have := enough id rfl
        omega
    · rw [follow_of_noVar noVar]
      exact leads_noVar noVar

end Rank

theorem apply_eq_bindVars (ty : Ty) :
    subst.apply ty = ty.bindVars fun id => subst.apply (var id) := rfl

theorem apply_var_of_unbound (unbound : subst.lookup id = none) : subst.apply (var id) = var id :=
  solution_of_unbound unbound subst.size

section Solved

variable (acyclic : subst.Acyclic)
include acyclic

theorem Acyclic.apply_var (bound : subst.lookup id = some ty) :
    subst.apply (var id) = subst.apply ty := by
  obtain ⟨rank⟩ := acyclic.exists_rank
  change subst.solution subst.size id = ty.bindVars (subst.solution subst.size)
  rw [← rank.solution_succ (rank.bounded id), solution_of_bound bound]

/-- Bindings are followed to their ends. -/
theorem Acyclic.induction {motive : VarId → Prop}
    (unbound : ∀ {id}, subst.lookup id = none → motive id)
    (bound : ∀ {id ty}, subst.lookup id = some ty → (∀ target ∈ ty.vars, motive target) → motive id)
    (id : VarId) : motive id := by
  obtain ⟨rank⟩ := acyclic.exists_rank
  induction measured : rank.of id using Nat.strong_induction_on generalizing id with
  | _ height ih =>
    rcases isBound : subst.lookup id with _ | ty
    · exact unbound isBound
    · refine bound isBound fun target occurs => ih _ ?_ target rfl
      exact measured ▸ rank.falls isBound target occurs

theorem Acyclic.unbound_of_mem_apply
    (member : id ∈ (subst.apply ty).vars) : subst.lookup id = none := by
  rcases Ty.mem_vars_bindVars.mp member with ⟨source, -, inner⟩
  change id ∈ (subst.apply (var source)).vars at inner
  induction source using acyclic.induction with
  | unbound unbound =>
    rw [apply_var_of_unbound unbound, Ty.vars_var, List.mem_singleton] at inner
    rw [inner, unbound]
  | bound bound ih =>
    rw [acyclic.apply_var bound] at inner
    rcases Ty.mem_vars_bindVars.mp inner with ⟨target, occurs, further⟩
    exact ih target occurs further

theorem Acyclic.apply_shallow (ty : Ty) : subst.apply (subst.shallow ty) = subst.apply ty :=
  follow_induction (motive := fun ty head => subst.apply head = subst.apply ty) (fun _ => rfl)
    (fun bound ih => ih.trans (acyclic.apply_var bound).symm) subst.size ty

theorem Acyclic.leads_shallow (ty : Ty) : subst.Leads ty (subst.shallow ty) := by
  obtain ⟨rank⟩ := acyclic.exists_rank
  exact rank.leads_follow fun id _ => rank.bounded id

theorem Acyclic.unbound_of_shallow (reached : subst.shallow ty = var id) :
    subst.lookup id = none :=
  (reached ▸ acyclic.leads_shallow ty).unbound

end Solved

/-- An assignment satisfies a substitution if it makes every bound variable equal to its binding. -/
def Satisfies (assignment : VarId → Ty) (subst : Subst) : Prop :=
  ∀ ⦃id ty⦄, subst.lookup id = some ty → assignment id = ty.bindVars assignment

theorem Satisfies.bindVars_apply (satisfies : Satisfies assignment subst) (ty : Ty) :
    (subst.apply ty).bindVars assignment = ty.bindVars assignment := by
  rw [apply, Ty.bindVars_bindVars]
  refine Ty.bindVars_congr fun id _ => ?_
  refine solution_induction (motive := fun id solved => solved.bindVars assignment = assignment id)
    (fun _ => rfl) (fun bound ih => ?_) subst.size id
  rw [Ty.bindVars_bindVars, satisfies bound]
  exact Ty.bindVars_congr fun target _ => ih target

theorem Satisfies.bindVars_shallow (satisfies : Satisfies assignment subst) (ty : Ty) :
    (subst.shallow ty).bindVars assignment = ty.bindVars assignment :=
  follow_induction (motive := fun ty head => head.bindVars assignment = ty.bindVars assignment)
    (fun _ => rfl) (fun bound ih => ih.trans (satisfies bound).symm) subst.size ty

theorem Acyclic.apply_satisfies (acyclic : subst.Acyclic) :
    Satisfies (fun id => subst.apply (var id)) subst := by
  intro id ty bound
  exact acyclic.apply_var bound

/-- All earlier bindings are still there. -/
def Extends (earlier later : Subst) : Prop :=
  ∀ ⦃id ty⦄, earlier.lookup id = some ty → later.lookup id = some ty

theorem Extends.refl (subst : Subst) : subst.Extends subst := fun _ _ bound => bound

theorem Extends.trans {first second third : Subst} (early : first.Extends second)
    (late : second.Extends third) : first.Extends third :=
  fun _ _ bound => late (early bound)

theorem Extends.satisfies (growth : earlier.Extends later)
    (satisfies : Satisfies assignment later) : Satisfies assignment earlier :=
  fun _ _ bound => satisfies (growth bound)

theorem Extends.apply_apply (growth : earlier.Extends later)
    (acyclic : later.Acyclic) (ty : Ty) : later.apply (earlier.apply ty) = later.apply ty :=
  (growth.satisfies acyclic.apply_satisfies).bindVars_apply ty

theorem extends_bind (unbound : subst.lookup id = none) (ty : Ty) :
    subst.Extends (subst.bind id ty) := by
  intro other binding bound
  rw [lookup_bind]
  split
  · next same =>
      rw [← same, unbound] at bound
      cases bound
  · exact bound

theorem Acyclic.mem_apply_of_path {source target : VarId} (acyclic : subst.Acyclic)
    (path : Relation.ReflTransGen subst.Points source target)
    (unbound : subst.lookup target = none) : target ∈ (subst.apply (var source)).vars := by
  induction path using Relation.ReflTransGen.head_induction_on with
  | refl => simp [apply_var_of_unbound unbound]
  | head step _ ih =>
    obtain ⟨ty, bound, member⟩ := step
    rw [acyclic.apply_var bound]
    exact Ty.mem_vars_bindVars.mpr ⟨_, member, ih⟩

/-- Binding an unbound variable that does not occur in the solved type keeps acyclicity: variables
from which the new binding can be reached are ranked above all others. -/
theorem Acyclic.bind (acyclic : subst.Acyclic) (unbound : subst.lookup id = none)
    (absent : id ∉ (subst.apply ty).vars) : (subst.bind id ty).Acyclic := by
  classical
  obtain ⟨rank⟩ := acyclic.exists_rank
  let reaches (source : VarId) : Prop := Relation.ReflTransGen subst.Points source id
  have untouched : ∀ target ∈ ty.vars, ¬reaches target := by
    intro target member path
    exact absent (Ty.mem_vars_bindVars.mpr
      ⟨target, member, acyclic.mem_apply_of_path path unbound⟩)
  refine acyclic_of_falls
    (fun source => if reaches source then subst.size + 1 + rank.of source else rank.of source) ?_
  rintro source target ⟨binding, bound, member⟩
  rw [lookup_bind] at bound
  by_cases same : id = source
  · simp only [same, ↓reduceIte, Option.some.injEq] at bound
    subst same bound
    have reachesSelf : reaches id := Relation.ReflTransGen.refl
    have := rank.bounded target
    simp only [untouched target member, reachesSelf, ↓reduceIte]
    omega
  · simp only [same, ↓reduceIte] at bound
    have falls := rank.falls bound target member
    by_cases onward : reaches target
    · have here : reaches source := Relation.ReflTransGen.head ⟨binding, bound, member⟩ onward
      simp only [onward, here, ↓reduceIte]
      omega
    · simp only [onward, ↓reduceIte]
      split <;> omega

/-- All bound types are allowed. -/
def Within (allowed : Ty → Prop) (subst : Subst) : Prop :=
  ∀ ⦃id ty⦄, subst.lookup id = some ty → allowed ty

/-- The bindings of variables of a class are of the class, so bindings never lead out of it. -/
def Closed (allowed : Ty → Prop) (subst : Subst) : Prop :=
  ∀ ⦃id ty⦄, subst.lookup id = some ty → allowed (var id) → allowed ty

theorem Within.closed (inside : subst.Within allowed) : subst.Closed allowed :=
  fun _ _ bound _ => inside bound

theorem Closed.shallow (closed : subst.Closed allowed) (tyAllowed : allowed ty) :
    allowed (subst.shallow ty) :=
  follow_induction (motive := fun ty head => allowed ty → allowed head) (fun _ given => given)
    (fun bound ih given => ih (closed bound given)) subst.size ty tyAllowed

theorem Within.shallow (inside : subst.Within allowed) (tyAllowed : allowed ty) :
    allowed (subst.shallow ty) :=
  inside.closed.shallow tyAllowed

theorem Closed.apply (closed : subst.Closed allowed)
    (vars : ∀ ⦃ty⦄, allowed ty → ∀ id ∈ ty.vars, allowed (var id))
    (assigned : ∀ ⦃image : VarId → Ty⦄ ⦃ty : Ty⦄, allowed ty →
      (∀ id ∈ ty.vars, allowed (image id)) → allowed (ty.bindVars image)) (tyAllowed : allowed ty) :
    allowed (subst.apply ty) := by
  refine assigned tyAllowed fun id found => ?_
  refine solution_induction (motive := fun id solved => allowed (var id) → allowed solved)
    (fun _ given => given) (fun bound ih given => ?_) subst.size id (vars tyAllowed id found)
  have bindingAllowed := closed bound given
  exact assigned bindingAllowed fun inner found => ih inner (vars bindingAllowed inner found)

theorem Within.vars_apply {known : VarId → Prop}
    (inside : subst.Within fun ty => ∀ id ∈ ty.vars, known id)
    (tyKnown : ∀ id ∈ ty.vars, known id) : ∀ id ∈ (subst.apply ty).vars, known id := by
  refine inside.closed.apply (fun ty tyKnown id found other isId => ?_)
    (fun image ty _ images id found => ?_) tyKnown
  · rw [Ty.vars_var, List.mem_singleton] at isId
    exact isId ▸ tyKnown id found
  · obtain ⟨source, occurs, inImage⟩ := Ty.mem_vars_bindVars.mp found
    exact images source occurs id inImage

end Subst

end TraitCheck
