import TraitCheck.Proofs.Schemes

/-!
# Which types can be solved

`Subst.applied?` solves a type if all bindings that it comes to can be followed: the type has to be
complete, and so have the bindings of its variables and so on, and none of these may be absent.
`Subst.isSound` tests this to a limited depth. `Subst.Followable` says it without a limit, for all
variables that are reached through bindings, and on an acyclic substitution the two agree.
-/

namespace TraitCheck

namespace Ty

variable {ty : Ty}

theorem isComplete_iff :
    ty.isComplete = true ↔ ty.lacksField = false ∧ ∀ part ∈ ty.parts, part.isComplete = true := by
  rcases eq_or_ne ty absent with rfl | present
  · simp [isComplete, any, lacksField, parts]
  · simp [isComplete, any_eq present]

theorem isComplete_of_part {part : Ty} (complete : ty.isComplete = true)
    (member : part ∈ ty.parts) :
    part.isComplete = true :=
  (isComplete_iff.mp complete).2 part member

theorem isAbsent_of_lacksField {row : Row} (noGap : (record row).lacksField = false)
    {field : String × Ty} (member : field ∈ row) : field.2.isAbsent = false := by
  simp only [lacksField, List.any_eq_false, Bool.not_eq_true] at noGap
  exact noGap field member

/-- A complete type that is not absent. -/
structure Whole (ty : Ty) : Prop where
  complete : ty.isComplete = true
  present : ty.isAbsent = false

theorem whole_var (id : VarId) : (var id).Whole := ⟨rfl, rfl⟩

theorem whole_param (index : Int) (name : String) : (param index name).Whole := ⟨rfl, rfl⟩

section Leaves

variable {onVar : VarId → Ty} {onParam : Int → String → Ty}

theorem isAbsent_bindLeaves (present : ty.isAbsent = false)
    (onVars : ∀ id ∈ ty.vars, (onVar id).isAbsent = false)
    (onParams : ∀ index name, (onParam index name).isAbsent = false) :
    (ty.bindLeaves onVar onParam).isAbsent = false := by
  cases ty with
  | absent => cases present
  | var id => exact onVars id (by simp)
  | param index name => exact onParams index name
  | _ => simp [isAbsent]

theorem isComplete_bindLeaves (complete : ty.isComplete = true)
    (onVars : ∀ id ∈ ty.vars, (onVar id).Whole)
    (onParams : ∀ index name, (onParam index name).Whole) :
    (ty.bindLeaves onVar onParam).isComplete = true := by
  induction ty with
  | step ty ih =>
    rcases leaf_or_not ty with ⟨id, rfl⟩ | ⟨index, name, rfl⟩ | ⟨noVar, noParam⟩
    · exact (onVars id (by simp)).complete
    · exact (onParams index name).complete
    · rcases isComplete_iff.mp complete with ⟨noGap, inner⟩
      apply isComplete_iff.mpr
      constructor
      · cases ty with
        | record fields =>
          simp only [lacksField, List.any_eq_false, Bool.not_eq_true] at noGap
          simp only [bindLeaves_record, lacksField, List.any_map, List.any_eq_false,
            Function.comp_apply, Bool.not_eq_true]
          intro field member
          have part : field.2 ∈ (record fields).parts := List.mem_map_of_mem member
          apply isAbsent_bindLeaves (noGap field member)
          · intro id occurs
            exact (onVars id (mem_vars_of_part part occurs)).present
          · intro index name
            exact (onParams index name).present
        | var id => exact absurd rfl (noVar id)
        | param index name => exact absurd rfl (noParam index name)
        | _ => simp [lacksField]
      · rw [parts_bindLeaves noVar noParam]
        intro image isImage
        rcases List.mem_map.mp isImage with ⟨part, isPart, rfl⟩
        apply ih part isPart (inner part isPart)
        intro id occurs
        exact onVars id (mem_vars_of_part isPart occurs)

/-- What a type lacks is not supplied by replacing its variables and parameters. -/
theorem isComplete_of_bindLeaves (complete : (ty.bindLeaves onVar onParam).isComplete = true) :
    ty.isComplete = true := by
  induction ty with
  | step ty ih =>
    rcases leaf_or_not ty with ⟨id, rfl⟩ | ⟨index, name, rfl⟩ | ⟨noVar, noParam⟩
    · rfl
    · rfl
    · rcases isComplete_iff.mp complete with ⟨noGap, inner⟩
      rw [parts_bindLeaves noVar noParam] at inner
      refine isComplete_iff.mpr ⟨?_, fun part isPart => ih part isPart ?_⟩
      · cases ty with
        | record fields =>
          simp only [bindLeaves_record, lacksField, List.any_map, List.any_eq_false,
            Function.comp_apply, Bool.not_eq_true] at noGap
          simp only [lacksField, List.any_eq_false]
          intro field member isAbsent
          have gap := noGap field member
          cases content : field.2 <;> simp_all [Ty.isAbsent]
        | _ => rfl
      · exact inner _ (List.mem_map_of_mem isPart)

theorem Whole.bindLeaves (whole : ty.Whole) (onVars : ∀ id ∈ ty.vars, (onVar id).Whole)
    (onParams : ∀ index name, (onParam index name).Whole) :
    (ty.bindLeaves onVar onParam).Whole where
  complete := isComplete_bindLeaves whole.complete onVars onParams
  present := isAbsent_bindLeaves whole.present (fun id occurs => (onVars id occurs).present)
    fun index name => (onParams index name).present

end Leaves

end Ty

namespace Subst

open Ty (var)

variable {subst : Subst} {ty : Ty} {id : VarId} {solved : Ty}

/-- A variable is reached from a type through bindings. -/
def Reached (subst : Subst) (ty : Ty) (id : VarId) : Prop :=
  ∃ source ∈ ty.vars, Relation.ReflTransGen subst.Points source id

/-- A type is complete, and so are all bindings that are reached from it, none of them absent. -/
structure Followable (subst : Subst) (ty : Ty) : Prop where
  complete : ty.isComplete = true
  bindings : ∀ {id bound}, subst.Reached ty id → subst.lookup id = some bound → bound.Whole

theorem reached_of_mem (occurs : id ∈ ty.vars) : subst.Reached ty id :=
  ⟨id, occurs, .refl⟩

theorem Reached.of_bound {source id : VarId} {bound : Ty} (occurs : source ∈ ty.vars)
    (isBound : subst.lookup source = some bound) (reached : subst.Reached bound id) :
    subst.Reached ty id := by
  rcases reached with ⟨next, inBound, path⟩
  exact ⟨source, occurs, .head ⟨bound, isBound, inBound⟩ path⟩

theorem followable_iff :
    subst.Followable ty ↔ ty.isComplete = true ∧
      ∀ id ∈ ty.vars, ∀ bound, subst.lookup id = some bound →
        bound.isAbsent = false ∧ subst.Followable bound := by
  constructor
  · intro followable
    refine ⟨followable.complete, fun id occurs bound isBound => ?_⟩
    have whole := followable.bindings (reached_of_mem occurs) isBound
    refine ⟨whole.present, whole.complete, fun reached => ?_⟩
    exact followable.bindings (reached.of_bound occurs isBound)
  · rintro ⟨complete, step⟩
    refine ⟨complete, ?_⟩
    rintro id bound ⟨source, occurs, path⟩ isBound
    rcases Relation.ReflTransGen.cases_head path with
      rfl | ⟨next, ⟨first, isFirst, inFirst⟩, further⟩
    · rcases step source occurs bound isBound with ⟨present, followable⟩
      exact ⟨followable.complete, present⟩
    · exact (step source occurs first isFirst).2.bindings ⟨next, inFirst, further⟩ isBound

theorem Followable.of_mem (followable : subst.Followable ty) (occurs : id ∈ ty.vars) :
    subst.Followable (var id) := by
  refine ⟨rfl, ?_⟩
  rintro other bound ⟨source, isId, path⟩
  rw [Ty.vars_var, List.mem_singleton] at isId
  subst isId
  exact followable.bindings ⟨source, occurs, path⟩

theorem followable_of_unbound (complete : ty.isComplete = true)
    (unbound : ∀ id ∈ ty.vars, subst.lookup id = none) : subst.Followable ty := by
  refine followable_iff.mpr ⟨complete, fun id occurs bound isBound => ?_⟩
  rw [unbound id occurs] at isBound
  cases isBound

/-- The limit of the test is out of reach, since ranks fall along bindings. -/
theorem Rank.isSound_iff (rank : subst.Rank) {limit : Nat}
    (low : ∀ id ∈ ty.vars, rank.of id ≤ limit) :
    subst.isSound limit ty = true ↔ subst.Followable ty := by
  induction limit generalizing ty with
  | zero =>
    refine ⟨fun complete => followable_of_unbound complete fun id occurs => ?_,
      Followable.complete⟩
    rcases bound : subst.lookup id with _ | binding
    · rfl
    · have positive := rank.positive bound
      have := low id occurs
      omega
  | succ limit ih =>
    rw [isSound, Bool.and_eq_true, List.all_eq_true, followable_iff]
    apply and_congr_right
    intro _
    apply forall_congr'
    intro id
    apply imp_congr_right
    intro occurs
    rcases isBound : subst.lookup id with _ | bound
    · simp
    · have lower : ∀ inner ∈ bound.vars, rank.of inner ≤ limit := by
        intro inner inBound
        have := rank.falls isBound inner inBound
        have := low id occurs
        omega
      simp [ih lower]

theorem lookup_of_size_eq_zero (empty : subst.size = 0) (id : VarId) : subst.lookup id = none := by
  have noEntries : subst.vars.entries = [] := List.length_eq_zero_iff.mp empty
  rw [lookup, Table.find?, noEntries, Table.entryAt?]

theorem apply_of_size_eq_zero (empty : subst.size = 0) (ty : Ty) : subst.apply ty = ty :=
  Ty.bindVars_eq_self fun id _ => solution_of_unbound (lookup_of_size_eq_zero empty id) _

theorem Acyclic.applies_iff (acyclic : subst.Acyclic) :
    subst.applies ty = true ↔ subst.size = 0 ∨ subst.Followable ty := by
  rcases acyclic.exists_rank with ⟨rank⟩
  rw [applies, Bool.or_eq_true, decide_eq_true_eq, rank.isSound_iff fun id _ => rank.bounded id]

theorem Followable.whole_solution (followable : subst.Followable (var id))
    (limit : Nat) : (subst.solution limit id).Whole := by
  revert followable
  refine solution_induction (motive := fun id solved => subst.Followable (var id) → solved.Whole)
    (fun id _ => Ty.whole_var id) (fun isBound ih followable => ?_) limit id
  rcases (followable_iff.mp followable).2 _ (by simp) _ isBound with ⟨present, further⟩
  have whole : Ty.Whole _ := ⟨further.complete, present⟩
  rw [Ty.bindVars_eq_bindLeaves]
  exact whole.bindLeaves (fun inner inBound => ih inner (further.of_mem inBound)) Ty.whole_param

theorem Followable.isComplete_apply (followable : subst.Followable ty) :
    (subst.apply ty).isComplete = true := by
  rw [apply, Ty.bindVars_eq_bindLeaves]
  apply Ty.isComplete_bindLeaves followable.complete
  · intro id occurs
    exact (followable.of_mem occurs).whole_solution subst.size
  · exact Ty.whole_param

theorem applied?_eq_some :
    subst.applied? ty = some solved ↔ subst.applies ty = true ∧ subst.apply ty = solved := by
  rw [applied?, Option.ite_none_right_eq_some, Option.some.injEq]

theorem Acyclic.isComplete_of_applied? (acyclic : subst.Acyclic)
    (complete : ty.isComplete = true) (solves : subst.applied? ty = some solved) :
    solved.isComplete = true := by
  rcases applied?_eq_some.mp solves with ⟨applies, rfl⟩
  rcases acyclic.applies_iff.mp applies with empty | followable
  · rwa [apply_of_size_eq_zero empty]
  · exact followable.isComplete_apply

end Subst

end TraitCheck
