import TraitCheck.Proofs.Check.Invariant

/-!
# Rigid variables

Variables are rigid if they stand for distinct unsolved variables that occur in none of some types.
Exactly then they can be given any types at all without changing the solved forms of these types.
What is rigid towards all declarations when the body of a function is left stays so to the end of
the check, as nothing that is held by the state then leads to it.
-/

namespace TraitCheck

variable {ty : Ty} {image : VarId → Ty} {id : VarId}

namespace Ty

theorem image_eq_of_bindVars_eq {first second : VarId → Ty}
    (same : ty.bindVars first = ty.bindVars second) : ∀ id ∈ ty.vars, first id = second id := by
  induction ty with
  | step ty ih =>
    intro id found
    rcases ty.var_or_not with ⟨source, rfl⟩ | noVar
    · rw [vars_var, List.mem_singleton] at found
      exact found ▸ same
    · rw [vars_eq_flatMap noVar] at found
      obtain ⟨part, member, inPart⟩ := List.mem_flatMap.mp found
      have sameParts := congrArg parts same
      rw [parts_bindVars noVar, parts_bindVars noVar] at sameParts
      exact ih part member (List.map_inj_left.mp sameParts part member) id inPart

theorem eq_var_of_bindVars_eq_var (same : ty.bindVars image = var id) :
    ∃ source, ty = var source := by
  cases ty with
  | var source => exact ⟨source, rfl⟩
  | named decl args | fn params result | tuple elems | record fields | scheme names body =>
    simp at same
  | _ => cases same

theorem eq_prim_of_bindVars_eq_prim {kind : Prim} (noVar : ∀ id, ty ≠ var id)
    (same : ty.bindVars image = prim kind) : ty = prim kind := by
  cases ty with
  | var source => exact absurd rfl (noVar source)
  | named decl args | fn params result | tuple elems | record fields | scheme names body =>
    simp at same
  | _ => exact same

end Ty

namespace Subst

open Ty (var)

variable {subst earlier later : Subst} {generics : List VarId} {types : List Ty}

theorem mem_vars_apply :
    id ∈ (subst.apply ty).vars ↔ ∃ source ∈ ty.vars, id ∈ (subst.apply (var source)).vars :=
  Ty.mem_vars_bindVars

/-- Variables stand for distinct unsolved variables that occur in none of some types. -/
structure Rigid (subst : Subst) (generics : List VarId) (types : List Ty) : Prop where
  distinct : generics.Pairwise fun first second =>
    subst.apply (var first) ≠ subst.apply (var second)
  unsolved : ∀ id ∈ generics, ∃ root, subst.apply (var id) = var root ∧
    ∀ ty ∈ types, root ∉ (subst.apply ty).vars

theorem Rigid.of_extends (rigid : later.Rigid generics types) (growth : earlier.Extends later)
    (acyclic : later.Acyclic) : earlier.Rigid generics types := by
  constructor
  · refine rigid.distinct.imp fun {first second} differ same => differ ?_
    rw [← growth.apply_apply acyclic (var first), same, growth.apply_apply acyclic]
  · intro id member
    obtain ⟨root, solved, free⟩ := rigid.unsolved id member
    rw [← growth.apply_apply acyclic] at solved
    obtain ⟨source, isSource⟩ := Ty.eq_var_of_bindVars_eq_var solved
    refine ⟨source, isSource, fun ty tyMember occurs => free ty tyMember ?_⟩
    rw [← growth.apply_apply acyclic ty]
    refine mem_vars_apply.mpr ⟨source, occurs, ?_⟩
    rw [isSource] at solved
    exact solved ▸ List.mem_singleton_self root

theorem Rigid.of_vars {others : List Ty} (rigid : subst.Rigid generics types)
    (vars : ∀ ty ∈ others, ∀ id ∈ ty.vars, ∃ held ∈ types, id ∈ held.vars) :
    subst.Rigid generics others := by
  refine ⟨rigid.distinct, fun id member => ?_⟩
  obtain ⟨root, solved, free⟩ := rigid.unsolved id member
  refine ⟨root, solved, fun ty tyMember occurs => ?_⟩
  obtain ⟨source, inTy, inSource⟩ := mem_vars_apply.mp occurs
  obtain ⟨held, heldMember, inHeld⟩ := vars ty tyMember source inTy
  exact free held heldMember (mem_vars_apply.mpr ⟨source, inHeld, inSource⟩)

open Classical in
/-- Gives the unsolved variables behind some variables the images of these, and keeps all others. -/
noncomputable def reassign (subst : Subst) (generics : List VarId) (image : VarId → Ty)
    (root : VarId) : Ty :=
  if behind : ∃ id ∈ generics, subst.apply (var id) = var root then image behind.choose
  else var root

theorem Rigid.reassign_root (rigid : subst.Rigid generics types) {id root : VarId}
    (member : id ∈ generics) (solved : subst.apply (var id) = var root) :
    subst.reassign generics image root = image id := by
  have behind : ∃ id ∈ generics, subst.apply (var id) = var root := ⟨id, member, solved⟩
  rw [reassign, dif_pos behind]
  congr 1
  obtain ⟨chosenMember, chosenSolved⟩ := behind.choose_spec
  by_contra differ
  have symmetric : Std.Symm fun first second =>
      subst.apply (var first) ≠ subst.apply (var second) :=
    ⟨fun _ _ => Ne.symm⟩
  exact rigid.distinct.forall chosenMember member differ (chosenSolved.trans solved.symm)

theorem Rigid.bindVars_reassign (rigid : subst.Rigid generics types) (member : ty ∈ types) :
    (subst.apply ty).bindVars (subst.reassign generics image) = subst.apply ty := by
  refine Ty.bindVars_eq_self fun root occurs => ?_
  rw [reassign, dif_neg]
  rintro ⟨id, inGenerics, solved⟩
  obtain ⟨other, solvedOther, free⟩ := rigid.unsolved id inGenerics
  cases solved.symm.trans solvedOther
  exact free ty member occurs

/-- Rigid variables are those to which any types can be given while the bindings keep holding and
the solved forms of the other types stay the same. -/
theorem rigid_iff_images (acyclic : subst.Acyclic) (nodup : generics.Nodup) :
    subst.Rigid generics types ↔ ∀ image : VarId → Ty, ∃ assignment,
      Satisfies assignment subst ∧ (∀ id ∈ generics, assignment id = image id) ∧
        ∀ ty ∈ types, ty.bindVars assignment = subst.apply ty := by
  constructor
  · intro rigid image
    refine ⟨fun id => (subst.apply (var id)).bindVars (subst.reassign generics image), ?_, ?_, ?_⟩
    · intro id ty bound
      dsimp only
      rw [acyclic.apply_var bound, apply_eq_bindVars ty, Ty.bindVars_bindVars]
    · intro id member
      obtain ⟨root, solved, _⟩ := rigid.unsolved id member
      dsimp only
      rw [solved, Ty.bindVars_var, rigid.reassign_root member solved]
    · intro ty member
      rw [← Ty.bindVars_bindVars, ← apply_eq_bindVars, rigid.bindVars_reassign member]
  · intro supported
    have solvedImage : ∀ {assignment}, Satisfies assignment subst → ∀ id,
        (subst.apply (var id)).bindVars assignment = assignment id :=
      fun satisfies id => satisfies.bindVars_apply (var id)
    constructor
    · refine nodup.imp_of_mem fun {first second} inFirst inSecond differ same => ?_
      obtain ⟨assignment, satisfies, given, _⟩ :=
        supported fun id => if id = first then .prim .int else .prim .bool
      have equal : assignment first = assignment second := by
        rw [← solvedImage satisfies first, same, solvedImage satisfies]
      rw [given first inFirst, given second inSecond, if_pos rfl, if_neg (Ne.symm differ)] at equal
      cases equal
    · intro id member
      have isVar : ∃ root, subst.apply (var id) = var root := by
        by_contra none
        have noVar : ∀ root, subst.apply (var id) ≠ var root := fun root is => none ⟨root, is⟩
        have only : ∀ kind : Prim, subst.apply (var id) = .prim kind := by
          intro kind
          obtain ⟨assignment, satisfies, given, _⟩ := supported fun _ => .prim kind
          exact Ty.eq_prim_of_bindVars_eq_prim noVar
            ((solvedImage satisfies id).trans (given id member))
        cases (only .int).symm.trans (only .bool)
      obtain ⟨root, solved⟩ := isVar
      refine ⟨root, solved, fun ty tyMember occurs => ?_⟩
      obtain ⟨assignment, satisfies, given, fixed⟩ := supported fun _ => .prim .int
      have kept : (subst.apply ty).bindVars assignment = (subst.apply ty).bindVars var := by
        rw [satisfies.bindVars_apply, fixed ty tyMember, Ty.bindVars_self]
      have image := Ty.image_eq_of_bindVars_eq kept root occurs
      have rootImage := solvedImage satisfies id
      rw [solved, Ty.bindVars_var, image, given id member] at rootImage
      cases rootImage

/-- Whether the solved form of a variable shares a variable with that of a generic. -/
def reserved (subst : Subst) (generics : List VarId) (id : VarId) : Bool :=
  generics.any fun generic =>
    (subst.apply (var generic)).vars.any fun root => (subst.apply (var id)).vars.contains root

theorem reserved_iff : subst.reserved generics id = true ↔ ∃ generic ∈ generics,
      ∃ root ∈ (subst.apply (var generic)).vars, root ∈ (subst.apply (var id)).vars := by
  simp [reserved]

end Subst

open Ty (var)

namespace Checker

variable {checker final : Checker} {generics : List VarId} {declaring : Bool}

/-- From now on no variable occurs any more that leads to a generic. -/
def reserving (obeys : checker.Obeys .taken)
    (known : ∀ id ∈ generics, Policy.taken.FitsIn checker (var id)) : Policy where
  allows next id := Policy.taken.allows next id && !checker.subst.reserved generics id
  exempt id := checker.subst.reserved generics id
  base := checker.supply.next
  fresh := by
    intro next started
    have fresh : Policy.taken.allows (next + 1) next = true := Policy.taken.fresh (Nat.zero_le _)
    have unused : ∀ id : VarId, Policy.taken.FitsIn checker (var id) → id ≠ (next : VarId) := by
      rintro id fits rfl
      have below := (of_decide_eq_true fits.allowed).2
      exact absurd below (not_lt.mpr (Int.ofNat_le.mpr started))
    have unbound : checker.subst.lookup next = none := by
      rcases bound : checker.subst.lookup next with _ | ty
      · rfl
      · exact absurd rfl (unused _ (obeys.bound bound rfl).1)
    rw [fresh, Bool.true_and, Bool.not_eq_true']
    refine Bool.eq_false_iff.mpr fun isReserved => ?_
    obtain ⟨generic, member, root, inGeneric, same⟩ := Subst.reserved_iff.mp isReserved
    rw [Subst.apply_var_of_unbound unbound, Ty.vars_var, List.mem_singleton] at same
    have fits := (known generic member).apply obeys.closed
    exact unused root (Policy.admits_var (fits.var_of_mem root inGeneric)) same
  mono := by
    intro next later id grown allowed
    rw [Bool.and_eq_true] at allowed ⊢
    exact ⟨Policy.taken.mono grown allowed.1, allowed.2⟩
  apart := by
    intro next id allowed
    simpa using (Bool.and_eq_true_iff.mp allowed).2

variable {obeys : checker.Obeys .taken}
  {known : ∀ id ∈ generics, Policy.taken.FitsIn checker (var id)}

theorem reserving_admits {written : Bool} {next : Nat}
    (admits : Policy.taken.Admits written next ty)
    (free : ∀ id ∈ ty.vars, checker.subst.reserved generics id = false) :
    (reserving obeys known).Admits written next ty := by
  induction ty with
  | step ty ih =>
    have ⟨former, inner⟩ := Ty.all_iff.mp admits
    refine .of_parts ?_ fun part member => ih part member (inner part member) fun id found =>
      free id (Ty.mem_vars_of_part member found)
    cases ty with
    | var id =>
      change (Policy.taken.allows next id && !checker.subst.reserved generics id) = true
      rw [free id (List.mem_singleton_self id)]
      exact Bool.and_eq_true_iff.mpr ⟨former, rfl⟩
    | _ => exact former

theorem obeys_reserving (rigid : checker.subst.Rigid generics checker.declaredTypes)
    (noLocals : checker.locals.values = []) (noParams : checker.subst.params.values = []) :
    checker.Obeys (reserving obeys known) := by
  have inBound : ∀ {id : VarId} {ty : Ty}, checker.subst.lookup id = some ty →
      checker.subst.reserved generics id = false →
        ∀ source ∈ ty.vars, checker.subst.reserved generics source = false := by
    intro id ty bound free source inTy
    refine Bool.eq_false_iff.mpr fun isReserved => ?_
    obtain ⟨generic, member, root, inGeneric, inSource⟩ := Subst.reserved_iff.mp isReserved
    refine Bool.eq_false_iff.mp free (Subst.reserved_iff.mpr ⟨generic, member, root, inGeneric, ?_⟩)
    rw [obeys.acyclic.apply_var bound]
    exact Subst.mem_vars_apply.mpr ⟨source, inTy, inSource⟩
  have inDeclared : ∀ ty ∈ checker.declaredTypes,
      ∀ id ∈ ty.vars, checker.subst.reserved generics id = false := by
    intro ty tyMember id inTy
    refine Bool.eq_false_iff.mpr fun isReserved => ?_
    obtain ⟨generic, member, root, inGeneric, inId⟩ := Subst.reserved_iff.mp isReserved
    obtain ⟨only, solved, free⟩ := rigid.unsolved generic member
    rw [solved, Ty.vars_var, List.mem_singleton] at inGeneric
    exact free ty tyMember (Subst.mem_vars_apply.mpr ⟨id, inTy, inGeneric ▸ inId⟩)
  refine ⟨le_rfl, obeys.acyclic, fun id ty bound free => ?_, ?_, ?_, fun ty member => ?_,
    fun info member => ?_⟩
  · obtain ⟨fitsVar, fits⟩ := obeys.bound bound rfl
    refine ⟨reserving_admits fitsVar fun other found =>
      ?_, reserving_admits fits (inBound bound free)⟩
    rw [Ty.vars_var, List.mem_singleton] at found
    exact found ▸ free
  · rw [noParams]
    exact List.forall_mem_nil _
  · rw [noLocals]
    exact List.forall_mem_nil _
  · exact reserving_admits (obeys.declared ty member) (inDeclared ty member)
  · -- The target of an alias was written when no variable was handed out, and so has none.
    refine reserving_admits (obeys.aliases info member) fun id found => ?_
    obtain ⟨positive, below⟩ := of_decide_eq_true ((obeys.aliases info member).var_of_mem id found)
    exact absurd below (not_lt.mpr positive)

theorem Changes.unbound_of_exempt {policy : Policy}
    (changes : Changes policy declaring checker final)
    (obeys : checker.Obeys policy) (exempt : policy.exempt id = true)
    (unbound : checker.subst.lookup id = none) : final.subst.lookup id = none := by
  induction changes with
  | refl => exact unbound
  | tail changes change ih =>
    rcases bound : Subst.lookup _ id with _ | ty
    · rfl
    · rcases change.lookup (Changes.obeys changes obeys) bound with old | ⟨fits, _⟩
      · cases old.symm.trans ih
      · cases exempt.symm.trans (policy.apart fits.allowed)

theorem rigid_of_changes (rigid : checker.subst.Rigid generics checker.declaredTypes)
    (reserves : checker.Obeys (reserving obeys known))
    (changes : Changes (reserving obeys known) declaring checker final) :
    final.subst.Rigid generics final.declaredTypes := by
  have obeysFinal := changes.obeys reserves
  have growth := changes.extends reserves
  have isReserved : ∀ {generic root : VarId}, generic ∈ generics →
      checker.subst.apply (var generic) = var root →
        checker.subst.reserved generics root = true := by
    intro generic root member solved
    have inGeneric : root ∈ (checker.subst.apply (var generic)).vars := by simp [solved]
    refine Subst.reserved_iff.mpr ⟨generic, member, root, inGeneric, ?_⟩
    rw [Subst.apply_var_of_unbound (obeys.acyclic.unbound_of_mem_apply inGeneric)]
    exact List.mem_singleton_self root
  have sameSolved : ∀ generic ∈ generics,
      final.subst.apply (var generic) = checker.subst.apply (var generic) := by
    intro generic member
    obtain ⟨root, solved, _⟩ := rigid.unsolved generic member
    have inGeneric : root ∈ (checker.subst.apply (var generic)).vars := by simp [solved]
    rw [← growth.apply_apply obeysFinal.acyclic, solved]
    exact Subst.apply_var_of_unbound (Changes.unbound_of_exempt changes reserves
      (isReserved member solved) (obeys.acyclic.unbound_of_mem_apply inGeneric))
  constructor
  · refine rigid.distinct.imp_of_mem fun {first second} inFirst inSecond differ => ?_
    rw [sameSolved first inFirst, sameSolved second inSecond]
    exact differ
  · intro generic member
    obtain ⟨root, solved, _⟩ := rigid.unsolved generic member
    refine ⟨root, (sameSolved generic member).trans solved, fun ty tyMember occurs => ?_⟩
    have fits := (obeysFinal.declared ty tyMember).apply obeysFinal.closed
    have free := (reserving obeys known).apart (fits.var_of_mem root occurs)
    cases free.symm.trans (isReserved member solved)

end Checker

end TraitCheck
