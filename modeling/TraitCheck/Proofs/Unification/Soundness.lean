import TraitCheck.Proofs.Unification.Growth

/-!
# Soundness of unification

A successful unification makes its two types agree: once solved, they have the same formers at every
position, except where one side is the placeholder for a type still to be inferred. The placeholder
is accepted without a binding, so agreement is not transitive and cannot be chained through
bindings. It is established at once for every acyclic substitution that extends the one reached.
-/

namespace TraitCheck

variable {ty expected : Ty}
variable {after : Subst} {found : Ty} {first second : Ty}

namespace Ty

/-- Two types agree up to placeholders: at every position they have the same former, with the same
names, labels and number of components, unless one side is the placeholder there. -/
inductive Agrees : Ty → Ty → Prop
  | placeholderLeft (ty : Ty) : Agrees .unknown ty
  | placeholderRight (ty : Ty) : Agrees ty .unknown
  | former {first second : Ty} (same : first.sameFormer second = true)
      (parts : ∀ pair ∈ first.parts.zip second.parts, Agrees pair.1 pair.2) :
      Agrees first second

theorem Agrees.refl (ty : Ty) : ty.Agrees ty := by
  induction ty with
  | step ty ih =>
    refine .former (sameFormer_refl ty) ?_
    rw [List.zip, List.zipWith_self]
    intro pair member
    rcases List.mem_map.mp member with ⟨part, partMem, rfl⟩
    exact ih part partMem

theorem Agrees.eq_of_isKnown (agree : first.Agrees second)
    (firstKnown : first.isKnown = true) (secondKnown : second.isKnown = true) :
    first = second := by
  rw [isKnown_iff] at firstKnown secondKnown
  induction agree with
  | placeholderLeft ty => simp [all, isUnknown] at firstKnown
  | placeholderRight ty => simp [all, isUnknown] at secondKnown
  | @former first second same parts ih =>
    apply eq_of_sameFormer same
    apply List.ext_getElem (length_parts_of_sameFormer same)
    intro position inFirst inSecond
    have member : (first.parts[position], second.parts[position]) ∈
        first.parts.zip second.parts := by
      rw [List.mem_iff_getElem]
      exact ⟨position, by simpa using ⟨inFirst, inSecond⟩, by simp⟩
    exact ih _ member (all_of_part firstKnown (List.getElem_mem inFirst))
      (all_of_part secondKnown (List.getElem_mem inSecond))

theorem Agrees.of_parts {image : VarId → Ty}
    (same : first.sameFormer second = true) (firstNoVar : ∀ id, first ≠ var id)
    (secondNoVar : ∀ id, second ≠ var id)
    (parts : ∀ pair ∈ first.parts.zip second.parts,
      (pair.1.bindVars image).Agrees (pair.2.bindVars image)) :
    (first.bindVars image).Agrees (second.bindVars image) := by
  refine .former (by rw [sameFormer_bindVars image firstNoVar secondNoVar, same]) ?_
  rw [parts_bindVars firstNoVar, parts_bindVars secondNoVar, List.zip_map]
  intro pair member
  rcases List.mem_map.mp member with ⟨source, sourceMem, rfl⟩
  exact parts source sourceMem

end Ty

namespace Subst

open Ty (var)

variable {subst : Subst} {limit : Nat}

/-- All later substitutions solve two types to types that agree. -/
def AgreesFrom (subst : Subst) (expected found : Ty) : Prop :=
  ∀ later : Subst, later.Acyclic → subst.Extends later →
    (later.apply expected).Agrees (later.apply found)

theorem solve_agreesFrom {id : VarId} {swapped : Bool}
    (solved : subst.solve id ty swapped = (after, none)) :
    after.AgreesFrom (var id) ty ∧ after.AgreesFrom ty (var id) := by
  have step := solved ▸ solveStep id ty swapped
  cases step with
  | itself same =>
    subst same
    exact ⟨fun later _ _ => .refl _, fun later _ _ => .refl _⟩
  | placeholder unknown =>
    subst unknown
    exact ⟨fun later _ _ => .placeholderRight _, fun later _ _ => .placeholderLeft _⟩
  | bind fresh =>
    have same : ∀ later : Subst, later.Acyclic → (subst.bind id ty).Extends later →
        later.apply (var id) = later.apply ty := by
      intro later acyclic growth
      exact acyclic.apply_var (growth (by simp))
    constructor
    · intro later acyclic growth
      rw [same later acyclic growth]
      exact .refl _
    · intro later acyclic growth
      rw [same later acyclic growth]
      exact .refl _

theorem AgreesFrom.mono (agree : subst.AgreesFrom expected found) (growth : subst.Extends after) :
    after.AgreesFrom expected found :=
  fun later acyclic further => agree later acyclic (growth.trans further)

theorem solveAll_agreesFrom {pairs : List (Ty × Ty)}
    (each : ∀ pair ∈ pairs, ∀ before after : Subst, before.Acyclic →
      unifyWithin limit before pair.1 pair.2 = (after, none) → after.AgreesFrom pair.1 pair.2)
    (acyclic : subst.Acyclic) (solved : solveAll (unifyWithin limit) subst pairs = (after, none)) :
    ∀ pair ∈ pairs, after.AgreesFrom pair.1 pair.2 := by
  induction pairs generalizing subst with
  | nil => simp
  | cons pair rest ih =>
    obtain ⟨middle, first, remaining⟩ := solveAll_cons_eq_none solved
    have middleAcyclic : middle.Acyclic := by
      have steps := acyclic.unifyWithin_steps limit pair.1 pair.2
      rw [first] at steps
      exact steps.acyclic acyclic
    have growth : middle.Extends after := by
      have steps := middleAcyclic.solveAll_steps limit rest
      rw [remaining] at steps
      exact steps.extends
    intro other member
    rcases List.mem_cons.mp member with rfl | inRest
    · exact (each other List.mem_cons_self subst middle acyclic first).mono growth
    · exact ih (fun pair member => each pair (List.mem_cons_of_mem _ member)) middleAcyclic
        remaining other inRest

/-- A successful unification makes its types agree in every later substitution. -/
theorem unifyWithin_agreesFrom (acyclic : subst.Acyclic)
    (unified : unifyWithin limit subst expected found = (after, none)) :
    after.AgreesFrom expected found := by
  induction limit generalizing subst expected found after with
  | zero => cases unified
  | succ limit ih =>
    have growth : subst.Extends after := by
      have steps := acyclic.unifyWithin_steps (limit + 1) expected found
      rw [unified] at steps
      exact steps.extends
    -- It is enough to look at the heads: later substitutions solve a type as they solve its head.
    have heads : after.AgreesFrom (subst.shallow expected) (subst.shallow found) →
        after.AgreesFrom expected found := by
      intro agree later laterAcyclic further
      have same : ∀ ty, later.apply (subst.shallow ty) = later.apply ty := by
        intro ty
        have satisfies := (growth.trans further).satisfies laterAcyclic.apply_satisfies
        exact satisfies.bindVars_shallow ty
      have := agree later laterAcyclic further
      rwa [same, same] at this
    apply heads
    generalize outcome : unifyWithin (limit + 1) subst expected found = result at unified
    have step := outcome ▸ unifyStep limit expected found
    cases step with
    | left isVar =>
      rw [isVar]
      exact (solve_agreesFrom unified).1
    | right isVar =>
      rw [isVar]
      exact (solve_agreesFrom unified).2
    | placeholder unknown =>
      intro later _ _
      rcases unknown with expectedUnknown | foundUnknown
      · rw [expectedUnknown]
        exact .placeholderLeft _
      · rw [foundUnknown]
        exact .placeholderRight _
    | descend expectedNoVar foundNoVar decomposed =>
      obtain ⟨same, rfl⟩ := Ty.components_eq_ok decomposed
      have parts := solveAll_agreesFrom (fun pair _ _ _ => ih) acyclic unified
      intro later laterAcyclic further
      exact .of_parts same expectedNoVar foundNoVar fun pair member =>
        parts pair member later laterAcyclic further
    | _ => cases unified

/-- The bindings after unifications one after the other, whether each of them succeeds or fails. -/
def unifyEach (subst : Subst) (calls : List (Ty × Ty)) : Subst :=
  calls.foldl (fun subst call => (subst.unify call.1 call.2).1) subst

theorem unifyEach_steps {allowed : Ty → Prop} (hereditary : Hereditary allowed)
    {calls : List (Ty × Ty)} (acyclic : subst.Acyclic) (inside : subst.Within allowed)
    (callsAllowed : ∀ call ∈ calls, allowed call.1 ∧ allowed call.2) :
    Steps allowed subst (subst.unifyEach calls) := by
  induction calls generalizing subst with
  | nil => exact Relation.ReflTransGen.refl
  | cons call rest ih =>
    have ⟨expectedAllowed, foundAllowed⟩ := callsAllowed call List.mem_cons_self
    have first := unify_steps hereditary acyclic inside expectedAllowed foundAllowed
    exact first.trans (ih (first.acyclic acyclic) (first.within inside)
      fun call member => callsAllowed call (List.mem_cons_of_mem _ member))

theorem Within.isSound_eq (inside : subst.Within (·.isPresent = true)) (limit : Nat) (ty : Ty) :
    subst.isSound limit ty = ty.isComplete := by
  induction limit generalizing ty with
  | zero => rfl
  | succ limit ih =>
    rw [isSound, List.all_eq_true.mpr, Bool.and_true]
    intro id _
    rcases bound : subst.lookup id with _ | binding
    · rfl
    · have bindingPresent := inside bound
      have head := (Ty.all_iff.mp bindingPresent).1
      simpa [head, ih] using Ty.isComplete_of_isPresent bindingPresent

theorem Within.applies (inside : subst.Within (·.isPresent = true))
    (present : ty.isPresent = true) : subst.applies ty = true := by
  rw [Subst.applies, inside.isSound_eq, Ty.isComplete_of_isPresent present, Bool.or_true]

theorem hereditary_isPresent : Hereditary (·.isPresent = true) :=
  fun _ _ member present => Ty.all_of_part present member

theorem hereditary_isKnown : Hereditary (·.isKnown = true) := by
  intro ty part member known
  rw [Ty.isKnown_iff] at known ⊢
  exact Ty.all_of_part known member

theorem Within.isPresent_apply (inside : subst.Within (·.isPresent = true))
    (present : ty.isPresent = true) : (subst.apply ty).isPresent = true :=
  inside.closed.apply (fun _ _ _ _ => rfl) (fun _ _ => Ty.isPresent_bindVars) present

theorem Within.isKnown_apply (inside : subst.Within (·.isKnown = true))
    (known : ty.isKnown = true) : (subst.apply ty).isKnown = true :=
  inside.closed.apply (fun _ _ _ _ => rfl) (fun _ _ => Ty.isKnown_bindVars) known

theorem unify_apply_eq (acyclic : subst.Acyclic) (inside : subst.Within (·.isKnown = true))
    (expectedKnown : expected.isKnown = true) (foundKnown : found.isKnown = true)
    (unified : subst.unify expected found = (after, none)) :
    after.apply expected = after.apply found := by
  have steps := unify_steps hereditary_isKnown acyclic inside expectedKnown foundKnown
  rw [unified] at steps
  have afterInside := steps.within inside
  have agree := unifyWithin_agreesFrom acyclic unified after (steps.acyclic acyclic) (.refl after)
  exact agree.eq_of_isKnown (afterInside.isKnown_apply expectedKnown)
    (afterInside.isKnown_apply foundKnown)

/-- Unification is sound: two types that were unified are solved to types that agree up to
placeholders, and to equal types if no placeholder was involved. This is so right after the call and
after any further calls, and where no type is absent the types can indeed be solved. -/
theorem unify_sound {subst after : Subst} {expected found : Ty} (acyclic : subst.Acyclic)
    (unified : subst.unify expected found = (after, none)) (calls : List (Ty × Ty)) :
    ((after.unifyEach calls).apply expected).Agrees ((after.unifyEach calls).apply found) ∧
    (subst.Within (·.isKnown = true) → expected.isKnown = true → found.isKnown = true →
      (after.unifyEach calls).apply expected = (after.unifyEach calls).apply found) ∧
    (subst.Within (·.isPresent = true) → expected.isPresent = true → found.isPresent = true →
      (∀ call ∈ calls, call.1.isPresent = true ∧ call.2.isPresent = true) →
      (after.unifyEach calls).applied? expected = some ((after.unifyEach calls).apply expected) ∧
      (after.unifyEach calls).applied? found = some ((after.unifyEach calls).apply found)) := by
  have afterEq : after = (subst.unify expected found).1 := by rw [unified]
  have afterAcyclic : after.Acyclic :=
    afterEq ▸ (acyclic.unify_steps expected found).acyclic acyclic
  have laterSteps : Steps (fun _ => True) after (after.unifyEach calls) :=
    unifyEach_steps (fun _ _ _ _ => trivial) afterAcyclic (fun _ _ _ => trivial)
      fun _ _ => ⟨trivial, trivial⟩
  have laterAcyclic := laterSteps.acyclic afterAcyclic
  have agree := unifyWithin_agreesFrom acyclic unified
  refine ⟨agree _ laterAcyclic laterSteps.extends, ?_, ?_⟩
  · intro inside expectedKnown foundKnown
    rw [← laterSteps.extends.apply_apply laterAcyclic expected,
      unify_apply_eq acyclic inside expectedKnown foundKnown unified,
      laterSteps.extends.apply_apply laterAcyclic found]
  · intro inside expectedPresent foundPresent callsPresent
    have afterInside : after.Within (·.isPresent = true) := afterEq ▸
      (unify_steps hereditary_isPresent acyclic inside expectedPresent foundPresent).within inside
    have present := unifyEach_steps hereditary_isPresent afterAcyclic afterInside callsPresent
    have laterInside := present.within afterInside
    exact ⟨if_pos (laterInside.applies expectedPresent), if_pos (laterInside.applies foundPresent)⟩

/-- A call that goes through an earlier binding, followed by one that fails and one that
succeeds. -/
theorem unify_sound_through_binding :
    (empty.bind 0 (.list (var 1))).Acyclic ∧
    (empty.bind 0 (.list (var 1))).unify (.tuple [var 0, var 2]) (.tuple [.list .int, var 1]) =
      (((empty.bind 0 (.list (var 1))).bind 1 .int).bind 2 .int, none) ∧
    ((((empty.bind 0 (.list (var 1))).bind 1 .int).bind 2 .int).unifyEach
        [(var 2, .bool), (var 3, .string)]).apply (.tuple [var 0, var 2]) =
      ((((empty.bind 0 (.list (var 1))).bind 1 .int).bind 2 .int).unifyEach
        [(var 2, .bool), (var 3, .string)]).apply (.tuple [.list .int, var 1]) := by
  have acyclic : (empty.bind 0 (.list (var 1))).Acyclic := acyclic_empty.bind rfl (by decide)
  have known : (empty.bind 0 (.list (var 1))).Within (·.isKnown = true) := by
    intro id ty bound
    rw [lookup_bind] at bound
    split at bound
    · cases bound
      rfl
    · cases bound
  exact ⟨acyclic, rfl, (unify_sound acyclic rfl _).2.1 known rfl rfl⟩

end Subst

end TraitCheck
