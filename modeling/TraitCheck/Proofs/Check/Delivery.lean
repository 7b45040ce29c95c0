import TraitCheck.Proofs.Check.Invariant
import TraitCheck.Proofs.Presence
import TraitCheck.Proofs.Trait.Scans

/-!
# Steps that always give a result

A step `Delivers` if it gives a good result from every intact state and leaves the state intact: it
never stops at a missing node, a missing parameter or a type that is not complete. Under a lenient
regime it may stop at a missing node or parameter, but still at no type. None of this speaks about
one state in particular, so steps are put together without regard to the states between them.
-/

namespace TraitCheck

open Ty (Present)
open Std.Do

set_option mvcgen.warning false

/-- The diagnostic is not about the check itself. -/
def Diagnostic.Ordinary (diagnostic : Diagnostic) : Prop :=
  ¬"internal checker error".toList <+: diagnostic.message.toList

section Ordinary

variable {diagnostic : Diagnostic} {code : Code} {span : Span} {message : String}

@[simp]
theorem Diagnostic.ordinary_error : (Diagnostic.error code span message).Ordinary ↔
    ¬"internal checker error".toList <+: message.toList :=
  Iff.rfl

@[simp]
theorem Diagnostic.ordinary_warning : (Diagnostic.warning code span message).Ordinary ↔
    ¬"internal checker error".toList <+: message.toList :=
  Iff.rfl

@[simp, grind =]
theorem Diagnostic.ordinary_withLabel :
    (diagnostic.withLabel span message).Ordinary ↔ diagnostic.Ordinary :=
  Iff.rfl

@[simp, grind =]
theorem Diagnostic.ordinary_withPrimaryMessage :
    (diagnostic.withPrimaryMessage message).Ordinary ↔ diagnostic.Ordinary :=
  Iff.rfl

@[simp, grind =]
theorem Diagnostic.ordinary_withNote :
    (diagnostic.withNote message).Ordinary ↔ diagnostic.Ordinary :=
  Iff.rfl

@[simp, grind =]
theorem Diagnostic.ordinary_withHelp :
    (diagnostic.withHelp message).Ordinary ↔ diagnostic.Ordinary :=
  Iff.rfl

end Ordinary

theorem Log.mem_add {log : Log} {added diagnostic : Diagnostic}
    (member : diagnostic ∈ (log.add added).items) :
    diagnostic ∈ log.items ∨ diagnostic = added := by
  unfold Log.add at member
  dsimp only at member
  split at member
  · split at member
    · exact .inl member
    · simpa using member
  · simpa using member

namespace Checker

/-- What a check of complete syntax relies on, given the functions of the module. -/
structure Intact (functions : List FunctionItem) (checker : Checker) : Prop where
  acyclic : checker.subst.Acyclic
  bound : checker.subst.Within Present
  params : ∀ ty ∈ checker.subst.params.values, ty.Present
  locals : ∀ info ∈ checker.locals.values, info.ty.Present
  declared : ∀ ty ∈ checker.declaredTypes, ty.Present
  aliases : ∀ info ∈ checker.aliases.values, info.target.Present
  indexed : checker.registry.Indexed
  arity : ∀ item ∈ functions, ∀ signature, checker.signatures.find? item.id = some signature →
    signature.params.length = item.params.length
  ordinary : ∀ diagnostic ∈ checker.log.items, diagnostic.Ordinary

/-- What is asked of the syntax that is checked. -/
structure Regime where
  /-- The functions that have as many parameters as their signatures. -/
  functions : List FunctionItem
  /-- Whether nodes and parameters may be missing. -/
  lenient : Bool

/-- From an intact state a step comes to a good result and leaves the state intact, or it stops
where that is allowed. -/
abbrev Delivers (regime : Regime) {α : Type} (step : CheckM α) (good : α → Prop) : Prop :=
  ⦃fun checker => ⌜Intact regime.functions checker⌝⦄ step
  ⦃post⟨fun value checker => ⌜good value ∧ Intact regime.functions checker⌝,
    fun fault _ => ⌜regime.lenient = true ∧ fault ≠ .incompleteType⌝⟩⦄

section Rules

variable {regime : Regime} {α β : Type} {step : CheckM α} {good : α → Prop} {list : List β}

theorem delivers_iff : Delivers regime step good ↔ ∀ before, Intact regime.functions before →
    match step before with
    | .ok value after => good value ∧ Intact regime.functions after
    | .error fault _ => regime.lenient = true ∧ fault ≠ .incompleteType := by
  refine forall_congr' fun before => imp_congr_right fun _ => ?_
  cases ran : step before <;> simp [wp, PredTrans.apply, EStateM.run, ran]

theorem delivers_pure {value : α} (holds : good value) : Delivers regime (pure value) good := by
  mvcgen

theorem delivers_bind {next : α → CheckM β} {good' : β → Prop}
    (first : Delivers regime step good)
    (second : ∀ value, good value → Delivers regime (next value) good') :
    Delivers regime (step >>= next) good' := by
  mvcgen [first, second] with grind

theorem delivers_modifyGet {change : Checker → α × Checker}
    (keeps : ∀ before, Intact regime.functions before →
      good (change before).1 ∧ Intact regime.functions (change before).2) :
    Delivers regime (modifyGet change) good :=
  delivers_iff.mpr keeps

theorem delivers_modify {change : Checker → Checker}
    (keeps : ∀ before, Intact regime.functions before → Intact regime.functions (change before)) :
    Delivers regime (modify change) fun _ => True :=
  delivers_iff.mpr fun before intact => ⟨trivial, keeps before intact⟩

@[spec]
theorem delivers_forM {each : β → CheckM Unit}
    (delivers : ∀ value ∈ list, Delivers regime (each value) fun _ => True) :
    Delivers regime (list.forM each) fun _ => True := by
  rw [List.forM_eq_forM]
  induction list with
  | nil => mvcgen [List.forM_nil]
  | cons value rest ih =>
    obtain ⟨first, others⟩ := List.forall_mem_cons.mp delivers
    have ih := ih others
    mvcgen [List.forM_cons, first, ih] with grind

@[spec]
theorem delivers_mapM {each : β → CheckM α}
    (delivers : ∀ value ∈ list, Delivers regime (each value) good) :
    Delivers regime (list.mapM each) fun values =>
      values.length = list.length ∧ ∀ value ∈ values, good value := by
  induction list with
  | nil =>
    mvcgen [List.mapM_nil]
    grind
  | cons value rest ih =>
    obtain ⟨first, others⟩ := List.forall_mem_cons.mp delivers
    have ih := ih others
    mvcgen [List.mapM_cons, first, ih] with grind

end Rules

variable {regime : Regime} {α : Type} {ty expected found : Ty} {span : Span} {checker : Checker}
  {functions : List FunctionItem} {id : LocalId} {what : String}

@[spec]
theorem delivers_ofComplete {option : Option α} (complete : option.isSome = true) :
    Delivers regime (ofComplete option) fun value => option = some value := by
  mvcgen [ofComplete] with grind

@[spec]
theorem delivers_need {part : Option α} (has : regime.lenient = false → part.isSome = true) :
    Delivers regime (need part) fun _ => True := by
  mvcgen [need] with grind

@[spec]
theorem delivers_report {diagnostic : Diagnostic} (ordinary : diagnostic.Ordinary) :
    Delivers regime (report diagnostic) fun _ => True := by
  refine delivers_modify fun before intact => { intact with ordinary := fun other member => ?_ }
  rcases Log.mem_add member with old | rfl
  · exact intact.ordinary other old
  · exact ordinary

@[spec]
theorem delivers_solved (present : ty.Present) : Delivers regime (solved ty) Present := by
  mvcgen [solved] with grind [Intact.bound, Subst.Within.applied?, Subst.Within.isPresent_apply]

@[spec]
theorem delivers_shallow (present : ty.Present) : Delivers regime (shallow ty) Present := by
  mvcgen [shallow] with grind [Intact.bound, Subst.Within.shallow?, Subst.Within.shallow]

@[spec]
theorem delivers_applyParams (present : ty.Present) : Delivers regime (applyParams ty) Present := by
  mvcgen [applyParams] with grind [Intact.bound, Intact.params, Subst.Within.applyParams?,
    Subst.Within.present_applyParams]

theorem Intact.typeText? (intact : Intact functions checker) (present : ty.Present) :
    checker.typeText? ty = some ((checker.subst.apply ty).render checker.nameOf) := by
  rw [Checker.typeText?, intact.bound.applied? present, Option.bind_some, Ty.render?,
    Ty.Present.complete? (intact.bound.isPresent_apply present), Option.map_some]

@[spec]
theorem delivers_typeText (present : ty.Present) :
    Delivers regime (typeText ty) fun _ => True := by
  mvcgen [typeText] with grind [Intact.typeText?]

@[spec]
theorem delivers_traceStep {line : CheckM String}
    (delivers : Delivers regime line fun _ => True) :
    Delivers regime (traceStep line) fun _ => True := by
  mvcgen [traceStep, delivers]
  rename_i intact _
  exact ⟨trivial, { intact.2 with }⟩

@[spec]
theorem delivers_fresh : Delivers regime fresh Present :=
  delivers_modifyGet fun _ intact => ⟨Ty.present_var _, { intact with }⟩

@[spec]
theorem delivers_freshList (count : Nat) :
    Delivers regime (freshList count) fun types => ∀ ty ∈ types, ty.Present :=
  delivers_modifyGet fun _ intact => ⟨Supply.present_freshList count _, { intact with }⟩

@[spec]
theorem delivers_withSupply {take : Supply → Option α × Supply} {good : α → Prop}
    (yields : ∀ supply, Yields good (take supply)) : Delivers regime (withSupply take) good := by
  refine delivers_iff.mpr fun before intact => ?_
  obtain ⟨value, supply, taken, holds⟩ := yields before.supply
  have ran : withSupply take before = .ok value { before with supply } := by
    refine bind_eq_ok.mpr ⟨some value, { before with supply }, ?_, rfl⟩
    change EStateM.Result.ok (take before.supply).1
      { before with supply := (take before.supply).2 } = _
    rw [taken]
  rw [ran]
  exact ⟨holds, { intact with }⟩

@[spec]
theorem delivers_instantiate (present : ty.Present) : Delivers regime (instantiate ty) Present :=
  delivers_withSupply fun _ => Supply.yields_instantiate present

@[spec]
theorem delivers_bindLocal {name : String} {used : Bool} (present : ty.Present) :
    Delivers regime (bindLocal id name ty span used) fun _ => True := by
  refine delivers_modify fun before intact => { intact with locals := fun info member => ?_ }
  rcases Locals.mem_values_bind member with rfl | old
  · exact present
  · exact intact.locals info old

@[spec]
theorem delivers_removeLocal : Delivers regime (removeLocal id) fun _ => True := by
  refine delivers_modify fun before intact => { intact with locals := fun info member => ?_ }
  exact intact.locals info (Locals.mem_values_remove member)

@[spec]
theorem delivers_expandAliases (present : ty.Present) :
    Delivers regime (expandAliases ty) Present := by
  mvcgen [expandAliases] with grind [Supply.yields_expand, Intact.aliases]

@[spec]
theorem delivers_resolveType (written : ty.isAbsent = true ∨ ty.Present) :
    Delivers regime (resolveType ty) Present := by
  mvcgen [resolveType] with grind [Supply.yields_resolve]

theorem Intact.unify (intact : Intact functions checker) (presentExpected : expected.Present)
    (presentFound : found.Present) :
    (∀ error, (checker.subst.unify expected found).2 = some error → Subst.Genuine error) ∧
      Intact functions { checker with subst := (checker.subst.unify expected found).1 } := by
  have steps := Subst.unify_steps Subst.hereditary_isPresent intact.acyclic intact.bound
    presentExpected presentFound
  refine ⟨fun error failed => ?_, { intact with
    acyclic := steps.acyclic intact.acyclic
    bound := steps.within intact.bound
    params := steps.params_eq ▸ intact.params }⟩
  exact Subst.genuine_of_unifyWithin intact.acyclic intact.bound presentExpected presentFound
    (Prod.ext rfl failed)

@[spec]
theorem delivers_unify (presentExpected : expected.Present) (presentFound : found.Present) :
    Delivers regime (unify expected found) fun failure =>
      ∀ error, failure = some error → Subst.Genuine error := by
  mvcgen [Checker.unify] with grind [→ Intact.unify, Subst.Genuine.fault]

@[grind .]
theorem ordinary_differing (error : UnifyError) (whole inner : String) (span : Span) :
    (differing error whole inner span).Ordinary := by
  unfold differing
  dsimp only
  split
  case h_4 | h_5 | h_6 => split <;> simp
  all_goals simp

@[spec]
theorem delivers_mismatch {error : UnifyError} (genuine : Subst.Genuine error)
    (presentExpected : expected.Present) (presentFound : found.Present) :
    Delivers regime (mismatch error expected found span) Diagnostic.Ordinary := by
  mvcgen [mismatch]
  all_goals first | grind [Subst.Genuine.expected, Subst.Genuine.found] | simp_all

@[spec]
theorem delivers_expect (presentExpected : expected.Present) (presentFound : found.Present) :
    Delivers regime (expect expected found span) fun _ => True := by
  mvcgen [expect, reportMismatch] with grind

@[spec high]
theorem delivers_reportUnbound : Delivers regime (reportUnbound span what) fun _ => True :=
  delivers_report (by simp)

@[spec high]
theorem delivers_reportUnknownField {field : String} (present : ty.Present) :
    Delivers regime (reportUnknownField span field ty) fun _ => True := by
  mvcgen [reportUnknownField]
  all_goals first | grind | simp

@[spec high]
theorem delivers_reportAmbiguous : Delivers regime (reportAmbiguous span what) fun _ => True :=
  delivers_report (by simp)

@[spec high]
theorem delivers_reportUnsupported : Delivers regime (reportUnsupported span) fun _ => True :=
  delivers_report (by simp)

end Checker

end TraitCheck
