import TraitCheck.Proofs.Check.Steps
import TraitCheck.Proofs.Unification.Renaming

/-!
# Method calls are function calls

A method that was resolved to a function is called like that function with the receiver as its first
argument. A method call takes the variable of its result first and then those of the instance, a
function call the other way round. The permutation `rotation` relates them. It leaves all older
variables alone, so it carries the comparison of one call into that of the other.
-/

namespace TraitCheck

/-- Moves a variable behind the `count` variables that follow it, and these one place down. -/
def rotation (first : Int) (count : Nat) : Equiv.Perm Int where
  toFun id :=
    if id = first then first + count else if first < id ∧ id ≤ first + count then id - 1 else id
  invFun id :=
    if id = first + count then first else if first ≤ id ∧ id < first + count then id + 1 else id
  left_inv id := by
    dsimp only
    split_ifs <;> omega
  right_inv id := by
    dsimp only
    split_ifs <;> omega

section Rotation

variable {first id : Int} {count : Nat}

theorem rotation_first : rotation first count first = first + count := if_pos rfl

theorem rotation_offset {offset : Nat} (inside : offset < count) :
    rotation first count (first + 1 + offset) = first + offset := by
  simp only [rotation, Equiv.coe_fn_mk]
  split_ifs <;> omega

theorem rotation_of_outside (outside : id < first ∨ first + count < id) :
    rotation first count id = id := by
  simp only [rotation, Equiv.coe_fn_mk]
  split_ifs <;> omega

end Rotation

namespace Ty

/-- How many parameters a scheme has. -/
def quantified : Ty → Nat
  | .scheme names _ => names.length
  | _ => 0

theorem rename_symm (perm : Equiv.Perm VarId) (ty : Ty) :
    (ty.rename perm).rename perm.symm = ty := by
  rw [rename, bindVars_rename]
  simp only [Equiv.symm_apply_apply, bindVars_self]

theorem rename_substParams {perm : VarId → VarId} {ty : Ty} (fixed : ∀ id ∈ ty.vars, perm id = id)
    (args : List Ty) :
    (ty.substParams args).rename perm = ty.substParams (args.map (rename perm)) := by
  have anyParam : ∀ ty : Ty, ty.paramsWithin (fun _ => true) = true := by
    intro ty
    induction ty with
    | step ty ih => exact all_iff.mpr ⟨by cases ty <;> rfl, ih⟩
  rw [rename, substParams_eq_bindLeaves, substParams_eq_bindLeaves, bindVars_eq_bindLeaves,
    bindLeaves_bindLeaves]
  refine bindLeaves_congr (anyParam ty) (fun id occurs => congrArg var (fixed id occurs)) ?_
  intro index name _
  rw [← bindVars_eq_bindLeaves, bindVars_argOr]
  rfl

end Ty

namespace Supply

theorem next_instantiate (supply : Supply) (ty : Ty) :
    (supply.instantiate ty).2 = ⟨supply.next + ty.quantified⟩ := by
  cases ty <;> rfl

/-- An instance that is taken one variable later is the same up to a rotation. -/
theorem instantiate_rotation {next : Nat} {ty : Ty} (old : ∀ id ∈ ty.vars, id < next) :
    ((⟨next⟩ : Supply).instantiate ty).1 = ((⟨next + 1⟩ : Supply).instantiate ty).1.map
      (·.rename (rotation next ty.quantified)) := by
  have fixed : ∀ id ∈ ty.vars, rotation next ty.quantified id = id :=
    fun id occurs => rotation_of_outside (.inl (old id occurs))
  cases ty with
  | scheme names body =>
    have shifted : Checker.nextVars next names.length =
        (Checker.nextVars (next + 1) names.length).map
          (Ty.rename (rotation next names.length)) := by
      rw [Checker.nextVars, Checker.nextVars, List.map_map]
      refine List.map_congr_left fun offset inside => congrArg Ty.var ?_
      exact (rotation_offset (List.mem_range.mp inside)).symm
    have inner : ∀ id ∈ body.vars, rotation next names.length id = id := fixed
    change body.substParams? (Checker.nextVars next names.length) =
      (body.substParams? (Checker.nextVars (next + 1) names.length)).map _
    have sameLength : (Checker.nextVars next names.length).length =
        (Checker.nextVars (next + 1) names.length).length := by
      rw [Checker.length_nextVars, Checker.length_nextVars]
    cases early : body.substParams? (Checker.nextVars next names.length) with
    | some instance_ =>
      have late := Ty.substParams?_of_length sameLength.symm early
      rw [late, Option.map_some, Ty.quantified, Ty.rename_substParams inner, ← shifted]
      exact congrArg some (Ty.substParams?_eq_some early)
    | none =>
      cases late : body.substParams? (Checker.nextVars (next + 1) names.length) with
      | none => rfl
      | some instance_ => simp [Ty.substParams?_of_length sameLength late] at early
  | _ => exact (congrArg some (Ty.rename_eq_self fixed)).symm

end Supply

namespace Checker

variable {checker before after : Checker} {expected found result receiverTy self scheme : Ty}
  {resolution : Resolution} {name : String} {span place : Span} {args : List Ty} {decl : DefId}
  {perm : Equiv.Perm VarId}

theorem exists_typeText_rename {ty : Ty} {text : String}
    (fixed : checker.subst.rename perm = checker.subst) (known : checker.typeText? ty = some text) :
    ∃ text, checker.typeText? (ty.rename perm) = some text := by
  rw [typeText?] at known ⊢
  obtain ⟨solved, isSolved, rendered⟩ := Option.bind_eq_some_iff.mp known
  have renamed := Subst.applied?_rename perm checker.subst ty
  rw [fixed, isSolved] at renamed
  rw [renamed]
  simp only [Option.map_some, Option.bind_some, Ty.render?, Ty.complete?, Ty.isComplete_rename]
    at rendered ⊢
  split at rendered
  · next complete => exact ⟨_, by rw [if_pos complete, Option.map_some]⟩
  · cases rendered

theorem Runs.unify_rename (ran : Runs (unify expected found) checker none after)
    (fixed : checker.subst.rename perm = checker.subst) :
    ∃ trace, Runs (unify (expected.rename perm) (found.rename perm)) checker none
      { after with subst := after.subst.rename perm, trace } := by
  obtain ⟨unified, _, rfl⟩ := ran.of_unify
  have renamed := Subst.unify_rename perm checker.subst expected found
  rw [fixed, Subst.Outcome.rename, ← unified] at renamed
  refine exists_runs_unify (fun traced => ?_) renamed
  obtain ⟨_, composed⟩ := ran.comparing_of_unify traced
  obtain ⟨_, _, first, second, _, _⟩ := runs_comparing.mp composed
  obtain ⟨_, first⟩ := exists_typeText_rename fixed first
  obtain ⟨_, second⟩ := exists_typeText_rename fixed second
  exact ⟨_, runs_comparing.mpr ⟨_, _, first, second, rfl, rfl⟩⟩

theorem inferResolved_eq (resolution : Resolution) (self : Ty) (name : String) (span : Span)
    (receiverTy : Ty) (args : List Ty) :
    inferResolved resolution self name span receiverTy args = (do
      let result ← fresh
      let declared ← ofComplete (resolution.ty? self)
      let methodTy ← instantiate declared
      compare methodTy (.fn (receiverTy :: args) result)
        (reportResolved methodTy (.fn (receiverTy :: args) result) name span args)
      return result) := by
  unfold inferResolved compare
  simp only [bind_assoc]
  refine congrArg _ (funext fun result => congrArg _ (funext fun declared => congrArg _
    (funext fun methodTy => congrArg _ (funext fun failure => ?_))))
  cases failure <;> rfl

theorem not_runs_reportResolved {methodTy wanted : Ty} {error : UnifyError} {done : Unit} :
    ¬Runs (reportResolved methodTy wanted name span args error) before done after := by
  intro ran
  obtain ⟨head, _, _, reported⟩ := Runs.of_bind
    (fun head _ _ _ => by split <;> infer_instance) ran
  split at reported
  · split at reported
    · exact not_runs_report reported
    · exact not_runs_reportMismatch reported
  · exact not_runs_reportMismatch reported

theorem runs_inferResolved (declared : resolution.ty? self = some scheme) :
    Runs (inferResolved resolution self name span receiverTy args) before result after ↔
      ∃ methodTy, ((⟨before.supply.next + 1⟩ : Supply).instantiate scheme).1 = some methodTy ∧
        result = .var before.supply.next ∧
        Runs (unify methodTy (.fn (receiverTy :: args) result))
          { before with supply := ⟨before.supply.next + 1 + scheme.quantified⟩ } none after := by
  simp only [inferResolved_eq, runs_bind, runs_fresh, runs_ofComplete, declared, instantiate,
    runs_withSupply, runs_pure, Supply.next_instantiate,
    runs_compare fun _ _ _ _ => not_runs_reportResolved, Option.some.injEq]
  constructor
  · rintro ⟨_, _, ⟨rfl, rfl⟩, _, _, ⟨rfl, rfl⟩, methodTy, _, ⟨made, rfl⟩, _, _, compared, rfl, rfl⟩
    exact ⟨methodTy, made, rfl, compared⟩
  · rintro ⟨methodTy, made, rfl, compared⟩
    exact ⟨_, _, ⟨rfl, rfl⟩, _, _, ⟨rfl, rfl⟩, methodTy, _, ⟨made, rfl⟩, (), _, compared, rfl, rfl⟩

instance : Along Grew (inferGlobal decl span) := by
  have : ∀ checker : Checker, Along Grew (match checker.globals.find? decl with
      | some ty => instantiate ty
      | none => do
        if checker.structs.contains decl then
          report (.error .unboundVariable span
            ("expected value, found struct " ++ checker.itemName decl))
        else reportUnbound span ("value " ++ checker.itemName decl)
        fresh) := by
    intro checker
    split <;> infer_instance
  unfold inferGlobal
  infer_instance

/-- Calls a declared function with arguments of the given types. -/
def callGlobal (decl : DefId) (place span : Span) (args : List Ty) : CheckM Ty := do
  inferCall (.globalRef decl place) span (← inferGlobal decl place) args

theorem runs_callGlobal (declared : before.globals.find? decl = some scheme) :
    Runs (callGlobal decl place span args) before result after ↔
      ∃ calleeTy, (before.supply.instantiate scheme).1 = some calleeTy ∧
        result = .var (before.supply.next + scheme.quantified) ∧
        Runs (unify calleeTy (.fn args result))
          { before with supply := ⟨before.supply.next + scheme.quantified + 1⟩ } none after := by
  have looked : ∀ {ty middle}, Runs (inferGlobal decl place) before ty middle ↔
      Runs (instantiate scheme) before ty middle := by
    have found : inferGlobal decl place before = instantiate scheme before := by
      simp [inferGlobal, declared, bind, EStateM.bind, get, getThe, MonadStateOf.get, EStateM.get]
    intro ty middle
    exact ⟨fun ran => ⟨found ▸ ran.ok, ran.quiet⟩, fun ran => ⟨found ▸ ran.ok, ran.quiet⟩⟩
  simp only [callGlobal, runs_bind, looked, instantiate, runs_withSupply, Supply.next_instantiate,
    runs_inferCall]
  constructor
  · rintro ⟨calleeTy, _, ⟨made, rfl⟩, rfl, compared⟩
    exact ⟨calleeTy, made, rfl, compared⟩
  · rintro ⟨calleeTy, made, rfl, compared⟩
    exact ⟨calleeTy, _, ⟨made, rfl⟩, rfl, compared⟩

/-- A call of a method succeeds exactly if the call of the function that it was resolved to does,
and then both do the same, with the created variables in another order. -/
theorem inferResolved_agrees_callGlobal {method : ImplMethod}
    (keys : ∀ id ∈ checker.subst.vars.keys, id < checker.supply.next)
    (values : ∀ ty ∈ checker.subst.vars.values, ∀ id ∈ ty.vars, id < checker.supply.next)
    (provided : resolution.method? = some method)
    (linked : checker.globals.find? method.function = some method.ty)
    (signature : ∀ id ∈ method.ty.vars, id < checker.supply.next)
    (operands : ∀ ty ∈ receiverTy :: args, ∀ id ∈ ty.vars,
      id < checker.supply.next ∨ checker.supply.next + method.ty.quantified < id) :
    ((∃ result after,
        Runs (inferResolved resolution self name span receiverTy args) checker result after) ↔
      ∃ result after,
        Runs (callGlobal method.function place span (receiverTy :: args)) checker result after) ∧
    ∀ result after result' after',
      Runs (inferResolved resolution self name span receiverTy args) checker result after →
      Runs (callGlobal method.function place span (receiverTy :: args)) checker result' after' →
      ∃ perm : Equiv.Perm VarId,
        (∀ id : VarId, id < checker.supply.next ∨
          checker.supply.next + method.ty.quantified < id → perm id = id) ∧
        result' = result.rename perm ∧ after'.subst = after.subst.rename perm ∧
        after'.supply = after.supply := by
  have declared : resolution.ty? self = some method.ty := by
    cases resolution <;> cases provided <;> rfl
  have moved := Supply.instantiate_rotation signature
  have elsewhere : ∀ id : VarId, id < checker.supply.next ∨
      checker.supply.next + method.ty.quantified < id →
      rotation checker.supply.next method.ty.quantified id = id := fun id => rotation_of_outside
  have swapped : rotation checker.supply.next method.ty.quantified checker.supply.next =
      checker.supply.next + method.ty.quantified := rotation_first
  generalize rotation checker.supply.next method.ty.quantified = perm at moved elsewhere swapped
  have wanted : (Ty.fn (receiverTy :: args) (.var checker.supply.next)).rename perm =
      .fn (receiverTy :: args) (.var (checker.supply.next + method.ty.quantified)) := by
    have same : (receiverTy :: args).map (Ty.rename perm) = receiverTy :: args :=
      (List.map_congr_left fun ty member => Ty.rename_eq_self fun id occurs =>
        elsewhere id (operands ty member id occurs)).trans (List.map_id _)
    rw [Ty.rename, Ty.bindVars_fn]
    exact congrArg₂ Ty.fn same (congrArg Ty.var swapped)
  have fixed : ∀ perm : Equiv.Perm VarId, (∀ id : VarId, id < checker.supply.next → perm id = id) →
      checker.subst.rename perm = checker.subst := fun perm still =>
    Subst.rename_eq_self (fun id member => still id (keys id member))
      fun ty member id occurs => still id (values ty member id occurs)
  have forward : ∀ result after,
      Runs (inferResolved resolution self name span receiverTy args) checker result after →
      ∃ trace, Runs (callGlobal method.function place span (receiverTy :: args)) checker
        (result.rename perm) { after with subst := after.subst.rename perm, trace } := by
    intro result after ran
    obtain ⟨methodTy, made, rfl, compared⟩ := (runs_inferResolved declared).mp ran
    obtain ⟨trace, compared⟩ := compared.unify_rename
      (fixed perm fun id old => elsewhere id (.inl old))
    rw [wanted, Nat.add_right_comm] at compared
    refine ⟨trace, (runs_callGlobal linked).mpr ⟨methodTy.rename perm, ?_, ?_⟩⟩
    · rw [moved, made, Option.map_some]
    · rw [Ty.rename_var, swapped]
      exact ⟨rfl, compared⟩
  refine ⟨⟨?_, ?_⟩, ?_⟩
  · rintro ⟨result, after, ran⟩
    obtain ⟨trace, called⟩ := forward result after ran
    exact ⟨_, _, called⟩
  · rintro ⟨result, after, called⟩
    obtain ⟨calleeTy, made, rfl, compared⟩ := (runs_callGlobal linked).mp called
    rw [moved, Option.map_eq_some_iff] at made
    obtain ⟨methodTy, made, rfl⟩ := made
    rw [← wanted] at compared
    obtain ⟨trace, compared⟩ := compared.unify_rename (fixed perm.symm fun id old =>
      perm.symm_apply_eq.mpr (elsewhere id (.inl old)).symm)
    rw [Nat.add_right_comm, Ty.rename_symm, Ty.rename_symm] at compared
    exact ⟨_, _, (runs_inferResolved declared).mpr ⟨methodTy, made, rfl, compared⟩⟩
  · intro result after result' after' ran called
    obtain ⟨trace, called'⟩ := forward result after ran
    obtain ⟨rfl, rfl⟩ := called.unique called'
    exact ⟨perm, elsewhere, rfl, rfl, rfl⟩

/-- A method for choosing between two values of a type. -/
def choice : ImplMethod :=
  { name := "or", function := ⟨0⟩, span := .empty
    ty := .scheme ["T"] (.fn [.param 0 "T", .param 0 "T"] (.param 0 "T")) }

theorem inferResolved_agrees_callGlobal_choice :
    ∃ before result after result' after', ∃ perm : Equiv.Perm VarId,
      Runs (inferResolved (.inherent default choice) .int "or" .empty .int [.var 0])
        before result after ∧
      Runs (callGlobal ⟨0⟩ .empty .empty [.int, .var 0]) before result' after' ∧
      result' = result.rename perm ∧ after'.subst = after.subst.rename perm := by
  let before : Checker :=
    { (default : Checker) with supply := ⟨1⟩, globals := ⟨[(⟨0⟩, choice.ty)]⟩ }
  have ran : Runs (inferResolved (.inherent default choice) .int "or" .empty .int [.var 0])
      before (.var 1) _ := ⟨rfl, rfl⟩
  obtain ⟨succeeds, agree⟩ := @inferResolved_agrees_callGlobal before .int .int
    (.inherent default choice) "or" .empty .empty [.var 0] choice (by decide) (by decide) rfl rfl
    (by decide) (by decide)
  obtain ⟨result', after', called⟩ := succeeds.mp ⟨_, _, ran⟩
  obtain ⟨perm, _, same, sameSubst, _⟩ := agree _ _ _ _ ran called
  exact ⟨before, _, _, result', after', perm, ran, called, same, sameSubst⟩

end Checker

end TraitCheck
