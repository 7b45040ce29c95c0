import TraitCheck.Proofs.DamasMilner
import TraitCheck.Proofs.Runs

/-!
# Steps of inference

What a quiet run does at each step that inference is made of, as an equivalence: how variables are
taken from the supply, how names are bound and looked up, how calls are compared, and how the type
of a `let` is generalised.
-/

namespace TraitCheck

variable {ty calleeTy : Ty} {before : Checker} {params : List Param} {callee : Expr} {done : Unit}
  {args : List Ty}
variable {span : Span} {after : Checker} {id : LocalId} {name : String} {types : List Ty}

namespace Checker

variable {α : Type} {rel : Checker → Checker → Prop} [Steady rel] {ids : List VarId}

instance [Solving rel] : Along rel fresh := ⟨fun before => Solving.take before _⟩

instance [Solving rel] (count : Nat) : Along rel (freshList count) :=
  ⟨fun before => Solving.take before _⟩

@[simp]
theorem runs_fresh :
    Runs fresh before ty after ↔
      ty = .var before.supply.next ∧
        after = { before with supply := ⟨before.supply.next + 1⟩ } := by
  rw [fresh, runs_modifyGet fun _ => rfl, Prod.mk.injEq]
  rfl

instance [Solving rel] (take : Supply → Option α × Supply) :
    Along rel (modifyGet fun checker : Checker =>
      ((take checker.supply).1, { checker with supply := (take checker.supply).2 }) : CheckM _) :=
  ⟨fun before => Solving.take before _⟩

instance [Solving rel] (take : Supply → Option α × Supply) : Along rel (withSupply take) := by
  unfold withSupply
  infer_instance

@[simp]
theorem runs_withSupply {take : Supply → Option α × Supply} {result : α} :
    Runs (withSupply take) before result after ↔
      (take before.supply).1 = some result ∧
        after = { before with supply := (take before.supply).2 } := by
  rw [withSupply, runs_bind]
  constructor
  · rintro ⟨taken, middle, changed, complete⟩
    cases changed.ok
    exact runs_ofComplete.mp complete
  · rintro ⟨taken, rfl⟩
    exact ⟨_, _, ⟨rfl, rfl⟩, runs_ofComplete.mpr ⟨taken, rfl⟩⟩

instance [Solving rel] : Along rel (instantiate ty) := by
  unfold instantiate
  infer_instance

instance [Naming rel] (used : Bool) : Along rel (bindLocal id name ty span used) :=
  ⟨fun before => Naming.name before _⟩

@[simp]
theorem runs_bindLocal {used : Bool} :
    Runs (bindLocal id name ty span used) before done after ↔
      after = { before with locals := before.locals.bind id ⟨ty, name, span, used⟩ } := by
  constructor
  · rintro ⟨⟨⟩, _⟩
    rfl
  · rintro rfl
    exact ⟨rfl, rfl⟩

/-- The types of the locals. -/
def env (checker : Checker) : Env := checker.locals.toTable.mapValues (·.ty)

def markUsed (id : LocalId) : CheckM Unit :=
  modify fun checker => { checker with locals := checker.locals.refer id }

instance [Naming rel] : Along rel (markUsed id) := ⟨fun before => Naming.name before _⟩

/-- What a reference does, given what is known about its name. -/
def referTo (id : LocalId) (span : Span) : Option LocalInfo → CheckM Ty
  | none => do
    reportUnbound span ("value " ++ id.text)
    fresh
  | some info => do
    markUsed id
    instantiate info.ty

instance (found : Option LocalInfo) : Along Grew (referTo id span found) := by
  cases found <;> (unfold referTo; infer_instance)

theorem inferLocal_eq (id : LocalId) (span : Span) :
    inferLocal id span = (do referTo id span ((← get).locals.find? id)) := by
  unfold inferLocal
  refine congrArg _ (funext fun checker => ?_)
  cases checker.locals.find? id <;> rfl

/-- A reference is quiet if its name is known. It marks the name as used, which is no change to its
type. -/
theorem runs_inferLocal :
    Runs (inferLocal id span) before ty after ↔
      ∃ info, before.locals.find? id = some info ∧
        (before.supply.instantiate info.ty).1 = some ty ∧
        after = { before with
          locals := before.locals.refer id
          supply := (before.supply.instantiate info.ty).2 } := by
  simp only [inferLocal_eq, runs_bind, runs_get]
  constructor
  · rintro ⟨_, _, ⟨isBefore, isMiddle⟩, ran⟩
    rw [isBefore, isMiddle] at ran
    rcases found : before.locals.find? id with _ | info
    · simp [found, referTo, reportUnbound, runs_bind] at ran
    · rw [found, referTo, runs_bind] at ran
      obtain ⟨_, _, marked, ran⟩ := ran
      cases marked.ok
      obtain ⟨taken, rfl⟩ := runs_withSupply.mp ran
      exact ⟨info, rfl, taken, rfl⟩
  · rintro ⟨info, found, taken, rfl⟩
    refine ⟨before, before, ⟨rfl, rfl⟩, ?_⟩
    rw [found, referTo, runs_bind]
    exact ⟨(), _, ⟨rfl, rfl⟩, runs_withSupply.mpr ⟨taken, rfl⟩⟩

theorem env_refer (locals : Locals) (id : LocalId) :
    (locals.refer id).toTable.mapValues (·.ty) = locals.toTable.mapValues (·.ty) := by
  rw [Locals.toTable_refer, Table.modify]
  split
  · rfl
  · next info found =>
      rw [Table.mapValues_insert]
      exact Table.insert_of_find? (by rw [Table.find?_mapValues, found]; rfl)

theorem env_bind (locals : Locals) (id : LocalId) (info : LocalInfo) :
    (locals.bind id info).toTable.mapValues (·.ty) =
      (locals.toTable.mapValues (·.ty)).insert id info.ty := by
  rw [Locals.toTable_bind, Table.mapValues_insert]

instance [Solving rel] : Along rel (resolveType ty) := by
  unfold resolveType expandAliases applyParams
  infer_instance

theorem runs_resolveType {result : Ty} (open_ : ty.isDeclared = false) :
    Runs (resolveType ty) before result after ↔ Runs fresh before result after := by
  cases ty with
  | absent => rfl
  | unknown =>
    have sound : ∀ limit, before.subst.isSound limit .unknown = true := by
      rintro (_ | limit) <;> rfl
    have replaced : before.subst.applyParams? .unknown = some .unknown := by
      refine if_pos ?_
      rw [Bool.and_eq_true, Subst.appliesParams, Subst.applies]
      exact ⟨Bool.or_true _, (Bool.or_eq_true _ _).mpr (.inr (sound _))⟩
    have expanded : ∀ supply, Alias.expand before.aliases .unknown supply =
        (some .unknown, supply) := by
      intro supply
      unfold Alias.expand
      split <;> rfl
    have ran : Runs (resolveType .unknown) before (.var before.supply.next)
        { before with supply := ⟨before.supply.next + 1⟩ } := by
      simp only [resolveType, Ty.isAbsent, Bool.false_eq_true, ↓reduceIte, applyParams,
        expandAliases, runs_bind, runs_get, runs_ofComplete, runs_withSupply]
      refine ⟨.unknown, before, ⟨before, before, ⟨rfl, rfl⟩, replaced, rfl⟩, .unknown, before,
        ⟨before, before, ⟨rfl, rfl⟩, ?_, ?_⟩, rfl, rfl⟩
      · rw [expanded]
      · rw [expanded]
    rw [runs_fresh]
    constructor
    · exact fun other => other.unique ran
    · rintro ⟨rfl, rfl⟩
      exact ran
  | _ => cases open_

instance : Along Grew (bindParams params) := by
  induction params with
  | nil => exact inferInstanceAs (Along Grew (pure []))
  | cons param rest ih =>
    unfold bindParams
    infer_instance

/-- Variables with consecutive numbers. -/
def nextVars (next count : Nat) : List Ty := (List.range count).map fun (offset : Nat) =>
  .var (next + offset)

theorem nextVars_succ (next count : Nat) :
    nextVars next (count + 1) = .var next :: nextVars (next + 1) count := by
  simp only [nextVars, List.range_succ_eq_map, List.map_cons, List.map_map, Function.comp_def]
  congr 1
  refine List.map_congr_left fun offset _ => ?_
  congr 1
  change (next : Int) + ((offset + 1 : Nat) : Int) = ((next + 1 : Nat) : Int) + (offset : Int)
  omega

@[simp]
theorem length_nextVars (next count : Nat) : (nextVars next count).length = count := by
  simp [nextVars]

theorem Runs.of_bindParams (open_ : ∀ param ∈ params, param.ty.isDeclared = false)
    (ran : Runs (bindParams params) before types after) :
    types = nextVars before.supply.next params.length ∧
      ∃ locals, after = { before with locals, supply := ⟨before.supply.next + params.length⟩ } ∧
        after.env = before.env.bindAll params types := by
  induction params generalizing before types with
  | nil =>
    obtain ⟨rfl, rfl⟩ := runs_pure.mp ran
    exact ⟨rfl, _, rfl, rfl⟩
  | cons param rest ih =>
    simp only [bindParams, runs_bind, runs_pure,
      runs_resolveType (open_ param List.mem_cons_self), runs_fresh, runs_bindLocal] at ran
    obtain ⟨_, _, ⟨rfl, rfl⟩, _, _, rfl, others, _, ranRest, rfl, rfl⟩ := ran
    obtain ⟨rfl, locals, rfl, sameEnv⟩ :=
      ih (fun param member => open_ param (List.mem_cons_of_mem _ member)) ranRest
    refine ⟨(nextVars_succ _ _).symm, locals, ?_, ?_⟩
    · simp only [List.length_cons]
      congr 2
      omega
    · rw [sameEnv, Env.bindAll]
      congr 1
      exact env_bind _ _ _

theorem exists_runs_bindParams (open_ : ∀ param ∈ params, param.ty.isDeclared = false)
    (before : Checker) : ∃ types after, Runs (bindParams params) before types after := by
  induction params generalizing before with
  | nil => exact ⟨[], before, runs_pure.mpr ⟨rfl, rfl⟩⟩
  | cons param rest ih =>
    obtain ⟨types, after, ranRest⟩ :=
      ih (fun param member => open_ param (List.mem_cons_of_mem _ member))
        { before with
          supply := ⟨before.supply.next + 1⟩
          locals := before.locals.bind param.id
            ⟨.var before.supply.next, param.name, param.span, true⟩ }
    refine ⟨.var before.supply.next :: types, after, ?_⟩
    simp only [bindParams, runs_bind, runs_pure,
      runs_resolveType (open_ param List.mem_cons_self), runs_fresh, runs_bindLocal]
    exact ⟨_, _, ⟨rfl, rfl⟩, (), _, rfl, types, after, ranRest, rfl, rfl⟩

instance [Naming rel] : Along rel (removeLocal id) := ⟨fun before => Naming.name before _⟩

theorem runs_removeAll :
    Runs (params.forM fun param => removeLocal param.id) before done after ↔
      after = { before with
        locals := params.foldl (fun locals param => locals.remove param.id) before.locals } := by
  induction params generalizing before with
  | nil =>
    rw [List.forM, runs_pure]
    simp
  | cons param rest ih =>
    rw [List.forM, runs_bind]
    simp only [ih, List.foldl_cons]
    constructor
    · rintro ⟨_, middle, changed, rfl⟩
      cases changed.ok
      rfl
    · rintro rfl
      exact ⟨(), _, ⟨rfl, rfl⟩, rfl⟩

theorem env_removeAll (locals : Locals) (params : List Param) :
    (params.foldl (fun locals param => locals.remove param.id) locals).toTable.mapValues (·.ty) =
      Env.eraseAll (locals.toTable.mapValues (·.ty)) params := by
  induction params generalizing locals with
  | nil => rfl
  | cons param rest ih =>
    rw [List.foldl_cons, ih, Locals.toTable_remove, Table.mapValues_erase]
    rfl

instance [Reporting rel] (taken supplied : Nat) :
    Along rel (reportCallArity callee taken supplied span) := by
  unfold reportCallArity
  infer_instance

/-- How a failed call is reported, given what the callee is. -/
def reportCall (callee : Expr) (span : Span) (calleeTy wanted : Ty) (args : List Ty)
    (error : UnifyError) : Ty → CheckM Unit
  | .fn params _ =>
    if error.fault = .arityMismatch ∧ params.length ≠ args.length then
      reportCallArity callee params.length args.length span
    else reportMismatch error calleeTy wanted span pure
  | .var _ => reportMismatch error calleeTy wanted span pure
  | _ => do
    report ((Diagnostic.error .typeMismatch (← spanOf callee)
      ("expected function, found " ++ (← quote calleeTy))).withPrimaryMessage
        "call expression requires a function")

theorem inferCall_eq (callee : Expr) (span : Span) (calleeTy : Ty) (args : List Ty) :
    inferCall callee span calleeTy args = (do
      let result ← fresh
      compare calleeTy (.fn args result) (fun error => do
        reportCall callee span calleeTy (.fn args result) args error (← shallow calleeTy))
      return result) := by
  unfold inferCall compare
  refine congrArg _ (funext fun result => ?_)
  rw [bind_assoc]
  dsimp only
  refine congrArg _ (funext fun failure => ?_)
  cases failure with
  | none => rfl
  | some error =>
    dsimp only
    rw [bind_assoc]
    refine congrArg _ (funext fun head => ?_)
    cases head with
    | fn params result =>
      rw [reportCall]
      by_cases arity : error.fault = .arityMismatch ∧ params.length ≠ args.length
      · simp only [if_pos arity]
      · simp only [if_neg arity]
    | var id => rfl
    | _ => simp only [reportCall, bind_assoc]

instance [Reporting rel] (wanted : Ty) (error : UnifyError) (head : Ty) :
    Along rel (reportCall callee span calleeTy wanted args error head) := by
  cases head <;> (unfold reportCall; infer_instance)

theorem not_runs_reportCall {wanted : Ty} {error : UnifyError} {head : Ty} :
    ¬Runs (reportCall callee span calleeTy wanted args error head) before done after := by
  intro ran
  cases head with
  | fn params result =>
    rw [reportCall] at ran
    split at ran
    · simp [reportCallArity, runs_bind] at ran
    · exact not_runs_reportMismatch ran
  | var id => exact not_runs_reportMismatch ran
  | _ => simp [reportCall, runs_bind] at ran

instance [Reporting rel] [Solving rel] : Along rel (inferCall callee span calleeTy args) := by
  rw [inferCall_eq]
  infer_instance

theorem runs_inferCall {result : Ty} :
    Runs (inferCall callee span calleeTy args) before result after ↔
      result = .var before.supply.next ∧
        Runs (unify calleeTy (.fn args result))
          { before with supply := ⟨before.supply.next + 1⟩ } none after := by
  have loud : ∀ result error done before after, ¬Runs (do
      reportCall callee span calleeTy (.fn args result) args error (← shallow calleeTy))
      before done after := by
    intro result error done before after ran
    obtain ⟨_, _, _, reported⟩ := runs_bind.mp ran
    exact not_runs_reportCall reported
  simp only [inferCall_eq, runs_bind, runs_fresh, runs_pure, runs_compare (loud _)]
  constructor
  · rintro ⟨_, _, ⟨rfl, rfl⟩, _, _, compared, rfl, rfl⟩
    exact ⟨rfl, compared⟩
  · rintro ⟨rfl, compared⟩
    exact ⟨_, _, ⟨rfl, rfl⟩, (), after, compared, rfl, rfl⟩

def solvedVars (ty : Ty) : CheckM (List VarId) := do
  return (← ofComplete (← solved ty).complete?).vars

instance : Along rel (solvedVars ty) := by
  unfold solvedVars
  infer_instance

theorem runs_solvedVars : Runs (solvedVars ty) before ids after ↔
      before.subst.applies ty = true ∧ (before.subst.apply ty).isComplete = true ∧
        ids = (before.subst.apply ty).vars ∧ after = before := by
  simp only [solvedVars, runs_bind, runs_solved, runs_ofComplete, runs_pure, Subst.applied?,
    Ty.complete?, Option.ite_none_right_eq_some, Option.some.injEq]
  constructor
  · rintro ⟨_, _, ⟨⟨applies, rfl⟩, rfl⟩, _, _, ⟨⟨complete, rfl⟩, rfl⟩, rfl, rfl⟩
    exact ⟨applies, complete, rfl, rfl⟩
  · rintro ⟨applies, complete, rfl, rfl⟩
    exact ⟨_, _, ⟨⟨applies, rfl⟩, rfl⟩, _, _, ⟨⟨complete, rfl⟩, rfl⟩, rfl, rfl⟩

theorem runs_mapM_solvedVars {ids : List (List VarId)} :
    Runs (types.mapM solvedVars) before ids after ↔
      (∀ ty ∈ types, before.subst.applies ty = true ∧ (before.subst.apply ty).isComplete = true) ∧
        ids = types.map (fun ty => (before.subst.apply ty).vars) ∧ after = before := by
  induction types generalizing ids with
  | nil =>
    rw [List.mapM_nil, runs_pure]
    simp
  | cons ty rest ih =>
    simp only [List.mapM_cons, runs_bind, runs_solvedVars, runs_pure, List.forall_mem_cons,
      List.map_cons]
    constructor
    · rintro ⟨_, _, ⟨applies, complete, rfl, rfl⟩, others, _, ranRest, rfl, rfl⟩
      obtain ⟨solvable, rfl, rfl⟩ := ih.mp ranRest
      exact ⟨⟨⟨applies, complete⟩, solvable⟩, rfl, rfl⟩
    · rintro ⟨⟨⟨applies, complete⟩, solvable⟩, rfl, rfl⟩
      exact ⟨_, _, ⟨applies, complete, rfl, rfl⟩, _, _, ih.mpr ⟨solvable, rfl, rfl⟩, rfl, rfl⟩

/-- The types of locals and functions. -/
def boundTypes (checker : Checker) : List Ty :=
  checker.locals.values.map (·.ty) ++ checker.globals.values

theorem environmentVars_eq :
    environmentVars = (do
      let checker ← get
      let free ← checker.boundTypes.mapM solvedVars
      return free.flatten) := rfl

instance : Along rel environmentVars := by
  rw [environmentVars_eq]
  infer_instance

theorem runs_environmentVars : Runs environmentVars before ids after ↔
      (∀ ty ∈ before.boundTypes,
        before.subst.applies ty = true ∧ (before.subst.apply ty).isComplete = true) ∧
      ids = before.boundTypes.flatMap (fun ty => (before.subst.apply ty).vars) ∧
        after = before := by
  simp only [environmentVars_eq, runs_bind, runs_get, runs_mapM_solvedVars, runs_pure]
  constructor
  · rintro ⟨_, _, ⟨rfl, rfl⟩, _, _, ⟨solvable, rfl, rfl⟩, rfl, rfl⟩
    exact ⟨solvable, rfl, rfl⟩
  · rintro ⟨solvable, rfl, rfl⟩
    exact ⟨_, _, ⟨rfl, rfl⟩, _, _, ⟨solvable, rfl, rfl⟩, rfl, rfl⟩

/-- The variables over which no `let` generalises. -/
def fixedVars (checker : Checker) : List VarId :=
  checker.boundTypes.flatMap fun ty => (checker.subst.apply ty).vars

def announcing (name : String) (scheme : Ty) : CheckM String := do
  let text ← ofComplete (scheme.render? (← get).nameOf)
  return "generalize " ++ name ++ " : " ++ text

instance (scheme : Ty) : Along rel (announcing name scheme) := by
  unfold announcing
  infer_instance

theorem bindLet_eq (id : LocalId) (name : String) (span : Span) (ty : Ty) :
    bindLet (.bind id name span) ty = (do
      let environment ← environmentVars
      let scheme ← ofComplete ((← get).subst.generalize? environment ty)
      traceStep (announcing name scheme)
      bindLocal id name scheme span false) := rfl

instance [Naming rel] : Along rel (bindLet (.bind id name span) ty) := by
  rw [bindLet_eq]
  infer_instance

theorem Runs.of_bindLet (ran : Runs (bindLet (.bind id name span) ty) before done after) :
    ∃ trace, after = { before with
      locals := before.locals.bind id
        ⟨before.subst.generalize before.fixedVars ty, name, span, false⟩
      trace } := by
  simp only [bindLet_eq, runs_bind, runs_environmentVars, runs_get, runs_ofComplete,
    runs_bindLocal] at ran
  obtain ⟨_, _, ⟨_, rfl, rfl⟩, _, _, ⟨rfl, rfl⟩, scheme, _, ⟨generalised, rfl⟩, _, middle, traced,
    rfl⟩ := ran
  obtain ⟨trace, rfl⟩ := traced.of_traceStep fun text middle ran => by
    simp only [announcing, runs_bind, runs_get, runs_ofComplete, runs_pure] at ran
    obtain ⟨_, _, ⟨_, rfl⟩, _, _, ⟨_, rfl⟩, _, same⟩ := ran
    exact same
  rw [Subst.generalize?, Option.ite_none_right_eq_some, Option.some.injEq] at generalised
  cases generalised.2
  exact ⟨trace, rfl⟩

theorem runs_bindLet {checker : Checker} (inside : checker.subst.Within (·.isPresent = true))
    (boundPresent : ∀ bound ∈ checker.boundTypes, bound.isPresent = true)
    (present : ty.isPresent = true)
    (schemePresent : (checker.subst.generalize checker.fixedVars ty).isPresent = true) :
    ∃ trace, Runs (bindLet (.bind id name span) ty) checker () { checker with
      locals := checker.locals.bind id
        ⟨checker.subst.generalize checker.fixedVars ty, name, span, false⟩
      trace } := by
  have solvable : ∀ bound ∈ checker.boundTypes, checker.subst.applies bound = true ∧
      (checker.subst.apply bound).isComplete = true := by
    intro bound member
    refine ⟨inside.applies (boundPresent bound member), Ty.isComplete_of_isPresent ?_⟩
    exact inside.isPresent_apply (boundPresent bound member)
  have generalised : checker.subst.generalize? checker.fixedVars ty =
      some (checker.subst.generalize checker.fixedVars ty) := by
    rw [Subst.generalize?, Ty.isComplete_of_isPresent present, inside.applies present]
    simp
  have rendered : Runs (announcing name (checker.subst.generalize checker.fixedVars ty)) checker
      ("generalize " ++ name ++ " : " ++
        (checker.subst.generalize checker.fixedVars ty).render checker.nameOf) checker := by
    simp only [announcing, runs_bind, runs_get, runs_ofComplete, runs_pure, Ty.render?,
      Ty.complete?, Ty.isComplete_of_isPresent schemePresent, ↓reduceIte, Option.map_some]
    exact ⟨_, _, ⟨rfl, rfl⟩, _, _, ⟨rfl, rfl⟩, rfl, rfl⟩
  obtain ⟨trace, traced⟩ := runs_traceStep fun _ => ⟨_, rendered⟩
  refine ⟨trace, ?_⟩
  simp only [bindLet_eq, runs_bind, runs_environmentVars, runs_get, runs_ofComplete,
    runs_bindLocal]
  exact ⟨_, _, ⟨solvable, rfl, rfl⟩, _, _, ⟨rfl, rfl⟩, _, _, ⟨generalised, rfl⟩, (), _, traced, rfl⟩

theorem instantiate_of_isMono (supply : Supply) (mono : ty.isMono = true) :
    supply.instantiate ty = (some ty, supply) := by
  have noScheme := Ty.isScheme_of_isMono mono
  cases ty <;> first | rfl | cases noScheme

theorem instantiate_scheme (supply : Supply) {names : List String} {body : Ty}
    (poly : (Ty.scheme names body).isPoly = true) :
    supply.instantiate (.scheme names body) =
      (some (body.substParams (nextVars supply.next names.length)),
        ⟨supply.next + names.length⟩) := by
  have complete := Ty.isComplete_of_isPresent (Ty.isPresent_of_isPlain poly)
  change (body.substParams? (nextVars supply.next names.length), _) = _
  rw [Ty.substParams?, Ty.complete?, if_pos complete, Option.map_some]
  split
  · rename_i noArgs
    rw [List.isEmpty_iff.mp noArgs, Ty.substParams_nil]
  · rfl

end Checker

end TraitCheck
