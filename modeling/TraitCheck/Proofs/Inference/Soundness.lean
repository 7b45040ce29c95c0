import TraitCheck.Proofs.Inference.State

/-!
# Soundness of inference

A quiet run of inference on a core expression leaves a type for which there is a typing derivation,
in the system that keeps names, since the table of locals does. The invariant of the induction
(`Inferred`) speaks of all assignments that satisfy the bindings after the run, so the derivations
of the parts still hold after further bindings. Only a `let` needs more, since a later assignment
may send its quantified variables anywhere: the derivation for the value is taken at another
assignment, which renames these apart from the environment (`Subst.generalize_bindVars`).
-/

namespace TraitCheck

namespace Checker

open Env

variable {reserved : List VarId} {expr : Expr} {exprs : List Expr} {ty : Ty}
  {before after : Checker}

/-- What a quiet run of inference on an expression leaves. -/
structure Inferred (reserved : List VarId) (before : Checker) (expr : Expr) (ty : Ty)
    (after : Checker) : Prop where
  follows : before.Follows reserved after
  owned : ty.Owned reserved after.supply.next
  typed : ∀ ⦃assignment⦄, Ty.Monos assignment → Subst.Satisfies assignment after.subst →
    TypedKeeping (before.env.bindVars assignment) expr (ty.bindVars assignment)
      (after.env.bindVars assignment)

/-- All quiet runs of inference on an expression leave a typed result. -/
def Sound (reserved : List VarId) (expr : Expr) : Prop :=
  ∀ ⦃before ty after⦄, before.WellFormed reserved → Apart expr.binders before.env →
    Runs (inferExpr expr) before ty after → Inferred reserved before expr ty after

theorem Inferred.growsBy (inferred : Inferred reserved before expr ty after) (core : IsCore expr)
    (apart : Apart expr.binders before.env) :
    GrowsBy expr.binders (before.env.bindVars after.solving) (after.env.bindVars after.solving) :=
  core.addsOwn (apart_bindVars.mpr apart) (inferred.typed
    inferred.follows.wellFormed.monos_solving inferred.follows.wellFormed.satisfies_solving)

theorem Inferred.apart (inferred : Inferred reserved before expr ty after) (core : IsCore expr)
    {others : List LocalId} (apart : Apart (expr.binders ++ others) before.env) :
    Apart others after.env :=
  apart_bindVars.mp (Apart.right (apart_bindVars.mpr apart) (inferred.growsBy core apart.left))

theorem sound_inferAll (cores : ∀ expr ∈ exprs, IsCore expr)
    (each : ∀ expr ∈ exprs, Sound reserved expr) {types : List Ty}
    (wellFormed : before.WellFormed reserved) (apart : Apart (Expr.bindersAll exprs) before.env)
    (ran : Runs (inferAll exprs) before types after) :
    before.Follows reserved after ∧ (∀ ty ∈ types, ty.Owned reserved after.supply.next) ∧
      ∀ ⦃assignment⦄, Ty.Monos assignment → Subst.Satisfies assignment after.subst →
        AllTypedKeeping (before.env.bindVars assignment) exprs
          (types.map (Ty.bindVars assignment)) (after.env.bindVars assignment) := by
  induction exprs generalizing before types with
  | nil =>
    obtain ⟨rfl, rfl⟩ := runs_inferAll_nil.mp ran
    exact ⟨.refl wellFormed, by simp, fun _ _ _ => .nil _⟩
  | cons expr rest ih =>
    obtain ⟨core, restCores⟩ := List.forall_mem_cons.mp cores
    obtain ⟨sound, restSound⟩ := List.forall_mem_cons.mp each
    obtain ⟨ty, middle, others, first, ranRest, rfl⟩ := runs_inferAll_cons.mp ran
    have inferred := sound wellFormed apart.left first
    obtain ⟨follows, owned, typed⟩ := ih restCores restSound inferred.follows.wellFormed
      (inferred.apart core apart) ranRest
    refine ⟨inferred.follows.trans follows, ?_, ?_⟩
    · exact List.forall_mem_cons.mpr ⟨inferred.owned.raise follows.supply, owned⟩
    · intro assignment monos satisfies
      exact .cons (inferred.typed monos (follows.growth.satisfies satisfies))
        (typed monos satisfies)

theorem sound_inferElements (cores : ∀ expr ∈ exprs, IsCore expr)
    (each : ∀ expr ∈ exprs, Sound reserved expr) {elem : Ty} {done : Unit}
    (wellFormed : before.WellFormed reserved) (apart : Apart (Expr.bindersAll exprs) before.env)
    (owned : elem.Owned reserved before.supply.next)
    (ran : Runs (inferElements elem exprs) before done after) :
    before.Follows reserved after ∧
      ∀ ⦃assignment⦄, Ty.Monos assignment → Subst.Satisfies assignment after.subst →
        AllTypedKeeping (before.env.bindVars assignment) exprs
          (List.replicate exprs.length (elem.bindVars assignment))
          (after.env.bindVars assignment) := by
  induction exprs generalizing before with
  | nil =>
    cases runs_inferElements_nil.mp ran
    exact ⟨.refl wellFormed, fun _ _ _ => .nil _⟩
  | cons expr rest ih =>
    obtain ⟨core, restCores⟩ := List.forall_mem_cons.mp cores
    obtain ⟨sound, restSound⟩ := List.forall_mem_cons.mp each
    obtain ⟨ty, middle, compared, first, agreed, ranRest⟩ :=
      (runs_inferElements_cons core).mp ran
    have inferred := sound wellFormed apart.left first
    have elemOwned := owned.raise inferred.follows.supply
    obtain ⟨compares, sameEnv, sameSupply⟩ :=
      agreed.follows_unify inferred.follows.wellFormed elemOwned inferred.owned
    obtain ⟨follows, typed⟩ := ih restCores restSound compares.wellFormed
      (sameEnv ▸ inferred.apart core apart) (sameSupply ▸ elemOwned) ranRest
    refine ⟨(inferred.follows.trans compares).trans follows, fun assignment monos satisfies => ?_⟩
    have later := follows.growth.satisfies satisfies
    have equal := agreed.equal_unify inferred.follows.wellFormed elemOwned inferred.owned later
    have typedFirst := inferred.typed monos (compares.growth.satisfies later)
    have typedRest := typed monos satisfies
    rw [sameEnv] at typedRest
    exact .cons (equal ▸ typedFirst) typedRest

section Rules

variable {span : Span} {stmts : List Stmt}

theorem sound_list (cores : ∀ expr ∈ exprs, IsCore expr)
    (each : ∀ expr ∈ exprs, Sound reserved expr) : Sound reserved (.list exprs span) := by
  intro before ty after wellFormed apart ran
  obtain ⟨elements, rfl⟩ := runs_list.mp ran
  have raised := wellFormed.follows_raise (Nat.le_succ before.supply.next)
  obtain ⟨follows, typed⟩ := sound_inferElements cores each raised.wellFormed apart
    wellFormed.owned_next elements
  refine ⟨raised.trans follows, (wellFormed.owned_next.raise follows.supply).list, ?_⟩
  intro assignment monos satisfies
  exact .list (monos _) (typed monos satisfies) span

theorem sound_tuple (cores : ∀ expr ∈ exprs, IsCore expr)
    (each : ∀ expr ∈ exprs, Sound reserved expr) : Sound reserved (.tuple exprs span) := by
  intro before ty after wellFormed apart ran
  obtain ⟨types, all, rfl⟩ := runs_tuple.mp ran
  obtain ⟨follows, owned, typed⟩ := sound_inferAll cores each wellFormed apart all
  refine ⟨follows, Ty.owned_tuple owned, fun assignment monos satisfies => ?_⟩
  rw [Ty.bindVars_tuple]
  exact .tuple (typed monos satisfies) span

theorem sound_record {fields : List (Field Expr)} (cores : ∀ field ∈ fields, IsCore field.content)
    (each : ∀ field ∈ fields, Sound reserved field.content) :
    Sound reserved (.record fields span) := by
  intro before ty after wellFormed apart ran
  obtain ⟨types, all, distinct, rfl⟩ := runs_record.mp ran
  rw [Expr.binders, Expr.bindersFields_eq] at apart
  obtain ⟨follows, owned, typed⟩ := sound_inferAll (by simpa using cores) (by simpa using each)
    wellFormed apart all
  refine ⟨follows, Ty.owned_record fun field member => ?_, fun assignment monos satisfies => ?_⟩
  · rcases Row.mem_insertAll member with given | none
    · exact owned field.2 (List.of_mem_zip given).2
    · cases none
  · rw [Ty.bindVars_recordOf]
    exact .record distinct (typed monos satisfies) span

theorem sound_lambda {params : List Param} {body : Expr}
    (open_ : ∀ param ∈ params, param.ty.isDeclared = false) (sound : Sound reserved body) :
    Sound reserved (.lambda params body span) := by
  intro before ty after wellFormed apart ran
  obtain ⟨types, bound, result, inner, entered, ranBody, rfl, isAfter⟩ := runs_lambda.mp ran
  obtain ⟨enters, boundEnv, _, isNext, owned⟩ := entered.follows_bindParams open_ wellFormed
  have count : params.length = types.length := by rw [isNext, length_nextVars]
  have bodyApart : Apart body.binders bound.env := by
    rw [boundEnv]
    exact apart.right (growsBy_bindAll apart.left count)
  have inferred := sound enters.wellFormed bodyApart ranBody
  have afterEnv : after.env = Env.eraseAll inner.env params := by
    rw [isAfter]
    exact env_removeAll inner.locals params
  have leaves : inner.Follows reserved after := by
    refine inferred.follows.wellFormed.follows (by rw [isAfter]) (by rw [isAfter]) (by rw [isAfter])
      fun ty member => ?_
    rw [afterEnv] at member
    exact .inl (mem_values_eraseAll member)
  have grown := inferred.follows.supply.trans leaves.supply
  refine ⟨(enters.trans inferred.follows).trans leaves, ?_, fun assignment monos satisfies => ?_⟩
  · exact Ty.owned_fn (fun ty member => (owned ty member).raise grown)
      (inferred.owned.raise leaves.supply)
  · have typed := inferred.typed monos (leaves.growth.satisfies satisfies)
    rw [boundEnv, bindVars_bindAll] at typed
    rw [afterEnv, bindVars_eraseAll, Ty.bindVars_fn]
    refine .lambda (by simpa using count) (fun ty member => ?_) typed span
    obtain ⟨source, sourceMem, rfl⟩ := List.mem_map.mp member
    exact Ty.isMono_bindVars monos (owned source sourceMem).mono

theorem sound_call {callee : Expr} (core : IsCore callee) (cores : ∀ expr ∈ exprs, IsCore expr)
    (sound : Sound reserved callee) (each : ∀ expr ∈ exprs, Sound reserved expr) :
    Sound reserved (.call callee exprs span) := by
  intro before ty after wellFormed apart ran
  obtain ⟨calleeTy, called, types, supplied, ranCallee, ranArgs, rfl, compared⟩ :=
    runs_call.mp ran
  have inferred := sound wellFormed apart.left ranCallee
  obtain ⟨follows, owned, typed⟩ := sound_inferAll cores each inferred.follows.wellFormed
    (inferred.apart core apart) ranArgs
  have raised := follows.wellFormed.follows_raise (Nat.le_succ supplied.supply.next)
  have calleeOwned := inferred.owned.raise (follows.supply.trans raised.supply)
  have resultOwned := follows.wellFormed.owned_next
  have wantedOwned := Ty.owned_fn (fun ty member => (owned ty member).raise raised.supply)
    resultOwned
  obtain ⟨compares, sameEnv, sameSupply⟩ :=
    compared.follows_unify raised.wellFormed calleeOwned wantedOwned
  have later := (follows.trans raised).trans compares
  refine ⟨inferred.follows.trans later, sameSupply ▸ resultOwned, ?_⟩
  intro assignment monos satisfies
  have equal := compared.equal_unify raised.wellFormed calleeOwned wantedOwned satisfies
  have typedCallee := inferred.typed monos (later.growth.satisfies satisfies)
  have typedArgs := typed monos (compares.growth.satisfies satisfies)
  rw [equal, Ty.bindVars_fn] at typedCallee
  rw [sameEnv]
  exact .call typedCallee typedArgs span

theorem sound_conditional {condition thenBranch elseBranch : Expr}
    (conditionCore : IsCore condition) (thenCore : IsCore thenBranch) (elseCore : IsCore elseBranch)
    (conditionSound : Sound reserved condition) (thenSound : Sound reserved thenBranch)
    (elseSound : Sound reserved elseBranch) :
    Sound reserved (.conditional condition thenBranch elseBranch span) := by
  intro before ty after wellFormed apart ran
  obtain ⟨conditionTy, inferred, tested, thenTy, taken, failure, joined, elseTy, last, ranCondition,
    isBool, ranThen, rfl, joins, ranElse, agrees⟩ :=
    (runs_conditional conditionCore elseCore).mp ran
  have test := conditionSound wellFormed apart.left ranCondition
  have boolOwned : Ty.bool.Owned reserved inferred.supply.next := Ty.owned_prim _
  obtain ⟨tests, testedEnv, _⟩ := isBool.follows_unify test.follows.wellFormed boolOwned test.owned
  have branches : Apart (thenBranch.binders ++ elseBranch.binders) tested.env :=
    testedEnv ▸ test.apart conditionCore apart
  have whenTrue := thenSound tests.wellFormed branches.left ranThen
  -- The result is a new variable, so the comparison whose failure is ignored cannot fail.
  have noFailure := joins.eq_none_of_next whenTrue.follows.wellFormed whenTrue.owned
  subst noFailure
  have raised := whenTrue.follows.wellFormed.follows_raise (Nat.le_succ taken.supply.next)
  have resultOwned := whenTrue.follows.wellFormed.owned_next
  have thenOwned := whenTrue.owned.raise raised.supply
  obtain ⟨join, joinedEnv, joinedSupply⟩ :=
    joins.follows_unify raised.wellFormed resultOwned thenOwned
  have elseApart : Apart elseBranch.binders joined.env :=
    joinedEnv ▸ whenTrue.apart thenCore branches
  have whenFalse := elseSound join.wellFormed elseApart ranElse
  have resultOwnedLast : (Ty.var taken.supply.next).Owned reserved last.supply.next :=
    resultOwned.raise (join.supply.trans whenFalse.follows.supply)
  obtain ⟨agree, afterEnv, afterSupply⟩ :=
    agrees.follows_unify whenFalse.follows.wellFormed resultOwnedLast whenFalse.owned
  have fromTaken := ((raised.trans join).trans whenFalse.follows).trans agree
  refine ⟨(test.follows.trans (tests.trans whenTrue.follows)).trans fromTaken,
    afterSupply ▸ resultOwnedLast, fun assignment monos satisfies => ?_⟩
  have atLast := agree.growth.satisfies satisfies
  have atJoined := whenFalse.follows.growth.satisfies atLast
  have atTested := whenTrue.follows.growth.satisfies (fromTaken.growth.satisfies satisfies)
  have conditionIsBool := isBool.equal_unify test.follows.wellFormed boolOwned test.owned atTested
  have thenIsResult := joins.equal_unify raised.wellFormed resultOwned thenOwned atJoined
  have elseIsResult :=
    agrees.equal_unify whenFalse.follows.wellFormed resultOwnedLast whenFalse.owned satisfies
  have typedCondition := test.typed monos (tests.growth.satisfies atTested)
  have typedThen := whenTrue.typed monos (fromTaken.growth.satisfies satisfies)
  have typedElse := whenFalse.typed monos atLast
  rw [← conditionIsBool] at typedCondition
  rw [testedEnv, ← thenIsResult] at typedThen
  rw [joinedEnv, ← elseIsResult] at typedElse
  rw [afterEnv]
  exact .conditional typedCondition typedThen typedElse span

/-- The environments before and after the value of a `let` are the same under all assignments that
differ only in what generalisation quantifies. -/
theorem Inferred.env_congr (inferred : Inferred reserved before expr ty after) (core : IsCore expr)
    (apart : Apart expr.binders before.env) {assignment inner : VarId → Ty}
    (same : ∀ other, (∀ id ∈ (after.subst.apply other).vars, id ∈ after.fixedVars) →
      other.bindVars inner = other.bindVars assignment) :
    before.env.bindVars inner = before.env.bindVars assignment ∧
      after.env.bindVars inner = after.env.bindVars assignment := by
  refine ⟨bindVars_congr fun other member => ?_, bindVars_congr fun other member => ?_⟩
  · -- The solved type of an old name is the solved type of some name after the run.
    obtain ⟨added, grown, _⟩ := inferred.growsBy core apart
    have solved : after.subst.apply other ∈ (after.env.bindVars after.solving).values := by
      rw [Table.values, grown, List.map_append]
      refine List.mem_append_left _ ?_
      change _ ∈ (before.env.mapValues (Ty.bindVars after.solving)).values
      rw [Table.values_mapValues]
      exact List.mem_map_of_mem member
    rw [bindVars, Table.values_mapValues] at solved
    obtain ⟨source, sourceMem, sameSolved⟩ := List.mem_map.mp solved
    refine same other fun id found => mem_fixedVars sourceMem id ?_
    rw [Subst.apply_eq_bindVars]
    exact sameSolved ▸ found
  · exact same other fun id found => mem_fixedVars member id found

theorem sound_blockLet {id : LocalId} {name : String} {nameSpan letSpan : Span} {declared : Ty}
    {value tail : Expr} (open_ : declared.isDeclared = false)
    (valueCore : IsCore value) (valueSound : Sound reserved value)
    (restSound : Sound reserved (.block stmts tail span)) :
    Sound reserved
      (.block (.letBind (.bind id name nameSpan) declared value letSpan :: stmts) tail span) := by
  intro before ty after wellFormed apart ran
  obtain ⟨valueTy, inferred, bound, ranValue, binds, ranRest⟩ := (runs_blockLet open_).mp ran
  simp only [Expr.binders, Expr.bindersStmts, List.append_assoc, List.cons_append] at apart
  have valued := valueSound wellFormed apart.left ranValue
  obtain ⟨follows, sameBindings, _, boundEnv⟩ :=
    binds.follows_bindLet valued.follows.wellFormed valued.owned
  have restApart : Apart (Expr.binders (.block stmts tail span)) bound.env := by
    rw [boundEnv]
    exact (valued.apart valueCore apart).insert _
  have rest := restSound follows.wellFormed restApart ranRest
  refine ⟨(valued.follows.trans follows).trans rest.follows, rest.owned, ?_⟩
  intro assignment monos satisfies
  have atValue : Subst.Satisfies assignment inferred.subst :=
    (follows.trans rest.follows).growth.satisfies satisfies
  have valuedState := valued.follows.wellFormed
  obtain ⟨inner, innerMonos, innerSatisfies, same, generalises⟩ :=
    Subst.generalize_bindVars valuedState.acyclic valuedState.monos valued.owned.mono monos atValue
      (inferred.env.bindVars assignment).vars
  obtain ⟨sameBefore, sameAfter⟩ :=
    valued.env_congr valueCore apart.left same
  have typedValue := valued.typed innerMonos innerSatisfies
  have typedRest := rest.typed monos satisfies
  rw [sameBefore, sameAfter] at typedValue
  rw [boundEnv, bindVars_insert] at typedRest
  exact .blockLet typedValue generalises typedRest

theorem sound_blockRun {runSpan : Span} {tail : Expr} (core : IsCore expr)
    (sound : Sound reserved expr) (restSound : Sound reserved (.block stmts tail span)) :
    Sound reserved (.block (.run expr runSpan :: stmts) tail span) := by
  intro before ty after wellFormed apart ran
  obtain ⟨ignored, middle, ranFirst, ranRest⟩ := runs_blockRun.mp ran
  simp only [Expr.binders, Expr.bindersStmts, List.append_assoc] at apart
  have first := sound wellFormed apart.left ranFirst
  have rest := restSound first.follows.wellFormed (first.apart core apart) ranRest
  refine ⟨first.follows.trans rest.follows, rest.owned, fun assignment monos satisfies => ?_⟩
  exact .blockRun (first.typed monos (rest.follows.growth.satisfies satisfies))
    (rest.typed monos satisfies)

end Rules

theorem sound_inferExpr (core : IsCore expr) : Sound reserved expr := by
  induction core with
  | literal value =>
    intro before ty after wellFormed apart ran
    rw [inferExpr, runs_pure] at ran
    obtain ⟨rfl, rfl⟩ := ran
    exact ⟨.refl wellFormed, Ty.owned_prim _, fun _ _ _ => .literal _ _⟩
  | localRef id span =>
    intro before ty after wellFormed apart ran
    rw [inferExpr] at ran
    obtain ⟨follows, sameEnv, _, owned, scheme, found, isInstance⟩ :=
      ran.follows_inferLocal wellFormed
    refine ⟨follows, owned, fun assignment monos satisfies => ?_⟩
    have poly := wellFormed.poly scheme (Table.mem_values_of_find? found)
    rw [sameEnv]
    exact .localRef (find?_bindVars found) (isInstance.bindVars poly monos) span
  | list each span ih => exact sound_list each ih
  | tuple each span ih => exact sound_tuple each ih
  | record each span ih => exact sound_record each ih
  | lambda open_ _ span ih => exact sound_lambda open_ ih
  | call calleeCore each span ihCallee ihArgs => exact sound_call calleeCore each ihCallee ihArgs
  | conditional conditionCore thenCore elseCore span ihCondition ihThen ihElse =>
    exact sound_conditional conditionCore thenCore elseCore ihCondition ihThen ihElse
  | blockEnd tailCore span ih =>
    intro before ty after wellFormed apart ran
    rw [inferExpr_blockEnd] at ran
    have inferred := ih wellFormed apart ran
    exact ⟨inferred.follows, inferred.owned,
      fun _ monos satisfies => .blockEnd (inferred.typed monos satisfies) span⟩
  | blockLet id name nameSpan letSpan open_ valueCore rest ihValue ihRest =>
    exact sound_blockLet open_ valueCore ihValue ihRest
  | blockRun runSpan exprCore rest ihExpr ihRest => exact sound_blockRun exprCore ihExpr ihRest

/-- Inference is sound for the type system of Damas and Milner: if it reports nothing, then the
solved result is a type of the expression under the solved types of the locals. References have to
keep to the scopes of names, and the names that the expression binds have to be distinct and new. -/
theorem inferExpr_sound {checker after : Checker} {expr : Expr} {ty : Ty}
    (wellFormed : checker.WellFormed []) (core : IsCore expr)
    (apart : Apart expr.binders checker.env) (refers : expr.isScoped checker.env.keys = true)
    (ok : inferExpr expr checker = .ok ty after) (quiet : after.log = checker.log) :
    after.subst.applied? ty = some (after.subst.apply ty) ∧
      HasType (checker.env.bindVars fun id => after.subst.apply (.var id)) expr
        (after.subst.apply ty) := by
  have inferred := sound_inferExpr core wellFormed apart ⟨ok, quiet⟩
  have present := inferred.follows.wellFormed.present
  have typed := inferred.typed inferred.follows.wellFormed.monos_solving
    inferred.follows.wellFormed.satisfies_solving
  refine ⟨if_pos (present.applies (Ty.isPresent_of_isPlain inferred.owned.mono)), ?_⟩
  exact typed.hasType core (apart_bindVars.mpr apart) (by rwa [keys_bindVars])

/-- A state with a local of unknown type and a polymorphic local that mentions this type. -/
def withPair : Checker :=
  { initial {} with
    supply := ⟨1⟩
    locals := (Locals.empty.bind ⟨1⟩ ⟨.var 0, "left", .empty, false⟩).bind ⟨2⟩
      ⟨.scheme ["A"] (.fn [.param 0 "A"] (.tuple [.var 0, .param 0 "A"])), "pair", .empty, false⟩ }

/-- The block `{ let twice = |right| pair(right); (twice(1), twice(true)) }`. -/
def pairedTwice : Expr :=
  .block
    [.letBind (.bind ⟨3⟩ "twice" .empty) .absent
      (.lambda [⟨⟨4⟩, "right", .absent, .empty⟩]
        (.call (.localRef ⟨2⟩ .empty) [.localRef ⟨4⟩ .empty] .empty) .empty) .empty]
    (.tuple
      [.call (.localRef ⟨3⟩ .empty) [.literal ⟨.int, "1", .empty⟩] .empty,
        .call (.localRef ⟨3⟩ .empty) [.literal ⟨.bool, "true", .empty⟩] .empty] .empty) .empty

theorem isCore_pairedTwice : IsCore pairedTwice := by
  have called : ∀ value, IsCore (.call (.localRef ⟨3⟩ .empty) [.literal value] .empty) :=
    fun value => .call (.localRef _ _) (by simpa using .literal value) _
  refine .blockLet _ _ _ _ rfl (.lambda (by simp [Ty.isDeclared]) ?_ _) (.blockEnd (.tuple ?_ _) _)
  · exact .call (.localRef _ _) (by simpa using .localRef _ _) _
  · simpa using ⟨called _, called _⟩

theorem inferExpr_sound_pairedTwice :
    ∃ ty after, inferExpr pairedTwice withPair = .ok ty after ∧ after.log = withPair.log ∧
      after.subst.apply ty = .tuple [.tuple [.var 0, .int], .tuple [.var 0, .bool]] ∧
      HasType (withPair.env.bindVars fun id => after.subst.apply (.var id)) pairedTwice
        (after.subst.apply ty) := by
  have wellFormed : withPair.WellFormed [] := by
    refine wellFormed_of_empty rfl ?_ ?_ (by simp)
    · decide
    · simp [Ty.Taken]
      decide
  have found : withPair.quietType? pairedTwice =
      some (.tuple [.tuple [.var 0, .int], .tuple [.var 0, .bool]]) := by cbv
  obtain ⟨ty, after, ran, solved⟩ := exists_runs_of_quietType? found
  exact ⟨ty, after, ran.ok, ran.quiet, solved, (inferExpr_sound wellFormed isCore_pairedTwice
    ⟨by decide, by decide⟩ (by decide) ran.ok ran.quiet).2⟩

/-- The tuple `({ let x = 1; x }, x)`, whose second component refers to a name out of reach. -/
def escaping : Expr :=
  .tuple
    [.block [.letBind (.bind ⟨1⟩ "x" .empty) .absent (.literal ⟨.int, "1", .empty⟩) .empty]
      (.localRef ⟨1⟩ .empty) .empty,
    .localRef ⟨1⟩ .empty] .empty

/-- The condition on references is needed: the name of a `let` is still found after the end of its
block. -/
theorem inferExpr_accepts_escaping :
    (initial {}).WellFormed [] ∧ IsCore escaping ∧ Apart escaping.binders (initial {}).env ∧
      ∃ ty after, inferExpr escaping (initial {}) = .ok ty after ∧
        after.log = (initial {}).log ∧
        ¬HasType ((initial {}).env.bindVars fun id => after.subst.apply (.var id)) escaping
          (after.subst.apply ty) := by
  have core : IsCore escaping := by
    refine .tuple (List.forall_mem_cons.mpr ⟨?_, List.forall_mem_singleton.mpr ?_⟩) _
    · exact .blockLet _ _ _ _ rfl (.literal _) (.blockEnd (.localRef _ _) _)
    · exact .localRef _ _
  have found : (initial {}).quietType? escaping = some (.tuple [.int, .int]) := by cbv
  obtain ⟨ty, after, ran, _⟩ := exists_runs_of_quietType? found
  refine ⟨wellFormed_of_empty rfl (by decide) (by rintro ty ⟨⟩) (by simp), core,
    ⟨by decide, by decide⟩, ty, after, ran.ok, ran.quiet, fun typed => ?_⟩
  generalize after.subst.apply ty = solved at typed
  cases typed with
  | @tuple _ _ types count each =>
    obtain ⟨first, second, rfl⟩ := List.length_eq_two.mp count.symm
    have outside := each (.localRef ⟨1⟩ .empty, second) (by simp)
    cases outside with
    | localRef found => cases found

end Checker

end TraitCheck
