import TraitCheck.Proofs.Check.Parallel

/-!
# The rules of inference

What a quiet run of inference does on each kind of core expression, as an equivalence: the runs of
its parts, and what happens to the bindings, the supply and the locals between them. The proofs
about inference go through these equivalences and never open `inferExpr` again.
-/

namespace TraitCheck

variable {stmts : List Stmt} {value tail : Expr}

namespace Checker

theorem inferExpr_blockEnd (tail : Expr) (span : Span) :
    inferExpr (.block [] tail span) = inferExpr tail := by
  rw [inferExpr, checkStmts, pure_bind]

theorem inferExpr_blockLet {pattern : Pattern} {ty : Ty} {letSpan span : Span}
    (open_ : ty.isDeclared = false) :
    inferExpr (.block (.letBind pattern ty value letSpan :: stmts) tail span) = (do
      bindLet pattern (← inferExpr value)
      inferExpr (.block stmts tail span)) := by
  simp only [inferExpr, checkStmts, open_, Bool.false_eq_true, ↓reduceIte, bind_assoc]

theorem inferExpr_blockRun {expr tail : Expr} {runSpan span : Span} :
    inferExpr (.block (.run expr runSpan :: stmts) tail span) = (do
      let _ ← inferExpr expr
      inferExpr (.block stmts tail span)) := by
  simp only [inferExpr, checkStmts, bind_assoc]

section Rules

variable {expr : Expr} {exprs : List Expr} {span : Span} {ty : Ty} {before after : Checker}
  {done : Unit} {elem : Ty} {fields : List (Field Expr)} {types : List Ty}

theorem runs_inferAll_nil :
    Runs (inferAll []) before types after ↔ types = [] ∧ after = before := by
  rw [inferAll, runs_pure]

theorem runs_inferAll_cons : Runs (inferAll (expr :: exprs)) before types after ↔
      ∃ ty middle others, Runs (inferExpr expr) before ty middle ∧
        Runs (inferAll exprs) middle others after ∧ types = ty :: others := by
  simp only [inferAll, runs_bind, runs_pure]
  constructor
  · rintro ⟨ty, middle, first, others, _, rest, rfl, rfl⟩
    exact ⟨ty, middle, others, first, rest, rfl⟩
  · rintro ⟨ty, middle, others, first, rest, rfl⟩
    exact ⟨ty, middle, first, others, after, rest, rfl, rfl⟩

theorem runs_inferElements_nil :
    Runs (inferElements elem []) before done after ↔ after = before := by
  rw [inferElements, runs_pure]
  simp

theorem runs_inferElements_cons (core : IsCore expr) :
    Runs (inferElements elem (expr :: exprs)) before done after ↔
      ∃ ty inferred compared, Runs (inferExpr expr) before ty inferred ∧
        Runs (unify elem ty) inferred none compared ∧
        Runs (inferElements elem exprs) compared () after := by
  obtain ⟨span, known⟩ := core.exists_span
  simp only [inferElements, runs_bind, runs_spanOf, runs_expect]
  constructor
  · rintro ⟨ty, inferred, first, _, _, ⟨_, rfl⟩, _, compared, agreed, rest⟩
    exact ⟨ty, _, compared, first, agreed, rest⟩
  · rintro ⟨ty, inferred, compared, first, agreed, rest⟩
    exact ⟨ty, inferred, first, span, inferred, ⟨known, rfl⟩, (), compared, agreed, rest⟩

theorem runs_list :
    Runs (inferExpr (.list exprs span)) before ty after ↔
      Runs (inferElements (.var before.supply.next) exprs)
        { before with supply := ⟨before.supply.next + 1⟩ } () after ∧
      ty = .list (.var before.supply.next) := by
  simp only [inferExpr, runs_bind, runs_fresh, runs_pure]
  constructor
  · rintro ⟨_, _, ⟨rfl, rfl⟩, _, _, elements, rfl, rfl⟩
    exact ⟨elements, rfl⟩
  · rintro ⟨elements, rfl⟩
    exact ⟨_, _, ⟨rfl, rfl⟩, (), after, elements, rfl, rfl⟩

theorem runs_tuple :
    Runs (inferExpr (.tuple exprs span)) before ty after ↔
      ∃ types, Runs (inferAll exprs) before types after ∧ ty = .tuple types := by
  simp only [inferExpr, runs_bind, runs_pure]
  constructor
  · rintro ⟨types, _, all, rfl, rfl⟩
    exact ⟨types, all, rfl⟩
  · rintro ⟨types, all, rfl⟩
    exact ⟨types, after, all, rfl, rfl⟩

/-- The fields of a record literal are inferred one after the other. Their labels have to be
distinct and new. -/
theorem runs_inferRecord {row result : Row} : Runs (inferRecord row fields) before result after ↔
      ∃ types, Runs (inferAll (fields.map (·.content))) before types after ∧
        (fields.map (·.name)).Nodup ∧
        (∀ name ∈ fields.map (·.name), Row.contains name row = false) ∧
        result = Row.insertAll ((fields.map (·.name)).zip types) row := by
  induction fields generalizing before row with
  | nil =>
    rw [inferRecord, runs_pure]
    simp [runs_inferAll_nil, Row.insertAll, and_comm]
  | cons field rest ih =>
    rw [List.map_cons, inferRecord, runs_bind]
    simp only [runs_inferAll_cons]
    constructor
    · rintro ⟨ty, middle, first, ran⟩
      split at ran
      · simp [runs_bind] at ran
      · rename_i isNew
        obtain ⟨types, all, distinct, new, rfl⟩ := ih.mp ran
        refine ⟨_, ⟨ty, middle, types, first, all, rfl⟩, ?_, ?_, rfl⟩
        · refine List.nodup_cons.mpr ⟨fun member => ?_, distinct⟩
          simpa [Row.contains_insert] using new field.name member
        · refine List.forall_mem_cons.mpr ⟨by simpa using isNew, fun name member => ?_⟩
          exact (Bool.or_eq_false_iff.mp ((Row.contains_insert ..).symm.trans
            (new name member))).2
    · rintro ⟨_, ⟨ty, middle, types, first, all, rfl⟩, distinct, new, rfl⟩
      obtain ⟨isNew, restNew⟩ := List.forall_mem_cons.mp new
      obtain ⟨missing, restDistinct⟩ := List.nodup_cons.mp distinct
      refine ⟨ty, middle, first, ?_⟩
      rw [if_neg (by simp [isNew])]
      refine ih.mpr ⟨types, all, restDistinct, fun name member => ?_, rfl⟩
      rw [Row.contains_insert, restNew name member, Bool.or_false, decide_eq_false_iff_not]
      rintro rfl
      exact missing member

theorem runs_record : Runs (inferExpr (.record fields span)) before ty after ↔
      ∃ types, Runs (inferAll (fields.map (·.content))) before types after ∧
        (fields.map (·.name)).Nodup ∧
        ty = .record (Row.ofList ((fields.map (·.name)).zip types)) := by
  simp only [inferExpr, runs_bind, runs_pure, runs_inferRecord]
  constructor
  · rintro ⟨_, _, ⟨types, all, distinct, _, rfl⟩, rfl, rfl⟩
    exact ⟨types, all, distinct, rfl⟩
  · rintro ⟨types, all, distinct, rfl⟩
    exact ⟨_, after, ⟨types, all, distinct, fun _ _ => rfl, rfl⟩, rfl, rfl⟩

theorem runs_lambda {params : List Param} {body : Expr} :
    Runs (inferExpr (.lambda params body span)) before ty after ↔
      ∃ types bound result inner, Runs (bindParams params) before types bound ∧
        Runs (inferExpr body) bound result inner ∧ ty = .fn types result ∧
        after = { inner with
          locals := params.foldl (fun locals param => locals.remove param.id) inner.locals } := by
  simp only [inferExpr, runs_bind, runs_pure, runs_removeAll]
  constructor
  · rintro ⟨types, bound, entered, result, inner, ran, _, _, rfl, rfl, rfl⟩
    exact ⟨types, bound, result, inner, entered, ran, rfl, rfl⟩
  · rintro ⟨types, bound, result, inner, entered, ran, rfl, rfl⟩
    exact ⟨types, bound, entered, result, inner, ran, (), _, rfl, rfl, rfl⟩

theorem runs_call {callee : Expr} :
    Runs (inferExpr (.call callee exprs span)) before ty after ↔
      ∃ calleeTy called types supplied, Runs (inferExpr callee) before calleeTy called ∧
        Runs (inferAll exprs) called types supplied ∧ ty = .var supplied.supply.next ∧
        Runs (unify calleeTy (.fn types ty))
          { supplied with supply := ⟨supplied.supply.next + 1⟩ } none after := by
  simp only [inferExpr, runs_bind, runs_inferCall]
  constructor
  · rintro ⟨calleeTy, called, function, types, supplied, args, rfl, compared⟩
    exact ⟨calleeTy, called, types, supplied, function, args, rfl, compared⟩
  · rintro ⟨calleeTy, called, types, supplied, function, args, rfl, compared⟩
    exact ⟨calleeTy, called, function, types, supplied, args, rfl, compared⟩

theorem runs_conditional {condition thenBranch elseBranch : Expr} (conditionCore : IsCore condition)
    (elseCore : IsCore elseBranch) :
    Runs (inferExpr (.conditional condition thenBranch elseBranch span)) before ty after ↔
      ∃ conditionTy inferred tested thenTy taken failure joined elseTy last,
        Runs (inferExpr condition) before conditionTy inferred ∧
        Runs (unify .bool conditionTy) inferred none tested ∧
        Runs (inferExpr thenBranch) tested thenTy taken ∧ ty = .var taken.supply.next ∧
        Runs (unify ty thenTy) { taken with supply := ⟨taken.supply.next + 1⟩ } failure joined ∧
        Runs (inferExpr elseBranch) joined elseTy last ∧
        Runs (unify ty elseTy) last none after := by
  obtain ⟨conditionSpan, known⟩ := conditionCore.exists_span
  simp only [inferExpr, elseCore.not_isMissing, Bool.false_eq_true, ↓reduceIte, runs_bind,
    runs_spanOf, runs_expect, runs_fresh, runs_expectElse, runs_pure]
  constructor
  · rintro ⟨conditionTy, _, test, _, inferred, ⟨_, rfl⟩, _, tested, isBool, thenTy, taken, whenTrue,
      _, _, ⟨rfl, rfl⟩, failure, joined, compared, elseTy, last, whenFalse, _, _, agreed, rfl, rfl⟩
    exact ⟨conditionTy, _, tested, thenTy, taken, failure, joined, elseTy, last, test, isBool,
      whenTrue, rfl, compared, whenFalse, agreed⟩
  · rintro ⟨conditionTy, inferred, tested, thenTy, taken, failure, joined, elseTy, last, test,
      isBool, whenTrue, rfl, compared, whenFalse, agreed⟩
    exact ⟨conditionTy, inferred, test, conditionSpan, inferred, ⟨known, rfl⟩, (), tested, isBool,
      thenTy, taken, whenTrue, _, _, ⟨rfl, rfl⟩, failure, joined, compared, elseTy, last, whenFalse,
      (), after, agreed, rfl, rfl⟩

theorem runs_blockLet {id : LocalId} {name : String} {nameSpan letSpan : Span} {declared : Ty}
    (open_ : declared.isDeclared = false) :
    Runs (inferExpr (.block (.letBind (.bind id name nameSpan) declared value letSpan :: stmts)
        tail span)) before ty after ↔
      ∃ valueTy inferred bound, Runs (inferExpr value) before valueTy inferred ∧
        Runs (bindLet (.bind id name nameSpan) valueTy) inferred () bound ∧
        Runs (inferExpr (.block stmts tail span)) bound ty after := by
  simp only [inferExpr_blockLet open_, runs_bind]
  constructor
  · rintro ⟨valueTy, inferred, value, _, bound, binds, last⟩
    exact ⟨valueTy, inferred, bound, value, binds, last⟩
  · rintro ⟨valueTy, inferred, bound, value, binds, last⟩
    exact ⟨valueTy, inferred, value, (), bound, binds, last⟩

theorem runs_blockRun {runSpan : Span} {tail : Expr} :
    Runs (inferExpr (.block (.run expr runSpan :: stmts) tail span)) before ty after ↔
      ∃ ignored middle, Runs (inferExpr expr) before ignored middle ∧
        Runs (inferExpr (.block stmts tail span)) middle ty after := by
  rw [inferExpr_blockRun, runs_bind]

end Rules

/-- The solved type, if inference reports nothing. -/
def quietType? (checker : Checker) (expr : Expr) : Option Ty :=
  match inferExpr expr checker with
  | .ok ty after => if after.log = checker.log then after.subst.applied? ty else none
  | .error _ _ => none

theorem exists_runs_of_quietType? {checker : Checker} {expr : Expr} {solved : Ty}
    (found : checker.quietType? expr = some solved) :
    ∃ ty after, Runs (inferExpr expr) checker ty after ∧ after.subst.apply ty = solved := by
  unfold quietType? at found
  split at found
  · next ty after ok =>
      split at found
      · next quiet =>
          rw [Subst.applied?, Option.ite_none_right_eq_some, Option.some.injEq] at found
          exact ⟨ty, after, ⟨ok, quiet⟩, found.2⟩
      · cases found
  · cases found

end Checker

end TraitCheck
