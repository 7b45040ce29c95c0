import TraitCheck.Proofs.DamasMilner

/-!
# Expressions whose values bind no names

Keeping the names of a `let` after the end of its block makes a difference only if the block is in
the value of another `let`: there the kept types may hold the variables that the outer `let` could
quantify. A derivation with scopes may happen to quantify a variable that the type of a kept name
mentions. So the statement for the induction allows for an assignment, and the quantified variables
are renamed apart from the kept names before the value is typed.
-/

namespace TraitCheck

open Env

variable {expr : Expr} {id : LocalId} {params : List Param} {types : List Ty}

namespace Expr

mutual

/-- How deep the `let`s of a core expression are nested in values of `let`s. -/
def letDepth : Expr → Nat
  | .list elems _ => letDepthAll elems
  | .tuple elems _ => letDepthAll elems
  | .record fields _ => letDepthFields fields
  | .lambda _ body _ => body.letDepth
  | .call callee args _ => max callee.letDepth (letDepthAll args)
  | .conditional condition thenBranch elseBranch _ =>
    max condition.letDepth (max thenBranch.letDepth elseBranch.letDepth)
  | .block stmts tail _ => max (letDepthStmts stmts) tail.letDepth
  | _ => 0

def letDepthAll : List Expr → Nat
  | [] => 0
  | expr :: rest => max expr.letDepth (letDepthAll rest)

def letDepthFields : List (Field Expr) → Nat
  | [] => 0
  | ⟨_, value, _⟩ :: rest => max value.letDepth (letDepthFields rest)

def letDepthStmts : List Stmt → Nat
  | [] => 0
  | .letBind _ _ value _ :: rest => max (value.letDepth + 1) (letDepthStmts rest)
  | .run expr _ :: rest => max expr.letDepth (letDepthStmts rest)
  | _ :: rest => letDepthStmts rest

end

attribute [local simp] letDepth letDepthAll letDepthFields letDepthStmts

theorem letDepthFields_eq (fields : List (Field Expr)) :
    letDepthFields fields = letDepthAll (fields.map (·.content)) := by
  induction fields with
  | nil => rfl
  | cons field rest ih => rw [letDepthFields, List.map_cons, letDepthAll, ih]

end Expr

/-- The names in scope have the types of an environment under an assignment. -/
structure Shows (names : Env) (scope : List LocalId) (env : Env) (assignment : VarId → Ty) :
    Prop where
  poly : ∀ ty ∈ env.values, ty.isPoly = true
  monos : Ty.Monos assignment
  knows : names.Knows scope
  visible : names.visible scope = env.bindVars assignment

section Shows

variable {names env : Env} {scope : List LocalId} {assignment : VarId → Ty}

section Shows

variable (shown : Shows names scope env assignment) {scheme : Ty}
include shown

theorem Shows.after {own : List LocalId} {later : Env}
    (apart : Apart own names) (growth : GrowsBy own names later) :
    Shows later scope env assignment :=
  ⟨shown.poly, shown.monos, shown.knows.after growth,
    (apart.visible_eq shown.knows growth).trans shown.visible⟩

theorem Shows.insert (new : id ∉ names.keys) (poly : scheme.isPoly = true) :
    Shows (names.insert id (scheme.bindVars assignment)) (scope ++ [id]) (env.insert id scheme)
      assignment := by
  refine ⟨fun ty member => ?_, shown.monos, shown.knows.insert new _, ?_⟩
  · rcases Table.mem_values_insert member with rfl | old
    · exact poly
    · exact shown.poly ty old
  · rw [visible_insert new, shown.visible, bindVars_insert]

theorem Shows.bindAll (apart : Apart (params.map (·.id)) names)
    (count : params.length = types.length) (monos : ∀ ty ∈ types, ty.isMono = true) :
    Shows (names.bindAll params (types.map (Ty.bindVars assignment)))
      (scope ++ params.map (·.id)) (env.bindAll params types) assignment := by
  have sameCount : params.length = (types.map (Ty.bindVars assignment)).length := by
    simpa using count
  refine ⟨fun ty member => ?_, shown.monos, shown.knows.bindAll apart sameCount, ?_⟩
  · rcases mem_values_bindAll member with given | old
    · exact Ty.isPoly_of_isMono (monos ty given)
    · exact shown.poly ty old
  · rw [visible_bindAll apart sameCount, shown.visible, bindVars_bindAll]

theorem Shows.find?
    (found : env.find? id = some scheme) : names.find? id = some (scheme.bindVars assignment) := by
  have seen : (names.visible scope).find? id = some (scheme.bindVars assignment) := by
    rw [shown.visible]
    exact find?_bindVars found
  have inScope : id ∈ scope := by
    have kept := List.of_mem_filter (Table.mem_entries_of_find? seen)
    simpa using kept
  rw [← seen, find?_visible inScope]

/-- What a `let` quantifies can be renamed apart from all names. -/
theorem Shows.rename {ty scheme : Ty} (generalises : ty.Generalises env.vars scheme) :
    ∃ inner, Shows names scope env inner ∧
      (ty.bindVars inner).Generalises names.vars (scheme.bindVars assignment) := by
  cases generalises with
  | itself => exact ⟨assignment, shown, .itself⟩
  | @quantify ids distinct free =>
    obtain ⟨start, above⟩ := Subst.exists_above
      (names.vars ++ ty.vars.flatMap fun source => (assignment source).vars)
    have same : env.bindVars (Subst.renamed ids start assignment) = env.bindVars assignment := by
      refine bindVars_congr fun other member => Ty.bindVars_congr fun id found => ?_
      refine Subst.renamed_of_not_mem fun quantified => free id quantified ?_
      exact List.mem_flatMap.mpr ⟨other, member, found⟩
    have shownRenamed : Shows names scope env (Subst.renamed ids start assignment) :=
      ⟨shown.poly, Subst.monos_renamed shown.monos, shown.knows, shown.visible.trans same.symm⟩
    refine ⟨Subst.renamed ids start assignment, shownRenamed, ?_⟩
    rw [Subst.quantify_bindVars]
    · refine .quantify (Subst.nodup_consecutive _ _) fun id member inNames => ?_
      exact absurd (Subst.le_of_mem_consecutive member)
        (not_le.mpr (above id (List.mem_append_left _ inNames)))
    · intro source occurs id found
      exact above id (List.mem_append_right _ (List.mem_flatMap.mpr ⟨source, occurs, found⟩))

end Shows

end Shows

/-- A typing in scopes is also one that keeps names, where names are only added by a `let`. -/
def Keepable (expr : Expr) : Prop :=
  ∀ ⦃names scope env assignment ty⦄, Shows names scope env assignment →
    Apart expr.binders names → expr.letDepth ≤ 1 → HasType env expr ty →
    ty.isMono = true ∧ ∃ kept, TypedKeeping names expr (ty.bindVars assignment) kept ∧
      (expr.letDepth = 0 → kept = names)

section Keepable

variable {names env : Env} {scope : List LocalId} {assignment : VarId → Ty} {exprs : List Expr}
  {span : Span} {stmts : List Stmt}

theorem keepable_all (cores : ∀ expr ∈ exprs, IsCore expr) (each : ∀ expr ∈ exprs, Keepable expr)
    (shown : Shows names scope env assignment)
    (apart : Apart (Expr.bindersAll exprs) names) (shallow : Expr.letDepthAll exprs ≤ 1)
    (count : exprs.length = types.length)
    (typed : ∀ pair ∈ exprs.zip types, HasType env pair.1 pair.2) :
    (∀ ty ∈ types, ty.isMono = true) ∧
      ∃ kept, AllTypedKeeping names exprs (types.map (Ty.bindVars assignment)) kept ∧
        (Expr.letDepthAll exprs = 0 → kept = names) := by
  induction exprs generalizing names types with
  | nil =>
    cases types with
    | nil => exact ⟨by simp, names, .nil names, fun _ => rfl⟩
    | cons ty types => simp at count
  | cons expr rest ih =>
    cases types with
    | nil => simp at count
    | cons ty types =>
      obtain ⟨core, restCores⟩ := List.forall_mem_cons.mp cores
      obtain ⟨keepable, restKeepable⟩ := List.forall_mem_cons.mp each
      rw [List.zip_cons_cons, List.forall_mem_cons] at typed
      rw [Expr.letDepthAll] at shallow ⊢
      obtain ⟨mono, middle, first, firstSame⟩ :=
        keepable shown apart.left (by omega) typed.1
      have grown := core.addsOwn apart.left first
      obtain ⟨monos, kept, others, othersSame⟩ := ih restCores restKeepable
        (shown.after apart.left grown) (apart.right grown) (by omega) (by simpa using count)
        typed.2
      refine ⟨List.forall_mem_cons.mpr ⟨mono, monos⟩, kept, .cons first others, fun none => ?_⟩
      rw [othersSame (by omega), firstSame (by omega)]

theorem keepable_list (cores : ∀ expr ∈ exprs, IsCore expr) (each : ∀ expr ∈ exprs, Keepable expr) :
    Keepable (.list exprs span) := by
  intro names scope env assignment ty shown apart shallow typed
  cases typed with
  | @list _ _ elem mono typedEach =>
    have pairs : ∀ pair ∈ exprs.zip (List.replicate exprs.length elem),
        HasType env pair.1 pair.2 := by
      intro pair member
      obtain ⟨isExpr, isElem⟩ := List.of_mem_zip member
      rw [List.eq_of_mem_replicate isElem]
      exact typedEach pair.1 isExpr
    obtain ⟨_, kept, all, same⟩ := keepable_all cores each shown apart shallow (by simp) pairs
    rw [List.map_replicate] at all
    have listMono : (Ty.list elem).isMono = true := by
      refine Ty.all_iff.mpr ⟨rfl, fun part member => ?_⟩
      rw [List.mem_singleton.mp member]
      exact mono
    exact ⟨listMono, kept, .list (Ty.isMono_bindVars shown.monos mono) all span, same⟩

theorem keepable_tuple (cores : ∀ expr ∈ exprs, IsCore expr)
    (each : ∀ expr ∈ exprs, Keepable expr) :
    Keepable (.tuple exprs span) := by
  intro names scope env assignment ty shown apart shallow typed
  cases typed with
  | tuple count typedEach =>
    obtain ⟨monos, kept, all, same⟩ := keepable_all cores each shown apart shallow count typedEach
    rw [Ty.bindVars_tuple]
    exact ⟨Ty.all_iff.mpr ⟨rfl, monos⟩, kept, .tuple all span, same⟩

theorem keepable_record {fields : List (Field Expr)}
    (cores : ∀ field ∈ fields, IsCore field.content)
    (each : ∀ field ∈ fields, Keepable field.content) : Keepable (.record fields span) := by
  intro names scope env assignment ty shown apart shallow typed
  rw [Expr.binders, Expr.bindersFields_eq] at apart
  simp only [Expr.letDepth, Expr.letDepthFields_eq] at shallow ⊢
  cases typed with
  | @record _ _ types count distinct typedEach =>
    have pairs : ∀ pair ∈ (fields.map (·.content)).zip types, HasType env pair.1 pair.2 := by
      rw [List.zip_map_left]
      intro pair member
      obtain ⟨source, sourceMem, rfl⟩ := List.mem_map.mp member
      exact typedEach source sourceMem
    obtain ⟨monos, kept, all, same⟩ := keepable_all (by simpa using cores) (by simpa using each)
      shown apart shallow (by simpa using count) pairs
    refine ⟨Ty.all_iff.mpr ⟨rfl, fun part member => ?_⟩, kept, ?_, same⟩
    · obtain ⟨field, fieldMem, rfl⟩ := List.mem_map.mp member
      rcases Row.mem_insertAll fieldMem with given | none
      · exact monos field.2 (List.of_mem_zip given).2
      · cases none
    · rw [Ty.bindVars_recordOf]
      exact .record distinct all span

theorem keepable_lambda {body : Expr} (keepable : Keepable body) :
    Keepable (.lambda params body span) := by
  intro names scope env assignment ty shown apart shallow typed
  cases typed with
  | @lambda _ _ types _ result count monos typedBody =>
    have sameCount : params.length = (types.map (Ty.bindVars assignment)).length := by
      simpa using count
    obtain ⟨mono, kept, keeps, same⟩ := keepable (shown.bindAll apart.left count monos)
      (apart.right (growsBy_bindAll apart.left sameCount)) shallow typedBody
    have imageMonos : ∀ ty ∈ types.map (Ty.bindVars assignment), ty.isMono = true := by
      intro ty member
      obtain ⟨source, sourceMem, rfl⟩ := List.mem_map.mp member
      exact Ty.isMono_bindVars shown.monos (monos source sourceMem)
    rw [Ty.bindVars_fn]
    refine ⟨Ty.all_iff.mpr ⟨rfl, fun part member => ?_⟩, _,
      .lambda sameCount imageMonos keeps span, fun none => ?_⟩
    · rcases List.mem_append.mp member with isParam | isResult
      · exact monos part isParam
      · exact List.mem_singleton.mp isResult ▸ mono
    · rw [same none, eraseAll_bindAll apart.left sameCount]

theorem keepable_call {callee : Expr} (core : IsCore callee) (cores : ∀ expr ∈ exprs, IsCore expr)
    (keepable : Keepable callee) (each : ∀ expr ∈ exprs, Keepable expr) :
    Keepable (.call callee exprs span) := by
  intro names scope env assignment ty shown apart shallow typed
  rw [Expr.letDepth] at shallow ⊢
  cases typed with
  | @call _ _ _ types _ function count typedEach =>
    obtain ⟨mono, middle, called, calledSame⟩ := keepable shown apart.left (by omega) function
    have grown := core.addsOwn apart.left called
    obtain ⟨_, kept, all, allSame⟩ := keepable_all cores each (shown.after apart.left grown)
      (apart.right grown) (by omega) count typedEach
    rw [Ty.bindVars_fn] at called
    refine ⟨Ty.all_of_part mono (by simp [Ty.parts]), kept, .call called all span, fun none => ?_⟩
    rw [allSame (by omega), calledSame (by omega)]

theorem keepable_conditional {condition thenBranch elseBranch : Expr}
    (conditionCore : IsCore condition) (thenCore : IsCore thenBranch)
    (conditionKeepable : Keepable condition) (thenKeepable : Keepable thenBranch)
    (elseKeepable : Keepable elseBranch) :
    Keepable (.conditional condition thenBranch elseBranch span) := by
  intro names scope env assignment ty shown apart shallow typed
  rw [Expr.letDepth] at shallow ⊢
  cases typed with
  | conditional test whenTrue whenFalse =>
    obtain ⟨_, tested, typedTest, testedSame⟩ :=
      conditionKeepable shown apart.left (by omega) test
    have testGrown := conditionCore.addsOwn apart.left typedTest
    have branches := apart.right testGrown
    have shownTested := shown.after apart.left testGrown
    obtain ⟨mono, middle, typedThen, middleSame⟩ :=
      thenKeepable shownTested branches.left (by omega) whenTrue
    have thenGrown := thenCore.addsOwn branches.left typedThen
    obtain ⟨_, kept, typedElse, keptSame⟩ :=
      elseKeepable (shownTested.after branches.left thenGrown) (branches.right thenGrown)
        (by omega) whenFalse
    refine ⟨mono, kept, .conditional typedTest typedThen typedElse span, fun none => ?_⟩
    rw [keptSame (by omega), middleSame (by omega), testedSame (by omega)]

theorem keepable_blockLet {name : String} {nameSpan letSpan : Span} {declared : Ty}
    {value tail : Expr} (valueCore : IsCore value)
    (valueKeepable : Keepable value) (restKeepable : Keepable (.block stmts tail span)) :
    Keepable
      (.block (.letBind (.bind id name nameSpan) declared value letSpan :: stmts) tail span) := by
  intro names scope env assignment ty shown apart shallow typed
  simp only [Expr.binders, Expr.bindersStmts, List.append_assoc, List.cons_append] at apart
  simp only [Expr.letDepth, Expr.letDepthStmts] at shallow ⊢
  have valueFlat : value.letDepth = 0 := by omega
  cases typed with
  | @blockLet _ _ _ _ _ _ _ valueTy scheme _ _ _ _ bound generalises rest =>
    obtain ⟨inner, innerShown, innerGeneralises⟩ := shown.rename generalises
    obtain ⟨valueMono, _, keeps, same⟩ :=
      valueKeepable innerShown apart.left (by omega) bound
    -- The value adds no names, so the `let` generalises in the environment it is found in.
    cases same valueFlat
    have named : Apart (id :: Expr.binders (.block stmts tail span)) names :=
      apart.right (valueCore.addsOwn apart.left keeps)
    obtain ⟨mono, kept, keepsRest, _⟩ := restKeepable
      (shown.insert (named.new id List.mem_cons_self) (generalises.isPoly valueMono))
      (named.insert _) (by rw [Expr.letDepth]; omega) rest
    exact ⟨mono, kept, .blockLet keeps innerGeneralises keepsRest, by omega⟩

theorem keepable_blockRun {tail : Expr} {runSpan : Span} (core : IsCore expr)
    (keepable : Keepable expr) (restKeepable : Keepable (.block stmts tail span)) :
    Keepable (.block (.run expr runSpan :: stmts) tail span) := by
  intro names scope env assignment ty shown apart shallow typed
  simp only [Expr.binders, Expr.bindersStmts, List.append_assoc] at apart
  simp only [Expr.letDepth, Expr.letDepthStmts] at shallow ⊢
  cases typed with
  | blockRun first rest =>
    obtain ⟨_, middle, keepsFirst, firstSame⟩ := keepable shown apart.left (by omega) first
    have grown := core.addsOwn apart.left keepsFirst
    obtain ⟨mono, kept, keepsRest, restSame⟩ := restKeepable (shown.after apart.left grown)
      (apart.right grown) (by rw [Expr.letDepth]; omega) rest
    refine ⟨mono, kept, .blockRun keepsFirst keepsRest, fun none => ?_⟩
    rw [restSame (by rw [Expr.letDepth]; omega), firstSame (by omega)]

end Keepable

theorem IsCore.keepable (core : IsCore expr) : Keepable expr := by
  induction core with
  | literal value =>
    intro names scope env assignment ty shown apart shallow typed
    cases typed
    exact ⟨rfl, names, .literal names value, fun _ => rfl⟩
  | localRef id span =>
    intro names scope env assignment ty shown apart shallow typed
    cases typed with
    | @localRef _ _ scheme _ found isInstance =>
      have poly := shown.poly scheme (Table.mem_values_of_find? found)
      exact ⟨isInstance.isMono poly, names,
        .localRef (shown.find? found) (isInstance.bindVars poly shown.monos) span, fun _ => rfl⟩
  | list each span ih => exact keepable_list each ih
  | tuple each span ih => exact keepable_tuple each ih
  | record each span ih => exact keepable_record each ih
  | lambda open_ inner span ih => exact keepable_lambda ih
  | call calleeCore each span ihCallee ihArgs =>
    exact keepable_call calleeCore each ihCallee ihArgs
  | conditional conditionCore thenCore elseCore span ihCondition ihThen ihElse =>
    exact keepable_conditional conditionCore thenCore ihCondition ihThen ihElse
  | blockEnd tailCore span ih =>
    intro names scope env assignment ty shown apart shallow typed
    simp only [Expr.letDepth, Expr.letDepthStmts, Nat.zero_max] at shallow ⊢
    cases typed with
    | blockEnd last =>
      obtain ⟨mono, kept, keeps, same⟩ := ih shown apart shallow last
      exact ⟨mono, kept, .blockEnd keeps span, same⟩
  | blockLet id name nameSpan letSpan open_ valueCore rest ihValue ihRest =>
    exact keepable_blockLet valueCore ihValue ihRest
  | blockRun runSpan exprCore rest ihExpr ihRest => exact keepable_blockRun exprCore ihExpr ihRest

theorem HasType.typedKeeping {env : Env} {ty : Ty} (typed : HasType env expr ty)
    (core : IsCore expr) (apart : Apart expr.binders env)
    (poly : ∀ ty ∈ env.values, ty.isPoly = true) (shallow : expr.letDepth ≤ 1) :
    ∃ kept, TypedKeeping env expr ty kept := by
  have unchanged : env.bindVars Ty.var = env := by
    rw [Env.bindVars, Table.mapValues, List.map_congr_left fun entry _ => by
      rw [Ty.bindVars_self, Prod.mk.eta], List.map_id']
  have shown : Shows env env.keys env Ty.var :=
    ⟨poly, fun _ => rfl, fun _ member => member, by
      rw [unchanged, visible_eq_self fun _ member => member]⟩
  obtain ⟨_, kept, keeps, _⟩ := core.keepable shown apart shallow typed
  rw [Ty.bindVars_self] at keeps
  exact ⟨kept, keeps⟩

end TraitCheck
