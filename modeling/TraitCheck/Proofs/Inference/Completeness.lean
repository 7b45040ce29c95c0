import TraitCheck.Proofs.Inference.Soundness
import TraitCheck.Proofs.ShallowLets

/-!
# Completeness of inference

Inference accepts what is typable in the system that keeps names, and finds the most general type.
The induction goes along with a given derivation: an assignment gives the variables of the state the
types that they have in the derivation, and it is extended whenever new variables are taken
(`Fits`). The environment of the derivation may be less general than that of the state, since a
derivation may quantify fewer variables than inference does.
-/

namespace TraitCheck

variable {kept : Env}
variable {scheme : Ty} {body : Expr} {id : LocalId} {types : List Ty}

namespace Env

/-- An environment has the same names as another one, with types that are at least as general. -/
def Covers (general special : Env) : Prop :=
  List.Forall₂ (fun entry entry' => entry.1 = entry'.1 ∧ entry.2.Covers entry'.2 ∧
    entry'.2.isPoly = true) general.entries special.entries

section Covers

variable {general special : Env}

section Covers

variable (covers : general.Covers special)
include covers

theorem Covers.find? (found : special.find? id = some scheme) :
    ∃ more, general.find? id = some more ∧ more.Covers scheme := by
  -- The induction on `Forall₂` needs the entries of both tables as variables.
  obtain ⟨entries⟩ := general
  obtain ⟨entries'⟩ := special
  change List.Forall₂ _ entries entries' at covers
  change Table.entryAt? id entries' = _ at found
  change ∃ more, Table.entryAt? id entries = _ ∧ _
  induction covers with
  | nil => cases found
  | @cons entry entry' _ _ first _ ih =>
    obtain ⟨sameKey, covers, _⟩ := first
    obtain ⟨key, more⟩ := entry
    obtain ⟨key', less⟩ := entry'
    cases sameKey
    by_cases hit : key = id
    · simp only [Table.entryAt?, hit, ↓reduceIte, Option.some.injEq] at found ⊢
      exact ⟨more, rfl, found ▸ covers⟩
    · simp only [Table.entryAt?, hit, ↓reduceIte] at found ⊢
      exact ih found

theorem Covers.insert {more less : Ty}
    (tyCovers : more.Covers less) (poly : less.isPoly = true) (id : LocalId) :
    Env.Covers (general.insert id more) (special.insert id less) := by
  obtain ⟨entries⟩ := general
  obtain ⟨entries'⟩ := special
  change List.Forall₂ _ entries entries' at covers
  change List.Forall₂ _ (Table.setEntry id more entries) (Table.setEntry id less entries')
  induction covers with
  | nil => exact .cons ⟨rfl, tyCovers, poly⟩ .nil
  | @cons entry entry' _ _ first rest ih =>
    obtain ⟨key, _⟩ := entry
    obtain ⟨key', _⟩ := entry'
    cases first.1
    by_cases hit : key = id
    · simp only [Table.setEntry, hit, ↓reduceIte]
      exact .cons ⟨rfl, tyCovers, poly⟩ rest
    · simp only [Table.setEntry, hit, ↓reduceIte]
      exact .cons first ih

theorem Covers.bindAll (params : List Param) (monos : ∀ ty ∈ types, ty.isMono = true) :
    (general.bindAll params types).Covers (special.bindAll params types) := by
  induction params generalizing general special types with
  | nil => exact covers
  | cons param params ih =>
    cases types with
    | nil => exact covers
    | cons ty types =>
      obtain ⟨mono, restMonos⟩ := List.forall_mem_cons.mp monos
      exact ih (covers.insert (fun _ isInstance => isInstance) (Ty.isPoly_of_isMono mono) _)
        restMonos

theorem Covers.eraseAll (params : List Param) :
    (general.eraseAll params).Covers (special.eraseAll params) := by
  unfold Covers
  rw [entries_eraseAll, entries_eraseAll]
  obtain ⟨entries⟩ := general
  obtain ⟨entries'⟩ := special
  change List.Forall₂ _ entries entries' at covers
  dsimp only
  induction covers with
  | nil => exact .nil
  | @cons entry entry' _ _ first rest ih =>
    rw [List.filter_cons, List.filter_cons, first.1]
    split
    · exact .cons first ih
    · exact ih

theorem Covers.vars_subset {ty : Ty}
    (member : ty ∈ general.values) : ∀ id ∈ ty.vars, id ∈ special.vars := by
  obtain ⟨entries⟩ := general
  obtain ⟨entries'⟩ := special
  change List.Forall₂ _ entries entries' at covers
  change ty ∈ entries.map Prod.snd at member
  change ∀ id ∈ ty.vars, id ∈ (entries'.map Prod.snd).flatMap Ty.vars
  induction covers with
  | nil => cases member
  | @cons entry entry' _ _ first _ ih =>
    intro id found
    rw [List.map_cons, List.flatMap_cons, List.mem_append]
    rcases List.mem_cons.mp member with rfl | inRest
    · exact .inl (first.2.1.vars_subset first.2.2 id found)
    · exact .inr (ih inRest id found)

end Covers

end Covers

end Env

namespace Checker

open Env

variable {reserved : List VarId} {expr : Expr} {exprs : List Expr} {before after : Checker}
  {assignment later : VarId → Ty} {special : Env} {ty : Ty}

/-- Agreement on the variables handed out before. -/
def AgreeBelow (next : Nat) (assignment later : VarId → Ty) : Prop :=
  ∀ id : VarId, id < next → later id = assignment id

theorem AgreeBelow.trans {next further : Nat} {last : VarId → Ty}
    (agree : AgreeBelow next assignment later) (agree' : AgreeBelow further later last)
    (grown : next ≤ further) : AgreeBelow next assignment last := by
  intro id below
  rw [agree' id (lt_of_lt_of_le below (Int.ofNat_le.mpr grown)), agree id below]

theorem AgreeBelow.bindVars {next : Nat} (agree : AgreeBelow next assignment later)
    (taken : ty.Taken reserved next) : ty.bindVars later = ty.bindVars assignment :=
  Ty.bindVars_congr fun id found => agree id (taken id found).1

/-- A state and an assignment fit an environment of a derivation: under the assignment, the bindings
are equations and the locals have types that are at least as general. -/
structure Fits (reserved : List VarId) (checker : Checker) (assignment : VarId → Ty)
    (special : Env) : Prop where
  wellFormed : checker.WellFormed reserved
  globals : ∀ ty ∈ checker.globals.values, ty.isPresent = true ∧ ∀ id ∈ ty.vars, id ∈ reserved
  monos : Ty.Monos assignment
  satisfies : Subst.Satisfies assignment checker.subst
  covers : (checker.env.bindVars assignment).Covers special

theorem Fits.step (fits : before.Fits reserved assignment special)
    (follows : before.Follows reserved after) (sameEnv : after.env = before.env)
    (monos : Ty.Monos later) (satisfies : Subst.Satisfies later after.subst)
    (agree : AgreeBelow before.supply.next assignment later) :
    after.Fits reserved later special := by
  refine ⟨follows.wellFormed, follows.globals ▸ fits.globals, monos, satisfies, ?_⟩
  rw [sameEnv, bindVars_congr fun ty member => agree.bindVars (fits.wellFormed.taken ty member)]
  exact fits.covers

/-- Inference on an expression follows every derivation for it. -/
def Complete (reserved : List VarId) (expr : Expr) : Prop :=
  ∀ ⦃before assignment special ty kept⦄, before.Fits reserved assignment special →
    Apart expr.binders before.env → TypedKeeping special expr ty kept →
    ∃ found after later, Runs (inferExpr expr) before found after ∧
      after.Fits reserved later kept ∧ AgreeBelow before.supply.next assignment later ∧
      found.bindVars later = ty

theorem Fits.runs_unify (fits : before.Fits reserved assignment special) {expected found : Ty}
    (expectedOwned : expected.Owned reserved before.supply.next)
    (foundOwned : found.Owned reserved before.supply.next)
    (equal : expected.bindVars assignment = found.bindVars assignment) :
    ∃ after, Runs (unify expected found) before none after ∧
      after.Fits reserved assignment special ∧ before.Follows reserved after ∧
      after.env = before.env ∧ after.supply = before.supply := by
  obtain ⟨after, ran, satisfies⟩ :=
    fits.wellFormed.runs_unify expectedOwned foundOwned fits.satisfies equal
  obtain ⟨follows, sameEnv, sameSupply⟩ :=
    ran.follows_unify fits.wellFormed expectedOwned foundOwned
  have fitsAfter := fits.step follows sameEnv fits.monos satisfies fun _ _ => rfl
  exact ⟨after, ran, fitsAfter, follows, sameEnv, sameSupply⟩

theorem Fits.fresh (fits : before.Fits reserved assignment special) {image : Ty}
    (mono : image.isMono = true) :
    Fits reserved { before with supply := ⟨before.supply.next + 1⟩ }
      (extending assignment before.supply.next [image]) special := by
  refine fits.step (fits.wellFormed.follows_raise (Nat.le_succ _)) rfl
    (monos_extending fits.monos (by simpa using mono) _) ?_ fun id below => extending_of_lt below
  exact fits.wellFormed.satisfies_congr fits.satisfies fun id below => extending_of_lt below

theorem agreeBelow_extending (assignment : VarId → Ty) (next : Nat) (images : List Ty) :
    AgreeBelow next assignment (extending assignment next images) :=
  fun _ below => extending_of_lt below

theorem complete_inferAll (cores : ∀ expr ∈ exprs, IsCore expr)
    (each : ∀ expr ∈ exprs, Complete reserved expr)
    (fits : before.Fits reserved assignment special)
    (apart : Apart (Expr.bindersAll exprs) before.env)
    (typed : AllTypedKeeping special exprs types kept) :
    ∃ founds after later, Runs (inferAll exprs) before founds after ∧
      after.Fits reserved later kept ∧ AgreeBelow before.supply.next assignment later ∧
      founds.map (Ty.bindVars later) = types := by
  induction exprs generalizing before assignment special types with
  | nil =>
    cases typed
    exact ⟨[], before, assignment, runs_inferAll_nil.mpr ⟨rfl, rfl⟩, fits, fun _ _ => rfl, rfl⟩
  | cons expr rest ih =>
    obtain ⟨core, restCores⟩ := List.forall_mem_cons.mp cores
    obtain ⟨complete, restComplete⟩ := List.forall_mem_cons.mp each
    cases typed with
    | cons first others =>
      obtain ⟨found, middle, later, ran, fitsMiddle, agree, rfl⟩ :=
        complete fits apart.left first
      have inferred := sound_inferExpr core fits.wellFormed apart.left ran
      obtain ⟨founds, after, last, ranRest, fitsAfter, agreeRest, rfl⟩ :=
        ih restCores restComplete fitsMiddle (inferred.apart core apart) others
      refine ⟨found :: founds, after, last, ?_, fitsAfter,
        agree.trans agreeRest inferred.follows.supply, ?_⟩
      · exact runs_inferAll_cons.mpr
          ⟨found, middle, founds, ran, ranRest, rfl⟩
      · rw [List.map_cons, agreeRest.bindVars inferred.owned.taken]

theorem complete_inferElements (cores : ∀ expr ∈ exprs, IsCore expr)
    (each : ∀ expr ∈ exprs, Complete reserved expr) {elem : Ty}
    (fits : before.Fits reserved assignment special)
    (apart : Apart (Expr.bindersAll exprs) before.env)
    (owned : elem.Owned reserved before.supply.next) (typed : AllTypedKeeping special exprs
      (List.replicate exprs.length (elem.bindVars assignment)) kept) :
    ∃ after later, Runs (inferElements elem exprs) before () after ∧
      after.Fits reserved later kept ∧ AgreeBelow before.supply.next assignment later := by
  induction exprs generalizing before assignment special with
  | nil =>
    cases typed
    exact ⟨before, assignment, runs_inferElements_nil.mpr rfl, fits, fun _ _ => rfl⟩
  | cons expr rest ih =>
    obtain ⟨core, restCores⟩ := List.forall_mem_cons.mp cores
    obtain ⟨complete, restComplete⟩ := List.forall_mem_cons.mp each
    cases typed with
    | cons first others =>
      obtain ⟨found, middle, later, ran, fitsMiddle, agree, same⟩ :=
        complete fits apart.left first
      have inferred := sound_inferExpr core fits.wellFormed apart.left ran
      have elemOwned := owned.raise inferred.follows.supply
      have elemSame := agree.bindVars owned.taken
      obtain ⟨compared, agreed, fitsCompared, _, sameEnv, sameSupply⟩ :=
        fitsMiddle.runs_unify elemOwned inferred.owned (elemSame.trans same.symm)
      obtain ⟨after, last, ranRest, fitsAfter, agreeRest⟩ :=
        ih restCores restComplete fitsCompared (sameEnv ▸ inferred.apart core apart)
          (sameSupply ▸ elemOwned) (elemSame ▸ others)
      rw [sameSupply] at agreeRest
      refine ⟨after, last, ?_, fitsAfter, agree.trans agreeRest inferred.follows.supply⟩
      exact (runs_inferElements_cons core).mpr
        ⟨found, middle, compared, ran, agreed, ranRest⟩

/-- Every instance of a type can be reached by instantiation and an assignment to the new
variables. -/
theorem exists_instantiate (supply : Supply) (poly : scheme.isPoly = true)
    (taken : scheme.Taken reserved supply.next) (monos : Ty.Monos assignment)
    (isInstance : (scheme.bindVars assignment).Instance ty) :
    ∃ found after images, supply.instantiate scheme = (some found, after) ∧
      (∀ image ∈ images, image.isMono = true) ∧
      found.bindVars (extending assignment supply.next images) = ty := by
  generalize changed : scheme.bindVars assignment = more at isInstance
  rcases Ty.scheme_or_isMono poly with ⟨names, body, rfl⟩ | mono
  · rw [Ty.bindVars_scheme] at changed
    cases isInstance with
    | mono mono =>
      subst changed
      cases Ty.isScheme_of_isMono mono
    | @scheme _ _ images count imageMonos =>
      cases changed
      refine ⟨_, _, images, instantiate_scheme supply poly, imageMonos, ?_⟩
      have extended := monos_extending monos imageMonos supply.next
      rw [Ty.bindVars_substParams poly (fun id _ => extended id), ← count, map_nextVars]
      congr 1
      exact Ty.bindVars_congr fun id found =>
        extending_of_lt (taken id (by simpa [Ty.vars_scheme] using found)).1
  · refine ⟨scheme, supply, [], instantiate_of_isMono supply mono, by simp, ?_⟩
    rw [bindVars_extending taken, changed]
    exact (isInstance.eq_of_isMono (changed ▸ Ty.isMono_bindVars monos mono)).symm

section Rules

variable {span : Span} {stmts : List Stmt}

theorem complete_localRef (id : LocalId) : Complete reserved (.localRef id span) := by
  intro before assignment special ty kept fits apart typed
  cases typed with
  | @localRef _ _ less _ found isInstance =>
    obtain ⟨more, inGeneral, covers⟩ := fits.covers.find? found
    rw [Env.bindVars, env, Table.find?_mapValues, Table.find?_mapValues, Locals.find?_toTable,
      Option.map_map, Option.map_eq_some_iff] at inGeneral
    obtain ⟨info, known, rfl⟩ := inGeneral
    have member : info.ty ∈ before.env.values := by
      rw [env, Table.values_mapValues, Locals.values_toTable]
      exact List.mem_map_of_mem (Locals.mem_values_of_find? known)
    obtain ⟨result, supply, images, instantiated, imageMonos, same⟩ := exists_instantiate
      before.supply (fits.wellFormed.poly _ member) (fits.wellFormed.taken _ member) fits.monos
      (covers ty isInstance)
    have ran : Runs (inferLocal id span) before result { before with
        locals := before.locals.refer id, supply } :=
      runs_inferLocal.mpr ⟨info, known, by rw [instantiated], by rw [instantiated]⟩
    obtain ⟨follows, sameEnv, _⟩ := ran.follows_inferLocal fits.wellFormed
    refine ⟨result, _, extending assignment before.supply.next images, by rwa [inferExpr], ?_,
      agreeBelow_extending _ _ _, same⟩
    exact fits.step follows sameEnv (monos_extending fits.monos imageMonos _)
      (fits.wellFormed.satisfies_congr fits.satisfies (agreeBelow_extending _ _ _))
      (agreeBelow_extending _ _ _)

theorem complete_list (cores : ∀ expr ∈ exprs, IsCore expr)
    (each : ∀ expr ∈ exprs, Complete reserved expr) : Complete reserved (.list exprs span) := by
  intro before assignment special ty kept fits apart typed
  cases typed with
  | @list _ _ _ elem mono all =>
    have isElem := extending_next assignment before.supply.next elem
    obtain ⟨after, later, ran, fitsAfter, agree⟩ := complete_inferElements cores each
      (fits.fresh mono) apart fits.wellFormed.owned_next (by rwa [Ty.bindVars_var, isElem])
    refine ⟨_, after, later, runs_list.mpr ⟨ran, rfl⟩, fitsAfter,
      (agreeBelow_extending _ _ _).trans agree (Nat.le_succ _), ?_⟩
    have stillElem := agree.bindVars fits.wellFormed.owned_next.taken
    rw [Ty.bindVars_var, Ty.bindVars_var, isElem] at stillElem
    simp [Ty.list, stillElem]

theorem complete_tuple (cores : ∀ expr ∈ exprs, IsCore expr)
    (each : ∀ expr ∈ exprs, Complete reserved expr) : Complete reserved (.tuple exprs span) := by
  intro before assignment special ty kept fits apart typed
  cases typed with
  | tuple all =>
    obtain ⟨founds, after, later, ran, fitsAfter, agree, rfl⟩ :=
      complete_inferAll cores each fits apart all
    exact ⟨_, after, later, runs_tuple.mpr ⟨founds, ran, rfl⟩, fitsAfter, agree,
      Ty.bindVars_tuple _ _⟩

theorem complete_record {fields : List (Field Expr)}
    (cores : ∀ field ∈ fields, IsCore field.content)
    (each : ∀ field ∈ fields, Complete reserved field.content) :
    Complete reserved (.record fields span) := by
  intro before assignment special ty kept fits apart typed
  rw [Expr.binders, Expr.bindersFields_eq] at apart
  cases typed with
  | record distinct all =>
    obtain ⟨founds, after, later, ran, fitsAfter, agree, rfl⟩ :=
      complete_inferAll (by simpa using cores) (by simpa using each) fits apart all
    exact ⟨_, after, later, runs_record.mpr ⟨founds, ran, distinct, rfl⟩, fitsAfter,
      agree, Ty.bindVars_recordOf _ _ _⟩

theorem complete_lambda {params : List Param}
    (open_ : ∀ param ∈ params, param.ty.isDeclared = false) (core : IsCore body)
    (complete : Complete reserved body) : Complete reserved (.lambda params body span) := by
  intro before assignment special ty kept fits apart typed
  cases typed with
  | @lambda _ _ _ images _ _ count imageMonos typedBody =>
    obtain ⟨types, bound, entered⟩ := exists_runs_bindParams open_ before
    obtain ⟨enters, boundEnv, sameBindings, rfl, owned⟩ :=
      entered.follows_bindParams open_ fits.wellFormed
    have agreeBound := agreeBelow_extending assignment before.supply.next images
    have given : (nextVars before.supply.next params.length).map
        (Ty.bindVars (extending assignment before.supply.next images)) = images := by
      rw [count, map_nextVars]
    have unchanged : before.env.bindVars (extending assignment before.supply.next images) =
        before.env.bindVars assignment :=
      bindVars_congr fun ty member => agreeBound.bindVars (fits.wellFormed.taken ty member)
    have fitsBound : bound.Fits reserved (extending assignment before.supply.next images)
        (special.bindAll params images) := by
      refine ⟨enters.wellFormed, enters.globals ▸ fits.globals,
        monos_extending fits.monos imageMonos _, ?_, ?_⟩
      · rw [sameBindings]
        exact fits.wellFormed.satisfies_congr fits.satisfies agreeBound
      · rw [boundEnv, bindVars_bindAll, given, unchanged]
        exact fits.covers.bindAll params imageMonos
    have bodyApart : Apart body.binders bound.env := by
      rw [boundEnv]
      exact apart.right (growsBy_bindAll apart.left (by simp))
    obtain ⟨result, inner, later, ranBody, fitsInner, agree, rfl⟩ :=
      complete fitsBound bodyApart typedBody
    have ran : Runs (inferExpr (.lambda params body span)) before _ _ :=
      runs_lambda.mpr ⟨_, bound, result, inner, entered, ranBody, rfl, rfl⟩
    have inferred := sound_inferExpr (.lambda open_ core span) fits.wellFormed apart ran
    refine ⟨_, _, later, ran, ⟨inferred.follows.wellFormed, ?_, fitsInner.monos,
      fitsInner.satisfies, ?_⟩, agreeBound.trans agree enters.supply, ?_⟩
    · exact inferred.follows.globals ▸ fits.globals
    · have erased := fitsInner.covers.eraseAll params
      rw [← bindVars_eraseAll, env, ← env_removeAll] at erased
      exact erased
    · rw [Ty.bindVars_fn, List.map_congr_left fun ty member =>
        agree.bindVars (owned ty member).taken, given]

theorem complete_call {callee : Expr} (core : IsCore callee) (cores : ∀ expr ∈ exprs, IsCore expr)
    (complete : Complete reserved callee) (each : ∀ expr ∈ exprs, Complete reserved expr) :
    Complete reserved (.call callee exprs span) := by
  intro before assignment special ty kept fits apart typed
  cases typed with
  | @call _ middle _ _ _ types _ function all =>
    obtain ⟨calleeTy, called, first, ranCallee, fitsCalled, agreeCalled, isFunction⟩ :=
      complete fits apart.left function
    have inferred := sound_inferExpr core fits.wellFormed apart.left ranCallee
    have argsApart := inferred.apart core apart
    obtain ⟨founds, supplied, second, ranArgs, fitsSupplied, agreeSupplied, areArgs⟩ :=
      complete_inferAll cores each fitsCalled argsApart all
    obtain ⟨follows, owned, _⟩ :=
      sound_inferAll cores (fun expr member => sound_inferExpr (cores expr member))
        inferred.follows.wellFormed argsApart ranArgs
    have monoFunction : (Ty.fn types ty).isMono = true :=
      isFunction ▸ Ty.isMono_bindVars fitsCalled.monos inferred.owned.mono
    have mono : ty.isMono = true := Ty.all_of_part monoFunction (by simp [Ty.parts])
    have calleeOwned := inferred.owned.raise follows.supply
    have agreeFresh := agreeBelow_extending second supplied.supply.next [ty]
    have isResult := extending_next second supplied.supply.next ty
    have equal : calleeTy.bindVars (extending second supplied.supply.next [ty]) =
        (Ty.fn founds (.var supplied.supply.next)).bindVars
          (extending second supplied.supply.next [ty]) := by
      rw [agreeFresh.bindVars calleeOwned.taken, agreeSupplied.bindVars inferred.owned.taken,
        isFunction, Ty.bindVars_fn, Ty.bindVars_var, isResult, ← areArgs,
        List.map_congr_left fun ty member => agreeFresh.bindVars (owned ty member).taken]
    have raised := Nat.le_succ supplied.supply.next
    obtain ⟨after, compared, fitsAfter, _⟩ := (fitsSupplied.fresh mono).runs_unify
      (calleeOwned.raise raised) (Ty.owned_fn (fun ty member => (owned ty member).raise raised)
        fitsSupplied.wellFormed.owned_next) equal
    refine ⟨_, after, _, runs_call.mpr
      ⟨calleeTy, called, founds, supplied, ranCallee, ranArgs, rfl, compared⟩, fitsAfter, ?_,
      isResult⟩
    exact (agreeCalled.trans agreeSupplied inferred.follows.supply).trans agreeFresh
      (inferred.follows.supply.trans follows.supply)

theorem complete_conditional {condition thenBranch elseBranch : Expr}
    (conditionCore : IsCore condition) (thenCore : IsCore thenBranch) (elseCore : IsCore elseBranch)
    (conditionComplete : Complete reserved condition) (thenComplete : Complete reserved thenBranch)
    (elseComplete : Complete reserved elseBranch) :
    Complete reserved (.conditional condition thenBranch elseBranch span) := by
  intro before assignment special ty kept fits apart typed
  cases typed with
  | conditional typedCondition typedThen typedElse =>
    obtain ⟨conditionTy, inferred, first, ranCondition, fitsInferred, agreeInferred, isBool⟩ :=
      conditionComplete fits apart.left typedCondition
    have test := sound_inferExpr conditionCore fits.wellFormed apart.left ranCondition
    obtain ⟨tested, ranBool, fitsTested, tests, testedEnv, testedSupply⟩ :=
      fitsInferred.runs_unify (Ty.owned_prim .bool) test.owned isBool.symm
    have branches : Apart (thenBranch.binders ++ elseBranch.binders) tested.env :=
      testedEnv ▸ test.apart conditionCore apart
    obtain ⟨thenTy, taken, second, ranThen, fitsTaken, agreeTaken, isThen⟩ :=
      thenComplete fitsTested branches.left typedThen
    have whenTrue := sound_inferExpr thenCore fitsTested.wellFormed branches.left ranThen
    have mono : ty.isMono = true :=
      isThen ▸ Ty.isMono_bindVars fitsTaken.monos whenTrue.owned.mono
    -- The result variable is given the type of the derivation, so both branches can be joined.
    have agreeFresh := agreeBelow_extending second taken.supply.next [ty]
    have isResult := extending_next second taken.supply.next ty
    have raised := Nat.le_succ taken.supply.next
    have resultOwned := whenTrue.follows.wellFormed.owned_next
    obtain ⟨joined, ranJoin, fitsJoined, joins, joinedEnv, _⟩ :=
      (fitsTaken.fresh mono).runs_unify resultOwned (whenTrue.owned.raise raised) (by
        rw [agreeFresh.bindVars whenTrue.owned.taken, isThen, Ty.bindVars_var, isResult])
    have elseApart : Apart elseBranch.binders joined.env :=
      joinedEnv ▸ whenTrue.apart thenCore branches
    obtain ⟨elseTy, last, third, ranElse, fitsLast, agreeLast, isElse⟩ :=
      elseComplete fitsJoined elseApart typedElse
    have whenFalse := sound_inferExpr elseCore fitsJoined.wellFormed elseApart ranElse
    have resultOwnedJoined := resultOwned.raise joins.supply
    have stillResult := agreeLast.bindVars resultOwnedJoined.taken
    rw [Ty.bindVars_var, Ty.bindVars_var, isResult] at stillResult
    obtain ⟨after, ranAgree, fitsAfter, _⟩ := fitsLast.runs_unify
      (resultOwnedJoined.raise whenFalse.follows.supply) whenFalse.owned
      (by rw [Ty.bindVars_var, stillResult, isElse])
    refine ⟨_, after, third, (runs_conditional conditionCore elseCore).mpr
      ⟨conditionTy, inferred, tested, thenTy, taken, none, joined, elseTy, last, ranCondition,
        ranBool, ranThen, rfl, ranJoin, ranElse, ranAgree⟩, fitsAfter, ?_, stillResult⟩
    have agreeJoined := agreeFresh.trans agreeLast (raised.trans joins.supply)
    exact (agreeInferred.trans agreeTaken (test.follows.trans tests).supply).trans agreeJoined
      ((test.follows.trans tests).trans whenTrue.follows).supply

/-- A variable that inference may not quantify stands for a type all of whose variables are
mentioned by the environment of the derivation. -/
theorem Fits.vars_fixed (fits : before.Fits reserved assignment special) {id : VarId}
    (fixed : id ∈ before.fixedVars) (free : id ∉ reserved) :
    ∀ other ∈ (assignment id).vars, other ∈ special.vars := by
  intro other found
  obtain ⟨ty, member, occurs⟩ := List.mem_flatMap.mp fixed
  rcases List.mem_append.mp member with isLocal | isGlobal
  · have inImage : other ∈ (ty.bindVars assignment).vars := by
      rw [← fits.satisfies.bindVars_apply ty]
      exact Ty.mem_vars_bindVars.mpr ⟨id, occurs, found⟩
    refine fits.covers.vars_subset ?_ other inImage
    rw [Env.bindVars, env, Table.values_mapValues, Table.values_mapValues, Locals.values_toTable]
    exact List.mem_map_of_mem isLocal
  · -- The variables of the types of functions are not bound, so solving them changes nothing.
    obtain ⟨source, inTy, inSolved⟩ := Ty.mem_vars_bindVars.mp occurs
    have isReserved := (fits.globals ty isGlobal).2 source inTy
    have unbound : before.subst.lookup source = none := by
      rcases known : before.subst.lookup source with _ | binding
      · rfl
      · have owned := (fits.wellFormed.bound known).1
        exact absurd isReserved (owned.taken source (by simp)).2
    have same : id = source := by
      have solved : id ∈ (before.subst.apply (.var source)).vars := inSolved
      rwa [Subst.apply_var_of_unbound unbound, Ty.vars_var, List.mem_singleton] at solved
    exact absurd (same ▸ isReserved) free

/-- Inference generalises at least as much as a derivation does. -/
theorem Fits.covers_generalize (fits : before.Fits reserved assignment special)
    (owned : ty.Owned reserved before.supply.next)
    (generalises : (ty.bindVars assignment).Generalises special.vars scheme) :
    ((before.subst.generalize before.fixedVars ty).bindVars assignment).Covers scheme := by
  intro image isInstance
  cases generalises with
  | itself =>
    have mono := Ty.isMono_bindVars fits.monos owned.mono
    have same : image = (before.subst.apply ty).bindVars assignment := by
      rw [fits.satisfies.bindVars_apply]
      exact isInstance.eq_of_isMono mono
    rw [same]
    exact Subst.instance_generalize fits.wellFormed.monos owned.mono fits.monos fits.monos
      fun _ _ _ => rfl
  | @quantify ids distinct unmentioned =>
    obtain ⟨args, count, argMonos, rfl⟩ :=
      (Ty.instance_quantify_iff (Ty.isMono_bindVars fits.monos owned.mono)).mp isInstance
    rw [← fits.satisfies.bindVars_apply ty, Ty.bindVars_bindVars]
    refine Subst.instance_generalize fits.wellFormed.monos owned.mono fits.monos
      (fun id => Ty.isMono_bindVars (Ty.isMono_giving argMonos) (fits.monos id)) ?_
    -- The images of fixed variables mention nothing that the derivation quantifies.
    intro id occurs fixed
    have free := (fits.wellFormed.taken_apply owned.taken id occurs).2
    refine Ty.bindVars_eq_self fun other found => Ty.giving_of_not_mem fun member => ?_
    exact unmentioned other member (fits.vars_fixed fixed free other found)

theorem Fits.exists_runs_bindLet (fits : before.Fits reserved assignment special)
    (owned : ty.Owned reserved before.supply.next)
    (generalises : (ty.bindVars assignment).Generalises special.vars scheme) (id : LocalId)
    (name : String) (span : Span) :
    ∃ after, Runs (bindLet (.bind id name span) ty) before () after ∧
      after.Fits reserved assignment (special.insert id scheme) := by
  have schemePoly : (before.subst.generalize before.fixedVars ty).isPoly = true :=
    Subst.isPoly_generalize fits.wellFormed.monos owned.mono
  have boundPresent : ∀ bound ∈ before.boundTypes, bound.isPresent = true := by
    intro bound member
    rcases List.mem_append.mp member with isLocal | isGlobal
    · refine Ty.isPresent_of_isPoly (fits.wellFormed.poly bound ?_)
      rwa [env, Table.values_mapValues, Locals.values_toTable]
    · exact (fits.globals bound isGlobal).1
  obtain ⟨trace, binds⟩ := runs_bindLet fits.wellFormed.present boundPresent
    (Ty.isPresent_of_isPlain owned.mono) (Ty.isPresent_of_isPoly schemePoly)
  obtain ⟨follows, _, _, boundEnv⟩ := binds.follows_bindLet fits.wellFormed owned
  have globals := follows.globals ▸ fits.globals
  refine ⟨_, binds, follows.wellFormed, globals, fits.monos, fits.satisfies, ?_⟩
  rw [boundEnv, bindVars_insert]
  exact fits.covers.insert (fits.covers_generalize owned generalises)
    (generalises.isPoly (Ty.isMono_bindVars fits.monos owned.mono)) id

theorem complete_blockLet {name : String} {nameSpan letSpan : Span} {declared : Ty}
    {value tail : Expr} (open_ : declared.isDeclared = false)
    (valueCore : IsCore value) (valueComplete : Complete reserved value)
    (restComplete : Complete reserved (.block stmts tail span)) :
    Complete reserved
      (.block (.letBind (.bind id name nameSpan) declared value letSpan :: stmts) tail span) := by
  intro before assignment special ty kept fits apart typed
  simp only [Expr.binders, Expr.bindersStmts, List.append_assoc, List.cons_append] at apart
  cases typed with
  | blockLet typedValue generalises typedRest =>
    obtain ⟨valueTy, inferred, first, ranValue, fitsInferred, agreeInferred, rfl⟩ :=
      valueComplete fits apart.left typedValue
    have valued := sound_inferExpr valueCore fits.wellFormed apart.left ranValue
    obtain ⟨bound, binds, fitsBound⟩ :=
      fitsInferred.exists_runs_bindLet valued.owned generalises id name nameSpan
    obtain ⟨follows, _, _, boundEnv⟩ := binds.follows_bindLet fitsInferred.wellFormed valued.owned
    have restApart : Apart (Expr.binders (.block stmts tail span)) bound.env := by
      rw [boundEnv]
      exact (valued.apart valueCore apart).insert _
    obtain ⟨found, after, last, ranRest, fitsAfter, agreeRest, isTy⟩ :=
      restComplete fitsBound restApart typedRest
    refine ⟨found, after, last, (runs_blockLet open_).mpr
      ⟨valueTy, inferred, bound, ranValue, binds, ranRest⟩, fitsAfter, ?_, isTy⟩
    exact agreeInferred.trans agreeRest (valued.follows.trans follows).supply

theorem complete_blockRun {runSpan : Span} {tail : Expr} (core : IsCore expr)
    (complete : Complete reserved expr)
    (restComplete : Complete reserved (.block stmts tail span)) :
    Complete reserved (.block (.run expr runSpan :: stmts) tail span) := by
  intro before assignment special ty kept fits apart typed
  simp only [Expr.binders, Expr.bindersStmts, List.append_assoc] at apart
  cases typed with
  | blockRun typedFirst typedRest =>
    obtain ⟨ignored, middle, first, ranFirst, fitsMiddle, agreeMiddle, _⟩ :=
      complete fits apart.left typedFirst
    have inferred := sound_inferExpr core fits.wellFormed apart.left ranFirst
    obtain ⟨found, after, last, ranRest, fitsAfter, agreeRest, isTy⟩ :=
      restComplete fitsMiddle (inferred.apart core apart) typedRest
    exact ⟨found, after, last, runs_blockRun.mpr
      ⟨ignored, middle, ranFirst, ranRest⟩, fitsAfter,
      agreeMiddle.trans agreeRest inferred.follows.supply, isTy⟩

end Rules

theorem complete_inferExpr (core : IsCore expr) : Complete reserved expr := by
  induction core with
  | literal value =>
    intro before assignment special ty kept fits apart typed
    cases typed
    exact ⟨_, before, assignment, by rw [inferExpr, runs_pure]; exact ⟨rfl, rfl⟩, fits,
      fun _ _ => rfl, rfl⟩
  | localRef id span => exact complete_localRef id
  | list each span ih => exact complete_list each ih
  | tuple each span ih => exact complete_tuple each ih
  | record each span ih => exact complete_record each ih
  | lambda open_ inner span ih => exact complete_lambda open_ inner ih
  | call calleeCore each span ihCallee ihArgs => exact complete_call calleeCore each ihCallee ihArgs
  | conditional conditionCore thenCore elseCore span ihCondition ihThen ihElse =>
    exact complete_conditional conditionCore thenCore elseCore ihCondition ihThen ihElse
  | blockEnd tailCore span ih =>
    intro before assignment special ty kept fits apart typed
    cases typed with
    | blockEnd last =>
      rw [inferExpr_blockEnd]
      exact ih fits apart last
  | blockLet id name nameSpan letSpan open_ valueCore rest ihValue ihRest =>
    exact complete_blockLet open_ valueCore ihValue ihRest
  | blockRun runSpan exprCore rest ihExpr ihRest =>
    exact complete_blockRun exprCore ihExpr ihRest

/-- Inference reports nothing, and a type is an instance of the solved type that it finds. -/
def Accepts (checker : Checker) (expr : Expr) (ty : Ty) : Prop :=
  ∃ found assignment, checker.quietType? expr = some found ∧ Ty.Monos assignment ∧
    found.bindVars assignment = ty

/-- A state from which a closed expression can be inferred: there are no locals and no bindings, and
the types of the functions are complete. -/
structure Fresh (checker : Checker) : Prop where
  noLocals : checker.locals = .empty
  noBindings : checker.subst = .empty
  present : ∀ ty ∈ checker.globals.values, ty.isPresent = true
  taken : ∀ ty ∈ checker.globals.values, ∀ id ∈ ty.vars, id < checker.supply.next

variable {checker : Checker}

section Fresh

variable (fresh : checker.Fresh)
include fresh

theorem Fresh.env_eq : checker.env = .empty := by
  rw [env, fresh.noLocals]
  rfl

theorem Fresh.wellFormed : checker.WellFormed (checker.globals.values.flatMap Ty.vars) := by
  refine wellFormed_of_empty fresh.noBindings ?_ ?_ ?_
  · simp [fresh.env_eq, Table.values, Table.empty]
  · simp [fresh.env_eq, Table.values, Table.empty]
  · intro id member
    obtain ⟨ty, isGlobal, found⟩ := List.mem_flatMap.mp member
    exact fresh.taken ty isGlobal id found

theorem Fresh.apart {names : List LocalId} (distinct : names.Nodup) : Apart names checker.env := by
  refine ⟨distinct, ?_⟩
  simp [fresh.env_eq, Table.keys, Table.empty]

theorem Fresh.fits : checker.Fits (checker.globals.values.flatMap Ty.vars) Ty.var .empty where
  wellFormed := fresh.wellFormed
  globals ty member :=
    ⟨fresh.present ty member, fun _ found => List.mem_flatMap.mpr ⟨ty, member, found⟩⟩
  monos _ := rfl
  satisfies id ty bound := by
    rw [fresh.noBindings] at bound
    cases bound
  covers := by
    rw [fresh.env_eq]
    exact .nil

theorem Fresh.typedKeeping_of_accepts (core : IsCore expr)
    (distinct : expr.binders.Nodup) (accepts : checker.Accepts expr ty) :
    ∃ kept, TypedKeeping .empty expr ty kept := by
  obtain ⟨_, assignment, quiet, monos, rfl⟩ := accepts
  obtain ⟨found, after, ran, rfl⟩ := exists_runs_of_quietType? quiet
  have inferred := sound_inferExpr core fresh.wellFormed (fresh.apart distinct) ran
  have wellFormed := inferred.follows.wellFormed
  let instanceOf (id : VarId) : Ty := (after.solving id).bindVars assignment
  have satisfies : Subst.Satisfies instanceOf after.subst := by
    intro id binding bound
    change (after.solving id).bindVars assignment = _
    rw [wellFormed.satisfies_solving bound, Ty.bindVars_bindVars]
  have typed := inferred.typed
    (fun id => Ty.isMono_bindVars monos (wellFormed.monos_solving id)) satisfies
  rw [fresh.env_eq] at typed
  rw [Subst.apply_eq_bindVars, Ty.bindVars_bindVars]
  exact ⟨_, typed⟩

theorem Fresh.accepts_of_typedKeeping (core : IsCore expr)
    (distinct : expr.binders.Nodup) (typed : TypedKeeping .empty expr ty kept) :
    checker.Accepts expr ty := by
  have apart := fresh.apart distinct
  obtain ⟨found, after, later, ran, fitsAfter, _, rfl⟩ :=
    complete_inferExpr core fresh.fits apart typed
  have inferred := sound_inferExpr core fresh.wellFormed apart ran
  have solvable :=
    fitsAfter.wellFormed.present.applies (Ty.isPresent_of_isPlain inferred.owned.mono)
  refine ⟨after.subst.apply found, later, ?_, fitsAfter.monos, fitsAfter.satisfies.bindVars_apply _⟩
  rw [quietType?, ran.ok]
  simp only [ran.quiet, ↓reduceIte, Subst.applied?, solvable]

end Fresh

/-- The types that inference accepts for a closed expression are exactly those with a derivation
that keeps names, and they are types of the expression in the system of Damas and Milner. The other
way round, all types in that system are accepted if no value of a `let` holds another `let`. -/
theorem inferExpr_principal (fresh : checker.Fresh) (core : IsCore expr)
    (distinct : expr.binders.Nodup) (closed : expr.isScoped [] = true) (ty : Ty) :
    (checker.Accepts expr ty ↔ ∃ kept, TypedKeeping .empty expr ty kept) ∧
      (checker.Accepts expr ty → HasType .empty expr ty) ∧
      (expr.letDepth ≤ 1 → HasType .empty expr ty → checker.Accepts expr ty) := by
  have apart : Apart expr.binders .empty := ⟨distinct, by simp [Table.keys, Table.empty]⟩
  have same : checker.Accepts expr ty ↔ ∃ kept, TypedKeeping .empty expr ty kept := by
    constructor
    · exact fresh.typedKeeping_of_accepts core distinct
    · rintro ⟨kept, typed⟩
      exact fresh.accepts_of_typedKeeping core distinct typed
  refine ⟨same, fun accepts => ?_, fun shallow typed => ?_⟩
  · obtain ⟨kept, keeps⟩ := same.mp accepts
    exact keeps.hasType core apart closed
  · exact same.mpr (typed.typedKeeping core apart (by simp [Table.values, Table.empty]) shallow)

/-- The block `{ let f = |x| body; (f(1), f(true)) }`. -/
def appliedTwice (body : Expr) : Expr :=
  .block
    [.letBind (.bind ⟨2⟩ "f" .empty) .absent
      (.lambda [⟨⟨1⟩, "x", .absent, .empty⟩] body .empty) .empty]
    (.tuple
      [.call (.localRef ⟨2⟩ .empty) [.literal ⟨.int, "1", .empty⟩] .empty,
        .call (.localRef ⟨2⟩ .empty) [.literal ⟨.bool, "true", .empty⟩] .empty] .empty) .empty

/-- The block `{ let y = x; y }`. -/
def renamedParam : Expr :=
  .block [.letBind (.bind ⟨3⟩ "y" .empty) .absent (.localRef ⟨1⟩ .empty) .empty]
    (.localRef ⟨3⟩ .empty) .empty

theorem isCore_appliedTwice (core : IsCore body) : IsCore (appliedTwice body) := by
  have called : ∀ value, IsCore (.call (.localRef ⟨2⟩ .empty) [.literal value] .empty) :=
    fun value => .call (.localRef _ _) (by simpa using .literal value) _
  refine .blockLet _ _ _ _ rfl (.lambda (by simp [Ty.isDeclared]) core _)
    (.blockEnd (.tuple ?_ _) _)
  simpa using ⟨called _, called _⟩

theorem hasType_appliedTwice (returns : HasType (Table.empty.insert ⟨1⟩ (.var 0)) body (.var 0)) :
    HasType .empty (appliedTwice body) (.tuple [.int, .bool]) := by
  have generalises : (Ty.fn [.var 0] (.var 0)).Generalises (Env.vars .empty)
      ((Ty.fn [.var 0] (.var 0)).quantify [0]) :=
    .quantify (by simp) (by simp [Env.vars, Table.values, Table.empty])
  have called : ∀ (value : Literal), HasType
      (Table.empty.insert ⟨2⟩ ((Ty.fn [.var 0] (.var 0)).quantify [0]))
      (.call (.localRef ⟨2⟩ .empty) [.literal value] .empty) (.prim value.kind.prim) := by
    intro value
    have isInstance : ((Ty.fn [.var 0] (.var 0)).quantify [0]).Instance
        (.fn [.prim value.kind.prim] (.prim value.kind.prim)) :=
      (Ty.instance_quantify_iff rfl).mpr
        ⟨[.prim value.kind.prim], rfl, List.forall_mem_singleton.mpr rfl, rfl⟩
    refine .call (.localRef rfl isInstance _) rfl ?_ _
    simpa using .literal _ value
  have bound : HasType (Env.bindAll .empty [⟨⟨1⟩, "x", .absent, .empty⟩] [.var 0]) body (.var 0) :=
    returns
  have function := HasType.lambda rfl (List.forall_mem_singleton.mpr rfl) bound .empty
  refine .blockLet function generalises (.blockEnd (.tuple rfl ?_ _) _)
  simpa using ⟨called _, called _⟩

theorem fresh_initial (settings : Settings) : (initial settings).Fresh :=
  ⟨rfl, rfl, by rintro ty ⟨⟩, by rintro ty ⟨⟩⟩

theorem inferExpr_principal_appliedTwice :
    (appliedTwice (.localRef ⟨1⟩ .empty)).letDepth = 1 ∧
      (initial {}).Accepts (appliedTwice (.localRef ⟨1⟩ .empty)) (.tuple [.int, .bool]) ∧
      ∃ kept, TypedKeeping .empty (appliedTwice (.localRef ⟨1⟩ .empty)) (.tuple [.int, .bool])
        kept := by
  have returns : HasType (Table.empty.insert ⟨1⟩ (.var 0)) (.localRef ⟨1⟩ .empty) (.var 0) :=
    .localRef rfl (.mono rfl) .empty
  have typed := hasType_appliedTwice returns
  obtain ⟨exactly, _, accepted⟩ := inferExpr_principal (fresh_initial {})
    (isCore_appliedTwice (.localRef ⟨1⟩ .empty)) (by decide) (by decide) (.tuple [.int, .bool])
  exact ⟨by decide, accepted (by decide) typed, exactly.mp (accepted (by decide) typed)⟩

/-- A `let` inside the value of another one matters: a parameter that was given a second name is no
longer generalised. -/
theorem inferExpr_rejects_renamedParam :
    IsCore (appliedTwice renamedParam) ∧ (appliedTwice renamedParam).binders.Nodup ∧
      (appliedTwice renamedParam).isScoped [] = true ∧
      HasType .empty (appliedTwice renamedParam) (.tuple [.int, .bool]) ∧
      ∀ ty, ¬(initial {}).Accepts (appliedTwice renamedParam) ty := by
  have core : IsCore renamedParam :=
    .blockLet _ _ _ _ rfl (.localRef _ _) (.blockEnd (.localRef _ _) _)
  have returns : HasType (Table.empty.insert ⟨1⟩ (.var 0)) renamedParam (.var 0) :=
    .blockLet (.localRef rfl (.mono rfl) _) .itself
      (.blockEnd (.localRef rfl (.mono rfl) _) _)
  have rejected : (initial {}).quietType? (appliedTwice renamedParam) = none := by cbv
  refine ⟨isCore_appliedTwice core, by decide, by decide, hasType_appliedTwice returns, ?_⟩
  rintro ty ⟨found, _, quiet, _⟩
  rw [rejected] at quiet
  cases quiet

end Checker

end TraitCheck
