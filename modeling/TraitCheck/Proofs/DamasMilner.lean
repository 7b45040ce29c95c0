import TraitCheck.Checker.Infer
import TraitCheck.Proofs.Schemes

/-!
# The core language and its type systems

`HasType` is the type system of Damas and Milner for the core language: a reference has all
instances of the type of its name, and a `let` may quantify the variables that its environment does
not mention.

`TypedKeeping` is a variant in which the names bound by a `let` stay in the environment after the
end of their block, as the names of a function body do that share one table of locals. Under
distinct names the variant types nothing that `HasType` does not (`TypedKeeping.hasType`). But the
type of a name that is out of reach still keeps a later `let` from quantifying, so the variant types
less.
-/

namespace TraitCheck

variable {expr : Expr} {names : List LocalId} {params : List Param} {ty : Ty}
variable {env : Env} {id : LocalId} {types : List Ty} {exprs : List Expr}

/-- The expressions of the core language. No part of one is missing. -/
inductive IsCore : Expr → Prop
  | literal (value : Literal) : IsCore (.literal value)
  | localRef (id : LocalId) (span : Span) : IsCore (.localRef id span)
  | list {elems : List Expr} (each : ∀ elem ∈ elems, IsCore elem) (span : Span) :
      IsCore (.list elems span)
  | tuple {elems : List Expr} (each : ∀ elem ∈ elems, IsCore elem) (span : Span) :
      IsCore (.tuple elems span)
  | record {fields : List (Field Expr)} (each : ∀ field ∈ fields, IsCore field.content)
      (span : Span) : IsCore (.record fields span)
  | lambda {params : List Param} {body : Expr}
      (open_ : ∀ param ∈ params, param.ty.isDeclared = false) (inner : IsCore body) (span : Span) :
      IsCore (.lambda params body span)
  | call {callee : Expr} {args : List Expr} (calleeCore : IsCore callee)
      (each : ∀ arg ∈ args, IsCore arg) (span : Span) : IsCore (.call callee args span)
  | conditional {condition thenBranch elseBranch : Expr} (conditionCore : IsCore condition)
      (thenCore : IsCore thenBranch) (elseCore : IsCore elseBranch) (span : Span) :
      IsCore (.conditional condition thenBranch elseBranch span)
  | blockEnd {tail : Expr} (tailCore : IsCore tail) (span : Span) : IsCore (.block [] tail span)
  | blockLet {value tail : Expr} {stmts : List Stmt} {ty : Ty} {span : Span} (id : LocalId)
      (name : String) (nameSpan letSpan : Span) (open_ : ty.isDeclared = false)
      (valueCore : IsCore value) (rest : IsCore (.block stmts tail span)) :
      IsCore (.block (.letBind (.bind id name nameSpan) ty value letSpan :: stmts) tail span)
  | blockRun {expr tail : Expr} {stmts : List Stmt} {span : Span} (runSpan : Span)
      (exprCore : IsCore expr) (rest : IsCore (.block stmts tail span)) :
      IsCore (.block (.run expr runSpan :: stmts) tail span)

theorem IsCore.exists_span (core : IsCore expr) : ∃ span, expr.span? = some span := by
  cases core <;> exact ⟨_, rfl⟩

theorem IsCore.not_isMissing (core : IsCore expr) : expr.isMissing = false := by
  cases core <;> rfl

namespace Expr

mutual

/-- The names bound in an expression. -/
def binders : Expr → List LocalId
  | .list elems _ => bindersAll elems
  | .tuple elems _ => bindersAll elems
  | .record fields _ => bindersFields fields
  | .lambda params body _ => params.map (·.id) ++ body.binders
  | .call callee args _ => callee.binders ++ bindersAll args
  | .conditional condition thenBranch elseBranch _ =>
    condition.binders ++ (thenBranch.binders ++ elseBranch.binders)
  | .block stmts tail _ => bindersStmts stmts ++ tail.binders
  | _ => []

def bindersAll : List Expr → List LocalId
  | [] => []
  | expr :: rest => expr.binders ++ bindersAll rest

def bindersFields : List (Field Expr) → List LocalId
  | [] => []
  | ⟨_, value, _⟩ :: rest => value.binders ++ bindersFields rest

def bindersStmts : List Stmt → List LocalId
  | [] => []
  | .letBind (.bind id _ _) _ value _ :: rest => value.binders ++ id :: bindersStmts rest
  | .run expr _ :: rest => expr.binders ++ bindersStmts rest
  | _ :: rest => bindersStmts rest

end

/-- The names that the statements of a block bring into scope. -/
def scopeAfter (scope : List LocalId) : List Stmt → List LocalId
  | [] => scope
  | .letBind (.bind id _ _) _ _ _ :: rest => scopeAfter (scope ++ [id]) rest
  | _ :: rest => scopeAfter scope rest

mutual

/-- Whether every reference of a core expression is to a name in scope. -/
def isScoped (scope : List LocalId) : Expr → Bool
  | .localRef id _ => scope.contains id
  | .list elems _ => allScoped scope elems
  | .tuple elems _ => allScoped scope elems
  | .record fields _ => fieldsScoped scope fields
  | .lambda params body _ => body.isScoped (scope ++ params.map (·.id))
  | .call callee args _ => callee.isScoped scope && allScoped scope args
  | .conditional condition thenBranch elseBranch _ =>
    condition.isScoped scope && (thenBranch.isScoped scope && elseBranch.isScoped scope)
  | .block stmts tail _ => stmtsScoped scope stmts && tail.isScoped (scopeAfter scope stmts)
  | _ => true

def allScoped (scope : List LocalId) : List Expr → Bool
  | [] => true
  | expr :: rest => expr.isScoped scope && allScoped scope rest

def fieldsScoped (scope : List LocalId) : List (Field Expr) → Bool
  | [] => true
  | ⟨_, value, _⟩ :: rest => value.isScoped scope && fieldsScoped scope rest

def stmtsScoped (scope : List LocalId) : List Stmt → Bool
  | [] => true
  | .letBind (.bind id _ _) _ value _ :: rest =>
    value.isScoped scope && stmtsScoped (scope ++ [id]) rest
  | .run expr _ :: rest => expr.isScoped scope && stmtsScoped scope rest
  | _ :: rest => stmtsScoped scope rest

end

theorem bindersFields_eq (fields : List (Field Expr)) :
    bindersFields fields = bindersAll (fields.map (·.content)) := by
  induction fields with
  | nil => rfl
  | cons field rest ih => rw [bindersFields, List.map_cons, bindersAll, ih]

theorem fieldsScoped_eq (scope : List LocalId) (fields : List (Field Expr)) :
    fieldsScoped scope fields = allScoped scope (fields.map (·.content)) := by
  induction fields with
  | nil => rfl
  | cons field rest ih => rw [fieldsScoped, List.map_cons, allScoped, ih]

end Expr

/-- The types of names. -/
abbrev Env := Table LocalId Ty

namespace Env

/-- The variables that the environment mentions. -/
def vars (env : Env) : List VarId := env.values.flatMap Ty.vars

/-- The environment under an assignment. -/
def bindVars (assignment : VarId → Ty) (env : Env) : Env := env.mapValues (Ty.bindVars assignment)

/-- The environment with parameters bound in order. -/
def bindAll : Env → List Param → List Ty → Env
  | env, param :: params, ty :: types => bindAll (env.insert param.id ty) params types
  | env, _, _ => env

/-- The environment without the parameters. -/
def eraseAll (env : Env) (params : List Param) : Env :=
  params.foldl (fun env param => env.erase param.id) env

/-- The part of an environment that concerns the names in scope. -/
def visible (scope : List LocalId) (env : Env) : Env :=
  ⟨env.entries.filter fun entry => scope.contains entry.1⟩

end Env

theorem Ty.bindVars_recordOf (assignment : VarId → Ty) (names : List String) (types : List Ty) :
    (Ty.record (Row.ofList (names.zip types))).bindVars assignment =
      .record (Row.ofList (names.zip (types.map (Ty.bindVars assignment)))) := by
  rw [Ty.bindVars_record]
  exact congrArg Ty.record (Row.mapTypes_insertAll _ names types [])

/-- Typing in the system of Damas and Milner. -/
inductive HasType : Env → Expr → Ty → Prop
  | literal (env : Env) (value : Literal) : HasType env (.literal value) (.prim value.kind.prim)
  | localRef {env : Env} {id : LocalId} {scheme ty : Ty} (found : env.find? id = some scheme)
      (isInstance : scheme.Instance ty) (span : Span) : HasType env (.localRef id span) ty
  | list {env : Env} {elems : List Expr} {elem : Ty} (mono : elem.isMono = true)
      (each : ∀ expr ∈ elems, HasType env expr elem) (span : Span) :
      HasType env (.list elems span) (.list elem)
  | tuple {env : Env} {elems : List Expr} {types : List Ty} (count : elems.length = types.length)
      (each : ∀ pair ∈ elems.zip types, HasType env pair.1 pair.2) (span : Span) :
      HasType env (.tuple elems span) (.tuple types)
  | record {env : Env} {fields : List (Field Expr)} {types : List Ty}
      (count : fields.length = types.length) (distinct : (fields.map (·.name)).Nodup)
      (each : ∀ pair ∈ fields.zip types, HasType env pair.1.content pair.2) (span : Span) :
      HasType env (.record fields span) (.record (Row.ofList ((fields.map (·.name)).zip types)))
  | lambda {env : Env} {params : List Param} {types : List Ty} {body : Expr} {result : Ty}
      (count : params.length = types.length) (monos : ∀ ty ∈ types, ty.isMono = true)
      (inner : HasType (env.bindAll params types) body result) (span : Span) :
      HasType env (.lambda params body span) (.fn types result)
  | call {env : Env} {callee : Expr} {args : List Expr} {types : List Ty} {result : Ty}
      (function : HasType env callee (.fn types result)) (count : args.length = types.length)
      (each : ∀ pair ∈ args.zip types, HasType env pair.1 pair.2) (span : Span) :
      HasType env (.call callee args span) result
  | conditional {env : Env} {condition thenBranch elseBranch : Expr} {ty : Ty}
      (test : HasType env condition .bool) (whenTrue : HasType env thenBranch ty)
      (whenFalse : HasType env elseBranch ty) (span : Span) :
      HasType env (.conditional condition thenBranch elseBranch span) ty
  | blockEnd {env : Env} {tail : Expr} {ty : Ty} (last : HasType env tail ty) (span : Span) :
      HasType env (.block [] tail span) ty
  | blockLet {env : Env} {id : LocalId} {name : String} {nameSpan letSpan span : Span}
      {declared valueTy scheme ty : Ty} {value tail : Expr} {stmts : List Stmt}
      (bound : HasType env value valueTy) (generalises : valueTy.Generalises env.vars scheme)
      (rest : HasType (env.insert id scheme) (.block stmts tail span) ty) :
      HasType env (.block (.letBind (.bind id name nameSpan) declared value letSpan :: stmts) tail
        span) ty
  | blockRun {env : Env} {expr tail : Expr} {ignored ty : Ty} {stmts : List Stmt}
      {runSpan span : Span} (first : HasType env expr ignored)
      (rest : HasType env (.block stmts tail span) ty) :
      HasType env (.block (.run expr runSpan :: stmts) tail span) ty

mutual

/-- Typing where the names bound by a `let` stay in the environment when their block ends: from the
environment before an expression to the one after it. -/
inductive TypedKeeping : Env → Expr → Ty → Env → Prop
  | literal (env : Env) (value : Literal) :
      TypedKeeping env (.literal value) (.prim value.kind.prim) env
  | localRef {env : Env} {id : LocalId} {scheme ty : Ty} (found : env.find? id = some scheme)
      (isInstance : scheme.Instance ty) (span : Span) : TypedKeeping env (.localRef id span) ty env
  | list {env after : Env} {elems : List Expr} {elem : Ty} (mono : elem.isMono = true)
      (each : AllTypedKeeping env elems (List.replicate elems.length elem) after) (span : Span) :
      TypedKeeping env (.list elems span) (.list elem) after
  | tuple {env after : Env} {elems : List Expr} {types : List Ty}
      (each : AllTypedKeeping env elems types after) (span : Span) :
      TypedKeeping env (.tuple elems span) (.tuple types) after
  | record {env after : Env} {fields : List (Field Expr)} {types : List Ty}
      (distinct : (fields.map (·.name)).Nodup)
      (each : AllTypedKeeping env (fields.map (·.content)) types after) (span : Span) :
      TypedKeeping env (.record fields span)
        (.record (Row.ofList ((fields.map (·.name)).zip types))) after
  | lambda {env after : Env} {params : List Param} {types : List Ty} {body : Expr} {result : Ty}
      (count : params.length = types.length) (monos : ∀ ty ∈ types, ty.isMono = true)
      (inner : TypedKeeping (env.bindAll params types) body result after) (span : Span) :
      TypedKeeping env (.lambda params body span) (.fn types result) (after.eraseAll params)
  | call {env middle after : Env} {callee : Expr} {args : List Expr} {types : List Ty} {result : Ty}
      (function : TypedKeeping env callee (.fn types result) middle)
      (each : AllTypedKeeping middle args types after) (span : Span) :
      TypedKeeping env (.call callee args span) result after
  | conditional {env tested middle after : Env} {condition thenBranch elseBranch : Expr} {ty : Ty}
      (test : TypedKeeping env condition .bool tested)
      (whenTrue : TypedKeeping tested thenBranch ty middle)
      (whenFalse : TypedKeeping middle elseBranch ty after) (span : Span) :
      TypedKeeping env (.conditional condition thenBranch elseBranch span) ty after
  | blockEnd {env after : Env} {tail : Expr} {ty : Ty} (last : TypedKeeping env tail ty after)
      (span : Span) : TypedKeeping env (.block [] tail span) ty after
  | blockLet {env middle after : Env} {id : LocalId} {name : String} {nameSpan letSpan span : Span}
      {declared valueTy scheme ty : Ty} {value tail : Expr} {stmts : List Stmt}
      (bound : TypedKeeping env value valueTy middle)
      (generalises : valueTy.Generalises middle.vars scheme)
      (rest : TypedKeeping (middle.insert id scheme) (.block stmts tail span) ty after) :
      TypedKeeping env
        (.block (.letBind (.bind id name nameSpan) declared value letSpan :: stmts) tail span) ty
        after
  | blockRun {env middle after : Env} {expr tail : Expr} {ignored ty : Ty} {stmts : List Stmt}
      {runSpan span : Span} (first : TypedKeeping env expr ignored middle)
      (rest : TypedKeeping middle (.block stmts tail span) ty after) :
      TypedKeeping env (.block (.run expr runSpan :: stmts) tail span) ty after

/-- Expressions typed from left to right. -/
inductive AllTypedKeeping : Env → List Expr → List Ty → Env → Prop
  | nil (env : Env) : AllTypedKeeping env [] [] env
  | cons {env middle after : Env} {expr : Expr} {ty : Ty} {rest : List Expr} {types : List Ty}
      (first : TypedKeeping env expr ty middle) (others : AllTypedKeeping middle rest types after) :
      AllTypedKeeping env (expr :: rest) (ty :: types) after

end

namespace Env

/-- An environment gains entries at the end, for some of the given names. -/
def GrowsBy (names : List LocalId) (before after : Env) : Prop :=
  ∃ added : List (LocalId × Ty), after.entries = before.entries ++ added ∧
    ∀ entry ∈ added, entry.1 ∈ names

/-- Names that are distinct and new to an environment. -/
structure Apart (names : List LocalId) (env : Env) : Prop where
  distinct : names.Nodup
  new : ∀ name ∈ names, name ∉ env.keys

section Growth

variable {names others : List LocalId} {before middle after env : Env}

theorem GrowsBy.refl (names : List LocalId) (env : Env) : env.GrowsBy names env :=
  ⟨[], by simp, by simp⟩

theorem GrowsBy.trans (first : GrowsBy names before middle) (second : GrowsBy others middle after) :
    GrowsBy (names ++ others) before after := by
  obtain ⟨added, grown, inNames⟩ := first
  obtain ⟨further, grownFurther, inOthers⟩ := second
  refine ⟨added ++ further, by rw [grownFurther, grown, List.append_assoc], ?_⟩
  intro entry member
  rcases List.mem_append.mp member with inAdded | inFurther
  · exact List.mem_append_left _ (inNames entry inAdded)
  · exact List.mem_append_right _ (inOthers entry inFurther)

theorem growsBy_insert (new : id ∉ env.keys) (ty : Ty) : GrowsBy [id] env (env.insert id ty) :=
  ⟨[(id, ty)], Table.entries_insert_of_new ty new, by simp⟩

theorem GrowsBy.mem_keys (growth : GrowsBy names before after) {key : LocalId}
    (member : key ∈ after.keys) : key ∈ before.keys ∨ key ∈ names := by
  obtain ⟨added, grown, inNames⟩ := growth
  rw [Table.keys, grown, List.map_append, List.mem_append] at member
  refine member.imp id fun inAdded => ?_
  obtain ⟨entry, entryMem, rfl⟩ := List.mem_map.mp inAdded
  exact inNames entry entryMem

theorem GrowsBy.vars_subset (growth : GrowsBy names before after) :
    ∀ id ∈ before.vars, id ∈ after.vars := by
  obtain ⟨added, grown, _⟩ := growth
  intro id found
  rw [vars, Table.values, grown, List.map_append, List.flatMap_append, List.mem_append]
  exact .inl found

theorem GrowsBy.visible_eq (growth : GrowsBy names before after) {scope : List LocalId}
    (hidden : ∀ name ∈ names, name ∉ scope) : after.visible scope = before.visible scope := by
  obtain ⟨added, grown, inNames⟩ := growth
  have gone : added.filter (fun entry => scope.contains entry.1) = [] := by
    rw [List.filter_eq_nil_iff]
    intro entry member
    simpa using hidden entry.1 (inNames entry member)
  rw [visible, visible, grown, List.filter_append, gone, List.append_nil]

theorem Apart.left (apart : Apart (names ++ others) env) : Apart names env :=
  ⟨apart.distinct.of_append_left, fun name member => apart.new name (List.mem_append_left _ member)⟩

theorem Apart.right (apart : Apart (names ++ others) before)
    (growth : GrowsBy names before middle) : Apart others middle := by
  refine ⟨apart.distinct.of_append_right, fun name member inMiddle => ?_⟩
  rcases growth.mem_keys inMiddle with inBefore | inNames
  · exact apart.new name (List.mem_append_right _ member) inBefore
  · exact (List.nodup_append.mp apart.distinct).2.2 name inNames name member rfl

theorem Apart.insert (apart : Apart (id :: names) env) (ty : Ty) :
    Apart names (env.insert id ty) := by
  have grown := growsBy_insert (apart.new id List.mem_cons_self) ty
  exact Apart.right (show Apart ([id] ++ names) env from apart) grown

end Growth

section Parameters

variable {env : Env} {params : List Param} {types : List Ty}

theorem entries_bindAll (apart : Apart (params.map (·.id)) env)
    (count : params.length = types.length) :
    (env.bindAll params types).entries = env.entries ++ (params.map (·.id)).zip types := by
  induction params generalizing env types with
  | nil => simp [bindAll]
  | cons param params ih =>
    cases types with
    | nil => simp at count
    | cons ty types =>
      have new := apart.new param.id List.mem_cons_self
      rw [bindAll, ih (apart.insert ty) (by simpa using count),
        Table.entries_insert_of_new ty new]
      simp

theorem growsBy_bindAll (apart : Apart (params.map (·.id)) env)
    (count : params.length = types.length) :
    GrowsBy (params.map (·.id)) env (env.bindAll params types) :=
  ⟨_, entries_bindAll apart count, fun _ member => (List.of_mem_zip member).1⟩

theorem entries_eraseAll (env : Env) (params : List Param) :
    (env.eraseAll params).entries =
      env.entries.filter fun entry => !(params.map (·.id)).contains entry.1 := by
  induction params generalizing env with
  | nil => simp [eraseAll]
  | cons param params ih =>
    change (eraseAll (env.erase param.id) params).entries = _
    rw [ih, Table.erase, List.filter_filter]
    refine List.filter_congr fun entry _ => ?_
    by_cases same : entry.1 = param.id <;> simp [same]

/-- When the parameters of a lambda are removed, what its body has added stays. -/
theorem GrowsBy.eraseAll {after : Env} (apart : Apart (params.map (·.id) ++ names) env)
    (count : params.length = types.length)
    (growth : GrowsBy names (env.bindAll params types) after) :
    GrowsBy names env (after.eraseAll params) := by
  obtain ⟨added, grown, inNames⟩ := growth
  refine ⟨added, ?_, inNames⟩
  have kept : env.entries.filter (fun entry => !(params.map (·.id)).contains entry.1) =
      env.entries := by
    rw [List.filter_eq_self]
    intro entry member
    have := fun inParams => apart.new entry.1 (List.mem_append_left _ inParams)
      (List.mem_map_of_mem member)
    simpa using this
  have removed : ((params.map (·.id)).zip types).filter
      (fun entry => !(params.map (·.id)).contains entry.1) = [] := by
    rw [List.filter_eq_nil_iff]
    intro entry member
    simpa using (List.of_mem_zip member).1
  have untouched : added.filter (fun entry => !(params.map (·.id)).contains entry.1) = added := by
    rw [List.filter_eq_self]
    intro entry member
    have := fun inParams => (List.nodup_append.mp apart.distinct).2.2 entry.1 inParams entry.1
      (inNames entry member) rfl
    simpa using this
  rw [entries_eraseAll, grown, entries_bindAll apart.left count, List.filter_append,
    List.filter_append, kept, removed, untouched, List.append_nil]

theorem eraseAll_bindAll (apart : Apart (params.map (·.id)) env)
    (count : params.length = types.length) : (env.bindAll params types).eraseAll params = env := by
  have growth : GrowsBy [] env ((env.bindAll params types).eraseAll params) :=
    GrowsBy.eraseAll (by simpa using apart) count (.refl [] _)
  obtain ⟨added, grown, inNames⟩ := growth
  have noneAdded : added = [] :=
    List.eq_nil_iff_forall_not_mem.mpr fun entry member => List.not_mem_nil (inNames entry member)
  rw [noneAdded, List.append_nil] at grown
  exact congrArg Table.mk grown

end Parameters

section Values

theorem mem_values_bindAll (member : ty ∈ (env.bindAll params types).values) :
    ty ∈ types ∨ ty ∈ env.values := by
  induction params generalizing env types with
  | nil => exact .inr member
  | cons param params ih =>
    cases types with
    | nil => exact .inr member
    | cons first types =>
      rcases ih member with inTypes | inserted
      · exact .inl (List.mem_cons_of_mem _ inTypes)
      · rcases Table.mem_values_insert inserted with rfl | old
        · exact .inl List.mem_cons_self
        · exact .inr old

theorem mem_values_eraseAll (member : ty ∈ (env.eraseAll params).values) : ty ∈ env.values := by
  obtain ⟨entry, entryMem, rfl⟩ := List.mem_map.mp member
  rw [entries_eraseAll] at entryMem
  exact List.mem_map_of_mem (List.mem_of_mem_filter entryMem)

end Values

section Visible

variable {env : Env} {scope : List LocalId} {later : Env}

theorem find?_visible (inScope : id ∈ scope) : (env.visible scope).find? id = env.find? id := by
  unfold visible Table.find?
  induction env.entries with
  | nil => rfl
  | cons entry rest ih =>
    by_cases same : entry.1 = id
    · simp [same, inScope, Table.entryAt?]
    · by_cases seen : entry.1 ∈ scope
      · simpa [seen, Table.entryAt?, same] using ih
      · simpa [seen, Table.entryAt?, same] using ih

theorem vars_visible_subset : ∀ id ∈ (env.visible scope).vars, id ∈ env.vars := by
  intro id found
  obtain ⟨ty, member, occurs⟩ := List.mem_flatMap.mp found
  obtain ⟨entry, kept, rfl⟩ := List.mem_map.mp member
  exact List.mem_flatMap.mpr ⟨entry.2, List.mem_map_of_mem (List.mem_of_mem_filter kept), occurs⟩

theorem visible_insert (new : id ∉ env.keys) (ty : Ty) :
    visible (scope ++ [id]) (env.insert id ty) = (env.visible scope).insert id ty := by
  have newVisible : id ∉ (env.visible scope).keys := by
    intro member
    obtain ⟨entry, kept, same⟩ := List.mem_map.mp member
    exact new (List.mem_map.mpr ⟨entry, List.mem_of_mem_filter kept, same⟩)
  have unseen : env.entries.filter (fun entry => (scope ++ [id]).contains entry.1) =
      env.entries.filter (fun entry => scope.contains entry.1) := by
    refine List.filter_congr fun entry member => ?_
    have : entry.1 ≠ id := fun same => new (same ▸ List.mem_map_of_mem member)
    simp [this]
  have entries := Table.entries_insert_of_new ty newVisible
  rw [visible, Table.entries_insert_of_new ty new, List.filter_append, unseen]
  simpa [visible, Table.insert] using entries.symm

theorem visible_bindAll (apart : Apart (params.map (·.id)) env)
    (count : params.length = types.length) :
    (env.bindAll params types).visible (scope ++ params.map (·.id)) =
      (env.visible scope).bindAll params types := by
  induction params generalizing env types scope with
  | nil =>
    cases types with
    | nil => simp [bindAll]
    | cons ty types => simp at count
  | cons param params ih =>
    cases types with
    | nil => simp at count
    | cons ty types =>
      have new := apart.new param.id List.mem_cons_self
      rw [bindAll, bindAll, ← visible_insert new, List.map_cons, List.append_cons]
      exact ih (apart.insert ty) (by simpa using count)

theorem visible_eq_self (all : ∀ key ∈ env.keys, key ∈ scope) : env.visible scope = env := by
  have kept : env.entries.filter (fun entry => scope.contains entry.1) = env.entries := by
    rw [List.filter_eq_self]
    intro entry member
    simpa using all entry.1 (List.mem_map_of_mem member)
  rw [visible, kept]

/-- All names in scope have a type. -/
def Knows (env : Env) (scope : List LocalId) : Prop := ∀ name ∈ scope, name ∈ env.keys

theorem Knows.after (knows : env.Knows scope) (growth : GrowsBy names env later) :
    later.Knows scope := by
  obtain ⟨added, grown, _⟩ := growth
  intro name member
  rw [Table.keys, grown, List.map_append, List.mem_append]
  exact .inl (knows name member)

theorem Knows.insert (knows : env.Knows scope) (new : id ∉ env.keys) (ty : Ty) :
    Knows (env.insert id ty) (scope ++ [id]) := by
  intro name member
  rcases List.mem_append.mp member with old | isNew
  · exact knows.after (growsBy_insert new ty) name old
  · rw [Table.keys, Table.entries_insert_of_new ty new, List.map_append]
    exact List.mem_append_right _ isNew

theorem Knows.bindAll (knows : env.Knows scope) (apart : Apart (params.map (·.id)) env)
    (count : params.length = types.length) :
    (env.bindAll params types).Knows (scope ++ params.map (·.id)) := by
  intro name member
  rcases List.mem_append.mp member with old | isParam
  · exact knows.after (growsBy_bindAll apart count) name old
  · rw [Table.keys, entries_bindAll apart count, List.map_append, List.map_fst_zip]
    · exact List.mem_append_right _ isParam
    · simpa using count.le

theorem Apart.visible_eq (apart : Apart names env) (knows : env.Knows scope)
    (growth : GrowsBy names env later) : later.visible scope = env.visible scope :=
  growth.visible_eq fun name member seen => apart.new name member (knows name seen)

end Visible

section Assignments

variable {assignment : VarId → Ty}

@[simp]
theorem keys_bindVars (env : Env) : (env.bindVars assignment).keys = env.keys :=
  Table.keys_mapValues _ env

theorem apart_bindVars : Apart names (env.bindVars assignment) ↔ Apart names env := by
  constructor
  · exact fun apart => ⟨apart.distinct, by simpa using apart.new⟩
  · exact fun apart => ⟨apart.distinct, by simpa using apart.new⟩

theorem bindVars_insert (env : Env) (id : LocalId) (ty : Ty) :
    Env.bindVars assignment (env.insert id ty) =
      (env.bindVars assignment).insert id (ty.bindVars assignment) :=
  Table.mapValues_insert _ env id ty

theorem bindVars_bindAll (env : Env) (params : List Param) (types : List Ty) :
    (env.bindAll params types).bindVars assignment =
      (env.bindVars assignment).bindAll params (types.map (Ty.bindVars assignment)) := by
  induction params generalizing env types with
  | nil => rfl
  | cons param params ih =>
    cases types with
    | nil => rfl
    | cons ty types => rw [bindAll, ih, bindVars_insert, List.map_cons, bindAll]

theorem bindVars_eraseAll (env : Env) (params : List Param) :
    (env.eraseAll params).bindVars assignment = (env.bindVars assignment).eraseAll params := by
  induction params generalizing env with
  | nil => rfl
  | cons param params ih =>
    change Env.bindVars assignment (eraseAll (env.erase param.id) params) = _
    rw [ih, bindVars, Table.mapValues_erase]
    rfl

theorem find?_bindVars (found : env.find? id = some ty) :
    (env.bindVars assignment).find? id = some (ty.bindVars assignment) := by
  rw [bindVars, Table.find?_mapValues, found]
  rfl

theorem bindVars_congr {other : VarId → Ty}
    (agree : ∀ ty ∈ env.values, ty.bindVars assignment = ty.bindVars other) :
    env.bindVars assignment = env.bindVars other :=
  Table.mapValues_congr agree

end Assignments

end Env

open Env

/-- An expression adds to the environment only names that it binds. -/
def AddsOwn (expr : Expr) : Prop :=
  ∀ ⦃env ty after⦄, Apart expr.binders env → TypedKeeping env expr ty after →
    GrowsBy expr.binders env after

theorem AllTypedKeeping.growsBy (each : ∀ expr ∈ exprs, AddsOwn expr)
    {after : Env} (apart : Apart (Expr.bindersAll exprs) env)
    (typed : AllTypedKeeping env exprs types after) :
    GrowsBy (Expr.bindersAll exprs) env after := by
  induction exprs generalizing env types with
  | nil =>
    cases typed
    exact .refl _ _
  | cons expr rest ih =>
    cases typed with
    | cons first others =>
      have grown := each expr List.mem_cons_self apart.left first
      exact grown.trans (ih (fun expr member => each expr (List.mem_cons_of_mem _ member))
        (apart.right grown) others)

theorem IsCore.addsOwn (core : IsCore expr) : AddsOwn expr := by
  intro env ty after apart typed
  induction core generalizing env ty after with
  | literal | localRef =>
    cases typed
    exact .refl _ _
  | list each span ih =>
    cases typed with
    | list mono all => exact all.growsBy ih apart
  | tuple each span ih =>
    cases typed with
    | tuple all => exact all.growsBy ih apart
  | record each span ih =>
    simp only [Expr.binders, Expr.bindersFields_eq] at apart ⊢
    cases typed with
    | record distinct all =>
      refine all.growsBy ?_ apart
      intro expr member
      obtain ⟨field, fieldMem, rfl⟩ := List.mem_map.mp member
      exact ih field fieldMem
  | lambda open_ inner span ih =>
    cases typed with
    | lambda count monos typedBody =>
      have bodyApart := apart.right (growsBy_bindAll apart.left count)
      obtain ⟨added, grown, inNames⟩ :=
        GrowsBy.eraseAll apart count (ih bodyApart typedBody)
      exact ⟨added, grown, fun entry member => List.mem_append_right _ (inNames entry member)⟩
  | call calleeCore each span ihCallee ihArgs =>
    cases typed with
    | call function all =>
      have grown := ihCallee apart.left function
      exact grown.trans (all.growsBy ihArgs (apart.right grown))
  | conditional conditionCore thenCore elseCore span ihCondition ihThen ihElse =>
    cases typed with
    | conditional test whenTrue whenFalse =>
      have tested := ihCondition apart.left test
      have branches := apart.right tested
      have taken := ihThen branches.left whenTrue
      exact tested.trans (taken.trans (ihElse (branches.right taken) whenFalse))
  | blockEnd tailCore span ih =>
    cases typed with
    | blockEnd last => exact ih apart last
  | blockLet id name nameSpan letSpan open_ valueCore rest ihValue ihRest =>
    simp only [Expr.binders, Expr.bindersStmts, List.append_assoc, List.cons_append] at apart ⊢
    cases typed with
    | blockLet bound generalises others =>
      have grown := ihValue apart.left bound
      have named := apart.right grown
      exact grown.trans ((growsBy_insert (named.new id List.mem_cons_self) _).trans
        (ihRest (named.insert _) others))
  | blockRun runSpan exprCore rest ihExpr ihRest =>
    simp only [Expr.binders, Expr.bindersStmts, List.append_assoc] at apart ⊢
    cases typed with
    | blockRun first others =>
      have grown := ihExpr apart.left first
      exact grown.trans (ihRest (apart.right grown) others)

/-- A typing that keeps names is a typing in the scopes of the names. -/
def TypedInScope (expr : Expr) : Prop :=
  ∀ ⦃env ty after scope⦄, Apart expr.binders env → env.Knows scope →
    expr.isScoped scope = true → TypedKeeping env expr ty after →
    HasType (env.visible scope) expr ty

theorem AllTypedKeeping.hasType (cores : ∀ expr ∈ exprs, IsCore expr)
    (each : ∀ expr ∈ exprs, TypedInScope expr) {after : Env} {scope : List LocalId}
    (apart : Apart (Expr.bindersAll exprs) env) (knows : env.Knows scope)
    (refers : Expr.allScoped scope exprs = true) (typed : AllTypedKeeping env exprs types after) :
    exprs.length = types.length ∧
      ∀ pair ∈ exprs.zip types, HasType (env.visible scope) pair.1 pair.2 := by
  induction exprs generalizing env types with
  | nil =>
    cases typed
    simp
  | cons expr rest ih =>
    cases typed with
    | @cons _ middle _ _ ty _ types first others =>
      rw [Expr.allScoped, Bool.and_eq_true] at refers
      have grown := (cores expr List.mem_cons_self).addsOwn apart.left first
      have head := each expr List.mem_cons_self apart.left knows refers.1 first
      have ⟨count, tail⟩ := ih (fun expr member => cores expr (List.mem_cons_of_mem _ member))
        (fun expr member => each expr (List.mem_cons_of_mem _ member)) (apart.right grown)
        (knows.after grown) refers.2 others
      rw [apart.left.visible_eq knows grown] at tail
      refine ⟨by simpa using count, ?_⟩
      intro pair member
      rcases List.mem_cons.mp member with rfl | inRest
      · exact head
      · exact tail pair inRest

theorem IsCore.typedInScope (core : IsCore expr) : TypedInScope expr := by
  intro env ty after scope apart knows refers typed
  induction core generalizing env ty after scope with
  | literal value =>
    cases typed
    exact .literal _ _
  | localRef id span =>
    cases typed with
    | localRef found isInstance =>
      rw [← find?_visible (by simpa [Expr.isScoped] using refers)] at found
      exact .localRef found isInstance span
  | @list elems each span ih =>
    cases typed with
    | @list _ _ _ elem mono all =>
      have ⟨_, typedEach⟩ := all.hasType each ih apart knows refers
      refine .list mono (fun expr member => ?_) span
      refine typedEach (expr, elem) ?_
      obtain ⟨position, inside, rfl⟩ := List.getElem_of_mem member
      exact List.mem_iff_getElem.mpr ⟨position, by simpa using inside, by simp⟩
  | tuple each span ih =>
    cases typed with
    | tuple all =>
      have ⟨count, typedEach⟩ := all.hasType each ih apart knows refers
      exact .tuple count typedEach span
  | @record fields each span ih =>
    simp only [Expr.binders, Expr.bindersFields_eq] at apart
    simp only [Expr.isScoped, Expr.fieldsScoped_eq] at refers
    have contents : ∀ {motive : Expr → Prop}, (∀ field ∈ fields, motive field.content) →
        ∀ expr ∈ fields.map (·.content), motive expr := by
      intro motive all expr member
      obtain ⟨field, fieldMem, rfl⟩ := List.mem_map.mp member
      exact all field fieldMem
    cases typed with
    | record distinct all =>
      have ⟨count, typedEach⟩ := all.hasType (contents each) (contents ih) apart knows refers
      refine .record (by simpa using count) distinct (fun pair member => ?_) span
      refine typedEach (pair.1.content, pair.2) ?_
      rw [List.zip_map_left]
      exact List.mem_map_of_mem member
  | @lambda params body open_ inner span ih =>
    cases typed with
    | lambda count monos typedBody =>
      have grown := growsBy_bindAll apart.left count
      have typedInner :=
        ih (apart.right grown) (knows.bindAll apart.left count) refers typedBody
      rw [visible_bindAll apart.left count] at typedInner
      exact .lambda count monos typedInner span
  | call calleeCore each span ihCallee ihArgs =>
    rw [Expr.isScoped, Bool.and_eq_true] at refers
    cases typed with
    | call function all =>
      have grown := calleeCore.addsOwn apart.left function
      have ⟨count, typedEach⟩ := all.hasType each ihArgs (apart.right grown)
        (knows.after grown) refers.2
      rw [apart.left.visible_eq knows grown] at typedEach
      exact .call (ihCallee apart.left knows refers.1 function) count typedEach span
  | conditional conditionCore thenCore elseCore span ihCondition ihThen ihElse =>
    simp only [Expr.isScoped, Bool.and_eq_true] at refers
    cases typed with
    | conditional test whenTrue whenFalse =>
      have tested := conditionCore.addsOwn apart.left test
      have branches := apart.right tested
      have taken := thenCore.addsOwn branches.left whenTrue
      have testedKnows := knows.after tested
      have typedThen := ihThen branches.left testedKnows refers.2.1 whenTrue
      have typedElse := ihElse (branches.right taken) (testedKnows.after taken) refers.2.2
        whenFalse
      rw [branches.left.visible_eq testedKnows taken] at typedElse
      rw [apart.left.visible_eq knows tested] at typedThen typedElse
      exact .conditional (ihCondition apart.left knows refers.1 test) typedThen typedElse span
  | blockEnd tailCore span ih =>
    cases typed with
    | blockEnd last =>
      refine .blockEnd (ih apart knows ?_ last) span
      simpa [Expr.isScoped, Expr.stmtsScoped, Expr.scopeAfter] using refers
  | blockLet id name nameSpan letSpan open_ valueCore rest ihValue ihRest =>
    simp only [Expr.binders, Expr.bindersStmts, List.append_assoc, List.cons_append] at apart
    simp only [Expr.isScoped, Expr.stmtsScoped, Expr.scopeAfter, Bool.and_eq_true,
      and_assoc] at refers
    cases typed with
    | blockLet bound generalises others =>
      have grown := valueCore.addsOwn apart.left bound
      have named := apart.right grown
      have new := named.new id List.mem_cons_self
      have typedRest := ihRest (named.insert _) ((knows.after grown).insert new _)
        (by simpa [Expr.isScoped] using refers.2) others
      rw [visible_insert new, apart.left.visible_eq knows grown] at typedRest
      refine .blockLet (ihValue apart.left knows refers.1 bound) (generalises.mono ?_) typedRest
      exact fun id found => grown.vars_subset id (vars_visible_subset id found)
  | blockRun runSpan exprCore rest ihExpr ihRest =>
    simp only [Expr.binders, Expr.bindersStmts, List.append_assoc] at apart
    simp only [Expr.isScoped, Expr.stmtsScoped, Expr.scopeAfter, Bool.and_eq_true,
      and_assoc] at refers
    cases typed with
    | blockRun first others =>
      have grown := exprCore.addsOwn apart.left first
      have typedRest := ihRest (apart.right grown)
        (knows.after grown)
        (by simpa [Expr.isScoped] using refers.2) others
      rw [apart.left.visible_eq knows grown] at typedRest
      exact .blockRun (ihExpr apart.left knows refers.1 first) typedRest

/-- Under distinct and well-scoped names, keeping names types only what is typable without. -/
theorem TypedKeeping.hasType {after : Env} (typed : TypedKeeping env expr ty after)
    (core : IsCore expr) (apart : Apart expr.binders env) (refers : expr.isScoped env.keys = true) :
    HasType env expr ty := by
  have typedVisible := core.typedInScope apart (fun _ member => member) refers typed
  rwa [visible_eq_self fun _ member => member] at typedVisible

end TraitCheck
