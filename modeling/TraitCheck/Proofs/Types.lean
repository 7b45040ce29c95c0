import Mathlib
import TraitCheck.Ty.Traverse

/-!
# The algebra of types

Types hold lists of types, so the recursion that Lean derives for them has a motive for each of the
nested lists. `Ty.induction` packs these away: a former with several components comes with one
hypothesis for all of them. Every traversal is then given its equations in terms of `List.map`,
`List.flatMap` and `List.any`. `Ty.bindVars` is the action of an assignment of types to variables,
and everything that is said about solved types later on is said through it.
-/

namespace TraitCheck.Ty

variable {ty : Ty} {image : VarId → Ty} {α : Type} {accept : Ty → Bool} {bound : Nat}
  {admits : Int → Bool}
variable {id : VarId} {part : Ty} {accept' : Ty → Bool} {motive : Ty → Prop}

/-- Induction over types with one hypothesis for all components of a former. -/
@[elab_as_elim]
theorem induction (absent : motive .absent) (prim : ∀ kind, motive (.prim kind))
    (var : ∀ id, motive (.var id))
    (param : ∀ index name, motive (.param index name))
    (named : ∀ decl args, (∀ arg ∈ args, motive arg) → motive (.named decl args))
    (fn : ∀ params result, (∀ param ∈ params, motive param) → motive result →
      motive (.fn params result))
    (tuple : ∀ elems, (∀ elem ∈ elems, motive elem) → motive (.tuple elems))
    (record : ∀ fields, (∀ field ∈ fields, motive field.2) → motive (.record fields))
    (scheme : ∀ names body, motive body → motive (.scheme names body))
    (unknown : motive .unknown)
    (foreign : ∀ name, motive (.foreign name))
    (ty : Ty) : motive ty :=
  @Ty.rec motive (fun types => ∀ ty ∈ types, motive ty)
    (fun fields => ∀ field ∈ fields, motive field.2) (fun field => motive field.2)
    absent prim var param named fn tuple record scheme unknown foreign
    (by simp) (fun _ _ head tail => by simpa using ⟨head, tail⟩)
    (by simp) (fun _ _ head tail => by
      intro field member
      rcases List.mem_cons.mp member with rfl | rest
      · exact head
      · exact tail field rest)
    (fun _ _ inner => inner) ty

attribute [local simp] rebuild rebuildList rebuildRow collect collectList collectRow any anyList
  anyRow weight weightList weightRow

mutual

theorem collect_append (pick : Ty → Option α) (ty : Ty) (tail : List α) :
    ty.collect pick tail = ty.collect pick [] ++ tail := by
  cases ty with
  | fn params result =>
    simp only [collect]
    rw [collectList_append, collect_append, collectList_append pick params (result.collect pick [])]
    simp
  | record fields =>
    rw [collect, collectRow_append, collect, List.append_assoc]
  | scheme names body =>
    rw [collect, collect_append, collect, List.append_assoc]
  | absent => rfl
  | _ => simp [collect, collectList_append _ _ tail]

theorem collectList_append (pick : Ty → Option α) (types : List Ty) (tail : List α) :
    collectList pick types tail = collectList pick types [] ++ tail := by
  cases types with
  | nil => rfl
  | cons ty rest =>
    simp only [collectList]
    rw [collect_append, collectList_append, collect_append pick ty (collectList pick rest [])]
    simp

theorem collectRow_append (pick : Ty → Option α) (fields : List (String × Ty)) (tail : List α) :
    collectRow pick fields tail = collectRow pick fields [] ++ tail := by
  rcases fields with _ | ⟨⟨label, ty⟩, rest⟩
  · rfl
  · simp only [collectRow]
    rw [collect_append, collectRow_append, collect_append pick ty (collectRow pick rest [])]
    simp

end

theorem collectList_eq_flatMap (pick : Ty → Option α) (types : List Ty) :
    collectList pick types [] = types.flatMap (collect pick · []) := by
  induction types with
  | nil => rfl
  | cons ty rest ih => rw [collectList, collect_append, ih, List.flatMap_cons]

theorem collectRow_eq_flatMap (pick : Ty → Option α) (fields : List (String × Ty)) :
    collectRow pick fields [] = fields.flatMap fun field => field.2.collect pick [] := by
  induction fields with
  | nil => rfl
  | cons field rest ih => rw [collectRow, collect_append, ih, List.flatMap_cons]

@[simp]
theorem anyList_eq_any (accept : Ty → Bool) (types : List Ty) :
    anyList accept types = types.any (any accept) := by
  induction types with
  | nil => rfl
  | cons ty rest ih => simp [anyList, ih]

@[simp]
theorem anyRow_eq_any (accept : Ty → Bool) (fields : List (String × Ty)) :
    anyRow accept fields = fields.any fun field => any accept field.2 := by
  induction fields with
  | nil => rfl
  | cons field rest ih => simp [anyRow, ih]

@[simp]
theorem weightList_eq_sum (types : List Ty) : weightList types = (types.map weight).sum := by
  induction types with
  | nil => rfl
  | cons ty rest ih => simp [weightList, ih]

@[simp]
theorem weightRow_eq_sum (fields : List (String × Ty)) :
    weightRow fields = (fields.map fun field => field.2.weight).sum := by
  induction fields with
  | nil => rfl
  | cons field rest ih => simp [weightRow, ih]

@[simp]
theorem vars_absent : absent.vars = [] := rfl

@[simp]
theorem vars_prim (kind : Prim) : (prim kind).vars = [] := rfl

@[simp]
theorem vars_var (id : VarId) : (var id).vars = [id] := rfl

@[simp]
theorem vars_param (index : Int) (name : String) : (param index name).vars = [] := rfl

@[simp]
theorem vars_unknown : unknown.vars = [] := rfl

@[simp]
theorem vars_foreign (name : String) : (foreign name).vars = [] := rfl

@[simp]
theorem vars_scheme (names : List String) (body : Ty) :
    (scheme names body).vars = body.vars := rfl

@[simp]
theorem vars_named (decl : DefId) (args : List Ty) :
    (named decl args).vars = args.flatMap vars := by
  simp only [vars, collect, collectList_eq_flatMap]
  rfl

@[simp]
theorem vars_fn (params : List Ty) (result : Ty) :
    (fn params result).vars = params.flatMap vars ++ result.vars := by
  simp only [vars, collect]
  rw [collectList_append, collectList_eq_flatMap]
  rfl

@[simp]
theorem vars_tuple (elems : List Ty) : (tuple elems).vars = elems.flatMap vars := by
  simp only [vars, collect, collectList_eq_flatMap]
  rfl

@[simp]
theorem vars_record (fields : List (String × Ty)) :
    (record fields).vars = fields.flatMap fun field => field.2.vars := by
  simp only [vars, collect, collectRow_eq_flatMap]
  rfl

/-- The immediate components of a type. -/
def parts : Ty → List Ty
  | .named _ args => args
  | .fn params result => params ++ [result]
  | .tuple elems => elems
  | .record fields => fields.map Prod.snd
  | .scheme _ body => [body]
  | .absent | .prim _ | .var _ | .param _ _ | .unknown | .foreign _ => []

@[elab_as_elim, induction_eliminator]
theorem parts_induction
    (step : ∀ ty, (∀ part ∈ ty.parts, motive part) → motive ty) (ty : Ty) : motive ty := by
  induction ty using Ty.induction with
  | named decl args ih | tuple elems ih => exact step _ ih
  | fn params result ihParams ihResult =>
    apply step
    intro part member
    rcases List.mem_append.mp member with inParams | isResult
    · exact ihParams part inParams
    · rw [List.mem_singleton.mp isResult]
      exact ihResult
  | record fields ih =>
    apply step
    intro part member
    rcases List.mem_map.mp member with ⟨field, fieldMem, rfl⟩
    exact ih field fieldMem
  | scheme names body ih => exact step _ (by simpa [parts] using ih)
  | _ => exact step _ (by simp [parts])

theorem var_or_not (ty : Ty) : (∃ id, ty = var id) ∨ ∀ id, ty ≠ var id := by
  cases ty <;> simp

theorem vars_eq_flatMap (noVar : ∀ id, ty ≠ var id) : ty.vars = ty.parts.flatMap vars := by
  cases ty with
  | var id => exact absurd rfl (noVar id)
  | _ => simp [parts, List.flatMap_map]

theorem mem_vars_iff : id ∈ ty.vars ↔ ty = var id ∨ ∃ part ∈ ty.parts, id ∈ part.vars := by
  rcases ty.var_or_not with ⟨other, rfl⟩ | noVar
  · simp [parts, eq_comm]
  · rw [vars_eq_flatMap noVar]
    simp [noVar id]

theorem mem_vars_of_part (member : part ∈ ty.parts) (found : id ∈ part.vars) : id ∈ ty.vars :=
  mem_vars_iff.mpr (.inr ⟨part, member, found⟩)

theorem collect_eq (pick : Ty → Option α) (present : ty ≠ absent) :
    ty.collect pick [] = (pick ty).toList ++ ty.parts.flatMap (collect pick · []) := by
  cases ty with
  | absent => exact absurd rfl present
  | fn params result =>
    simp only [collect]
    rw [collectList_append, collectList_eq_flatMap]
    simp [parts]
  | record fields => simp [collect, parts, collectRow_eq_flatMap, List.flatMap_map]
  | _ => simp [collect, parts, collectList_eq_flatMap]

theorem any_eq (present : ty ≠ absent) :
    ty.any accept = (accept ty || ty.parts.any (any accept)) := by
  cases ty with
  | absent => exact absurd rfl present
  | _ => simp [any, parts, Function.comp_def, Bool.or_assoc]

theorem occurs_iff : ty.occurs id = true ↔ id ∈ ty.vars := by
  induction ty with
  | step ty ih =>
    rcases eq_or_ne ty absent with rfl | present
    · simp [occurs, any]
    · have head : isVar id ty = true ↔ ty = var id := by
        cases ty <;> simp [isVar, var?]
      rw [occurs, any_eq present, mem_vars_iff, Bool.or_eq_true, head, List.any_eq_true]
      exact or_congr_right (exists_congr fun part => and_congr_right (ih part))

theorem weight_eq (ty : Ty) :
    ty.weight = (if ty.isAbsent then 0 else 1) + (ty.parts.map weight).sum := by
  cases ty <;> simp [weight, parts, isAbsent, Function.comp_def] <;> omega

theorem length_vars_le_weight (ty : Ty) : ty.vars.length ≤ ty.weight := by
  induction ty with
  | step ty ih =>
    rcases ty.var_or_not with ⟨id, rfl⟩ | noVar
    · simp [weight]
    · rw [vars_eq_flatMap noVar, weight_eq, List.length_flatMap]
      exact Nat.le_add_left_of_le (List.sum_le_sum ih)

theorem weight_part_le (member : part ∈ ty.parts) : part.weight + 1 ≤ ty.weight := by
  have present : ty.isAbsent = false := by
    cases ty <;> simp [parts, isAbsent] at member ⊢
  have bounded : part.weight ≤ (ty.parts.map weight).sum :=
    List.le_sum_of_mem (List.mem_map_of_mem member)
  rw [weight_eq ty, present]
  simp only [Bool.false_eq_true, ↓reduceIte]
  omega

/-- Replaces the immediate components of a type. -/
def mapParts (image : Ty → Ty) : Ty → Ty
  | .named decl args => .named decl (args.map image)
  | .fn params result => .fn (params.map image) (image result)
  | .tuple elems => .tuple (elems.map image)
  | .record fields => .record (fields.map fun field => (field.1, image field.2))
  | .scheme names body => .scheme names (image body)
  | ty => ty

theorem mapParts_congr {first second : Ty → Ty}
    (agree : ∀ part ∈ ty.parts, first part = second part) :
    ty.mapParts first = ty.mapParts second := by
  cases ty with
  | record fields =>
    simp only [mapParts, record.injEq]
    refine List.map_congr_left fun field member => ?_
    rw [agree field.2 (List.mem_map_of_mem member)]
  | _ => simp_all [mapParts, parts]

theorem mapParts_self (ty : Ty) : (ty.mapParts fun part => part) = ty := by
  cases ty <;> simp [mapParts]

section Assignments

variable (image : VarId → Ty)

@[simp]
theorem bindVars_absent : absent.bindVars image = absent := rfl

@[simp]
theorem bindVars_prim (kind : Prim) : (prim kind).bindVars image = prim kind := rfl

@[simp]
theorem bindVars_var (id : VarId) : (var id).bindVars image = image id := rfl

@[simp]
theorem bindVars_param (index : Int) (name : String) :
    (param index name).bindVars image = param index name := rfl

@[simp]
theorem bindVars_unknown : unknown.bindVars image = unknown := rfl

@[simp]
theorem bindVars_foreign (name : String) : (foreign name).bindVars image = foreign name := rfl

@[simp]
theorem bindVars_scheme (names : List String) (body : Ty) :
    (scheme names body).bindVars image = scheme names (body.bindVars image) := rfl

@[simp]
theorem bindVars_named (decl : DefId) (args : List Ty) :
    (named decl args).bindVars image = named decl (args.map (bindVars image)) := by
  simp [bindVars, rebuild, rebuildList_eq_map]

@[simp]
theorem bindVars_fn (params : List Ty) (result : Ty) :
    (fn params result).bindVars image =
      fn (params.map (bindVars image)) (result.bindVars image) := by
  simp [bindVars, rebuild, rebuildList_eq_map]

@[simp]
theorem bindVars_tuple (elems : List Ty) :
    (tuple elems).bindVars image = tuple (elems.map (bindVars image)) := by
  simp [bindVars, rebuild, rebuildList_eq_map]

@[simp]
theorem bindVars_record (fields : List (String × Ty)) :
    (record fields).bindVars image =
      record (fields.map fun field => (field.1, field.2.bindVars image)) := by
  simp [bindVars, rebuild, rebuildRow_eq_map]

end Assignments

theorem parts_bindVars (noVar : ∀ id, ty ≠ var id) :
    (ty.bindVars image).parts = ty.parts.map (bindVars image) := by
  cases ty with
  | var id => exact absurd rfl (noVar id)
  | _ => simp [parts]

theorem bindVars_eq_mapParts (noVar : ∀ id, ty ≠ var id) :
    ty.bindVars image = ty.mapParts (bindVars image) := by
  cases ty with
  | var id => exact absurd rfl (noVar id)
  | _ => simp [mapParts]

theorem bindVars_congr {first second : VarId → Ty} (agree : ∀ id ∈ ty.vars, first id = second id) :
    ty.bindVars first = ty.bindVars second := by
  induction ty with
  | step ty ih =>
    rcases ty.var_or_not with ⟨id, rfl⟩ | noVar
    · simpa using agree
    · rw [bindVars_eq_mapParts noVar, bindVars_eq_mapParts noVar]
      refine mapParts_congr fun part member => ih part member fun id found => ?_
      exact agree id (mem_vars_of_part member found)

@[simp]
theorem bindVars_self (ty : Ty) : ty.bindVars var = ty := by
  induction ty with
  | step ty ih =>
    rcases ty.var_or_not with ⟨id, rfl⟩ | noVar
    · rfl
    · rw [bindVars_eq_mapParts noVar, mapParts_congr ih, mapParts_self]

theorem bindVars_eq_self (fixed : ∀ id ∈ ty.vars, image id = var id) : ty.bindVars image = ty := by
  rw [bindVars_congr fixed, bindVars_self]

/-- Replaces every unification variable and every generic parameter by its image, all at once. -/
def bindLeaves (onVar : VarId → Ty) (onParam : Int → String → Ty) : Ty → Ty :=
  rebuild fun
    | .var id => onVar id
    | .param index name => onParam index name
    | ty => ty

section Leaves

variable {onVar : VarId → Ty} {onParam : Int → String → Ty}

@[simp]
theorem bindLeaves_absent : absent.bindLeaves onVar onParam = absent := rfl

@[simp]
theorem bindLeaves_prim (kind : Prim) : (prim kind).bindLeaves onVar onParam = prim kind := rfl

@[simp]
theorem bindLeaves_var (id : VarId) : (var id).bindLeaves onVar onParam = onVar id := rfl

@[simp]
theorem bindLeaves_param (index : Int) (name : String) :
    (param index name).bindLeaves onVar onParam = onParam index name := rfl

@[simp]
theorem bindLeaves_unknown : unknown.bindLeaves onVar onParam = unknown := rfl

@[simp]
theorem bindLeaves_foreign (name : String) :
    (foreign name).bindLeaves onVar onParam = foreign name := rfl

@[simp]
theorem bindLeaves_scheme (names : List String) (body : Ty) :
    (scheme names body).bindLeaves onVar onParam =
      scheme names (body.bindLeaves onVar onParam) := rfl

@[simp]
theorem bindLeaves_named (decl : DefId) (args : List Ty) :
    (named decl args).bindLeaves onVar onParam =
      named decl (args.map (bindLeaves onVar onParam)) := by
  simp [bindLeaves, rebuild, rebuildList_eq_map]

@[simp]
theorem bindLeaves_fn (params : List Ty) (result : Ty) :
    (fn params result).bindLeaves onVar onParam =
      fn (params.map (bindLeaves onVar onParam)) (result.bindLeaves onVar onParam) := by
  simp [bindLeaves, rebuild, rebuildList_eq_map]

@[simp]
theorem bindLeaves_tuple (elems : List Ty) :
    (tuple elems).bindLeaves onVar onParam = tuple (elems.map (bindLeaves onVar onParam)) := by
  simp [bindLeaves, rebuild, rebuildList_eq_map]

@[simp]
theorem bindLeaves_record (fields : List (String × Ty)) :
    (record fields).bindLeaves onVar onParam =
      record (fields.map fun field => (field.1, field.2.bindLeaves onVar onParam)) := by
  simp [bindLeaves, rebuild, rebuildRow_eq_map]

theorem leaf_or_not (ty : Ty) :
    (∃ id, ty = var id) ∨ (∃ index name, ty = param index name) ∨
      (∀ id, ty ≠ var id) ∧ ∀ index name, ty ≠ param index name := by
  cases ty <;> simp

theorem bindLeaves_eq_mapParts (noVar : ∀ id, ty ≠ var id)
    (noParam : ∀ index name, ty ≠ param index name) :
    ty.bindLeaves onVar onParam = ty.mapParts (bindLeaves onVar onParam) := by
  cases ty with
  | var id => exact absurd rfl (noVar id)
  | param index name => exact absurd rfl (noParam index name)
  | _ => simp [mapParts]

theorem parts_bindLeaves (noVar : ∀ id, ty ≠ var id)
    (noParam : ∀ index name, ty ≠ param index name) :
    (ty.bindLeaves onVar onParam).parts = ty.parts.map (bindLeaves onVar onParam) := by
  cases ty with
  | var id => exact absurd rfl (noVar id)
  | param index name => exact absurd rfl (noParam index name)
  | _ => simp [parts]

theorem bindLeaves_bindLeaves (onVar onVar' : VarId → Ty) (onParam onParam' : Int → String → Ty)
    (ty : Ty) :
    (ty.bindLeaves onVar onParam).bindLeaves onVar' onParam' =
      ty.bindLeaves (fun id => (onVar id).bindLeaves onVar' onParam')
        (fun index name => (onParam index name).bindLeaves onVar' onParam') := by
  induction ty using Ty.induction with
  | named decl args ih | tuple elems ih | scheme names body ih => simpa using ih
  | fn params result ihParams ihResult => simpa [ihResult] using ihParams
  | record fields ih => simpa using fun label ty member => ih (label, ty) member
  | _ => rfl

theorem bindVars_eq_bindLeaves (image : VarId → Ty) (ty : Ty) :
    ty.bindVars image = ty.bindLeaves image param := by
  unfold bindVars bindLeaves
  congr 1
  funext part
  cases part <;> rfl

theorem bindParams_eq_bindLeaves (image : Int → String → Ty) (ty : Ty) :
    ty.bindParams image = ty.bindLeaves var image := by
  unfold bindParams bindLeaves
  congr 1
  funext part
  cases part <;> rfl

theorem bindVars_bindVars (first second : VarId → Ty) (ty : Ty) :
    (ty.bindVars first).bindVars second = ty.bindVars fun id => (first id).bindVars second := by
  simp only [bindVars_eq_bindLeaves, bindLeaves_bindLeaves]
  rfl

theorem mem_vars_bindLeaves (found : id ∈ (ty.bindLeaves onVar onParam).vars) :
    (∃ source ∈ ty.vars, id ∈ (onVar source).vars) ∨
      ∃ index name, id ∈ (onParam index name).vars := by
  induction ty with
  | step ty ih =>
    rcases leaf_or_not ty with ⟨source, rfl⟩ | ⟨index, name, rfl⟩ | ⟨noVar, noParam⟩
    · exact .inl ⟨source, by simp, found⟩
    · exact .inr ⟨index, name, found⟩
    · rcases mem_vars_iff.mp found with isVar | ⟨image, imageMem, inImage⟩
      · cases ty <;> simp at isVar noVar noParam
      · rw [parts_bindLeaves noVar noParam] at imageMem
        rcases List.mem_map.mp imageMem with ⟨part, partMem, rfl⟩
        rcases ih part partMem inImage with ⟨source, occurs, inner⟩ | inParam
        · exact .inl ⟨source, mem_vars_of_part partMem occurs, inner⟩
        · exact .inr inParam

theorem mem_vars_bindLeaves_of_mem {source : VarId} (occurs : source ∈ ty.vars)
    (found : id ∈ (onVar source).vars) : id ∈ (ty.bindLeaves onVar onParam).vars := by
  induction ty with
  | step ty ih =>
    rcases leaf_or_not ty with ⟨other, rfl⟩ | ⟨index, name, rfl⟩ | ⟨noVar, noParam⟩
    · simp only [vars_var, List.mem_singleton] at occurs
      rwa [occurs] at found
    · simp at occurs
    · rcases mem_vars_iff.mp occurs with isVar | ⟨part, partMem, inPart⟩
      · exact absurd isVar (noVar source)
      · refine mem_vars_of_part ?_ (ih part partMem inPart)
        rw [parts_bindLeaves noVar noParam]
        exact List.mem_map_of_mem partMem

end Leaves

theorem mem_vars_bindVars :
    id ∈ (ty.bindVars image).vars ↔ ∃ source ∈ ty.vars, id ∈ (image source).vars := by
  rw [bindVars_eq_bindLeaves]
  constructor
  · intro found
    rcases mem_vars_bindLeaves found with inside | ⟨index, name, inParam⟩
    · exact inside
    · cases inParam
  · rintro ⟨source, occurs, found⟩
    exact mem_vars_bindLeaves_of_mem occurs found

theorem part_bindVars_mem (image : VarId → Ty) (member : part ∈ ty.parts) :
    part.bindVars image ∈ (ty.bindVars image).parts := by
  have noVar : ∀ id, ty ≠ var id := by
    rintro id rfl
    simp [parts] at member
  rw [parts_bindVars noVar]
  exact List.mem_map_of_mem member

theorem weight_image_le (image : VarId → Ty) (found : id ∈ ty.vars) :
    (image id).weight ≤ (ty.bindVars image).weight := by
  induction ty with
  | step ty ih =>
    rcases mem_vars_iff.mp found with rfl | ⟨part, member, partFound⟩
    · simp
    · have := ih part member partFound
      have := weight_part_le (part_bindVars_mem image member)
      omega

theorem weight_image_lt (image : VarId → Ty) (found : id ∈ ty.vars) (proper : ty ≠ var id) :
    (image id).weight < (ty.bindVars image).weight := by
  rcases mem_vars_iff.mp found with isVar | ⟨part, member, partFound⟩
  · exact absurd isVar proper
  · have lighter := weight_image_le image partFound
    have heavier := weight_part_le (part_bindVars_mem image member)
    omega

/-- This is what makes the occurs check right: no assignment makes a variable equal to a type that
it is a proper part of. -/
theorem image_ne_bindVars (image : VarId → Ty) (found : id ∈ ty.vars) (proper : ty ≠ var id) :
    image id ≠ ty.bindVars image := by
  intro same
  have lighter := weight_image_lt image found proper
  rw [← same] at lighter
  exact lt_irrefl _ lighter

mutual

/-- The longest path through a type. -/
def height : Ty → Nat
  | .named _ args => heightList args + 1
  | .fn params result => max (heightList params) (height result) + 1
  | .tuple elems => heightList elems + 1
  | .record fields => heightRow fields + 1
  | .scheme _ body => height body + 1
  | .absent | .prim _ | .var _ | .param _ _ | .unknown | .foreign _ => 0

def heightList : List Ty → Nat
  | [] => 0
  | ty :: rest => max (height ty) (heightList rest)

def heightRow : List (String × Ty) → Nat
  | [] => 0
  | (_, ty) :: rest => max (height ty) (heightRow rest)

end

attribute [local simp] height heightList heightRow

theorem heightList_le_iff {types : List Ty} :
    heightList types ≤ bound ↔ ∀ ty ∈ types, ty.height ≤ bound := by
  induction types with
  | nil => simp [heightList]
  | cons ty rest ih => simp [heightList, ih]

theorem heightRow_le_iff {fields : List (String × Ty)} :
    heightRow fields ≤ bound ↔ ∀ ty ∈ fields.map Prod.snd, ty.height ≤ bound := by
  induction fields with
  | nil => simp [heightRow]
  | cons field rest ih => simp [heightRow, ih]

theorem height_le_succ (parts : ∀ part ∈ ty.parts, part.height ≤ bound) :
    ty.height ≤ bound + 1 := by
  cases ty with
  | named decl args | tuple elems => exact Nat.succ_le_succ (heightList_le_iff.mpr parts)
  | fn params result =>
    have below : heightList params ≤ bound :=
      heightList_le_iff.mpr fun param member => parts param (List.mem_append_left _ member)
    have resultBelow : result.height ≤ bound := parts result (by simp [Ty.parts])
    exact Nat.succ_le_succ (max_le below resultBelow)
  | record fields => exact Nat.succ_le_succ (heightRow_le_iff.mpr parts)
  | scheme names body => exact Nat.succ_le_succ (parts body (by simp [Ty.parts]))
  | _ => simp [height]

theorem height_part_lt (member : part ∈ ty.parts) : part.height < ty.height := by
  cases ty with
  | named decl args | tuple elems =>
    exact Nat.lt_succ_of_le (heightList_le_iff.mp le_rfl part member)
  | fn params result =>
    apply Nat.lt_succ_of_le
    rcases List.mem_append.mp member with inParams | isResult
    · exact le_max_of_le_left (heightList_le_iff.mp le_rfl part inParams)
    · rw [List.mem_singleton.mp isResult]
      exact le_max_right _ _
  | record fields => exact Nat.lt_succ_of_le (heightRow_le_iff.mp le_rfl part member)
  | scheme names body =>
    rw [List.mem_singleton.mp member]
    exact Nat.lt_succ_self _
  | _ => simp [parts] at member

theorem height_le_weight (ty : Ty) : ty.height ≤ ty.weight := by
  induction ty with
  | step ty ih =>
    rcases weightCase : ty.weight with _ | bound
    · cases ty <;> simp [weight] at weightCase
      exact le_rfl
    · apply height_le_succ
      intro part member
      have := ih part member
      have := weight_part_le member
      omega

theorem height_bindVars_le (images : ∀ id ∈ ty.vars, (image id).height ≤ bound) :
    (ty.bindVars image).height ≤ ty.height + bound := by
  induction ty with
  | step ty ih =>
    rcases ty.var_or_not with ⟨id, rfl⟩ | noVar
    · simpa [height] using images
    · rcases heightCase : ty.height with _ | inner
      · cases ty <;> simp [height] at heightCase noVar ⊢
      · have partsBounded : ∀ part ∈ (ty.bindVars image).parts, part.height ≤ inner + bound := by
          rw [parts_bindVars noVar]
          intro part member
          rcases List.mem_map.mp member with ⟨source, sourceMem, rfl⟩
          have := ih source sourceMem fun id found => images id (mem_vars_of_part sourceMem found)
          have := height_part_lt sourceMem
          omega
        have := height_le_succ partsBounded
        omega

mutual

/-- Whether a type and all its components are accepted, absent ones included. -/
def all (accept : Ty → Bool) : Ty → Bool
  | .named decl args => accept (.named decl args) && allList accept args
  | .fn params result => accept (.fn params result) && allList accept params && all accept result
  | .tuple elems => accept (.tuple elems) && allList accept elems
  | .record fields => accept (.record fields) && allRow accept fields
  | .scheme names body => accept (.scheme names body) && all accept body
  | .absent => accept .absent
  | .prim kind => accept (.prim kind)
  | .var id => accept (.var id)
  | .param index name => accept (.param index name)
  | .unknown => accept .unknown
  | .foreign name => accept (.foreign name)

def allList (accept : Ty → Bool) : List Ty → Bool
  | [] => true
  | ty :: rest => all accept ty && allList accept rest

def allRow (accept : Ty → Bool) : List (String × Ty) → Bool
  | [] => true
  | (_, ty) :: rest => all accept ty && allRow accept rest

end

attribute [local simp] all allList allRow

@[simp]
theorem allList_eq_all (accept : Ty → Bool) (types : List Ty) :
    allList accept types = types.all (all accept) := by
  induction types with
  | nil => rfl
  | cons ty rest ih => simp [allList, ih]

@[simp]
theorem allRow_eq_all (accept : Ty → Bool) (fields : List (String × Ty)) :
    allRow accept fields = fields.all fun field => all accept field.2 := by
  induction fields with
  | nil => rfl
  | cons field rest ih => simp [allRow, ih]

theorem all_iff :
    ty.all accept = true ↔ accept ty = true ∧ ∀ part ∈ ty.parts, part.all accept = true := by
  have unfolded : ty.all accept = (accept ty && ty.parts.all (all accept)) := by
    cases ty <;> simp [all, parts, Function.comp_def, Bool.and_assoc]
  rw [unfolded, Bool.and_eq_true, List.all_eq_true]

theorem all_of_part (holds : ty.all accept = true) (member : part ∈ ty.parts) :
    part.all accept = true :=
  (all_iff.mp holds).2 part member

theorem all_of_imp (holds : ty.all accept = true)
    (weaker : ∀ ty, accept ty = true → accept' ty = true) : ty.all accept' = true := by
  induction ty with
  | step ty ih =>
    rcases all_iff.mp holds with ⟨former, inner⟩
    exact all_iff.mpr ⟨weaker ty former, fun part member => ih part member (inner part member)⟩

theorem all_bindLeaves {onVar : VarId → Ty} {onParam : Int → String → Ty}
    (former : ∀ ty, (∀ id, ty ≠ var id) → (∀ index name, ty ≠ param index name) →
      accept ty = true → accept' (ty.bindLeaves onVar onParam) = true)
    (holds : ty.all accept = true) (onVars : ∀ id ∈ ty.vars, (onVar id).all accept' = true)
    (onParams : ∀ index name, accept (param index name) = true →
      (onParam index name).all accept' = true) :
    (ty.bindLeaves onVar onParam).all accept' = true := by
  induction ty with
  | step ty ih =>
    rcases leaf_or_not ty with ⟨id, rfl⟩ | ⟨index, name, rfl⟩ | ⟨noVar, noParam⟩
    · exact onVars id (by simp)
    · exact onParams index name holds
    · rw [all_iff] at holds ⊢
      refine ⟨former ty noVar noParam holds.1, ?_⟩
      rw [parts_bindLeaves noVar noParam]
      intro image imageMem
      rcases List.mem_map.mp imageMem with ⟨part, partMem, rfl⟩
      exact ih part partMem (holds.2 part partMem) fun id occurs =>
        onVars id (mem_vars_of_part partMem occurs)

theorem all_bindVars
    (former : ∀ ty, (∀ id, ty ≠ var id) → accept ty = true → accept (ty.bindVars image) = true)
    (holds : ty.all accept = true) (images : ∀ id ∈ ty.vars, (image id).all accept = true) :
    (ty.bindVars image).all accept = true := by
  simp only [bindVars_eq_bindLeaves] at former ⊢
  exact all_bindLeaves (fun ty noVar _ => former ty noVar) holds images fun _ _ accepted => accepted

/-- No part of the type is absent. -/
def isPresent (ty : Ty) : Bool := ty.all (!·.isAbsent)

/-- Whether a former is one of the plain ones, with parameters among the admitted ones. -/
def isPlainFormer (admits : Int → Bool) : Ty → Bool
  | .param index _ => admits index
  | .prim _ | .var _ | .named _ _ | .fn _ _ | .tuple _ | .record _ => true
  | .absent | .scheme _ _ | .unknown | .foreign _ => false

/-- Whether a type is built from primitives, variables, admitted parameters, declared types,
functions, tuples and records only. -/
def isPlain (admits : Int → Bool) (ty : Ty) : Bool := ty.all (isPlainFormer admits)

/-- Whether a type is a monotype: plain and without parameters other than `Self`, since a parameter
with a position only has a meaning below a quantifier. -/
def isMono (ty : Ty) : Bool := ty.isPlain (· < 0)

attribute [local simp] isPlainFormer isAbsent isUnknown

theorem isKnown_iff : ty.isKnown = true ↔ ty.all (!·.isUnknown) = true := by
  induction ty with
  | step ty ih =>
    rcases eq_or_ne ty absent with rfl | present
    · simp [isKnown, any, all, isUnknown]
    · rw [all_iff, isKnown, any_eq present]
      simp only [Bool.not_or, Bool.and_eq_true, Bool.not_eq_true', List.any_eq_false]
      refine and_congr_right fun _ => forall_congr' fun part => imp_congr_right fun member => ?_
      rw [← ih part member, isKnown]
      simp

theorem isPlain_of_imp {admits' : Int → Bool} (plain : ty.isPlain admits = true)
    (weaker : ∀ index, admits index = true → admits' index = true) : ty.isPlain admits' = true := by
  apply all_of_imp plain
  intro ty former
  cases ty with
  | param index name => exact weaker index former
  | _ => exact former

theorem isPresent_of_isPlain (plain : ty.isPlain admits = true) : ty.isPresent = true := by
  apply all_of_imp plain
  intro ty former
  cases ty <;> simp [isPlainFormer, isAbsent] at former ⊢

theorem isKnown_of_isPlain (plain : ty.isPlain admits = true) : ty.isKnown = true := by
  rw [isKnown_iff]
  apply all_of_imp plain
  intro ty former
  cases ty <;> simp [isPlainFormer, isUnknown] at former ⊢

theorem lacksField_of_isPresent (present : ty.isPresent = true) : ty.lacksField = false := by
  cases ty with
  | record fields =>
    simp only [lacksField, List.any_eq_false]
    intro field member
    have := (all_iff.mp (all_of_part present (List.mem_map_of_mem member))).1
    simpa using this
  | _ => rfl

theorem isComplete_of_isPresent (present : ty.isPresent = true) : ty.isComplete = true := by
  induction ty with
  | step ty ih =>
    have ⟨former, inner⟩ := all_iff.mp present
    have notAbsent : ty ≠ absent := by
      rintro rfl
      simp [isAbsent] at former
    simp only [isComplete, any_eq notAbsent, lacksField_of_isPresent present, Bool.false_or,
      Bool.not_eq_true', List.any_eq_false]
    intro part member
    have := ih part member (inner part member)
    simpa [isComplete] using this

theorem isPlain_bindVars (plain : ty.isPlain admits = true)
    (images : ∀ id ∈ ty.vars, (image id).isPlain admits = true) :
    (ty.bindVars image).isPlain admits = true := by
  refine all_bindVars ?_ plain images
  intro ty noVar former
  cases ty <;> simp [isPlainFormer] at noVar former ⊢
  exact former

theorem isPresent_bindVars (present : ty.isPresent = true)
    (images : ∀ id ∈ ty.vars, (image id).isPresent = true) :
    (ty.bindVars image).isPresent = true := by
  refine all_bindVars ?_ present images
  intro ty noVar former
  cases ty <;> simp [isAbsent] at noVar former ⊢

theorem isKnown_bindVars (known : ty.isKnown = true)
    (images : ∀ id ∈ ty.vars, (image id).isKnown = true) : (ty.bindVars image).isKnown = true := by
  rw [isKnown_iff] at known ⊢
  refine all_bindVars ?_ known fun id found => isKnown_iff.mp (images id found)
  intro ty noVar former
  cases ty <;> simp [isUnknown] at noVar former ⊢

end TraitCheck.Ty
