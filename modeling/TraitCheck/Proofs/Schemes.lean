import TraitCheck.Proofs.Acyclic
import TraitCheck.Scheme

/-!
# Schemes and their instances

A scheme stands for its instances, the monotypes that arise when its parameters are replaced by
monotypes. Replacing variables and replacing parameters are both replacements of leaves, and a
sequence of such replacements is one of them again; equations between them are then checked leaf by
leaf. Quantifying variables is undone by instantiation: the instances of a quantified type are the
images of the type under assignments that change quantified variables only.
-/

namespace TraitCheck

variable {ty : Ty} {ids : List VarId} {args : List Ty} {assignment onVar image : VarId → Ty}
  {onParam : Int → String → Ty} {admits : Int → Bool} {start : VarId} {position count : Nat}
variable {id : VarId} {admits' : Int → Bool} {args' : List Ty} {index : Int} {other : VarId}
  {result : Ty}

namespace Ty

/-- All parameters of the type are admitted. -/
def paramsWithin (admits : Int → Bool) (ty : Ty) : Bool :=
  ty.all fun
    | .param index _ => admits index
    | _ => true

theorem paramsWithin_of_isPlain (plain : ty.isPlain admits = true) :
    ty.paramsWithin admits = true := by
  apply all_of_imp plain
  intro ty former
  cases ty with
  | param index name => exact former
  | _ => rfl

theorem paramsWithin_of_imp (within : ty.paramsWithin admits = true)
    (wider : ∀ index, admits index = true → admits' index = true) :
    ty.paramsWithin admits' = true := by
  apply all_of_imp within
  intro ty former
  cases ty with
  | param index name => exact wider index former
  | _ => rfl

/-- Replacements of leaves agree on a type if they agree on its variables and on the parameters that
it may hold. -/
theorem bindLeaves_congr {onVar' : VarId → Ty} {onParam' : Int → String → Ty}
    (within : ty.paramsWithin admits = true) (vars : ∀ id ∈ ty.vars, onVar id = onVar' id)
    (params : ∀ index name, admits index = true → onParam index name = onParam' index name) :
    ty.bindLeaves onVar onParam = ty.bindLeaves onVar' onParam' := by
  induction ty with
  | step ty ih =>
    rcases leaf_or_not ty with ⟨id, rfl⟩ | ⟨index, name, rfl⟩ | ⟨noVar, noParam⟩
    · exact vars id (by simp)
    · exact params index name (all_iff.mp within).1
    · rw [bindLeaves_eq_mapParts noVar noParam, bindLeaves_eq_mapParts noVar noParam]
      refine mapParts_congr fun part member => ?_
      exact ih part member (all_of_part within member) fun id found =>
        vars id (mem_vars_of_part member found)

/-- The argument for a parameter, or the parameter itself. -/
def argOr (args : List Ty) (index : Int) (name : String) : Ty :=
  if index < 0 then param index name else args.getD index.toNat (param index name)

theorem substParams_eq_bindLeaves (args : List Ty) (ty : Ty) :
    ty.substParams args = ty.bindLeaves var (argOr args) :=
  bindParams_eq_bindLeaves _ ty

theorem argOr_cases (args : List Ty) (index : Int) (name : String) :
    argOr args index name = param index name ∨ argOr args index name ∈ args := by
  unfold argOr
  split
  · exact .inl rfl
  · rw [List.getD_eq_getElem?_getD]
    rcases given : args[index.toNat]? with _ | arg
    · exact .inl rfl
    · exact .inr (List.mem_of_getElem? given)

@[simp]
theorem substParams_nil (ty : Ty) : ty.substParams [] = ty := by
  have untouched : argOr [] = param := by
    funext index name
    simp [argOr]
  rw [substParams_eq_bindLeaves, untouched, ← bindVars_eq_bindLeaves, bindVars_self]

theorem substParams?_eq_some (replaced : ty.substParams? args = some result) :
    result = ty.substParams args := by
  unfold substParams? at replaced
  split at replaced
  · next empty =>
      cases replaced
      rw [List.isEmpty_iff.mp empty, substParams_nil]
  · obtain ⟨whole, complete, rfl⟩ := Option.map_eq_some_iff.mp replaced
    obtain ⟨_, ⟨⟩⟩ := Option.ite_none_right_eq_some.mp complete
    rfl

theorem substParams?_of_length (same : args'.length = args.length)
    (replaced : ty.substParams? args = some result) :
    ty.substParams? args' = some (ty.substParams args') := by
  have empty : args'.isEmpty = args.isEmpty := by
    rw [Bool.eq_iff_iff, List.isEmpty_iff_length_eq_zero, List.isEmpty_iff_length_eq_zero, same]
  unfold substParams? at replaced ⊢
  rw [empty]
  split at replaced
  · next none => rw [List.isEmpty_iff.mp (empty.trans none), if_pos none, substParams_nil]
  · next some =>
      rcases Option.map_eq_some_iff.mp replaced with ⟨whole, complete, _⟩
      rcases Option.ite_none_right_eq_some.mp complete with ⟨_, ⟨⟩⟩
      rw [if_neg some, complete]
      rfl

theorem argOr_of_neg (negative : index < 0) (name : String) :
    argOr args index name = param index name :=
  if_pos negative

theorem argOr_position (name : String) (inside : position < args.length) :
    argOr args position name = args[position] := by
  simp [argOr, inside]

theorem parts_bindParams {image : Int → String → Ty}
    (noParam : ∀ index name, ty ≠ param index name) :
    (ty.bindParams image).parts = ty.parts.map (bindParams image) := by
  rw [funext (bindParams_eq_bindLeaves image)]
  rcases leaf_or_not ty with ⟨id, rfl⟩ | ⟨index, name, rfl⟩ | ⟨noVar, _⟩
  · rfl
  · exact absurd rfl (noParam index name)
  · exact parts_bindLeaves noVar noParam

theorem mem_vars_substParams (found : id ∈ (ty.substParams args).vars) :
    id ∈ ty.vars ∨ ∃ arg ∈ args, id ∈ arg.vars := by
  rw [substParams_eq_bindLeaves] at found
  rcases mem_vars_bindLeaves found with ⟨source, occurs, same⟩ | ⟨index, name, inArg⟩
  · rw [vars_var, List.mem_singleton] at same
    exact .inl (same ▸ occurs)
  · rcases argOr_cases args index name with same | given
    · simp [same] at inArg
    · exact .inr ⟨_, given, inArg⟩

theorem isPlain_bindLeaves (plain : ty.isPlain admits = true)
    (onVars : ∀ id ∈ ty.vars, (onVar id).isPlain admits' = true)
    (onParams : ∀ index name, admits index = true → (onParam index name).isPlain admits' = true) :
    (ty.bindLeaves onVar onParam).isPlain admits' = true := by
  refine all_bindLeaves (fun ty noVar noParam former => ?_) plain onVars onParams
  cases ty <;> simp [isPlainFormer] at former noVar noParam ⊢

theorem substParams_of_isMono (mono : ty.isMono = true) (args : List Ty) :
    ty.substParams args = ty := by
  calc ty.substParams args
      = ty.bindLeaves var (argOr args) := substParams_eq_bindLeaves args ty
    _ = ty.bindLeaves var param := bindLeaves_congr (paramsWithin_of_isPlain mono) (fun _ _ => rfl)
          fun index name negative => argOr_of_neg (of_decide_eq_true negative) name
    _ = ty := by rw [← bindVars_eq_bindLeaves, bindVars_self]

/-- Arguments given after others reach what those have put in, if there was an argument for each
parameter. -/
theorem substParams_substParams (within : ty.paramsWithin (· < args.length) = true)
    (args' : List Ty) :
    (ty.substParams args).substParams args' = ty.substParams (args.map (substParams args')) := by
  rw [substParams_eq_bindLeaves, substParams_eq_bindLeaves, substParams_eq_bindLeaves,
    bindLeaves_bindLeaves]
  refine bindLeaves_congr within (fun _ _ => rfl) fun index name below => ?_
  rw [← substParams_eq_bindLeaves]
  rcases lt_or_ge index 0 with negative | positive
  · rw [argOr_of_neg negative, argOr_of_neg negative, substParams_eq_bindLeaves, bindLeaves_param,
      argOr_of_neg negative]
  · rcases Int.eq_ofNat_of_zero_le positive with ⟨position, rfl⟩
    have inside : position < args.length := by simpa using below
    rw [argOr_position name inside, argOr_position name (by simpa using inside), List.getElem_map]

theorem bindVars_argOr (image : VarId → Ty) (args : List Ty) (index : Int) (name : String) :
    (argOr args index name).bindVars image = argOr (args.map (bindVars image)) index name := by
  rw [argOr, argOr]
  split
  · rfl
  · rw [List.getD_eq_getElem?_getD, List.getD_eq_getElem?_getD, List.getElem?_map]
    cases args[index.toNat]? <;> rfl

theorem bindVars_substParams_congr
    (same : args.map (bindVars image) = args'.map (bindVars image)) (ty : Ty) :
    (ty.substParams args).bindVars image = (ty.substParams args').bindVars image := by
  simp only [substParams_eq_bindLeaves, bindVars_eq_bindLeaves, bindLeaves_bindLeaves]
  congr 1
  funext index name
  rw [← bindVars_eq_bindLeaves, ← bindVars_eq_bindLeaves, bindVars_argOr, bindVars_argOr, same]

theorem bindVars_substParams (plain : ty.isPlain admits = true)
    (monos : ∀ id ∈ ty.vars, (image id).isMono = true) (args : List Ty) :
    (ty.substParams args).bindVars image =
      (ty.bindVars image).substParams (args.map (bindVars image)) := by
  rw [substParams_eq_bindLeaves, substParams_eq_bindLeaves, bindVars_eq_bindLeaves,
    bindVars_eq_bindLeaves, bindLeaves_bindLeaves, bindLeaves_bindLeaves]
  refine bindLeaves_congr (paramsWithin_of_isPlain plain) ?_ ?_
  · intro id occurs
    rw [← substParams_eq_bindLeaves, substParams_of_isMono (monos id occurs)]
    rfl
  · intro index name _
    rw [← bindVars_eq_bindLeaves, bindLeaves_param, bindVars_argOr]

theorem substParams_bindVars (noPosition : ty.paramsWithin (· < 0) = true) (args : List Ty) :
    (ty.bindVars image).substParams args = ty.bindVars fun id => (image id).substParams args := by
  simp only [substParams_eq_bindLeaves, bindVars_eq_bindLeaves, bindLeaves_bindLeaves]
  refine bindLeaves_congr noPosition (fun _ _ => rfl) ?_
  intro index name negative
  exact argOr_of_neg (of_decide_eq_true negative) name

/-- Whether a type is a monotype or a scheme over monotypes, whose parameters are its own. -/
def isPoly : Ty → Bool
  | .scheme names body => body.isPlain (· < names.length)
  | ty => ty.isMono

/-- All images are monotypes. -/
def Monos (assignment : VarId → Ty) : Prop := ∀ id, (assignment id).isMono = true

/-- The monotypes that a type stands for: a monotype for itself, a scheme for what becomes of its
body when its parameters are replaced by monotypes. -/
inductive Instance : Ty → Ty → Prop
  | mono {ty : Ty} (mono : ty.isMono = true) : Instance ty ty
  | scheme {names : List String} {body : Ty} {args : List Ty} (count : args.length = names.length)
      (monos : ∀ arg ∈ args, arg.isMono = true) :
      Instance (.scheme names body) (body.substParams args)

theorem isMono_of_isPoly (poly : ty.isPoly = true) (noScheme : ty.isScheme = false) :
    ty.isMono = true := by
  cases ty <;> first | exact poly | cases noScheme

theorem scheme_or_isMono (poly : ty.isPoly = true) :
    (∃ names body, ty = scheme names body) ∨ ty.isMono = true := by
  cases ty with
  | scheme names body => exact .inl ⟨names, body, rfl⟩
  | _ => exact .inr (isMono_of_isPoly poly rfl)

theorem isPoly_of_isMono (mono : ty.isMono = true) : ty.isPoly = true := by
  cases ty with
  | scheme names body => cases (all_iff.mp mono).1
  | _ => exact mono

theorem isScheme_of_isMono (mono : ty.isMono = true) : ty.isScheme = false := by
  cases ty with
  | scheme names body => cases (all_iff.mp mono).1
  | _ => rfl

theorem isMono_bindVars (monos : Monos assignment) (mono : ty.isMono = true) :
    (ty.bindVars assignment).isMono = true :=
  isPlain_bindVars mono fun id _ => monos id

theorem isPresent_of_isPoly (poly : ty.isPoly = true) : ty.isPresent = true := by
  cases ty with
  | scheme names body =>
    refine all_iff.mpr ⟨rfl, fun part member => ?_⟩
    cases List.mem_singleton.mp member
    exact isPresent_of_isPlain poly
  | _ => exact isPresent_of_isPlain (isMono_of_isPoly poly rfl)

theorem isMono_argOr (monos : ∀ arg ∈ args, arg.isMono = true)
    (within : index < args.length) (name : String) : (argOr args index name).isMono = true := by
  by_cases negative : index < 0
  · rw [argOr_of_neg negative]
    simp [isMono, isPlain, all, isPlainFormer, negative]
  · obtain ⟨position, rfl⟩ := Int.eq_ofNat_of_zero_le (Int.not_lt.mp negative)
    have inside : position < args.length := by omega
    rw [argOr_position name inside]
    exact monos _ (List.getElem_mem inside)

theorem Instance.isMono {scheme : Ty} (isInstance : scheme.Instance ty)
    (poly : scheme.isPoly = true) : ty.isMono = true := by
  cases isInstance with
  | mono mono => exact mono
  | @scheme names body args count monos =>
    rw [substParams_eq_bindLeaves]
    refine isPlain_bindLeaves poly (fun _ _ => rfl) fun index name within => ?_
    exact isMono_argOr monos (by simpa [count] using within) name

theorem Instance.eq_of_isMono {image : Ty} (isInstance : ty.Instance image)
    (mono : ty.isMono = true) : image = ty := by
  cases isInstance with
  | mono _ => rfl
  | scheme count monos => cases isScheme_of_isMono mono

theorem Instance.bindVars {scheme : Ty} (isInstance : scheme.Instance ty)
    (poly : scheme.isPoly = true) (monos : Monos assignment) :
    (scheme.bindVars assignment).Instance (ty.bindVars assignment) := by
  cases isInstance with
  | mono mono => exact .mono (isMono_bindVars monos mono)
  | @scheme names body args count argMonos =>
    rw [bindVars_scheme, bindVars_substParams poly fun id _ => monos id]
    refine .scheme (by simpa using count) fun arg member => ?_
    rcases List.mem_map.mp member with ⟨source, sourceMem, rfl⟩
    exact isMono_bindVars monos (argMonos source sourceMem)

theorem Instance.vars_subset {scheme : Ty} (isInstance : scheme.Instance ty) :
    ∀ id ∈ scheme.vars, id ∈ ty.vars := by
  intro id found
  cases isInstance with
  | mono mono => exact found
  | scheme count monos =>
    rw [substParams_eq_bindLeaves]
    exact mem_vars_bindLeaves_of_mem found (by simp)

/-- A type covers another if it stands for all that the other stands for. -/
def Covers (general special : Ty) : Prop := ∀ ty, special.Instance ty → general.Instance ty

theorem exists_instance_same_vars {scheme : Ty} (poly : scheme.isPoly = true) :
    ∃ ty, scheme.Instance ty ∧ ∀ id ∈ ty.vars, id ∈ scheme.vars := by
  cases scheme with
  | scheme names body =>
    refine ⟨body.substParams (List.replicate names.length int), .scheme (by simp) ?_, ?_⟩
    · intro arg member
      rw [List.eq_of_mem_replicate member]
      rfl
    · intro id found
      rw [substParams_eq_bindLeaves] at found
      rcases mem_vars_bindLeaves found with ⟨source, occurs, same⟩ | ⟨index, name, inArg⟩
      · rw [vars_var, List.mem_singleton] at same
        exact same ▸ occurs
      · unfold argOr at inArg
        split at inArg
        · simp at inArg
        · rw [List.getD_eq_getElem?_getD, List.getElem?_replicate] at inArg
          split at inArg <;> simp at inArg
  | _ => exact ⟨_, .mono poly, fun _ found => found⟩

theorem Covers.vars_subset {general special : Ty} (covers : general.Covers special)
    (poly : special.isPoly = true) : ∀ id ∈ general.vars, id ∈ special.vars := by
  intro id found
  obtain ⟨ty, isInstance, fewer⟩ := exists_instance_same_vars poly
  exact fewer id ((covers ty isInstance).vars_subset id found)

/-- The parameter that a quantified variable becomes. -/
def toParam (ids : List VarId) (id : VarId) : Ty :=
  match ids.idxOf? id with
  | some position => param position (genericName position)
  | none => var id

theorem quantify_eq (ids : List VarId) (ty : Ty) :
    ty.quantify ids =
      scheme ((List.range ids.length).map fun (position : Nat) => genericName position)
        (ty.bindVars (toParam ids)) := rfl

theorem toParam_of_not_mem (missing : id ∉ ids) : toParam ids id = var id := by
  rw [toParam, List.idxOf?_eq_none_iff.mpr missing]

theorem idxOf?_getElem (distinct : ids.Nodup) (inside : position < ids.length) :
    ids.idxOf? ids[position] = some position := by
  rw [List.idxOf?_eq_some_iff]
  refine ⟨inside, rfl, fun other less same => ?_⟩
  exact less.ne (distinct.getElem_inj_iff.mp same)

theorem toParam_getElem (distinct : ids.Nodup) (inside : position < ids.length) :
    toParam ids ids[position] = param position (genericName position) := by
  rw [toParam, idxOf?_getElem distinct inside]

/-- The assignment that gives each of several variables an argument and leaves the others. -/
def giving (ids : List VarId) (args : List Ty) (id : VarId) : Ty :=
  match ids.idxOf? id with
  | some position => args.getD position (var id)
  | none => var id

theorem giving_of_not_mem (missing : id ∉ ids) : giving ids args id = var id := by
  rw [giving, List.idxOf?_eq_none_iff.mpr missing]

theorem substParams_toParam (count : args.length = ids.length) (id : VarId) :
    (toParam ids id).substParams args = giving ids args id := by
  rcases located : ids.idxOf? id with _ | position
  · rw [toParam, giving, located]
    rfl
  · have inside : position < args.length := by
      rw [count]
      exact (List.idxOf?_eq_some_iff.mp located).1
    simp only [toParam, giving, located]
    rw [substParams_eq_bindLeaves, bindLeaves_param, argOr_position _ inside,
      List.getD_eq_getElem?_getD, List.getElem?_eq_getElem inside, Option.getD_some]

theorem substParams_bindVars_toParam (noPosition : ty.paramsWithin (· < 0) = true)
    (count : args.length = ids.length) :
    (ty.bindVars (toParam ids)).substParams args = ty.bindVars (giving ids args) := by
  rw [substParams_bindVars noPosition]
  exact bindVars_congr fun id _ => substParams_toParam count id

theorem vars_toParam_subset (found : other ∈ (toParam ids id).vars) : other = id ∧ id ∉ ids := by
  rcases located : ids.idxOf? id with _ | position
  · rw [toParam, located, vars_var, List.mem_singleton] at found
    exact ⟨found, List.idxOf?_eq_none_iff.mp located⟩
  · rw [toParam, located] at found
    simp at found

theorem isPoly_quantify (ids : List VarId) (mono : ty.isMono = true) :
    (ty.quantify ids).isPoly = true := by
  rw [quantify_eq, isPoly, List.length_map, List.length_range, bindVars_eq_bindLeaves]
  refine isPlain_bindLeaves mono ?_ ?_
  · intro id _
    rcases located : ids.idxOf? id with _ | position
    · rw [toParam, located]
      rfl
    · have inside := (List.idxOf?_eq_some_iff.mp located).1
      simp only [toParam, located]
      simpa [isPlain, all, isPlainFormer] using inside
  · intro index name negative
    have : index < 0 := of_decide_eq_true negative
    simp only [isPlain, all, isPlainFormer, decide_eq_true_eq]
    omega

/-- The instances of a quantified monotype are its images under assignments of monotypes to the
quantified variables. -/
theorem instance_quantify_iff {image : Ty} (mono : ty.isMono = true) :
    (ty.quantify ids).Instance image ↔
      ∃ args : List Ty, args.length = ids.length ∧ (∀ arg ∈ args, arg.isMono = true) ∧
        image = ty.bindVars (giving ids args) := by
  have same : ∀ args : List Ty, args.length = ids.length →
      (ty.bindVars (toParam ids)).substParams args = ty.bindVars (giving ids args) :=
    fun _ => substParams_bindVars_toParam (paramsWithin_of_isPlain mono)
  rw [quantify_eq]
  constructor
  · intro isInstance
    cases isInstance with
    | mono mono => cases (all_iff.mp mono).1
    | @scheme _ _ args count monos =>
      rw [List.length_map, List.length_range] at count
      exact ⟨args, count, monos, same args count⟩
  · rintro ⟨args, count, monos, rfl⟩
    rw [← same args count]
    exact .scheme (by simpa using count) monos

theorem isMono_giving (monos : ∀ arg ∈ args, arg.isMono = true) : Monos (giving ids args) := by
  intro id
  unfold giving
  split
  · rw [List.getD_eq_getElem?_getD]
    rcases found : args[_]? with _ | arg
    · rfl
    · exact monos arg (List.mem_of_getElem? found)
  · rfl

/-- A type generalises to itself and to what arises by quantifying variables other than the given
fixed ones. -/
inductive Generalises (fixed : List VarId) (ty : Ty) : Ty → Prop
  | itself : Generalises fixed ty ty
  | quantify {ids : List VarId} (distinct : ids.Nodup) (free : ∀ id ∈ ids, id ∉ fixed) :
      Generalises fixed ty (ty.quantify ids)

theorem Generalises.isPoly {fixed : List VarId} {scheme : Ty}
    (generalises : Generalises fixed ty scheme) (mono : ty.isMono = true) :
    scheme.isPoly = true := by
  cases generalises with
  | itself => exact isPoly_of_isMono mono
  | quantify distinct free => exact isPoly_quantify _ mono

theorem Generalises.mono {fixed fewer : List VarId} {scheme : Ty}
    (generalises : Generalises fixed ty scheme) (subset : ∀ id ∈ fewer, id ∈ fixed) :
    Generalises fewer ty scheme := by
  cases generalises with
  | itself => exact .itself
  | quantify distinct free =>
    exact .quantify distinct fun id member inFewer => free id member (subset id inFewer)

theorem mem_insertVar : other ∈ insertVar id ids ↔ other = id ∨ other ∈ ids := by
  induction ids with
  | nil => simp [insertVar]
  | cons first rest ih =>
    unfold insertVar
    split
    · simp
    · split
      · next same => simp [same]
      · simp [ih, or_left_comm]

theorem pairwise_insertVar (ascending : ids.Pairwise (· < ·)) :
    (insertVar id ids).Pairwise (· < ·) := by
  induction ids with
  | nil => simp [insertVar]
  | cons first rest ih =>
    have ⟨least, inner⟩ := List.pairwise_cons.mp ascending
    unfold insertVar
    split
    · next less =>
        refine List.pairwise_cons.mpr ⟨?_, ascending⟩
        intro other member
        rcases List.mem_cons.mp member with rfl | inRest
        · exact less
        · exact lt_trans less (least other inRest)
    · next notLess =>
        split
        · exact ascending
        · next notSame =>
            refine List.pairwise_cons.mpr ⟨?_, ih inner⟩
            intro other member
            rcases mem_insertVar.mp member with rfl | inRest
            · exact lt_of_le_of_ne (not_lt.mp notLess) (Ne.symm notSame)
            · exact least other inRest

theorem mem_freeVars : id ∈ ty.freeVars ↔ id ∈ ty.vars := by
  unfold freeVars
  induction ty.vars with
  | nil => simp
  | cons first rest ih => simp [mem_insertVar, ih]

theorem pairwise_freeVars (ty : Ty) : ty.freeVars.Pairwise (· < ·) := by
  unfold freeVars
  induction ty.vars with
  | nil => exact List.Pairwise.nil
  | cons first rest ih => exact pairwise_insertVar ih

end Ty

namespace Subst

open Ty (var)

variable {subst : Subst} {environment : List VarId} {ty : Ty}

/-- The variables over which generalisation quantifies. -/
def quantified (subst : Subst) (environment : List VarId) (ty : Ty) : List VarId :=
  (subst.apply ty).freeVars.filter fun id => !environment.contains id

theorem mem_quantified :
    id ∈ subst.quantified environment ty ↔ id ∈ (subst.apply ty).vars ∧ id ∉ environment := by
  simp [quantified, Ty.mem_freeVars]

theorem pairwise_quantified : (subst.quantified environment ty).Pairwise (· < ·) :=
  (Ty.pairwise_freeVars _).filter _

theorem generalize_of_isScheme (noScheme : ty.isScheme = false) :
    subst.generalize environment ty =
      if subst.quantified environment ty = [] then subst.apply ty
      else (subst.apply ty).quantify (subst.quantified environment ty) := by
  simp only [generalize, quantified, noScheme, Bool.false_eq_true, ↓reduceIte]
  split <;> simp_all

theorem generalize_of_isMono (mono : ty.isMono = true) :
    subst.generalize environment ty =
      if subst.quantified environment ty = [] then subst.apply ty
      else (subst.apply ty).quantify (subst.quantified environment ty) :=
  generalize_of_isScheme (Ty.isScheme_of_isMono mono)

theorem Within.isMono_apply (inside : subst.Within (·.isMono = true)) (mono : ty.isMono = true) :
    (subst.apply ty).isMono = true :=
  inside.closed.apply (fun _ _ _ _ => rfl)
    (fun _ _ mono images => Ty.isPlain_bindVars mono images) mono

theorem isPoly_generalize (inside : subst.Within (·.isMono = true)) (mono : ty.isMono = true) :
    (subst.generalize environment ty).isPoly = true := by
  rw [generalize_of_isMono mono]
  split
  · exact Ty.isPoly_of_isMono (inside.isMono_apply mono)
  · exact Ty.isPoly_quantify _ (inside.isMono_apply mono)

theorem vars_generalize_subset (mono : ty.isMono = true) :
    ∀ id ∈ (subst.generalize environment ty).vars, id ∈ (subst.apply ty).vars := by
  intro id found
  rw [generalize_of_isMono mono] at found
  split at found
  · exact found
  · rw [Ty.quantify_eq, Ty.vars_scheme] at found
    obtain ⟨source, occurs, inner⟩ := Ty.mem_vars_bindVars.mp found
    exact (Ty.vars_toParam_subset inner).1 ▸ occurs

/-- The generalised type has as instances the images under all assignments that change only what the
environment leaves free. -/
theorem instance_generalize (inside : subst.Within (·.isMono = true)) (mono : ty.isMono = true)
    (monos : Ty.Monos assignment) (imageMonos : Ty.Monos image)
    (agree : ∀ id ∈ (subst.apply ty).vars, id ∈ environment → image id = assignment id) :
    ((subst.generalize environment ty).bindVars assignment).Instance
      ((subst.apply ty).bindVars image) := by
  have solvedMono := inside.isMono_apply mono
  rw [generalize_of_isMono mono]
  split
  · next none =>
      have same : (subst.apply ty).bindVars image = (subst.apply ty).bindVars assignment := by
        refine Ty.bindVars_congr fun id occurs => agree id occurs ?_
        by_contra free
        have := mem_quantified.mpr ⟨occurs, free⟩
        simp [none] at this
      rw [same]
      exact .mono (Ty.isMono_bindVars monos solvedMono)
  · let ids := subst.quantified environment ty
    have given : ((subst.apply ty).bindVars (Ty.toParam ids)).bindVars assignment =
        (subst.apply ty).bindVars fun id => (Ty.toParam ids id).bindVars assignment :=
      Ty.bindVars_bindVars _ _ _
    have instantiated : (((subst.apply ty).bindVars (Ty.toParam ids)).bindVars
        assignment).substParams (ids.map image) = (subst.apply ty).bindVars image := by
      rw [given, Ty.substParams_bindVars (Ty.paramsWithin_of_isPlain solvedMono)]
      refine Ty.bindVars_congr fun id occurs => ?_
      rcases located : ids.idxOf? id with _ | position
      · have free : id ∉ ids := List.idxOf?_eq_none_iff.mp located
        have inEnvironment : id ∈ environment := by
          by_contra outside
          exact free (mem_quantified.mpr ⟨occurs, outside⟩)
        rw [Ty.toParam_of_not_mem free, Ty.bindVars_var, Ty.substParams_of_isMono (monos id),
          agree id occurs inEnvironment]
      · obtain ⟨inside, found, _⟩ := List.idxOf?_eq_some_iff.mp located
        simp only [Ty.toParam, located, Ty.bindVars_param]
        rw [Ty.substParams_eq_bindLeaves, Ty.bindLeaves_param,
          Ty.argOr_position _ (by simpa using inside), List.getElem_map, found]
    rw [← instantiated, Ty.quantify_eq, Ty.bindVars_scheme]
    refine .scheme (by simp [ids]) fun arg member => ?_
    rcases List.mem_map.mp member with ⟨id, _, rfl⟩
    exact imageMonos id

def consecutive (start : VarId) (count : Nat) : List VarId :=
  (List.range count).map fun (offset : Nat) => start + offset

theorem nodup_consecutive (start : VarId) (count : Nat) : (consecutive start count).Nodup := by
  refine List.Nodup.map ?_ List.nodup_range
  intro first second same
  exact Int.ofNat_inj.mp (add_left_cancel same)

theorem le_of_mem_consecutive (member : id ∈ consecutive start count) : start ≤ id := by
  rcases List.mem_map.mp member with ⟨offset, _, rfl⟩
  exact le_add_of_nonneg_right (Int.natCast_nonneg offset)

theorem lt_of_mem_consecutive {start : Nat} (member : id ∈ consecutive start count) :
    id < (start + count : Nat) := by
  rcases List.mem_map.mp member with ⟨offset, inRange, rfl⟩
  rw [Nat.cast_add]
  exact add_lt_add_right (Int.ofNat_lt.mpr (List.mem_range.mp inRange)) _

theorem consecutive_append (start : VarId) (count more : Nat) :
    consecutive start count ++ consecutive (start + count) more =
      consecutive start (count + more) := by
  simp only [consecutive, List.range_add, List.map_append, List.map_map]
  congr 2
  funext offset
  simp [add_assoc]

theorem toParam_consecutive (inside : position < count) :
    Ty.toParam (consecutive start count) (start + position) =
      .param position (Ty.genericName position) := by
  have inIds : position < (consecutive start count).length := by simpa [consecutive] using inside
  have becomes := Ty.toParam_getElem (nodup_consecutive start count) inIds
  rwa [show (consecutive start count)[position] = start + position by simp [consecutive]] at becomes

/-- The assignment that renames several variables to consecutive ones and acts on the others as
given. -/
def renamed (ids : List VarId) (start : VarId) (assignment : VarId → Ty) (id : VarId) : Ty :=
  match ids.idxOf? id with
  | some position => var (start + position)
  | none => assignment id

theorem renamed_of_not_mem (missing : id ∉ ids) :
    renamed ids start assignment id = assignment id := by
  rw [renamed, List.idxOf?_eq_none_iff.mpr missing]

theorem monos_renamed (monos : Ty.Monos assignment) : Ty.Monos (renamed ids start assignment) := by
  intro id
  unfold renamed
  split
  · rfl
  · exact monos id

theorem quantify_bindVars
    (above : ∀ source ∈ ty.vars, ∀ id ∈ (assignment source).vars, id < start) :
    (ty.quantify ids).bindVars assignment =
      (ty.bindVars (renamed ids start assignment)).quantify (consecutive start ids.length) := by
  rw [Ty.quantify_eq, Ty.quantify_eq, Ty.bindVars_scheme, Ty.bindVars_bindVars,
    Ty.bindVars_bindVars]
  congr 1
  · simp [consecutive]
  · refine Ty.bindVars_congr fun id occurs => ?_
    rcases located : ids.idxOf? id with _ | position
    · have missing : id ∉ ids := List.idxOf?_eq_none_iff.mp located
      rw [Ty.toParam_of_not_mem missing, renamed_of_not_mem missing, Ty.bindVars_var]
      refine (Ty.bindVars_eq_self fun other found => Ty.toParam_of_not_mem fun member => ?_).symm
      exact absurd (le_of_mem_consecutive member) (not_le.mpr (above id occurs other found))
    · obtain ⟨inside, _⟩ := List.idxOf?_eq_some_iff.mp located
      simp only [Ty.toParam, renamed, located, Ty.bindVars_param, Ty.bindVars_var]
      exact (toParam_consecutive inside).symm

theorem exists_above (ids : List VarId) : ∃ start : VarId, ∀ id ∈ ids, id < start := by
  induction ids with
  | nil => exact ⟨0, by simp⟩
  | cons id rest ih =>
    obtain ⟨start, above⟩ := ih
    refine ⟨max (id + 1) start, ?_⟩
    intro other member
    rcases List.mem_cons.mp member with rfl | inRest
    · exact lt_of_lt_of_le (Int.lt_succ other) (le_max_left _ _)
    · exact lt_of_lt_of_le (above other inRest) (le_max_right _ _)

/-- An assignment to a generalised type comes from an assignment to the type itself, which differs
from the given one only in what the environment leaves free, and generalises to the same type. The
quantified variables can be chosen apart from any given ones. -/
theorem generalize_bindVars (acyclic : subst.Acyclic) (inside : subst.Within (·.isMono = true))
    (mono : ty.isMono = true) (monos : Ty.Monos assignment)
    (satisfies : Satisfies assignment subst) (fixed : List VarId) :
    ∃ inner : VarId → Ty, Ty.Monos inner ∧ Satisfies inner subst ∧
      (∀ other, (∀ id ∈ (subst.apply other).vars, id ∈ environment) →
        other.bindVars inner = other.bindVars assignment) ∧
      Ty.Generalises fixed (ty.bindVars inner)
        ((subst.generalize environment ty).bindVars assignment) := by
  by_cases none : subst.quantified environment ty = []
  · refine ⟨assignment, monos, satisfies, fun _ _ => rfl, ?_⟩
    rw [generalize_of_isMono mono, if_pos none, satisfies.bindVars_apply]
    exact .itself
  · let ids := subst.quantified environment ty
    obtain ⟨start, above⟩ :=
      exists_above (fixed ++ (subst.apply ty).vars.flatMap fun source => (assignment source).vars)
    let inner (id : VarId) : Ty := (subst.apply (var id)).bindVars (renamed ids start assignment)
    have solved : ∀ other : Ty,
        other.bindVars inner = (subst.apply other).bindVars (renamed ids start assignment) := by
      intro other
      rw [apply_eq_bindVars, Ty.bindVars_bindVars]
    refine ⟨inner, ?_, ?_, ?_, ?_⟩
    · intro id
      exact Ty.isMono_bindVars (monos_renamed monos) (inside.isMono_apply rfl)
    · intro id binding bound
      rw [solved, ← acyclic.apply_var bound]
    · intro other covered
      rw [solved, ← satisfies.bindVars_apply other]
      refine Ty.bindVars_congr fun id occurs => renamed_of_not_mem fun member => ?_
      exact (mem_quantified.mp member).2 (covered id occurs)
    · rw [generalize_of_isMono mono, if_neg none, solved, quantify_bindVars]
      · refine .quantify (nodup_consecutive _ _) fun id member inFixed => ?_
        exact absurd (le_of_mem_consecutive member)
          (not_le.mpr (above id (List.mem_append_left _ inFixed)))
      · intro source occurs id found
        exact above id (List.mem_append_right _ (List.mem_flatMap.mpr ⟨source, occurs, found⟩))

end Subst

end TraitCheck
