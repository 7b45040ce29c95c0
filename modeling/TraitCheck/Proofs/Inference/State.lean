import TraitCheck.Proofs.Inference.Rules

/-!
# Well-formed states

The invariant of inference: the bindings are acyclic, all variables in sight were taken from the
supply, bound types are monotypes and the locals have monotypes or schemes. Each step keeps it and
only adds bindings (`Follows`). Some variables can be reserved: they are never bound and never occur
in the types that inference makes.
-/

namespace TraitCheck

variable {ty : Ty} {assignment : VarId → Ty}

namespace Ty

variable {reserved : List VarId} {next : Nat} {ty : Ty} {later : Nat}

/-- All variables of a type were taken from the supply and none of them is reserved. -/
def Taken (reserved : List VarId) (next : Nat) (ty : Ty) : Prop :=
  ∀ id ∈ ty.vars, id < next ∧ id ∉ reserved

/-- A monotype whose variables were taken from the supply. -/
structure Owned (reserved : List VarId) (next : Nat) (ty : Ty) : Prop where
  mono : ty.isMono = true
  taken : ty.Taken reserved next

theorem Taken.raise (taken : ty.Taken reserved next) (grown : next ≤ later) :
    ty.Taken reserved later := by
  intro id found
  obtain ⟨below, free⟩ := taken id found
  exact ⟨lt_of_lt_of_le below (Int.ofNat_le.mpr grown), free⟩

theorem Owned.raise (owned : ty.Owned reserved next) (grown : next ≤ later) :
    ty.Owned reserved later :=
  ⟨owned.mono, owned.taken.raise grown⟩

theorem owned_var {id : VarId} (below : id < next) (free : id ∉ reserved) :
    (var id).Owned reserved next := by
  refine ⟨rfl, fun other found => ?_⟩
  rw [vars_var, List.mem_singleton] at found
  exact found ▸ ⟨below, free⟩

theorem Owned.of_parts (former : ty.isPlainFormer (· < 0) = true) (noVar : ∀ id, ty ≠ var id)
    (each : ∀ part ∈ ty.parts, part.Owned reserved next) : ty.Owned reserved next := by
  refine ⟨all_iff.mpr ⟨former, fun part member => (each part member).mono⟩, fun id found => ?_⟩
  rcases mem_vars_iff.mp found with isVar | ⟨part, member, inPart⟩
  · exact absurd isVar (noVar id)
  · exact (each part member).taken id inPart

theorem Owned.part {part : Ty} (owned : ty.Owned reserved next) (member : part ∈ ty.parts) :
    part.Owned reserved next :=
  ⟨all_of_part owned.mono member, fun id found => owned.taken id (mem_vars_of_part member found)⟩

theorem owned_prim (kind : Prim) : (prim kind).Owned reserved next :=
  .of_parts rfl (by simp) (by simp [parts])

theorem Owned.list (owned : ty.Owned reserved next) : (Ty.list ty).Owned reserved next :=
  .of_parts rfl (by simp [Ty.list]) (by simpa [parts, Ty.list] using owned)

theorem owned_tuple {elems : List Ty} (each : ∀ elem ∈ elems, elem.Owned reserved next) :
    (tuple elems).Owned reserved next :=
  .of_parts rfl (by simp) each

theorem owned_record {fields : Row} (each : ∀ field ∈ fields, field.2.Owned reserved next) :
    (record fields).Owned reserved next := by
  refine .of_parts rfl (by simp) fun part member => ?_
  obtain ⟨field, fieldMem, rfl⟩ := List.mem_map.mp member
  exact each field fieldMem

theorem owned_fn {params : List Ty} {result : Ty}
    (each : ∀ param ∈ params, param.Owned reserved next)
    (owned : result.Owned reserved next) : (fn params result).Owned reserved next := by
  refine .of_parts rfl (by simp) fun part member => ?_
  rcases List.mem_append.mp member with isParam | isResult
  · exact each part isParam
  · exact List.mem_singleton.mp isResult ▸ owned

end Ty

namespace Checker

variable {reserved : List VarId} {images : List Ty}

/-- The invariant of inference. -/
structure WellFormed (reserved : List VarId) (checker : Checker) : Prop where
  acyclic : checker.subst.Acyclic
  bound : ∀ ⦃id ty⦄, checker.subst.lookup id = some ty →
    (Ty.var id).Owned reserved checker.supply.next ∧ ty.Owned reserved checker.supply.next
  poly : ∀ ty ∈ checker.env.values, ty.isPoly = true
  taken : ∀ ty ∈ checker.env.values, ty.Taken reserved checker.supply.next
  below : ∀ id ∈ reserved, id < checker.supply.next

/-- A well-formed state that comes after another one: no binding is lost, no variable is taken
twice. -/
structure Follows (reserved : List VarId) (before after : Checker) : Prop where
  wellFormed : after.WellFormed reserved
  growth : before.subst.Extends after.subst
  supply : before.supply.next ≤ after.supply.next
  globals : after.globals = before.globals

theorem Follows.refl {checker : Checker} (wellFormed : checker.WellFormed reserved) :
    checker.Follows reserved checker :=
  ⟨wellFormed, .refl _, le_rfl, rfl⟩

theorem Follows.trans {before middle after : Checker} (first : before.Follows reserved middle)
    (second : middle.Follows reserved after) : before.Follows reserved after :=
  ⟨second.wellFormed, first.growth.trans second.growth, first.supply.trans second.supply,
    second.globals.trans first.globals⟩

section Invariant

variable {checker before after : Checker}

theorem WellFormed.monos (wellFormed : checker.WellFormed reserved) :
    checker.subst.Within (·.isMono = true) :=
  fun _ _ bound => (wellFormed.bound bound).2.mono

theorem WellFormed.present (wellFormed : checker.WellFormed reserved) :
    checker.subst.Within (·.isPresent = true) :=
  fun _ _ bound => Ty.isPresent_of_isPlain (wellFormed.bound bound).2.mono

/-- What the bindings make of a variable. -/
def solving (checker : Checker) (id : VarId) : Ty := checker.subst.apply (.var id)

theorem WellFormed.monos_solving (wellFormed : checker.WellFormed reserved) :
    Ty.Monos checker.solving :=
  fun _ => wellFormed.monos.isMono_apply rfl

theorem WellFormed.satisfies_solving (wellFormed : checker.WellFormed reserved) :
    Subst.Satisfies checker.solving checker.subst :=
  wellFormed.acyclic.apply_satisfies

theorem wellFormed_of_empty (noBindings : checker.subst = .empty)
    (poly : ∀ ty ∈ checker.env.values, ty.isPoly = true)
    (taken : ∀ ty ∈ checker.env.values, ty.Taken reserved checker.supply.next)
    (below : ∀ id ∈ reserved, id < checker.supply.next) : checker.WellFormed reserved where
  acyclic := noBindings ▸ Subst.acyclic_empty
  bound id ty bound := by
    rw [noBindings] at bound
    cases bound
  poly := poly
  taken := taken
  below := below

theorem WellFormed.satisfies_congr (wellFormed : checker.WellFormed reserved) {other : VarId → Ty}
    (satisfies : Subst.Satisfies assignment checker.subst)
    (agree : ∀ id : VarId, id < checker.supply.next → other id = assignment id) :
    Subst.Satisfies other checker.subst := by
  intro id ty bound
  obtain ⟨varOwned, tyOwned⟩ := wellFormed.bound bound
  rw [agree id (varOwned.taken id (by simp)).1, satisfies bound]
  exact Ty.bindVars_congr fun inner found => (agree inner (tyOwned.taken inner found).1).symm

theorem WellFormed.taken_apply (wellFormed : checker.WellFormed reserved)
    (taken : ty.Taken reserved checker.supply.next) :
    (checker.subst.apply ty).Taken reserved checker.supply.next :=
  Subst.Within.vars_apply (fun _ _ bound => (wellFormed.bound bound).2.taken) taken

theorem WellFormed.follows (wellFormed : before.WellFormed reserved)
    (sameBindings : after.subst = before.subst) (supply : before.supply.next ≤ after.supply.next)
    (globals : after.globals = before.globals)
    (types : ∀ ty ∈ after.env.values, ty ∈ before.env.values ∨
      ty.isPoly = true ∧ ty.Taken reserved after.supply.next) :
    before.Follows reserved after := by
  refine ⟨⟨?_, ?_, ?_, ?_, ?_⟩, ?_, supply, globals⟩
  · exact sameBindings ▸ wellFormed.acyclic
  · intro id ty bound
    obtain ⟨varOwned, tyOwned⟩ := wellFormed.bound (sameBindings ▸ bound)
    exact ⟨varOwned.raise supply, tyOwned.raise supply⟩
  · intro ty member
    rcases types ty member with old | new
    · exact wellFormed.poly ty old
    · exact new.1
  · intro ty member
    rcases types ty member with old | new
    · exact (wellFormed.taken ty old).raise supply
    · exact new.2
  · intro id member
    exact lt_of_lt_of_le (wellFormed.below id member) (Int.ofNat_le.mpr supply)
  · exact sameBindings ▸ .refl _

theorem WellFormed.follows_raise (wellFormed : before.WellFormed reserved) {next : Nat}
    (grown : before.supply.next ≤ next) :
    before.Follows reserved { before with supply := ⟨next⟩ } :=
  wellFormed.follows rfl grown rfl fun _ member => Or.inl member

end Invariant

/-- An assignment changed at the next variables of a supply. -/
def extending (assignment : VarId → Ty) (next : Nat) (images : List Ty) (id : VarId) : Ty :=
  if id < next then assignment id else images.getD (id - next).toNat (assignment id)

theorem extending_of_lt {next : Nat} {id : VarId} (below : id < next) :
    extending assignment next images id = assignment id :=
  if_pos below

theorem monos_extending (monos : Ty.Monos assignment)
    (imageMonos : ∀ image ∈ images, image.isMono = true) (next : Nat) :
    Ty.Monos (extending assignment next images) := by
  intro id
  unfold extending
  split
  · exact monos id
  · rw [List.getD_eq_getElem?_getD]
    rcases known : images[(id - next).toNat]? with _ | image
    · exact monos id
    · exact imageMonos image (List.mem_of_getElem? known)

theorem extending_next (assignment : VarId → Ty) (next : Nat) (image : Ty) :
    extending assignment next [image] next = image := by
  unfold extending
  rw [if_neg (lt_irrefl _)]
  simp

theorem map_nextVars (assignment : VarId → Ty) (next : Nat) (images : List Ty) :
    (nextVars next images.length).map (Ty.bindVars (extending assignment next images)) =
      images := by
  refine List.ext_getElem (by simp) fun position inside _ => ?_
  have notBelow : ¬((next : Int) + position < next) := by omega
  have offset : ((next : Int) + position - next).toNat = position := by omega
  simp only [nextVars, List.getElem_map, List.getElem_range, Ty.bindVars_var]
  unfold extending
  rw [if_neg notBelow, offset]
  simp at inside
  simp [inside]

theorem bindVars_extending {next : Nat} (taken : ty.Taken reserved next) (images : List Ty) :
    ty.bindVars (extending assignment next images) = ty.bindVars assignment :=
  Ty.bindVars_congr fun id found => extending_of_lt (taken id found).1

theorem owned_nextVars {next : Nat} (below : ∀ id ∈ reserved, id < next) (count : Nat) :
    ∀ ty ∈ nextVars next count, ty.Owned reserved (next + count) := by
  intro ty member
  obtain ⟨offset, inside, rfl⟩ := List.mem_map.mp member
  rw [List.mem_range] at inside
  refine Ty.owned_var ?_ fun isReserved => ?_
  · change (next : Int) + offset < ((next + count : Nat) : Int)
    omega
  · have : (next : Int) + offset < next := below _ isReserved
    omega

theorem WellFormed.owned_next {checker : Checker} (wellFormed : checker.WellFormed reserved) :
    (Ty.var checker.supply.next).Owned reserved (checker.supply.next + 1) := by
  have owned := owned_nextVars wellFormed.below 1
  simpa [nextVars] using owned

section Comparing

variable {expected found : Ty} {failure : Option UnifyError} {checker before after : Checker}

theorem Runs.follows_unify (ran : Runs (unify expected found) before failure after)
    (wellFormed : before.WellFormed reserved)
    (expectedOwned : expected.Owned reserved before.supply.next)
    (foundOwned : found.Owned reserved before.supply.next) :
    before.Follows reserved after ∧ after.env = before.env ∧ after.supply = before.supply := by
  obtain ⟨_, trace, rfl⟩ := ran.of_unify
  have steps := Subst.unify_steps (fun _ _ member owned => owned.part member) wellFormed.acyclic
    (fun _ _ bound => (wellFormed.bound bound).2) expectedOwned foundOwned
  refine ⟨⟨⟨steps.acyclic wellFormed.acyclic, ?_, wellFormed.poly, wellFormed.taken,
    wellFormed.below⟩, steps.extends, le_rfl, rfl⟩, rfl, rfl⟩
  intro id ty bound
  rcases steps.lookup bound with old | new
  · exact wellFormed.bound old
  · exact new

theorem Runs.equal_unify (ran : Runs (unify expected found) before none after)
    (wellFormed : before.WellFormed reserved)
    (expectedOwned : expected.Owned reserved before.supply.next)
    (foundOwned : found.Owned reserved before.supply.next)
    (satisfies : Subst.Satisfies assignment after.subst) :
    expected.bindVars assignment = found.bindVars assignment := by
  obtain ⟨unified, trace, rfl⟩ := ran.of_unify
  have same := Subst.unify_apply_eq wellFormed.acyclic
    (fun _ _ bound => Ty.isKnown_of_isPlain (wellFormed.bound bound).2.mono)
    (Ty.isKnown_of_isPlain expectedOwned.mono) (Ty.isKnown_of_isPlain foundOwned.mono)
    (Prod.ext rfl unified.symm)
  rw [← satisfies.bindVars_apply expected, same, satisfies.bindVars_apply]

theorem WellFormed.runs_unify (wellFormed : checker.WellFormed reserved)
    (expectedOwned : expected.Owned reserved checker.supply.next)
    (foundOwned : found.Owned reserved checker.supply.next)
    (satisfies : Subst.Satisfies assignment checker.subst)
    (equal : expected.bindVars assignment = found.bindVars assignment) :
    ∃ after, Runs (unify expected found) checker none after ∧
      Subst.Satisfies assignment after.subst := by
  have plain : ∀ {ty : Ty}, ty.isMono = true → ty.isPlain (fun _ => true) = true :=
    fun mono => Ty.isPlain_of_imp mono fun _ _ => rfl
  obtain ⟨subst, unified, satisfied⟩ := Subst.unify_complete wellFormed.acyclic
    (fun _ _ bound => plain (wellFormed.bound bound).2.mono) (plain expectedOwned.mono)
    (plain foundOwned.mono) ⟨satisfies, equal⟩
  obtain ⟨trace, ran⟩ := Checker.runs_unify wellFormed.present
    (Ty.isPresent_of_isPlain expectedOwned.mono) (Ty.isPresent_of_isPlain foundOwned.mono) unified
  exact ⟨_, ran, satisfied⟩

theorem Runs.eq_none_of_next (wellFormed : before.WellFormed reserved)
    (owned : ty.Owned reserved before.supply.next)
    (ran : Runs (unify (.var before.supply.next) ty)
      { before with supply := ⟨before.supply.next + 1⟩ } failure after) : failure = none := by
  let assignment := extending before.solving before.supply.next [before.subst.apply ty]
  have satisfies : Subst.Satisfies assignment before.subst :=
    wellFormed.satisfies_congr wellFormed.satisfies_solving fun id below => extending_of_lt below
  have raised := (wellFormed.follows_raise (Nat.le_succ _)).wellFormed
  obtain ⟨_, other, _⟩ := raised.runs_unify wellFormed.owned_next
    (owned.raise (Nat.le_succ _)) satisfies (by
      rw [Ty.bindVars_var, bindVars_extending owned.taken]
      exact extending_next _ _ _)
  exact (ran.unique other).1

end Comparing

section Names

variable {before after : Checker} {span : Span}

/-- Instantiation gives an instance, whose variables are those of the scheme and new ones. -/
theorem instantiate_spec {supply later : Supply} {scheme : Ty} (poly : scheme.isPoly = true)
    (instantiated : supply.instantiate scheme = (some ty, later)) :
    scheme.Instance ty ∧ supply.next ≤ later.next ∧
      ∀ id ∈ ty.vars, id ∈ scheme.vars ∨ ∃ arg ∈ nextVars supply.next (later.next - supply.next),
        id ∈ arg.vars := by
  rcases Ty.scheme_or_isMono poly with ⟨names, body, rfl⟩ | mono
  · rw [instantiate_scheme supply poly] at instantiated
    cases instantiated
    refine ⟨.scheme (by simp) ?_, Nat.le_add_right _ _, fun id found => ?_⟩
    · intro arg member
      obtain ⟨offset, _, rfl⟩ := List.mem_map.mp member
      rfl
    · rw [Nat.add_sub_cancel_left]
      exact Ty.mem_vars_substParams found
  · rw [instantiate_of_isMono supply mono] at instantiated
    cases instantiated
    exact ⟨.mono mono, le_rfl, fun id found => Or.inl found⟩

theorem Runs.follows_inferLocal {id : LocalId}
    (ran : Runs (inferLocal id span) before ty after) (wellFormed : before.WellFormed reserved) :
    before.Follows reserved after ∧ after.env = before.env ∧ after.subst = before.subst ∧
      ty.Owned reserved after.supply.next ∧
      ∃ scheme, before.env.find? id = some scheme ∧ scheme.Instance ty := by
  obtain ⟨info, found, taken, isAfter⟩ := runs_inferLocal.mp ran
  have known : before.env.find? id = some info.ty := by
    rw [env, Table.find?_mapValues, Locals.find?_toTable, found]
    rfl
  have member := Table.mem_values_of_find? known
  have poly := wellFormed.poly info.ty member
  have sameEnv : after.env = before.env := by
    rw [isAfter]
    exact env_refer ..
  have supplied : after.supply = (before.supply.instantiate info.ty).2 := by rw [isAfter]
  have instantiated : before.supply.instantiate info.ty = (some ty, after.supply) :=
    Prod.ext taken supplied.symm
  obtain ⟨isInstance, grown, vars⟩ := instantiate_spec poly instantiated
  have follows : before.Follows reserved after := by
    refine wellFormed.follows (by rw [isAfter]) grown (by rw [isAfter]) fun ty inEnv => ?_
    exact .inl (sameEnv ▸ inEnv)
  refine ⟨follows, sameEnv, by rw [isAfter], ⟨isInstance.isMono poly, fun id found => ?_⟩, info.ty,
    known, isInstance⟩
  rcases vars id found with old | ⟨arg, isNew, inArg⟩
  · exact (wellFormed.taken info.ty member).raise grown id old
  · have owned := owned_nextVars wellFormed.below _ arg isNew
    rw [Nat.add_sub_cancel' grown] at owned
    exact owned.taken id inArg

theorem Runs.follows_bindParams {params : List Param}
    (open_ : ∀ param ∈ params, param.ty.isDeclared = false) {types : List Ty}
    (ran : Runs (bindParams params) before types after) (wellFormed : before.WellFormed reserved) :
    before.Follows reserved after ∧ after.env = before.env.bindAll params types ∧
      after.subst = before.subst ∧ types = nextVars before.supply.next params.length ∧
      ∀ ty ∈ types, ty.Owned reserved after.supply.next := by
  obtain ⟨rfl, locals, isAfter, sameEnv⟩ := ran.of_bindParams open_
  have owned : ∀ ty ∈ nextVars before.supply.next params.length,
      ty.Owned reserved after.supply.next := by
    rw [isAfter]
    exact owned_nextVars wellFormed.below _
  refine ⟨wellFormed.follows (by rw [isAfter]) ?_ (by rw [isAfter]) ?_, sameEnv, by rw [isAfter],
    rfl, owned⟩
  · rw [isAfter]
    exact Nat.le_add_right _ _
  · rw [sameEnv]
    intro ty member
    rcases Env.mem_values_bindAll member with isNew | old
    · exact .inr ⟨Ty.isPoly_of_isMono (owned ty isNew).mono, (owned ty isNew).taken⟩
    · exact .inl old

theorem Runs.follows_bindLet {id : LocalId} {name : String} {done : Unit}
    (ran : Runs (bindLet (.bind id name span) ty) before done after)
    (wellFormed : before.WellFormed reserved) (owned : ty.Owned reserved before.supply.next) :
    before.Follows reserved after ∧ after.subst = before.subst ∧ after.supply = before.supply ∧
      after.env = before.env.insert id (before.subst.generalize before.fixedVars ty) := by
  obtain ⟨trace, rfl⟩ := ran.of_bindLet
  have sameEnv := env_bind before.locals id
    ⟨before.subst.generalize before.fixedVars ty, name, span, false⟩
  refine ⟨wellFormed.follows rfl le_rfl rfl fun other member => ?_, rfl, rfl, sameEnv⟩
  rw [env, sameEnv] at member
  rcases Table.mem_values_insert member with rfl | old
  · refine .inr ⟨Subst.isPoly_generalize wellFormed.monos owned.mono, fun id found => ?_⟩
    exact wellFormed.taken_apply owned.taken id (Subst.vars_generalize_subset owned.mono id found)
  · exact .inl old

theorem mem_fixedVars (member : ty ∈ before.env.values) :
    ∀ id ∈ (before.subst.apply ty).vars, id ∈ before.fixedVars := by
  intro id found
  refine List.mem_flatMap.mpr ⟨ty, List.mem_append_left _ ?_, found⟩
  rwa [env, Table.values_mapValues, Locals.values_toTable] at member

end Names

end Checker

end TraitCheck
