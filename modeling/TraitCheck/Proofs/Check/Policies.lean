import TraitCheck.Proofs.Inference.Steps
import TraitCheck.Proofs.Rebuilding

/-!
# The types that a check may hold

A `Policy` says which variables may occur in the types of a state, depending on how many variables
were taken from the supply. A type fits a policy if its variables may occur and no part of it is a
placeholder. Whatever the checker makes of types that fit gives types that fit, and types as written
come to fit when they are resolved.
-/

namespace TraitCheck

variable {α : Type} {args : List Ty} {fields : Row} {subst : Subst}

/-- Which variables may occur in the types of a state. -/
structure Policy where
  /-- Whether a variable may occur once so many variables were taken. -/
  allows : (next : Nat) → VarId → Bool
  /-- Whether nothing is said about the binding of a variable. -/
  exempt : VarId → Bool
  /-- From how many taken variables on the policy is followed. -/
  base : Nat
  fresh : ∀ {next : Nat}, base ≤ next → allows (next + 1) next = true
  mono : ∀ {next later : Nat} {id : VarId}, next ≤ later → allows next id = true →
    allows later id = true
  apart : ∀ {next : Nat} {id : VarId}, allows next id = true → exempt id = false

namespace Policy

open Ty

variable (policy : Policy)

/-- Whether a policy lets a former stand in a type, or in a type as written. -/
def accepts (written : Bool) (next : Nat) : Ty → Bool
  | .unknown => written
  | .var id => policy.allows next id
  | _ => true

/-- All parts of a type are accepted. -/
def Admits (written : Bool) (next : Nat) (ty : Ty) : Prop :=
  ty.all (policy.accepts written next) = true

/-- A type that may be held by a state in which so many variables were taken. -/
abbrev Fits (next : Nat) (ty : Ty) : Prop := policy.Admits false next ty

/-- A type that may be written, or come about from one while it is resolved. -/
abbrev Writes (next : Nat) (ty : Ty) : Prop := policy.Admits true next ty

variable {policy : Policy} {written : Bool} {next later : Nat} {ty : Ty}

theorem Admits.part {part : Ty} (admits : policy.Admits written next ty)
    (member : part ∈ ty.parts) : policy.Admits written next part :=
  all_of_part admits member

theorem Admits.of_parts (former : policy.accepts written next ty = true)
    (each : ∀ part ∈ ty.parts, policy.Admits written next part) :
    policy.Admits written next ty :=
  all_iff.mpr ⟨former, each⟩

theorem admits_prim (kind : Prim) : policy.Admits written next (prim kind) :=
  .of_parts rfl (by simp [parts])

theorem admits_param (index : Int) (name : String) :
    policy.Admits written next (param index name) :=
  .of_parts rfl (by simp [parts])

theorem admits_var {id : VarId} (allowed : policy.allows next id = true) :
    policy.Admits written next (var id) :=
  .of_parts allowed (by simp [parts])

theorem Admits.allowed {id : VarId} (admits : policy.Admits written next (var id)) :
    policy.allows next id = true :=
  (all_iff.mp admits).1

theorem admits_named (decl : DefId) (each : ∀ arg ∈ args, policy.Admits written next arg) :
    policy.Admits written next (named decl args) :=
  .of_parts rfl each

theorem Admits.list (admits : policy.Admits written next ty) :
    policy.Admits written next (Ty.list ty) :=
  admits_named _ (by simpa using admits)

theorem admits_fn {params : List Ty} {result : Ty}
    (each : ∀ param ∈ params, policy.Admits written next param)
    (admits : policy.Admits written next result) :
    policy.Admits written next (fn params result) := by
  refine .of_parts rfl fun part member => ?_
  rcases List.mem_append.mp member with isParam | isResult
  · exact each part isParam
  · exact List.mem_singleton.mp isResult ▸ admits

theorem admits_tuple {elems : List Ty} (each : ∀ elem ∈ elems, policy.Admits written next elem) :
    policy.Admits written next (tuple elems) :=
  .of_parts rfl each

theorem admits_record (each : ∀ field ∈ fields, policy.Admits written next field.2) :
    policy.Admits written next (record fields) := by
  refine .of_parts rfl fun part member => ?_
  obtain ⟨field, fieldMem, rfl⟩ := List.mem_map.mp member
  exact each field fieldMem

theorem admits_scheme {body : Ty} (names : List String)
    (admits : policy.Admits written next body) :
    policy.Admits written next (scheme names body) :=
  .of_parts rfl (by simpa [parts] using admits)

theorem Admits.body {names : List String} {body : Ty}
    (admits : policy.Admits written next (scheme names body)) :
    policy.Admits written next body :=
  admits.part (by simp [parts])

theorem Admits.field (admits : policy.Admits written next (record fields)) {field : String × Ty}
    (member : field ∈ fields) : policy.Admits written next field.2 :=
  admits.part (List.mem_map_of_mem member)

theorem Admits.raise (admits : policy.Admits written next ty) (grown : next ≤ later) :
    policy.Admits written later ty := by
  induction ty with
  | step ty ih =>
    have ⟨former, inner⟩ := all_iff.mp admits
    refine .of_parts ?_ fun part member => ih part member (inner part member)
    cases ty with
    | var id => exact policy.mono grown former
    | _ => exact former

theorem Admits.writes (fits : policy.Fits next ty) : policy.Writes next ty := by
  induction ty with
  | step ty ih =>
    have ⟨former, inner⟩ := all_iff.mp fits
    refine .of_parts ?_ fun part member => ih part member (inner part member)
    cases ty with
    | unknown => rfl
    | _ => exact former

theorem Admits.fits_of_isKnown (writes : policy.Writes next ty) (known : ty.isKnown = true) :
    policy.Fits next ty := by
  rw [isKnown_iff] at known
  induction ty with
  | step ty ih =>
    have ⟨former, inner⟩ := all_iff.mp writes
    have ⟨knownFormer, knownInner⟩ := all_iff.mp known
    refine .of_parts ?_ fun part member =>
      ih part member (inner part member) (knownInner part member)
    cases ty with
    | unknown => cases knownFormer
    | _ => exact former

theorem Admits.isKnown (fits : policy.Fits next ty) : ty.isKnown = true := by
  rw [isKnown_iff]
  apply all_of_imp fits
  intro ty former
  cases ty with
  | unknown => cases former
  | _ => rfl

theorem Admits.var_of_mem (admits : policy.Admits written next ty) :
    ∀ id ∈ ty.vars, policy.allows next id = true := by
  induction ty with
  | step ty ih =>
    intro id found
    rcases mem_vars_iff.mp found with rfl | ⟨part, member, inPart⟩
    · exact admits.allowed
    · exact ih part member (admits.part member) id inPart

theorem writes_of_vars
    (vars : ∀ id ∈ ty.vars, policy.allows next id = true) : policy.Writes next ty := by
  induction ty with
  | step ty ih =>
    refine .of_parts ?_ fun part member =>
      ih part member fun id found => vars id (mem_vars_of_part member found)
    cases ty with
    | var id => exact vars id (by simp)
    | _ => rfl

section Admits

variable (admits : policy.Admits written next ty)
include admits

theorem Admits.bindLeaves {onVar : VarId → Ty} {onParam : Int → String → Ty}
    (onVars : ∀ id ∈ ty.vars, policy.Admits written next (onVar id))
    (onParams : ∀ index name, policy.Admits written next (onParam index name)) :
    policy.Admits written next (ty.bindLeaves onVar onParam) := by
  refine all_bindLeaves (fun ty noVar noParam former => ?_) admits onVars
    fun index name _ => onParams index name
  cases ty <;> simp [accepts] at former noVar noParam ⊢
  exact former

theorem Admits.bindVars {image : VarId → Ty}
    (images : ∀ id ∈ ty.vars, policy.Admits written next (image id)) :
    policy.Admits written next (ty.bindVars image) := by
  rw [bindVars_eq_bindLeaves]
  exact admits.bindLeaves images admits_param

theorem Admits.bindParams {image : Int → String → Ty}
    (images : ∀ index name, policy.Admits written next (image index name)) :
    policy.Admits written next (ty.bindParams image) := by
  rw [bindParams_eq_bindLeaves]
  exact admits.bindLeaves (fun id found => admits_var (admits.var_of_mem id found)) images

theorem Admits.substParams (each : ∀ arg ∈ args, policy.Admits written next arg) :
    policy.Admits written next (ty.substParams args) := by
  refine admits.bindParams fun index name => ?_
  change policy.Admits written next (argOr args index name)
  rcases argOr_cases args index name with same | given
  · exact same ▸ admits_param index name
  · exact each _ given

theorem Admits.of_substParams? {result : Ty} (replaced : ty.substParams? args = some result)
    (each : ∀ arg ∈ args, policy.Admits written next arg) : policy.Admits written next result := by
  rw [substParams?_eq_some replaced]
  exact admits.substParams each

theorem Admits.of_substSelf? {implementer result : Ty}
    (replaced : ty.substSelf? implementer = some result)
    (admitsSelf : policy.Admits written next implementer) :
    policy.Admits written next result := by
  obtain ⟨complete, isComplete, rfl⟩ := Option.map_eq_some_iff.mp replaced
  obtain ⟨_, ⟨⟩⟩ := Option.ite_none_right_eq_some.mp isComplete
  refine admits.bindParams fun index name => ?_
  split
  · exact admitsSelf
  · exact admits_param index name

end Admits

theorem hereditary_fits : Subst.Hereditary (policy.Fits next) :=
  fun _ _ member fits => fits.part member

theorem Admits.apply (closed : subst.Closed (policy.Fits next))
    (admits : policy.Admits written next ty) : policy.Admits written next (subst.apply ty) := by
  have solved : ∀ id, policy.allows next id = true → policy.Fits next (subst.apply (var id)) :=
    fun id allowed => closed.apply
      (fun ty fits id found => admits_var (Admits.var_of_mem fits id found))
      (fun image ty fits images => Admits.bindVars fits images) (admits_var allowed)
  rw [Subst.apply_eq_bindVars]
  refine admits.bindVars fun id found => ?_
  have fits := solved id (admits.var_of_mem id found)
  cases written with
  | true => exact fits.writes
  | false => exact fits

theorem Admits.replaceParams (admits : policy.Admits written next ty)
    (bound : ∀ ty ∈ subst.params.values, policy.Fits next ty) :
    policy.Admits written next (subst.replaceParams ty) := by
  refine admits.bindParams fun index name => ?_
  split
  · exact admits_param index name
  · rcases found : subst.lookupParam index with _ | image
    · exact admits_param index name
    · have fits := bound image (Table.mem_values_of_find? found)
      cases written with
      | true => exact fits.writes
      | false => exact fits

theorem Admits.generalize (closed : subst.Closed (policy.Fits next)) (fits : policy.Fits next ty)
    (environment : List VarId) : policy.Fits next (subst.generalize environment ty) := by
  have solved := fits.apply closed
  unfold Subst.generalize
  split
  · exact fits
  · dsimp only
    split
    · exact solved
    · refine admits_scheme _ (solved.bindVars fun id found => ?_)
      split
      · exact admits_param _ _
      · exact admits_var (solved.var_of_mem id found)

/-- The supply only grows, and what was made with it is of a class that may depend on it. -/
structure Grown {α : Type} (good : Nat → α → Prop) (supply : Supply)
    (outcome : Option α × Supply) : Prop where
  grows : supply.next ≤ outcome.2.next
  result : ∀ ⦃value⦄, outcome.1 = some value → good outcome.2.next value

theorem fits_fresh (started : policy.base ≤ next) : policy.Fits (next + 1) (var next) :=
  admits_var (policy.fresh started)

theorem fits_nextVars (started : policy.base ≤ next) (count : Nat) :
    ∀ ty ∈ Checker.nextVars next count, policy.Fits (next + count) ty := by
  intro ty member
  obtain ⟨offset, inside, rfl⟩ := List.mem_map.mp member
  rw [List.mem_range] at inside
  have fits : policy.Fits (next + offset + 1) (var (next + offset : Nat)) :=
    fits_fresh (started.trans (Nat.le_add_right _ _))
  exact fits.raise (by omega)

section Supplied

variable {supply : Supply}

theorem grown_fresh (started : policy.base ≤ supply.next) :
    Grown (policy.Admits written) supply (supply.fresh.map some id) := by
  refine ⟨Nat.le_succ _, ?_⟩
  rintro _ ⟨⟩
  have fits := fits_fresh started
  cases written with
  | true => exact fits.writes
  | false => exact fits

theorem grown_none {good : Nat → α → Prop} :
    Grown good supply ((none, supply) : Option α × Supply) :=
  ⟨le_rfl, nofun⟩

theorem grown_pure {good : Nat → α → Prop} {value : α} (holds : good supply.next value) :
    Grown good supply (some value, supply) := by
  refine ⟨le_rfl, ?_⟩
  rintro _ ⟨⟩
  exact holds

theorem Grown.stop {β : Type} {good : Nat → α → Prop} {good' : Nat → β → Prop} {middle : Supply}
    (first : Grown good supply (none, middle)) : Grown good' supply (none, middle) :=
  ⟨first.grows, nofun⟩

theorem Grown.andThen {β : Type} {good : Nat → α → Prop} {good' : Nat → β → Prop} {value : α}
    {middle : Supply} {outcome : Option β × Supply}
    (first : Grown good supply (some value, middle))
    (goesOn : supply.next ≤ middle.next → good middle.next value → Grown good' middle outcome) :
    Grown good' supply outcome := by
  have second := goesOn first.grows (first.result rfl)
  exact ⟨first.grows.trans second.grows, second.result⟩

theorem grown_instantiate (started : policy.base ≤ supply.next)
    (fits : policy.Fits supply.next ty) : Grown policy.Fits supply (supply.instantiate ty) := by
  cases ty with
  | scheme names body =>
    refine ⟨Nat.le_add_right _ _, fun instance_ replaced => ?_⟩
    exact .of_substParams? (fits.body.raise (Nat.le_add_right _ _)) replaced
      (fits_nextVars started names.length)
  | _ => exact grown_pure fits

/-- What an image of one node has to do for a rebuild: the node is of an accepted former, and its
components were rebuilt before. -/
def Rebuilds (policy : Policy) (source target : Bool) (start : Nat)
    (image : Ty → Supply → Option Ty × Supply) : Prop :=
  ∀ node supply, start ≤ supply.next → policy.accepts source start node = true →
    (∀ part ∈ node.parts, policy.Admits target supply.next part) →
      Grown (policy.Admits target) supply (image node supply)

variable {source target : Bool} {start : Nat} {image : Ty → Supply → Option Ty × Supply}

theorem Grown.of_threads {fields : Bool} {types : List Ty} {result : Option (List Ty)}
    {after : Supply} (threads : Threads (fun ty supply made after => start ≤ supply.next →
      policy.Admits source start ty → Grown (policy.Admits target) supply (made, after))
        fields types supply result after)
    (started : start ≤ supply.next) (admits : ∀ ty ∈ types, policy.Admits source start ty) :
    Grown (fun next types => ∀ ty ∈ types, policy.Admits target next ty) supply
    (result, after) := by
  induction threads with
  | nil => exact grown_pure nofun
  | cons _ head _ ih =>
    rw [List.forall_mem_cons] at admits
    have first := head started admits.1
    have second := ih (started.trans first.grows) admits.2
    refine ⟨first.grows.trans second.grows, fun types made => ?_⟩
    obtain ⟨rest', rfl, rfl⟩ := Option.map_eq_some_iff.mp made
    exact List.forall_mem_cons.mpr ⟨(first.result rfl).raise second.grows, second.result rfl⟩
  | stopped _ head => exact (head started (admits _ List.mem_cons_self)).stop
  | missing => exact grown_none

theorem Rebuilds.grown (rebuilds : policy.Rebuilds source target start image)
    (started : start ≤ supply.next) (admits : policy.Admits source start ty) :
    Grown (policy.Admits target) supply (ty.rebuildWith image supply) := by
  refine rebuildWith_induction (motive := fun ty supply made after => start ≤ supply.next →
    policy.Admits source start ty → Grown (policy.Admits target) supply (made, after))
    ?_ ?_ rfl started admits
  · intro ty ty' supply middle made after same inside imaged started admits
    have former : policy.accepts source start ty' = true := by
      have := (all_iff.mp admits).1
      cases ty' <;> cases ty <;> simp_all [sameFormer, accepts]
    have grown := Grown.of_threads inside started fun part member => admits.part member
    exact imaged ▸ grown.andThen fun grows each =>
      rebuilds ty' middle (started.trans grows) former each
  · intro ty supply middle inside started admits
    exact (Grown.of_threads inside started fun part member => admits.part member).stop

theorem rebuilds_fillUnknowns (started : policy.base ≤ start) :
    policy.Rebuilds true false start fun part supply =>
      match part with
      | .unknown => supply.fresh.map some id
      | part => (some part, supply) := by
  intro node supply later former inner
  cases node with
  | unknown => exact grown_fresh (started.trans later)
  | var id => exact grown_pure (admits_var (policy.mono later former))
  | _ => exact grown_pure (.of_parts former inner)

theorem grown_resolve (started : policy.base ≤ supply.next)
    (writes : policy.Writes supply.next ty) : Grown policy.Fits supply (supply.resolve ty) := by
  unfold Supply.resolve
  split
  · exact grown_fresh started
  · split
    · exact grown_none
    · next found =>
        obtain ⟨any, searched, same⟩ := Option.map_eq_some_iff.mp found
        refine grown_pure (writes.fits_of_isKnown ?_)
        unfold search? at searched
        obtain ⟨_, ⟨⟩⟩ := Option.ite_none_left_eq_some.mp searched
        exact same
    · exact (rebuilds_fillUnknowns started).grown le_rfl writes

variable {aliases : Table DefId AliasInfo}

theorem grown_expandWithin (started : policy.base ≤ supply.next)
    (targets : ∀ info ∈ aliases.values, policy.Writes 0 info.target) (limit : Nat)
    (writes : policy.Writes supply.next ty) :
    Grown policy.Writes supply (Alias.expandWithin aliases limit ty supply) := by
  induction limit generalizing ty supply with
  | zero => exact grown_pure writes
  | succ limit ih =>
    suffices rebuilds : policy.Rebuilds true true supply.next _ from
      rebuilds.grown le_rfl writes
    intro node middle later former inner
    cases node with
    | named decl args =>
      dsimp only
      split
      · exact grown_pure (.of_parts former inner)
      · next info found =>
          split
          · exact grown_fresh (started.trans later)
          · split
            · next target replaced =>
                refine ih (started.trans later) (.of_substParams? ?_ replaced inner)
                exact (targets info (Table.mem_values_of_find? found)).raise (Nat.zero_le _)
            · exact grown_none
    | var id => exact grown_pure (admits_var (policy.mono later former))
    | _ => exact grown_pure (.of_parts former inner)

theorem grown_expand (started : policy.base ≤ supply.next)
    (targets : ∀ info ∈ aliases.values, policy.Writes 0 info.target)
    (writes : policy.Writes supply.next ty) :
    Grown policy.Writes supply (Alias.expand aliases ty supply) := by
  unfold Alias.expand
  split
  · exact grown_pure writes
  · exact grown_expandWithin started targets _ writes

end Supplied

/-- Allows all variables. -/
def any : Policy where
  allows _ _ := true
  exempt _ := false
  base := 0
  fresh _ := rfl
  mono _ _ := rfl
  apart _ := rfl

/-- Allows the variables that were handed out. -/
def taken : Policy where
  allows next id := decide (0 ≤ id ∧ id < (next : VarId))
  exempt _ := false
  base := 0
  fresh _ := decide_eq_true ⟨Int.natCast_nonneg _, Int.ofNat_lt.mpr (Nat.lt_succ_self _)⟩
  mono grown allowed := by
    simp only [decide_eq_true_eq] at allowed ⊢
    exact ⟨allowed.1, lt_of_lt_of_le allowed.2 (Int.ofNat_le.mpr grown)⟩
  apart _ := rfl

theorem writes_any (ty : Ty) : any.Writes next ty := writes_of_vars fun _ _ => rfl

end Policy

end TraitCheck
