import TraitCheck.Checker.Alias
import TraitCheck.Checker.Conformance
import TraitCheck.Proofs.Rebuilding
import TraitCheck.Proofs.Solving
import TraitCheck.Proofs.Unification.Completeness

/-!
# Types without absent parts

A type is present if neither it nor any of its components is absent. Records in such a type have all
their field types, so whatever looks into the type finds what it looks for: solving, replacing
parameters, instantiating, matching and searching all have a result, and the result is present
again. Bindings to present types keep this up, and so do aliases with present targets.
-/

namespace TraitCheck

variable {fields : Row} {implementer : Ty} {types : List Ty}

namespace Ty

/-- Neither the type nor any of its components is absent. -/
abbrev Present (ty : Ty) : Prop := ty.isPresent = true

variable {ty : Ty} {elems : List Ty} {pattern : Ty}

theorem Present.of_parts (former : ty.isAbsent = false) (each : ∀ part ∈ ty.parts, part.Present) :
    ty.Present :=
  all_iff.mpr ⟨by simp [former], each⟩

theorem Present.isAbsent (present : ty.Present) : ty.isAbsent = false := by
  simpa using (all_iff.mp present).1

theorem Present.part {part : Ty} (present : ty.Present) (member : part ∈ ty.parts) :
    part.Present :=
  all_of_part present member

@[grind .]
theorem present_var (id : VarId) : (var id).Present := rfl

@[grind .]
theorem present_prim (kind : Prim) : (prim kind).Present := rfl

theorem present_param (index : Int) (name : String) : (param index name).Present := rfl

@[grind ←]
theorem present_named {args : List Ty} (decl : DefId) (each : ∀ arg ∈ args, arg.Present) :
    (named decl args).Present :=
  .of_parts rfl each

@[grind →]
theorem Present.args {decl : DefId} {args : List Ty} (present : (named decl args).Present) :
    ∀ arg ∈ args, arg.Present :=
  fun _ => present.part

@[grind →]
theorem Present.elem {position : Nat} (present : (tuple elems).Present)
    (found : elems[position]? = some ty) : ty.Present :=
  present.part (List.mem_of_getElem? found)

@[grind ←]
theorem Present.list (present : ty.Present) : (Ty.list ty).Present :=
  present_named _ (by simpa using present)

@[grind ←]
theorem present_fn {params : List Ty} {result : Ty} (each : ∀ param ∈ params, param.Present)
    (present : result.Present) : (fn params result).Present := by
  refine .of_parts rfl fun part member => ?_
  rcases List.mem_append.mp member with isParam | isResult
  · exact each part isParam
  · exact List.mem_singleton.mp isResult ▸ present

@[grind ←]
theorem present_tuple (each : ∀ elem ∈ elems, elem.Present) : (tuple elems).Present :=
  .of_parts rfl each

@[grind ←]
theorem present_record (each : ∀ field ∈ fields, field.2.Present) : (record fields).Present := by
  refine .of_parts rfl fun part member => ?_
  obtain ⟨field, fieldMember, rfl⟩ := List.mem_map.mp member
  exact each field fieldMember

theorem Present.field (present : (record fields).Present) {field : String × Ty}
    (member : field ∈ fields) : field.2.Present :=
  present.part (List.mem_map_of_mem member)

theorem present_scheme {body : Ty} (names : List String) (present : body.Present) :
    (scheme names body).Present :=
  .of_parts rfl (by simpa [parts] using present)

theorem Present.body {names : List String} {body : Ty} (present : (scheme names body).Present) :
    body.Present :=
  present.part (by simp [parts])

section Replacing

variable (present : ty.Present)
include present

theorem Present.bindParams {image : Int → String → Ty}
    (images : ∀ index name, (image index name).Present) : (ty.bindParams image).Present := by
  rw [bindParams_eq_bindLeaves]
  refine all_bindLeaves (fun ty noVar noParam former => ?_) present (fun id _ => present_var id)
    fun index name _ => images index name
  cases ty <;> simp [Ty.isAbsent] at noVar noParam former ⊢

theorem Present.substParams {args : List Ty}
    (each : ∀ arg ∈ args, arg.Present) : (ty.substParams args).Present := by
  refine present.bindParams fun index name => ?_
  change (argOr args index name).Present
  rcases argOr_cases args index name with same | given
  · exact same ▸ present_param index name
  · exact each _ given

theorem Present.complete? : ty.complete? = some ty :=
  if_pos (isComplete_of_isPresent present)

theorem Present.substParams? (args : List Ty) :
    ty.substParams? args = some (ty.substParams args) := by
  unfold Ty.substParams?
  split
  · next empty => rw [List.isEmpty_iff.mp empty, substParams_nil]
  · rw [present.complete?, Option.map_some]

theorem Present.substSelf? (implementer : Ty) :
    ty.substSelf? implementer = some (ty.substSelf implementer) := by
  rw [Ty.substSelf?, present.complete?, Option.map_some]

theorem Present.substSelf
    (presentSelf : implementer.Present) : (ty.substSelf implementer).Present := by
  refine present.bindParams fun index name => ?_
  split
  · exact presentSelf
  · exact present_param index name

end Replacing

theorem subterms_eq (notAbsent : ty ≠ absent) : ty.subterms = ty :: ty.parts.flatMap subterms :=
  collect_eq some notAbsent

theorem Present.subterm (present : ty.Present) : ∀ part ∈ ty.subterms, part.Present := by
  induction ty with
  | step ty ih =>
    have notAbsent : ty ≠ absent := by
      rintro rfl
      cases present
    rw [subterms_eq notAbsent]
    intro part member
    rcases List.mem_cons.mp member with rfl | inParts
    · exact present
    · obtain ⟨inner, innerMember, inInner⟩ := List.mem_flatMap.mp inParts
      exact ih inner innerMember (present.part innerMember) part inInner

theorem Present.search? (present : ty.Present) (accept : Ty → Bool) :
    ty.search? accept = some (ty.any accept) := by
  refine if_neg ?_
  rw [Bool.not_eq_true, List.any_eq_false]
  intro part member
  rw [lacksField_of_isPresent (present.subterm part (List.takeWhile_subset _ member))]
  exact Bool.false_ne_true

theorem any_eq_false {accept : Ty → Bool} (never : ∀ ty, accept ty = false) (ty : Ty) :
    ty.any accept = false := by
  induction ty with
  | step ty ih =>
    rcases eq_or_ne ty absent with rfl | notAbsent
    · rfl
    · rw [any_eq notAbsent, never, Bool.false_or, List.any_eq_false]
      intro part member
      rw [ih part member]
      exact Bool.false_ne_true

/-- A match that does not stop at a field without a type. -/
def Settled (outcome : Except MatchFault ParamMatch) : Prop := outcome ≠ .error .incomplete

theorem settled_ok (found : ParamMatch) : Settled (.ok found) := nofun

theorem settled_differs : Settled (.error .differs) := nofun

theorem settled_matchList {patterns : List Ty}
    (each : ∀ pattern ∈ patterns, ∀ ty found, ty.isComplete = true →
      Settled (matchInto pattern ty found))
    (completes : ∀ ty ∈ types, ty.isComplete = true) (found : ParamMatch) :
    Settled (matchList patterns types found) := by
  induction patterns generalizing types found with
  | nil =>
    rw [matchList]
    · exact nofun
    · nofun
  | cons pattern patterns ih =>
    cases types with
    | nil =>
      rw [matchList]
      · exact nofun
      · nofun
    | cons ty types =>
      have first := each pattern List.mem_cons_self ty found (completes ty List.mem_cons_self)
      rw [matchList]
      split
      · exact ih (fun other member => each other (List.mem_cons_of_mem _ member))
          (fun other member => completes other (List.mem_cons_of_mem _ member)) _
      · next failed => exact failed ▸ first

theorem settled_matchRow {row : Row} (each : ∀ field ∈ fields, ∀ ty found, ty.isComplete = true →
      Settled (matchInto field.2 ty found)) (noGap : ∀ field ∈ fields, field.2.isAbsent = false)
    (complete : (record row).isComplete = true) (found : ParamMatch) :
    Settled (matchRow fields row found) := by
  induction fields generalizing found with
  | nil => exact nofun
  | cons field fields ih =>
    obtain ⟨label, pattern⟩ := field
    have rest := ih (fun other member => each other (List.mem_cons_of_mem _ member))
      (fun other member => noGap other (List.mem_cons_of_mem _ member))
    rw [matchRow, noGap (label, pattern) List.mem_cons_self, if_neg Bool.false_ne_true]
    split
    · exact nofun
    · next ty has =>
        have inRow := Row.mem_of_find? has
        rcases isComplete_iff.mp complete with ⟨noGapInRow, inner⟩
        have first := each (label, pattern) List.mem_cons_self ty found
          (inner ty (List.mem_map_of_mem inRow))
        rw [isAbsent_of_lacksField noGapInRow inRow, if_neg Bool.false_ne_true]
        split
        · exact rest _
        · next failed => exact failed ▸ first

theorem settled_matchInto (completePattern : pattern.isComplete = true) :
    ∀ ty found, ty.isComplete = true → Settled (matchInto pattern ty found) := by
  intro ty found complete
  -- Every outcome but those of comparisons part by part is settled as it stands.
  induction pattern using Ty.induction generalizing ty found with
  | named decl args ih =>
    rw [matchInto.eq_def]
    dsimp only
    repeat' split
    any_goals first | exact settled_ok _ | exact settled_differs
    exact settled_matchList
      (fun arg member => ih arg member (isComplete_of_part completePattern member))
      (fun arg member => isComplete_of_part complete member) found
  | fn params result ihParams ihResult =>
    rw [matchInto.eq_def]
    dsimp only
    repeat' split
    any_goals first | exact settled_ok _ | exact settled_differs
    all_goals
      have first := settled_matchList
        (fun param member => ihParams param member
          (isComplete_of_part completePattern (List.mem_append_left _ member)))
        (fun param member => isComplete_of_part complete (List.mem_append_left _ member)) found
    · exact ihResult (isComplete_of_part completePattern (by simp [parts])) _ _
        (isComplete_of_part complete (by simp [parts]))
    · next failed => exact failed ▸ first
  | tuple elems ih =>
    rw [matchInto.eq_def]
    dsimp only
    repeat' split
    any_goals first | exact settled_ok _ | exact settled_differs
    exact settled_matchList
      (fun elem member => ih elem member (isComplete_of_part completePattern member))
      (fun elem member => isComplete_of_part complete member) found
  | record fields ih =>
    have noGap := (isComplete_iff.mp completePattern).1
    rw [matchInto.eq_def]
    dsimp only
    repeat' split
    any_goals first | exact settled_ok _ | exact settled_differs
    exact settled_matchRow
      (fun field member => ih field member
        (isComplete_of_part completePattern (List.mem_map_of_mem member)))
      (fun field member => isAbsent_of_lacksField noGap member) complete found
  | _ =>
    rw [matchInto.eq_def]
    dsimp only
    repeat' split
    any_goals first | exact settled_ok _ | exact settled_differs

theorem isSome_isMatch? (completePattern : pattern.isComplete = true)
    (complete : ty.isComplete = true) : (pattern.isMatch? ty).isSome = true := by
  have settled := settled_matchInto completePattern ty .empty complete
  unfold isMatch? matchWith
  split
  · rfl
  · rfl
  · next failed => exact absurd failed settled

theorem Present.isMatch? (presentPattern : pattern.Present) (present : ty.Present) :
    (pattern.isMatch? ty).isSome = true :=
  isSome_isMatch? (isComplete_of_isPresent presentPattern) (isComplete_of_isPresent present)

end Ty

theorem exists_partner {α β : Type} {related : α → β → Prop} {left : List α} {right : List β}
    {value : β} (pairs : List.Forall₂ related left right) (member : value ∈ right) :
    ∃ partner ∈ left, related partner value := by
  induction pairs with
  | nil => cases member
  | cons head _ ih =>
    rcases List.mem_cons.mp member with rfl | inRest
    · exact ⟨_, List.mem_cons_self, head⟩
    · rcases ih inRest with ⟨partner, inside, related⟩
      exact ⟨partner, List.mem_cons_of_mem _ inside, related⟩

theorem exists_mapM {α β : Type} {each : α → Option β} {good : β → Prop} {list : List α}
    (total : ∀ value ∈ list, ∃ result, each value = some result ∧ good result) :
    ∃ results, list.mapM each = some results ∧ ∀ result ∈ results, good result := by
  induction list with
  | nil => exact ⟨[], rfl, nofun⟩
  | cons value rest ih =>
    obtain ⟨head, first, goodHead⟩ := total value List.mem_cons_self
    obtain ⟨tail, others, goodTail⟩ := ih fun other member =>
      total other (List.mem_cons_of_mem _ member)
    refine ⟨head :: tail, by simp [List.mapM_cons, first, others], fun result member => ?_⟩
    rcases List.mem_cons.mp member with rfl | inTail
    · exact goodHead
    · exact goodTail result inTail

theorem MethodDecl.exists_signature {decl : MethodDecl}
    (params : ∀ ty ∈ decl.params, ty.Present) (result : decl.result.Present)
    (presentSelf : implementer.Present) :
    ∃ ty, decl.signature? implementer = some ty ∧ ty.Present := by
  have each : ∀ ty ∈ decl.params, ∃ image, ty.substSelf? implementer = some image ∧ image.Present :=
    fun ty member =>
      ⟨_, (params ty member).substSelf? implementer, (params ty member).substSelf presentSelf⟩
  obtain ⟨types, replaced, presents⟩ := exists_mapM each
  refine ⟨.fn types (decl.result.substSelf implementer), ?_, ?_⟩
  · simp [signature?, replaced, result.substSelf?]
  · exact Ty.present_fn presents (result.substSelf presentSelf)

namespace Subst

variable {subst : Subst} {ty : Ty}

theorem Within.applied? (inside : subst.Within Ty.Present) (present : ty.Present) :
    subst.applied? ty = some (subst.apply ty) :=
  if_pos (inside.applies present)

theorem Within.shallow? (inside : subst.Within Ty.Present) (present : ty.Present) :
    subst.shallow? ty = some (subst.shallow ty) := by
  have reached : (subst.shallow ty).Present := inside.shallow present
  unfold Subst.shallow?
  split
  · next absent =>
      rw [absent] at reached
      cases reached
  · rfl

section Parameters

variable (params : ∀ ty ∈ subst.params.values, ty.Present)
include params

theorem present_replaceParams (present : ty.Present) : (subst.replaceParams ty).Present := by
  refine present.bindParams fun index name => ?_
  split
  · exact Ty.present_param index name
  · rcases found : subst.lookupParam index with _ | image
    · exact Ty.present_param index name
    · exact params image (Table.mem_values_of_find? found)

theorem Within.applyParams? (inside : subst.Within Ty.Present) (present : ty.Present) :
    subst.applyParams? ty = some (subst.applyParams ty) := by
  have replaceable : subst.appliesParams ty = true := by
    unfold appliesParams
    rw [Ty.isComplete_of_isPresent present, Ty.any_eq_false, Bool.not_false, Bool.and_true,
      Bool.or_true]
    intro part
    split
    · next index name =>
        rcases found : subst.lookupParam index with _ | image
        · simp
        · simp [(params image (Table.mem_values_of_find? found)).isAbsent]
    · rfl
  rw [Subst.applyParams?, replaceable, inside.applies (present_replaceParams params present)]
  rfl

theorem Within.present_applyParams (inside : subst.Within Ty.Present) (present : ty.Present) :
    (subst.applyParams ty).Present :=
  inside.isPresent_apply (present_replaceParams params present)

end Parameters

theorem Within.generalize? (inside : subst.Within Ty.Present) (present : ty.Present)
    (environment : List VarId) :
    subst.generalize? environment ty = some (subst.generalize environment ty) := by
  rw [Subst.generalize?, Ty.isComplete_of_isPresent present, inside.applies present]
  simp

theorem Within.present_generalize (inside : subst.Within Ty.Present) (present : ty.Present)
    (environment : List VarId) : (subst.generalize environment ty).Present := by
  have solved := inside.isPresent_apply present
  unfold Subst.generalize
  split
  · exact present
  · dsimp only
    split
    · exact solved
    · refine Ty.present_scheme _ (Ty.isPresent_bindVars solved fun id _ => ?_)
      split
      · exact Ty.present_param _ _
      · exact Ty.present_var _

end Subst

/-- There is a result, and it is good. -/
def Yields {α State : Type} (good : α → Prop) (outcome : Option α × State) : Prop :=
  ∃ value state, outcome = (some value, state) ∧ good value

namespace Ty

variable {State : Type} {image : Ty → State → Option Ty × State}

/-- The rebuild of a type that is present gives a present type. -/
abbrev Restores (ty : Ty) (_ : State) (made : Option Ty) (_ : State) : Prop :=
  ty.Present → ∃ ty', made = some ty' ∧ ty'.Present

theorem Threads.presents {fields : Bool} {state after : State}
    {result : Option (List Ty)} (threads : Threads Restores fields types state result after)
    (presents : ∀ ty ∈ types, ty.Present) : ∃ types', result = some types' ∧
      ∀ ty ∈ types', ty.Present := by
  induction threads with
  | nil => exact ⟨[], rfl, nofun⟩
  | cons _ head _ ih =>
    rw [List.forall_mem_cons] at presents
    obtain ⟨_, ⟨⟩, presentHead⟩ := head presents.1
    obtain ⟨_, rfl, presentRest⟩ := ih presents.2
    exact ⟨_, rfl, List.forall_mem_cons.mpr ⟨presentHead, presentRest⟩⟩
  | stopped _ head => obtain ⟨_, ⟨⟩, _⟩ := head (presents _ List.mem_cons_self)
  | missing => cases presents _ List.mem_cons_self

theorem yields_rebuildWith {ty : Ty} (present : ty.Present)
    (images : ∀ node state, node.Present → Yields Present (image node state)) (state : State) :
    Yields Present (ty.rebuildWith image state) := by
  obtain ⟨ty', made, presentMade⟩ : ∃ ty', (ty.rebuildWith image state).1 = some ty' ∧
      ty'.Present := by
    refine rebuildWith_induction (motive := Restores) ?_ ?_ rfl present
    · intro ty ty' state middle made after same inside imaged present
      obtain ⟨_, ⟨⟩, presents⟩ := inside.presents fun part member => present.part member
      have former : ty'.isAbsent = false := by
        have notAbsent := present.isAbsent
        cases ty' <;> cases ty <;> simp_all [sameFormer, Ty.isAbsent]
      obtain ⟨value, last, yields, good⟩ := images ty' middle (.of_parts former presents)
      cases imaged.symm.trans yields
      exact ⟨value, rfl, good⟩
    · intro ty state middle inside present
      obtain ⟨_, ⟨⟩, _⟩ := inside.presents fun part member => present.part member
  exact ⟨ty', _, Prod.ext made rfl, presentMade⟩

end Ty

namespace Supply

variable {supply : Supply} {ty : Ty}

theorem yields_fresh : Yields Ty.Present (supply.fresh.map some id) :=
  ⟨_, _, rfl, Ty.present_var _⟩

theorem present_freshList (count : Nat) (supply : Supply) :
    ∀ ty ∈ (supply.freshList count).1, ty.Present := by
  intro ty member
  obtain ⟨_, _, rfl⟩ := List.mem_map.mp member
  exact Ty.present_var _

theorem yields_instantiate (present : ty.Present) : Yields Ty.Present (supply.instantiate ty) := by
  cases ty with
  | scheme names body =>
    have replaced := present.body.substParams? (supply.freshList names.length).1
    exact ⟨_, _, congrArg (·, _) replaced,
      present.body.substParams (present_freshList names.length supply)⟩
  | _ => exact ⟨_, _, rfl, present⟩

theorem yields_resolve (present : ty.Present) : Yields Ty.Present (supply.resolve ty) := by
  unfold resolve
  split
  · exact yields_fresh
  · rw [Ty.isKnown?, present.search?]
    dsimp only [Option.map]
    split
    · next missing => cases missing
    · exact ⟨_, _, rfl, present⟩
    · refine Ty.yields_rebuildWith present (fun node state presentNode => ?_) supply
      split
      · exact yields_fresh
      · exact ⟨_, _, rfl, presentNode⟩

variable {aliases : Table DefId AliasInfo}

theorem yields_expandWithin (targets : ∀ info ∈ aliases.values, info.target.Present) (limit : Nat)
    (present : ty.Present) : Yields Ty.Present (Alias.expandWithin aliases limit ty supply) := by
  induction limit generalizing ty supply with
  | zero => exact ⟨_, _, rfl, present⟩
  | succ limit ih =>
    refine Ty.yields_rebuildWith present (fun node state presentNode => ?_) supply
    split
    · next decl args =>
        split
        · exact ⟨_, _, rfl, presentNode⟩
        · next info found =>
            have presentTarget := targets info (Table.mem_values_of_find? found)
            split
            · exact yields_fresh
            · rw [presentTarget.substParams?]
              exact ih (presentTarget.substParams fun arg member => presentNode.part member)
    · exact ⟨_, _, rfl, presentNode⟩

theorem yields_expand (targets : ∀ info ∈ aliases.values, info.target.Present)
    (present : ty.Present) : Yields Ty.Present (Alias.expand aliases ty supply) := by
  unfold Alias.expand
  split
  · exact ⟨_, _, rfl, present⟩
  · exact yields_expandWithin targets _ present

end Supply

end TraitCheck
