import TraitCheck.Proofs.Presence
import TraitCheck.Proofs.Unification.Symmetry

/-!
# Generalisation and back

Generalisation puts a parameter in the place of a variable, and instantiation a fresh variable in
the place of the parameter. Only the order of the quantified variables ties the two together, so a
mistake in it would merge variables or lose them. `Ty.Generalised` says what a solved type is
generalised to, and that instantiation gives it back with its quantified variables renamed.
-/

namespace TraitCheck

namespace Ty

theorem toList_genericName (position : Nat) :
    (genericName position).toList = "'".toList ++ Char.ofNat (97 + position % 26) ::
      (if position < 26 then "" else (position / 26).repr).toList := by
  have letter : (97 + (position : Int).tmod 26).toNat = 97 + position % 26 := by
    rw [Int.tmod_eq_emod_of_nonneg (Int.natCast_nonneg position)]
    omega
  have round : toString ((position : Int).tdiv 26) = (position / 26).repr := by
    rw [Int.tdiv_eq_ediv_of_nonneg (Int.natCast_nonneg position)]
    rfl
  simp only [genericName, letter, round, String.toList_append, Char.toString_eq_singleton,
    String.toList_singleton]
  by_cases first : position < 26
  · have : ¬ (position : Int) ≥ 26 := by omega
    simp [first, this]
  · have : (position : Int) ≥ 26 := by omega
    simp [first, this]

theorem genericName_injective : Function.Injective fun position : Nat => genericName position := by
  intro first second same
  have texts := congrArg String.toList same
  simp only [toList_genericName] at texts
  rcases List.cons.inj (List.append_cancel_left texts) with ⟨sameLetter, sameRound⟩
  have letters : first % 26 = second % 26 := by
    have valid : ∀ position, (97 + position % 26).isValidChar := by
      intro position
      simp only [Nat.isValidChar]
      omega
    have codes := congrArg Char.toNat sameLetter
    rw [Char.toNat_ofNat, Char.toNat_ofNat, if_pos (valid first), if_pos (valid second)] at codes
    omega
  have rounds := String.toList_inj.mp sameRound
  by_cases low : first < 26 <;> by_cases low' : second < 26
  · omega
  · rw [if_pos low, if_neg low'] at rounds
    exact absurd rounds.symm Nat.repr_ne_empty
  · rw [if_neg low, if_pos low'] at rounds
    exact absurd rounds Nat.repr_ne_empty
  · rw [if_neg low, if_neg low', Nat.repr_inj] at rounds
    omega

section Draw

variable {State : Type}

/-- Several types drawn from a source in order. -/
def drawAll (draw : State → Ty × State) : Nat → State → List Ty × State
  | 0, state => ([], state)
  | count + 1, state =>
    let (ty, state) := draw state
    let (rest, state) := drawAll draw count state
    (ty :: rest, state)

/-- Replaces the quantified parameters of a scheme by types that are drawn for them. -/
def instantiateWith (draw : State → Ty × State) (ty : Ty) (state : State) : Option Ty × State :=
  match ty with
  | .scheme names body =>
    let (args, state) := drawAll draw names.length state
    (body.substParams? args, state)
  | ty => (some ty, state)

theorem length_drawAll (draw : State → Ty × State) (count : Nat) (state : State) :
    (drawAll draw count state).1.length = count := by
  induction count generalizing state with
  | zero => rfl
  | succ count ih => simp [drawAll, ih]

theorem instantiateWith_of_isScheme {ty : Ty} (noScheme : ty.isScheme = false)
    (draw : State → Ty × State) (state : State) :
    ty.instantiateWith draw state = (some ty, state) := by
  cases ty with
  | scheme names body => cases noScheme
  | _ => rfl

end Draw

theorem drawAll_fresh (count : Nat) (supply : Supply) :
    drawAll Supply.fresh count supply = supply.freshList count := by
  induction count generalizing supply with
  | zero => rfl
  | succ count ih =>
    rw [drawAll, Supply.fresh]
    simp only [ih, Supply.freshList, List.range_succ_eq_map, List.map_cons, List.map_map]
    refine Prod.ext ?_ ?_
    · simp [Function.comp_def, add_comm, add_left_comm]
    · simp [add_comm, add_left_comm]

theorem instantiate_eq (supply : Supply) (ty : Ty) :
    supply.instantiate ty = ty.instantiateWith Supply.fresh supply := by
  cases ty with
  | scheme names body => rw [Supply.instantiate, instantiateWith, drawAll_fresh]
  | _ => rfl

section Quantified

variable {ids fresh environment : List VarId} {ty : Ty} {id : VarId}

/-- Whether a type holds no scheme, and no parameter but `Self`. -/
def isUnquantified (ty : Ty) : Bool :=
  ty.all fun
    | .scheme _ _ => false
    | .param index _ => index = -1
    | _ => true

theorem isScheme_of_isUnquantified (unquantified : ty.isUnquantified = true) :
    ty.isScheme = false := by
  cases ty with
  | scheme names body => cases (all_iff.mp unquantified).1
  | _ => rfl

theorem paramsWithin_of_isUnquantified (unquantified : ty.isUnquantified = true) :
    ty.paramsWithin (· < 0) = true := by
  apply all_of_imp unquantified
  intro ty former
  cases ty with
  | param index name =>
    simp only [decide_eq_true_eq] at former ⊢
    omega
  | _ => rfl

theorem mem_subterms_bindVars (image : VarId → Ty) (occurs : id ∈ ty.vars)
    (present : image id ≠ absent) : image id ∈ (ty.bindVars image).subterms := by
  induction ty with
  | step ty ih =>
    rcases mem_vars_iff.mp occurs with rfl | ⟨part, member, inPart⟩
    · rw [bindVars_var, subterms_eq present]
      exact List.mem_cons_self
    · have notVar : ∀ other, ty ≠ var other := by
        rintro other rfl
        simp [parts] at member
      have notAbsent : ty.bindVars image ≠ absent := by
        cases ty with
        | absent => simp [parts] at member
        | var other => exact absurd rfl (notVar other)
        | _ => simp
      rw [subterms_eq notAbsent, parts_bindVars notVar]
      apply List.mem_cons_of_mem
      apply List.mem_flatMap.mpr
      exact ⟨_, List.mem_map_of_mem member, ih part member inPart⟩

theorem whole_toParam (ids : List VarId) (id : VarId) : (toParam ids id).Whole := by
  unfold toParam
  split
  · exact whole_param _ _
  · exact whole_var id

theorem mem_vars_quantify : id ∈ (ty.quantify ids).vars ↔ id ∈ ty.vars ∧ id ∉ ids := by
  rw [quantify_eq, vars_scheme, mem_vars_bindVars]
  constructor
  · rintro ⟨source, occurs, found⟩
    rcases vars_toParam_subset found with ⟨rfl, free⟩
    exact ⟨occurs, free⟩
  · rintro ⟨occurs, free⟩
    exact ⟨id, occurs, by simp [toParam_of_not_mem free]⟩

theorem giving_self (ids : List VarId) (id : VarId) : giving ids (ids.map var) id = var id := by
  unfold giving
  split
  · next position located =>
      rcases List.idxOf?_eq_some_iff.mp located with ⟨inside, found, _⟩
      simp [inside, found]
  · rfl

/-- Replaces the numbers of a list by those of another. -/
def renumber (ids fresh : List VarId) (id : VarId) : VarId :=
  match ids.idxOf? id with
  | some position => fresh.getD position id
  | none => id

theorem giving_map_var (ids fresh : List VarId) (id : VarId) :
    giving ids (fresh.map var) id = var (renumber ids fresh id) := by
  rcases located : ids.idxOf? id with _ | position
  · rw [giving, renumber, located]
  · simp only [giving, renumber, located, List.getD_eq_getElem?_getD, List.getElem?_map]
    cases fresh[position]? <;> rfl

theorem renumber_of_not_mem (missing : id ∉ ids) : renumber ids fresh id = id := by
  rw [renumber, List.idxOf?_eq_none_iff.mpr missing]

theorem map_renumber (distinct : ids.Nodup) (count : fresh.length = ids.length) :
    ids.map (renumber ids fresh) = fresh := by
  apply List.ext_getElem
  · simp [count]
  · intro position _ inside
    simp [renumber, idxOf?_getElem distinct (count ▸ inside), inside]

theorem injOn_rename {rename : VarId → VarId} (renames : ids.map rename = fresh)
    (keeps : ∀ id, id ∉ ids → rename id = id) (distinct : fresh.Nodup)
    (apart : ∀ id ∈ fresh, id ∈ ty.vars → id ∈ ids) :
    Set.InjOn rename {id | id ∈ ty.vars} := by
  have crossed : ∀ {id other}, id ∈ ids → other ∉ ids → other ∈ ty.vars → rename id ≠ other := by
    rintro id other member missing occurs rfl
    have inFresh : rename id ∈ fresh := by
      rw [← renames]
      exact List.mem_map_of_mem member
    exact missing (apart _ inFresh occurs)
  intro id occurs other occurs' same
  by_cases member : id ∈ ids <;> by_cases member' : other ∈ ids
  · rw [← renames] at distinct
    exact List.inj_on_of_nodup_map distinct member member' same
  · rw [keeps other member'] at same
    exact absurd same (crossed member member' occurs')
  · rw [keeps id member] at same
    exact absurd same.symm (crossed member' member occurs)
  · rwa [keeps id member, keeps other member'] at same

end Quantified

/-- The scheme over several variables of a type: one name for each of them, in their order. -/
structure Quantifies (solved : Ty) (ids : List VarId) (names : List String) (body : Ty) : Prop where
  count : names.length = ids.length
  distinct : names.Nodup
  occurs : ∀ {position : Nat} {name}, names[position]? = some name →
    param position name ∈ body.subterms
  restores : body.substParams (ids.map var) = solved

/-- A solved type is generalised over the variables outside an environment. Instantiation with
distinct variables that are not free in the result gives the solved type back, with its quantified
variables renamed to these. -/
structure Generalised (environment : List VarId) (solved : Ty) (ids : List VarId) (general : Ty) :
    Prop where
  ascending : ids.Pairwise (· < ·)
  quantified : ∀ id, id ∈ ids ↔ id ∈ solved.vars ∧ id ∉ environment
  free : ∀ id, id ∈ general.vars ↔ id ∈ solved.vars ∧ id ∈ environment
  unchanged : (∀ id ∈ solved.vars, id ∈ environment) → general = solved
  scheme : (∃ id ∈ solved.vars, id ∉ environment) →
    ∃ names body, general = .scheme names body ∧ Quantifies solved ids names body
  instantiate : ∀ {State : Type} (draw : State → Ty × State) (state : State) (fresh : List VarId),
    (drawAll draw ids.length state).1 = fresh.map var → fresh.Nodup →
    (∀ id ∈ fresh, id ∉ general.vars) →
    ∃ rename : VarId → VarId, ids.map rename = fresh ∧ (∀ id, id ∉ ids → rename id = id) ∧
      Set.InjOn rename {id | id ∈ solved.vars} ∧
      general.instantiateWith draw state =
        (some (solved.rename rename), (drawAll draw ids.length state).2)

section Generalised

variable {ids environment : List VarId} {solved : Ty}

theorem quantifies_quantify (unquantified : solved.isUnquantified = true) (distinct : ids.Nodup)
    (occur : ∀ id ∈ ids, id ∈ solved.vars) :
    Quantifies solved ids ((List.range ids.length).map fun (position : Nat) => genericName position)
      (solved.bindVars (toParam ids)) where
  count := by simp
  distinct := List.nodup_range.map genericName_injective
  occurs := by
    intro position name named
    rcases List.getElem?_eq_some_iff.mp named with ⟨inside, rfl⟩
    have inIds : position < ids.length := by simpa using inside
    have becomes := toParam_getElem distinct inIds
    have stands := mem_subterms_bindVars (toParam ids)
      (occur _ (List.getElem_mem inIds)) (by simp [becomes])
    simpa [becomes] using stands
  restores := by
    rw [substParams_bindVars_toParam (paramsWithin_of_isUnquantified unquantified) (by simp)]
    exact bindVars_eq_self fun id _ => giving_self ids id

theorem instantiateWith_quantify {State : Type} {draw : State → Ty × State} {state : State}
    {fresh : List VarId} (unquantified : solved.isUnquantified = true)
    (complete : solved.isComplete = true) (nonempty : ids ≠ [])
    (drawn : (drawAll draw ids.length state).1 = fresh.map var) :
    (solved.quantify ids).instantiateWith draw state =
      (some (solved.rename (renumber ids fresh)), (drawAll draw ids.length state).2) := by
  have count : (fresh.map var).length = ids.length := by
    rw [← drawn, length_drawAll]
  have notEmpty : (fresh.map var).isEmpty = false := by
    rw [List.isEmpty_eq_false_iff_exists_mem]
    apply List.exists_mem_of_length_pos
    rw [count]
    exact List.length_pos_iff.mpr nonempty
  have bodyComplete : (solved.bindVars (toParam ids)).isComplete = true := by
    rw [bindVars_eq_bindLeaves]
    exact isComplete_bindLeaves complete (fun id _ => whole_toParam ids id) whole_param
  have becomes : (solved.bindVars (toParam ids)).substParams (fresh.map var) =
      solved.rename (renumber ids fresh) := by
    rw [substParams_bindVars_toParam (paramsWithin_of_isUnquantified unquantified) count, rename]
    exact bindVars_congr fun id _ => giving_map_var ids fresh id
  simp [quantify_eq, instantiateWith, drawn, substParams?, notEmpty, complete?, bodyComplete,
    becomes]

/-- A type is generalised by quantifying its variables outside the environment, if there are any. -/
theorem generalised_ite (unquantified : solved.isUnquantified = true)
    (complete : solved.isComplete = true) (ascending : ids.Pairwise (· < ·))
    (quantified : ∀ id, id ∈ ids ↔ id ∈ solved.vars ∧ id ∉ environment) :
    Generalised environment solved ids (if ids = [] then solved else solved.quantify ids) := by
  have distinct : ids.Nodup := ascending.imp fun less => ne_of_lt less
  have free : ∀ id, id ∈ (if ids = [] then solved else solved.quantify ids).vars ↔
      id ∈ solved.vars ∧ id ∉ ids := by
    intro id
    split
    · next empty => simp [empty]
    · exact mem_vars_quantify
  refine ⟨ascending, quantified, fun id => ?_, fun all => ?_, ?_, ?_⟩
  · rw [free, quantified]
    tauto
  · have empty : ids = [] := by
      apply List.eq_nil_iff_forall_not_mem.mpr
      intro id member
      rcases (quantified id).mp member with ⟨occurs, outside⟩
      exact outside (all id occurs)
    rw [if_pos empty]
  · rintro ⟨id, occurs⟩
    have nonempty : ids ≠ [] := List.ne_nil_of_mem ((quantified id).mpr occurs)
    rw [if_neg nonempty, quantify_eq]
    exact ⟨_, _, rfl, quantifies_quantify unquantified distinct fun id member =>
      ((quantified id).mp member).1⟩
  · intro State draw state fresh drawn freshDistinct apart
    have count : fresh.length = ids.length := by
      simpa [drawn] using length_drawAll draw ids.length state
    have renames := map_renumber distinct count
    refine ⟨renumber ids fresh, renames, fun id => renumber_of_not_mem, ?_, ?_⟩
    · apply injOn_rename renames (fun id => renumber_of_not_mem) freshDistinct
      intro id member occurs
      by_contra missing
      exact apart id member ((free id).mpr ⟨occurs, missing⟩)
    · split
      · next empty =>
          subst empty
          have unchanged : solved.rename (renumber [] fresh) = solved :=
            bindVars_eq_self fun id _ => rfl
          rw [instantiateWith_of_isScheme (isScheme_of_isUnquantified unquantified), unchanged]
          rfl
      · next nonempty => exact instantiateWith_quantify unquantified complete nonempty drawn

end Generalised

end Ty

namespace Subst

open Ty (var)

variable {subst : Subst} {environment : List VarId} {ty solved : Ty}

theorem isScheme_apply (subst : Subst) (isScheme : ty.isScheme = true) :
    (subst.apply ty).isScheme = true := by
  cases ty with
  | scheme names body => rfl
  | _ => cases isScheme

/-- Generalisation of a type whose solved form holds no scheme and no parameter but `Self` gives a
result, and this is undone by instantiation. -/
theorem instantiate_generalize (acyclic : subst.Acyclic) (complete : ty.isComplete = true)
    (solves : subst.applied? ty = some solved) (unquantified : solved.isUnquantified = true)
    (environment : List VarId) :
    ∃ general ids, subst.generalize? environment ty = some general ∧
      Ty.Generalised environment solved ids general ∧
      ∀ supply : Supply,
        supply.instantiate general = general.instantiateWith Supply.fresh supply := by
  have solvedComplete := acyclic.isComplete_of_applied? complete solves
  rcases applied?_eq_some.mp solves with ⟨applies, rfl⟩
  have noScheme : ty.isScheme = false := by
    rw [Bool.eq_false_iff]
    intro isScheme
    have solvedScheme := isScheme_apply subst isScheme
    rw [Ty.isScheme_of_isUnquantified unquantified] at solvedScheme
    cases solvedScheme
  refine ⟨subst.generalize environment ty, subst.quantified environment ty, ?_, ?_,
    fun supply => Ty.instantiate_eq supply _⟩
  · simp [generalize?, complete, applies]
  · rw [generalize_of_isScheme noScheme]
    exact Ty.generalised_ite unquantified solvedComplete pairwise_quantified
      fun id => mem_quantified

/-- A variable of the environment stays, and one that was quantified is drawn again for another. -/
theorem instantiate_generalize_overlap :
    (empty.bind 0 (.list (var 3))).Acyclic ∧
    (empty.bind 0 (.list (var 3))).applied? (.fn [var 0, var 2] (var 1)) =
      some (.fn [.list (var 3), var 2] (var 1)) ∧
    (empty.bind 0 (.list (var 3))).generalize? [2] (.fn [var 0, var 2] (var 1)) =
      some (.scheme ["'a", "'b"] (.fn [.list (.param 1 "'b"), var 2] (.param 0 "'a"))) ∧
    ∃ ids rename,
      Ty.Generalised [2] (.fn [.list (var 3), var 2] (var 1)) ids
        (.scheme ["'a", "'b"] (.fn [.list (.param 1 "'b"), var 2] (.param 0 "'a"))) ∧
      ids.map rename = [3, 4] ∧
      (Supply.instantiate ⟨3⟩
        (.scheme ["'a", "'b"] (.fn [.list (.param 1 "'b"), var 2] (.param 0 "'a")))).1 =
        some (Ty.rename rename (.fn [.list (var 3), var 2] (var 1))) := by
  have acyclic : (empty.bind 0 (.list (var 3))).Acyclic := acyclic_empty.bind rfl (by decide)
  have solves : (empty.bind 0 (.list (var 3))).applied? (.fn [var 0, var 2] (var 1)) =
      some (.fn [.list (var 3), var 2] (var 1)) := rfl
  refine ⟨acyclic, solves, rfl, ?_⟩
  rcases instantiate_generalize acyclic rfl solves rfl [2] with
    ⟨general, ids, ⟨⟩, generalised, supplied⟩
  rcases generalised.scheme ⟨1, by decide, by decide⟩ with ⟨names, body, ⟨⟩, quantifies⟩
  have drawn : (Ty.drawAll Supply.fresh ids.length ⟨3⟩).1 = [3, 4].map var := by
    rw [← quantifies.count]
    rfl
  rcases generalised.instantiate _ _ _ drawn (by decide) (by decide) with
    ⟨rename, renames, _, _, instantiated⟩
  exact ⟨ids, rename, generalised, renames,
    congrArg Prod.fst ((supplied ⟨3⟩).trans instantiated)⟩

end Subst

end TraitCheck
