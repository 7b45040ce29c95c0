import TraitCheck.Proofs.Matching.Patterns

/-!
# Coverage of matches is sound

The coverage of a match is computed from its patterns alone, while what a pattern matches depends on
the types against which it was checked. The two meet in keys: a pattern with a key, checked quietly
against a type that has cases, matches exactly the values with that key. Going through the arms, the
keys collected so far and the pattern that matches everything then say which values are settled by
an earlier arm without a guard.
-/

namespace TraitCheck

variable {enums : Table DefId EnumInfo}

section Keys

variable {Scalar : Type} {reading : Reading Scalar} {world : World} {value : Value Scalar}

/-- The value belongs to the case with the key. -/
def Value.hasKey (reading : Reading Scalar) (key : String) : Value Scalar → Prop
  | .bool value => reading.bool key = value
  | .unit => True
  | .variant _ name _ => name = key
  | .scalar _ | .tuple _ | .list _ | .record _ => False

/-- Whether a type is primitive or a declared enum of which the variants have different names. -/
def Ty.hasCases (enums : Table DefId EnumInfo) : Ty → Bool
  | .prim _ => true
  | .named decl _ => (enums.find? decl).any fun info => (info.variants.map (·.name)).Nodup
  | _ => false

theorem Ty.hasCases_bindVars {ty : Ty} (hasCases : ty.hasCases enums = true)
    (assignment : VarId → Ty) : (ty.bindVars assignment).hasCases enums = true := by
  cases ty with
  | prim kind => exact hasCases
  | named decl args => exact Ty.bindVars_named .. ▸ hasCases
  | _ => cases hasCases

theorem Ty.exists_of_hasCases {decl : DefId} {args : List Ty}
    (hasCases : (Ty.named decl args).hasCases enums = true) :
    ∃ info, enums.find? decl = some info ∧ (info.variants.map (·.name)).Nodup := by
  obtain ⟨info, declared, distinct⟩ := (Option.any_eq_true _ _).mp hasCases
  exact ⟨info, declared, of_decide_eq_true distinct⟩

namespace Inhabits

theorem of_bool (inhabits : Inhabits world .bool value) : ∃ held, value = .bool held := by
  cases inhabits with
  | bool held => exact ⟨held, rfl⟩
  | scalar other => exact absurd rfl other.1
  | foreign isForeign => cases isForeign

theorem of_unit (inhabits : Inhabits world .unit value) : value = .unit := by
  cases inhabits with
  | unit => rfl
  | scalar other => exact absurd rfl other.2
  | foreign isForeign => cases isForeign

end Inhabits

end Keys

namespace Checker

variable {world : World} {before after : Checker} {expected : Ty} {span : Span}

section Constructors

variable {decl : DefId} {info : EnumInfo} {variant key : String} {args : List Pattern}
  {generics : List Ty}

/-- A variant is selected without a warning only if there is no doubt about it. -/
structure Unambiguous (info : EnumInfo) (variant : String) (arity : Nat) : Prop where
  unnamed : ∀ found others, info.variantsOfArity arity = found :: others → variant = "" →
    others = []
  named : ∀ found others, info.variantsOfArity arity = found :: others → variant ≠ "" →
    variant = found.name

theorem of_selectVariant {arity : Nat} {selected : Option Variant}
    (ran : Runs (selectVariant info variant arity span) before selected after) :
    after = before ∧ selected = (info.variantsOfArity arity).head? ∧
      Unambiguous info variant arity := by
  unfold selectVariant at ran
  rcases candidates : info.variantsOfArity arity with _ | ⟨found, others⟩
  · rw [candidates] at ran
    obtain ⟨rfl, rfl⟩ := runs_pure.mp ran
    exact ⟨rfl, rfl, by simp [candidates], by simp [candidates]⟩
  · rw [candidates] at ran
    dsimp only at ran
    split at ran
    · obtain ⟨_, _, reported, _⟩ := runs_bind.mp ran
      exact absurd reported not_runs_report
    · next agrees =>
        split at ran
        · obtain ⟨_, _, reported, _⟩ := runs_bind.mp ran
          exact absurd reported not_runs_report
        · next single =>
            obtain ⟨rfl, rfl⟩ := runs_pure.mp ran
            refine ⟨rfl, rfl, ?_, ?_⟩
            · rintro _ _ same rfl
              cases candidates.symm.trans same
              simpa using single
            · intro _ _ same named
              cases candidates.symm.trans same
              exact not_ne_iff.mp (not_and.mp agrees named)

theorem of_key (declared : enums.find? decl = some info)
    (unambiguous : Unambiguous info variant args.length)
    (keyed : Coverage.key? enums (.ctor decl variant args span) = some key) :
    args.all Pattern.isIrrefutable = true ∧
      ∃ found, (info.variantsOfArity args.length).head? = some found ∧ found.name = key ∧
        Pattern.variantName? enums decl variant args.length = some key := by
  have unnamed : Coverage.key?.unnamed info variant args = some key →
      ∃ found, (info.variantsOfArity args.length).head? = some found ∧ found.name = key ∧
        Pattern.variantName? enums decl variant args.length = some key := by
    unfold Coverage.key?.unnamed
    split
    · next isUnnamed =>
        intro chosen
        obtain ⟨found, first, named⟩ := Option.map_eq_some_iff.mp chosen
        refine ⟨found, first, named, ?_⟩
        rw [Pattern.variantName?, if_pos isUnnamed, declared, Option.bind_some, chosen]
    · nofun
  simp only [Coverage.key?, declared] at keyed
  split at keyed
  · next irrefutable =>
      refine ⟨irrefutable, ?_⟩
      rcases named : info.variant? variant with _ | found
      · rw [named] at keyed
        exact unnamed keyed
      · rw [named] at keyed
        dsimp only at keyed
        split at keyed
        · next sameArity =>
            cases keyed
            have isNamed : found.name = variant := by simpa using List.find?_some named
            have candidate : found ∈ info.variantsOfArity args.length :=
              List.mem_filter.mpr ⟨List.mem_of_find?_eq_some named, decide_eq_true sameArity⟩
            rcases candidates : info.variantsOfArity args.length with _ | ⟨first, others⟩
            · rw [candidates] at candidate
              cases candidate
            · refine ⟨first, rfl, ?_⟩
              by_cases isUnnamed : variant = ""
              · cases unambiguous.unnamed first others candidates isUnnamed
                rw [candidates] at candidate
                cases List.mem_singleton.mp candidate
                refine ⟨rfl, ?_⟩
                rw [Pattern.variantName?, if_pos isUnnamed, declared, Option.bind_some, candidates]
                rfl
              · rw [← unambiguous.named first others candidates isUnnamed, isNamed,
                  Pattern.variantName?, if_neg isUnnamed]
                exact ⟨rfl, rfl⟩
        · exact unnamed keyed
  · cases keyed

def checkVariant (info : EnumInfo) (variant : String) (args : List Pattern) (span : Span)
    (generics : List Ty) : CheckM Unit := do
  match ← selectVariant info variant args.length span with
  | none => checkUntyped args
  | some found => checkPatterns args (found.fields.map (·.substParams generics))

instance : Logs (checkVariant info variant args span generics) := by
  refine logs_bind fun found _ _ _ => ?_
  cases found <;> infer_instance

theorem Quietly.of_ctor (fits : Policy.any.FitsIn before expected)
    (quiet : Quietly world (checkPattern (.ctor decl variant args span) expected) before () after) :
    ∃ info, world.enums.find? decl = some info ∧ Unambiguous info variant args.length ∧
      ∀ found, (info.variantsOfArity args.length).head? = some found → ∃ generics start,
        FitAll .any start (found.fields.map (·.substParams generics)) ∧
        Quietly world (checkPatterns args (found.fields.map (·.substParams generics))) start ()
          after ∧
        expected.bindVars world.assignment =
          .named decl (generics.map (Ty.bindVars world.assignment)) := by
  have models := quiet.modelsBefore (keeps_checkPattern fits)
  have obeys := quiet.obeys
  rw [checkPattern] at quiet
  replace quiet := quiet.of_get
  rcases declared : before.enums.find? decl with _ | info
  · rw [declared] at quiet
    obtain ⟨_, _, reported, _⟩ := quiet.of_get.of_bind (fun _ _ _ _ => inferInstance) keeps_reads
    exact absurd reported not_runs_reportUnbound
  · rw [declared] at quiet
    have quiet : Quietly world (asking expected info.generics.length (.named decl) span
      (checkVariant info variant args span)) before () after := quiet
    obtain ⟨generics, taken, _, toTaken, ⟨_, fit⟩, quiet⟩ := quiet.of_bind
      (fun _ _ _ _ => inferInstance) (keeps_freshList _)
    have obeysTaken := quiet.obeys
    have fitsTaken := toTaken.fits fits
    have fitsNamed : Policy.any.FitsIn taken (.named decl generics) := Policy.admits_named decl fit
    obtain ⟨_, start, compared, toStart, _, quiet⟩ := quiet.of_bind
      (fun _ _ _ _ => inferInstance) (keeps_expect fitsTaken fitsNamed)
    obtain ⟨selected, chosen, ran, _, _, quiet⟩ := quiet.of_bind
      (fun found _ _ _ => by cases found <;> infer_instance) keeps_selectVariant
    obtain ⟨rfl, rfl, unambiguous⟩ := of_selectVariant ran
    refine ⟨info, models.enums ▸ declared, unambiguous, fun found first => ?_⟩
    rw [first] at quiet
    have ⟨selected, sameArity⟩ := List.mem_filter.mp (List.mem_of_head? first)
    have sameLength : args.length = (found.fields.map (·.substParams generics)).length := by
      rw [List.length_map, of_decide_eq_true sameArity]
    have fitArgs : FitAll .any chosen (found.fields.map (·.substParams generics)) := by
      intro ty member
      obtain ⟨field, fieldMember, rfl⟩ := List.mem_map.mp member
      have inInfo : field ∈ info.types := List.mem_flatMap_of_mem selected fieldMember
      exact ((toTaken.trans toStart).fits (obeys.enum declared field inInfo)).substParams
        (toStart.fitAll fit)
    refine ⟨generics, chosen, fitArgs, quiet, ?_⟩
    rw [← Ty.bindVars_named]
    exact (quiet.modelsBefore (keeps_checkPatterns sameLength fitArgs)).of_unify
      obeysTaken fitsTaken fitsNamed (runs_expect.mp compared)

variable {Scalar : Type} [DecidableEq Scalar] {reading : Reading Scalar} {value : Value Scalar}

theorem allIrrefutable_eq (patterns : List Pattern) :
    Pattern.allIrrefutable patterns = patterns.all Pattern.isIrrefutable := by
  induction patterns with
  | nil => rfl
  | cons pattern rest ih => rw [Pattern.allIrrefutable, List.all_cons, ih]

section Inhabited

variable (inhabits : Inhabits world (expected.bindVars world.assignment) value)
include inhabits

theorem accepts_ctor_iff (separate : world.Separate)
    (hasCases : (expected.bindVars world.assignment).hasCases world.enums = true)
    (distinct : Pattern.allDistinctLabels args = true)
    (fits : Policy.any.FitsIn before expected)
    (quiet : Quietly world (checkPattern (.ctor decl variant args span) expected) before () after)
    (keyed : Coverage.key? world.enums (.ctor decl variant args span) = some key) :
    (Pattern.ctor decl variant args span).accepts world.enums reading value = true ↔
      value.hasKey reading key := by
  obtain ⟨info, declared, unambiguous, selects⟩ := quiet.of_ctor fits
  obtain ⟨irrefutable, found, first, named, stands⟩ := of_key declared unambiguous keyed
  obtain ⟨generics, start, fit, quiet, same⟩ := selects found first
  rw [same] at hasCases inhabits
  obtain ⟨other, declared', distinctNames⟩ := Ty.exists_of_hasCases hasCases
  cases declared.symm.trans declared'
  obtain ⟨shape, member, values, rfl, each⟩ := inhabits.of_enum separate declared
  have ⟨foundMember, sameArity⟩ := List.mem_filter.mp (List.mem_of_head? first)
  rw [Pattern.accepts, stands, Value.hasKey]
  constructor
  · intro accepted
    simp only [Bool.and_eq_true, beq_iff_eq, Option.some.injEq] at accepted
    exact accepted.1.2.symm
  · intro isKey
    have sameVariant : shape = found :=
      List.inj_on_of_nodup_map distinctNames member foundMember (isKey.trans named.symm)
    subst sameVariant
    have inhabitAll : InhabitAll world (shape.fields.map (·.substParams generics)) values := by
      rw [InhabitAll, List.map_map]
      simpa only [Function.comp_def, World.bindVars_substParams] using each
    have accepted : Pattern.allAccept world.enums reading args values = true :=
      listAcceptsAll_of_isIrrefutable separate args ((allIrrefutable_eq args).trans irrefutable)
        distinct fit quiet (by simpa using (of_decide_eq_true sameArity).symm) inhabitAll
    simp [isKey, accepted]

theorem accepts_literal_iff {content : Literal} (fits : Policy.any.FitsIn before expected)
    (quiet : Quietly world (checkPattern (.literal content) expected) before () after)
    (keyed : Coverage.key? world.enums (.literal content) = some key) :
    (Pattern.literal content).accepts world.enums reading value = true ↔
      value.hasKey reading key := by
  rw [checkPattern] at quiet
  have same : expected.bindVars world.assignment = .prim content.kind.prim :=
    quiet.models.of_unify quiet.obeys fits (Policy.admits_prim _) (runs_expect.mp quiet.ran)
  rw [same] at inhabits
  cases kind : content.kind with
  | bool =>
    simp only [Coverage.key?, kind, Option.some.injEq] at keyed
    rw [kind] at inhabits
    obtain ⟨held, rfl⟩ := inhabits.of_bool
    simp [Pattern.accepts, Reading.accepts, Value.hasKey, kind, keyed]
  | unit =>
    rw [kind] at inhabits
    cases inhabits.of_unit
    simp [Pattern.accepts, Reading.accepts, Value.hasKey, kind]
  | _ => simp [Coverage.key?, kind] at keyed

/-- A pattern with a key, checked quietly against a type with cases, matches the values of that
key. -/
theorem accepts_iff_hasKey {pattern : Pattern} (separate : world.Separate)
    (hasCases : (expected.bindVars world.assignment).hasCases world.enums = true)
    (distinct : pattern.distinctLabels = true) (fits : Policy.any.FitsIn before expected)
    (quiet : Quietly world (checkPattern pattern expected) before () after)
    (keyed : Coverage.key? world.enums pattern = some key) :
    pattern.accepts world.enums reading value = true ↔ value.hasKey reading key := by
  cases pattern with
  | literal content => exact accepts_literal_iff inhabits fits quiet keyed
  | ctor decl variant args span =>
    rw [Pattern.distinctLabels] at distinct
    exact accepts_ctor_iff inhabits separate hasCases distinct fits quiet keyed
  | _ => cases keyed

end Inhabited

end Constructors

end Checker

section Arms

variable {Scalar : Type} [DecidableEq Scalar] {reading : Reading Scalar} {world : World} {ty : Ty}
  {early arms : List Arm} {arm : Arm} {coverage : Coverage} {value : Value Scalar}

/-- What the coverage of a match takes for granted about a pattern. -/
structure Pattern.Faithful (world : World) (reading : Reading Scalar) (ty : Ty)
    (pattern : Pattern) : Prop where
  all : pattern.isIrrefutable = true → ∀ value, Inhabits world ty value →
    pattern.accepts world.enums reading value = true
  keyed : ∀ key, Coverage.key? world.enums pattern = some key → ∀ value, Inhabits world ty value →
    (pattern.accepts world.enums reading value = true ↔ value.hasKey reading key)

/-- An arm without a guard matches the value. -/
def Arm.Settle (world : World) (reading : Reading Scalar) (arms : List Arm)
    (value : Value Scalar) : Prop :=
  ∃ arm ∈ arms, arm.guard.isMissing = true ∧ arm.pattern.accepts world.enums reading value = true

theorem Arm.Settle.append (settle : Arm.Settle world reading early value) (late : List Arm) :
    Arm.Settle world reading (early ++ late) value := by
  obtain ⟨arm, member, unguarded, accepts⟩ := settle
  exact ⟨arm, List.mem_append_left late member, unguarded, accepts⟩

theorem Arm.settle_concat (unguarded : arm.guard.isMissing = true)
    (accepts : arm.pattern.accepts world.enums reading value = true) :
    Arm.Settle world reading (early ++ [arm]) value :=
  ⟨arm, List.mem_concat_self, unguarded, accepts⟩

/-- Some arms, given by their positions in ascending order, match only what arms before them
settle. -/
structure Arm.Idle (world : World) (reading : Reading Scalar) (ty : Ty) (arms : List Arm)
    (positions : List Nat) : Prop where
  ascending : positions.Pairwise (· < ·)
  inside : ∀ position ∈ positions, position < arms.length
  settled : ∀ position ∈ positions, ∀ arm, arms[position]? = some arm → ∀ value,
    Inhabits world ty value → arm.pattern.accepts world.enums reading value = true →
    Arm.Settle world reading (arms.take position) value

namespace Arm.Idle

variable {positions : List Nat}

theorem append (idle : Arm.Idle world reading ty early positions) (late : List Arm) :
    Arm.Idle world reading ty (early ++ late) positions where
  ascending := idle.ascending
  inside position member := (idle.inside position member).trans_le (by simp)
  settled position member arm found := by
    have short := idle.inside position member
    rw [List.getElem?_append_left short] at found
    rw [List.take_append_of_le_length short.le]
    exact idle.settled position member arm found

theorem concat (idle : Arm.Idle world reading ty early positions)
    (settled : ∀ value, Inhabits world ty value →
      arm.pattern.accepts world.enums reading value = true →
      Arm.Settle world reading early value) :
    Arm.Idle world reading ty (early ++ [arm]) (positions ++ [early.length]) where
  ascending := by
    refine List.pairwise_append.mpr ⟨idle.ascending, List.pairwise_singleton _ _, ?_⟩
    intro position member last isLast
    cases List.mem_singleton.mp isLast
    exact idle.inside position member
  inside position member := by
    rcases List.mem_append.mp member with old | new
    · exact (idle.append [arm]).inside position old
    · cases List.mem_singleton.mp new
      simp
  settled position member other found := by
    rcases List.mem_append.mp member with old | new
    · exact (idle.append [arm]).settled position old other found
    · cases List.mem_singleton.mp new
      rw [List.getElem?_concat_length] at found
      cases found
      rw [List.take_left]
      exact settled

theorem not_taken {position : Nat} (idle : Arm.Idle world reading ty arms positions)
    (member : position ∈ positions) (guards : Nat → Bool) (inhabits : Inhabits world ty value) :
    Arm.taken? world.enums reading guards arms value ≠ some position := by
  intro taken
  obtain ⟨short, accepts, earlier⟩ := List.findIdx?_eq_some_iff_getElem.mp taken
  simp only [List.getElem_zipIdx, Nat.zero_add, Bool.and_eq_true] at accepts earlier
  rw [List.length_zipIdx] at short
  obtain ⟨arm, inTake, unguarded, matched⟩ := idle.settled position member arms[position]
    (List.getElem?_eq_getElem short) value inhabits accepts.1
  obtain ⟨index, inside, rfl⟩ := List.mem_iff_getElem.mp inTake
  rw [List.length_take] at inside
  rw [List.getElem_take] at unguarded matched
  exact earlier index (by omega) ⟨matched, by rw [unguarded, Bool.true_or]⟩

end Arm.Idle

/-- What a match covers is settled by its arms. -/
structure Coverage.Sound (world : World) (reading : Reading Scalar) (ty : Ty) (arms : List Arm)
    (coverage : Coverage) : Prop where
  catchAll : coverage.catchAll.isSome = true → ∀ value, Inhabits world ty value →
    Arm.Settle world reading arms value
  covered : ∀ key ∈ coverage.covered, ∀ value, Inhabits world ty value →
    value.hasKey reading key → Arm.Settle world reading arms value

namespace Coverage

theorem sound_empty : Sound world reading ty [] {} := ⟨nofun, nofun⟩

theorem Sound.append (sound : Sound world reading ty early coverage) (late : List Arm) :
    Sound world reading ty (early ++ late) coverage where
  catchAll found value inhabits := (sound.catchAll found value inhabits).append late
  covered key member value inhabits hasKey :=
    (sound.covered key member value inhabits hasKey).append late

theorem sound_addArm (sound : Sound world reading ty early coverage)
    (faithful : arm.pattern.Faithful world reading ty) :
    Sound world reading ty (early ++ [arm]) (addArm world.enums coverage arm) := by
  have later := sound.append [arm]
  unfold Coverage.addArm
  split
  · exact ⟨later.catchAll, later.covered⟩
  · split
    · exact later
    · next unguarded =>
        rw [not_not] at unguarded
        split
        · next irrefutable =>
            exact ⟨fun _ value inhabits =>
              Arm.settle_concat unguarded (faithful.all irrefutable value inhabits), later.covered⟩
        · split
          · exact later
          · next key keyed =>
              split
              · exact ⟨later.catchAll, later.covered⟩
              · refine ⟨later.catchAll, fun other member value inhabits hasKey => ?_⟩
                rcases List.mem_append.mp member with old | new
                · exact later.covered other old value inhabits hasKey
                · cases List.mem_singleton.mp new
                  exact Arm.settle_concat unguarded
                    ((faithful.keyed key keyed value inhabits).mpr hasKey)

/-- The pattern that is never reached. -/
def pattern : Unreachable → Pattern
  | .afterCatchAll pattern _ => pattern
  | .repeated pattern _ => pattern

theorem unreachable_addArm (sound : Sound world reading ty early coverage)
    (faithful : arm.pattern.Faithful world reading ty) :
    (addArm world.enums coverage arm).unreachable = coverage.unreachable ∨
      (∃ finding, (addArm world.enums coverage arm).unreachable =
        coverage.unreachable ++ [finding] ∧ pattern finding = arm.pattern) ∧
      ∀ value, Inhabits world ty value → arm.pattern.accepts world.enums reading value = true →
        Arm.Settle world reading early value := by
  unfold Coverage.addArm
  split
  · next catchAll found =>
      exact .inr ⟨⟨_, rfl, rfl⟩, fun value inhabits _ =>
        sound.catchAll (found ▸ rfl) value inhabits⟩
  · split
    · exact .inl rfl
    · split
      · exact .inl rfl
      · split
        · exact .inl rfl
        · next key keyed =>
            split
            · next covered =>
                refine .inr ⟨⟨_, rfl, rfl⟩, fun value inhabits accepts => ?_⟩
                exact sound.covered key (by simpa using covered) value inhabits
                  ((faithful.keyed key keyed value inhabits).mp accepts)
            · exact .inl rfl

theorem ofArms_concat (enums : Table DefId EnumInfo) (arms : List Arm) (arm : Arm) :
    ofArms enums (arms ++ [arm]) = addArm enums (ofArms enums arms) arm := List.foldl_concat ..

theorem sound_ofArms (faithful : ∀ arm ∈ arms, arm.pattern.Faithful world reading ty) :
    Sound world reading ty arms (ofArms world.enums arms) := by
  induction arms using List.reverseRecOn with
  | nil => exact sound_empty
  | append_singleton early arm ih =>
    rw [ofArms_concat]
    exact sound_addArm (ih fun other member => faithful other (List.mem_append_left _ member))
      (faithful arm List.mem_concat_self)

theorem exists_idle (faithful : ∀ arm ∈ arms, arm.pattern.Faithful world reading ty) :
    ∃ positions, Arm.Idle world reading ty arms positions ∧
      (ofArms world.enums arms).unreachable.map (some ∘ pattern) =
        positions.map fun position => arms[position]?.map Arm.pattern := by
  induction arms using List.reverseRecOn with
  | nil => exact ⟨[], ⟨.nil, nofun, nofun⟩, rfl⟩
  | append_singleton early arm ih =>
    have faithfulEarly : ∀ arm ∈ early, arm.pattern.Faithful world reading ty :=
      fun other member => faithful other (List.mem_append_left _ member)
    obtain ⟨positions, idle, patterns⟩ := ih faithfulEarly
    have patternsLater : positions.map (fun position => early[position]?.map Arm.pattern) =
        positions.map fun position => (early ++ [arm])[position]?.map Arm.pattern := by
      refine List.map_congr_left fun position member => ?_
      rw [List.getElem?_append_left (idle.inside position member)]
    rw [ofArms_concat]
    rcases unreachable_addArm (sound_ofArms faithfulEarly) (faithful arm List.mem_concat_self) with
      same | ⟨⟨finding, added, ofArm⟩, settled⟩
    · exact ⟨positions, idle.append [arm], by rw [same, patterns, patternsLater]⟩
    · refine ⟨positions ++ [early.length], idle.concat settled, ?_⟩
      rw [added, List.map_append, List.map_append, patterns, patternsLater]
      simp [ofArm]

theorem settle_of_missing {shape : Ty} (separate : world.Separate)
    (sound : Sound world reading (shape.bindVars world.assignment) arms coverage)
    (hasCases : shape.hasCases world.enums = true)
    (complete : missing world.enums coverage shape = [])
    (inhabits : Inhabits world (shape.bindVars world.assignment) value) :
    Arm.Settle world reading arms value := by
  unfold missing at complete
  cases shape with
  | prim kind =>
    cases kind with
    | bool =>
      obtain ⟨held, rfl⟩ := inhabits.of_bool
      simp only [List.filter_eq_nil_iff, List.mem_cons, List.not_mem_nil, or_false,
        forall_eq_or_imp, forall_eq, Bool.not_eq_true', Bool.not_eq_false,
        List.contains_eq_mem, decide_eq_true_eq] at complete
      cases held with
      | true => exact sound.covered _ complete.1 _ inhabits reading.bool_true
      | false => exact sound.covered _ complete.2 _ inhabits reading.bool_false
    | unit =>
      cases inhabits.of_unit
      simp only [List.filter_eq_nil_iff, List.mem_singleton, forall_eq, Bool.not_eq_true',
        Bool.not_eq_false, List.contains_eq_mem, decide_eq_true_eq] at complete
      exact sound.covered _ complete _ inhabits trivial
    | _ => cases complete
  | named decl args =>
    obtain ⟨info, declared, _⟩ := Ty.exists_of_hasCases hasCases
    simp only [declared, List.map_eq_nil_iff, List.filter_eq_nil_iff, Bool.not_eq_true',
      Bool.not_eq_false, List.contains_eq_mem, decide_eq_true_eq] at complete
    rw [Ty.bindVars_named] at inhabits sound
    obtain ⟨variant, member, values, rfl, _⟩ := inhabits.of_enum separate declared
    exact sound.covered _ (complete variant member) _ inhabits rfl
  | _ => cases hasCases

end Coverage

end Arms

end TraitCheck
