import TraitCheck.Proofs.Positions
import TraitCheck.Proofs.Presence

/-!
# Matching and instances

A match of a pattern against a type without open parts can be read off formers: the formers of the
pattern agree with those of the type, down to the parameters. Each occurrence of a parameter is
matched on its own. What matches is therefore an instance of the pattern with its parameters
replaced by position, and an instance proper only if the components at the positions of each
parameter are equal.
-/

namespace TraitCheck

variable {patterns : List Ty} {fields row : Row}

namespace Row

variable {fields row : Row}

theorem find?_of_labels_eq (distinct : (labels row).Nodup) (same : labels fields = labels row) :
    List.Forall₂ (fun field ty => find? field.1 row = some ty) fields (types row) := by
  have count : fields.length = row.length := by simpa [labels] using congrArg List.length same
  rw [List.forall₂_iff_get]
  refine ⟨by simpa [types] using count, fun number inside _ => ?_⟩
  have inRow : number < row.length := count ▸ inside
  have label : fields[number].1 = row[number].1 := by
    simpa [labels, inside, inRow] using congrArg (·[number]?) same
  simp only [List.get_eq_getElem, types, List.getElem_map, label]
  exact find?_of_mem distinct (List.getElem_mem inRow)

theorem labels_eq_of_subset (ordered : (labels fields).Pairwise (· < ·))
    (ordered' : (labels row).Pairwise (· < ·)) (count : fields.length = row.length)
    (subset : ∀ label ∈ labels fields, label ∈ labels row) : labels fields = labels row := by
  have distinct : (labels fields).Nodup := ordered.imp fun less => ne_of_lt less
  have perm : (labels fields).Perm (labels row) :=
    (List.subperm_of_subset distinct subset).perm_of_length_le (by simp [labels, count])
  exact perm.eq_of_pairwise (fun _ _ _ _ less greater => absurd greater (lt_asymm less)) ordered
    ordered'

end Row

namespace Ty

variable {pattern ty : Ty} {found result : ParamMatch} {admits : Int → Bool} {number : Nat}
  {types : List Ty}

/-- Whether a former is that of a settled type or an admitted parameter, its labels in order. -/
def isShapeFormer (admits : Int → Bool) : Ty → Bool
  | .prim _ | .named _ _ | .fn _ _ | .tuple _ => true
  | .record fields => (Row.labels fields).Pairwise (· < ·)
  | .param index _ => admits index
  | .absent | .var _ | .scheme _ _ | .unknown | .foreign _ => false

/-- Whether a type is built from primitives, declared types, functions, tuples, records and admitted
parameters. -/
def isShape (admits : Int → Bool) (ty : Ty) : Bool := ty.all (isShapeFormer admits)

/-- Whether a type is built from primitives, declared types, functions, tuples and records. -/
def isGround (ty : Ty) : Bool := ty.isShape fun _ => false

/-- Whether a former is no variable and no placeholder, with its labels in order. -/
def isFirmFormer : Ty → Bool
  | .var _ | .unknown => false
  | .record fields => (Row.labels fields).Pairwise (· < ·)
  | _ => true

/-- Whether nothing in a pattern but its parameters matches every type. -/
def isFirm (ty : Ty) : Bool := ty.all isFirmFormer

theorem isFirm_of_isShape (shape : ty.isShape admits = true) : ty.isFirm = true := by
  apply all_of_imp shape
  intro ty former
  cases ty <;> simp_all [isShapeFormer, isFirmFormer]

theorem isPresent_of_isShape (shape : ty.isShape admits = true) : ty.isPresent = true := by
  apply all_of_imp shape
  intro ty former
  cases ty <;> simp_all [isShapeFormer, isAbsent]

theorem isOpen_of_isGround (ground : ty.isGround = true) : ty.isOpen = false := by
  have former := (all_iff.mp ground).1
  cases ty <;> simp_all [isShapeFormer, isOpen]

theorem ite_differs_eq_ok {test : Prop} [Decidable test] {outcome : Except MatchFault ParamMatch} :
    (if test then outcome else .error .differs) = .ok result ↔ test ∧ outcome = .ok result := by
  split <;> simp_all

@[simp]
theorem matchList_nil (types : List Ty) (found : ParamMatch) :
    matchList [] types found = .ok found := by
  rw [matchList]
  rintro _ _ _ _ ⟨⟩

theorem matchList_cons_eq_ok : matchList (pattern :: patterns) (ty :: types) found = .ok result ↔
      ∃ middle, matchInto pattern ty found = .ok middle ∧
        matchList patterns types middle = .ok result := by
  rw [matchList]
  cases matchInto pattern ty found <;> simp

theorem matchList_append (count : patterns.length = types.length)
    (patterns' types' : List Ty) (found : ParamMatch) :
    matchList (patterns ++ patterns') (types ++ types') found =
      match matchList patterns types found with
      | .ok middle => matchList patterns' types' middle
      | .error fault => .error fault := by
  induction patterns generalizing types found with
  | nil =>
    cases List.length_eq_zero_iff.mp count.symm
    simp
  | cons pattern patterns ih =>
    rcases types with _ | ⟨ty, types⟩
    · cases count
    · simp only [List.cons_append, matchList]
      cases matchInto pattern ty found with
      | error fault => rfl
      | ok middle => exact ih (Nat.succ.inj count) middle

theorem mem_labels_of_matchRow (matched : matchRow fields row found = .ok result) :
    ∀ label ∈ Row.labels fields, label ∈ Row.labels row := by
  induction fields generalizing found with
  | nil => nofun
  | cons field fields ih =>
    rcases field with ⟨label, pattern⟩
    rw [matchRow] at matched
    split at matched
    · cases matched
    · split at matched
      · cases matched
      · next ty has =>
          split at matched
          · cases matched
          · split at matched
            · intro other member
              rcases List.mem_cons.mp member with rfl | inRest
              · exact List.mem_map_of_mem (Row.mem_of_find? has)
              · exact ih matched other inRest
            · cases matched

theorem matchRow_eq_ok
    (finds : List.Forall₂ (fun field ty => Row.find? field.1 row = some ty) fields types)
    (grounds : ∀ ty ∈ types, ty.isGround = true) :
    matchRow fields row found = .ok result ↔
      matchList (Row.types fields) types found = .ok result := by
  induction finds generalizing found with
  | nil => simp [matchRow, Row.types]
  | @cons field ty fields types here _ ih =>
    rcases field with ⟨label, pattern⟩
    rcases List.forall_mem_cons.mp grounds with ⟨ground, groundRest⟩
    have present : ty.isAbsent = false := Present.isAbsent (isPresent_of_isShape ground)
    have settled := isOpen_of_isGround ground
    simp only [Row.types, List.map_cons, matchList_cons_eq_ok, matchRow, here, present]
    cases pattern with
    | absent => simp [isAbsent, matchInto, settled]
    | _ =>
      simp only [isAbsent, Bool.false_eq_true, ↓reduceIte]
      cases matchInto _ ty found with
      | error fault => simp
      | ok middle => simpa [Row.types] using ih groundRest

theorem matchRow_iff_labels (ordered : (Row.labels fields).Pairwise (· < ·))
    (ordered' : (Row.labels row).Pairwise (· < ·))
    (grounds : ∀ ty ∈ Row.types row, ty.isGround = true) :
    fields.length = row.length ∧ matchRow fields row found = .ok result ↔
      Row.labels fields = Row.labels row ∧
        matchList (Row.types fields) (Row.types row) found = .ok result := by
  have distinct : (Row.labels row).Nodup := ordered'.imp fun less => ne_of_lt less
  constructor
  · rintro ⟨count, matched⟩
    have same := Row.labels_eq_of_subset ordered ordered' count (mem_labels_of_matchRow matched)
    exact ⟨same, (matchRow_eq_ok (Row.find?_of_labels_eq distinct same) grounds).mp matched⟩
  · rintro ⟨same, matched⟩
    refine ⟨by simpa [Row.labels] using congrArg List.length same, ?_⟩
    exact (matchRow_eq_ok (Row.find?_of_labels_eq distinct same) grounds).mpr matched

theorem matchInto_eq_ok (firm : pattern.isFirm = true)
    (noParam : ∀ index name, pattern ≠ param index name) (ground : ty.isGround = true) :
    matchInto pattern ty found = .ok result ↔
      pattern.sameFormer ty = true ∧ matchList pattern.parts ty.parts found = .ok result := by
  have settled := isOpen_of_isGround ground
  have firmFormer := (all_iff.mp firm).1
  rcases all_iff.mp ground with ⟨groundFormer, groundParts⟩
  -- Only functions, whose result comes after a list, and records, whose fields are looked up, are
  -- not compared by one call of `matchList`.
  cases pattern with
  | param index name => exact absurd rfl (noParam index name)
  | var id | unknown => cases firmFormer
  | fn params output =>
    cases ty with
    | fn params' output' =>
      by_cases count : params.length = params'.length
      · simp only [matchInto, settled, count, parts, sameFormer, matchList_append count]
        cases matchList params params' found <;> simp [matchList_cons_eq_ok]
      · simp [matchInto, settled, count, sameFormer]
    | _ => simp [matchInto, settled, sameFormer]
  | record fields =>
    cases ty with
    | record row =>
      simp only [matchInto, settled, Bool.false_eq_true, ↓reduceIte, ite_differs_eq_ok,
        sameFormer, decide_eq_true_eq]
      exact matchRow_iff_labels (of_decide_eq_true firmFormer) (of_decide_eq_true groundFormer)
        groundParts
    | _ => simp [matchInto, settled, sameFormer]
  | _ =>
    cases ty <;>
      simp_all [matchInto, sameFormer, parts, ite_differs_eq_ok, isShapeFormer]

/-- The part of a type at a position. -/
def component (ty : Ty) (path : List Nat) : Ty := (ty.at? path).getD absent

theorem component_cons {part : Ty} (isPart : ty.parts[number]? = some part) :
    (fun path => ty.component (number :: path)) = part.component := by
  funext path
  simp [component, at?_cons, isPart]

theorem exists_matchInto_of_matchList (matched : matchList patterns types found = .ok result)
    (isPattern : patterns[number]? = some pattern) (isType : types[number]? = some ty) :
    ∃ before after, matchInto pattern ty before = .ok after := by
  induction patterns generalizing types found number with
  | nil => simp at isPattern
  | cons first patterns ih =>
    rcases types with _ | ⟨firstType, types⟩
    · simp at isType
    · rcases matchList_cons_eq_ok.mp matched with ⟨middle, here, rest⟩
      cases number with
      | zero =>
        cases isPattern
        cases isType
        exact ⟨found, middle, here⟩
      | succ number => exact ih rest isPattern isType

/-- A ground type that matches is the pattern with the type's own components in the place of the
parameters. -/
theorem bindAt_component (firm : pattern.isFirm = true) (ground : ty.isGround = true)
    (matched : matchInto pattern ty found = .ok result) : pattern.bindAt ty.component = ty := by
  induction pattern generalizing ty found result with
  | step pattern ih =>
    rcases pattern.param_or_not with ⟨index, name, rfl⟩ | noParam
    · rfl
    · rcases (matchInto_eq_ok firm noParam ground).mp matched with ⟨same, inner⟩
      apply eq_of_sameFormer (sameFormer_of_common (sameFormer_bindAt noParam) same)
      rw [parts_bindAt noParam]
      apply List.ext_getElem
      · simpa using length_parts_of_sameFormer same
      · intro number inside inType
        have inPattern : number < pattern.parts.length := by simpa using inside
        have isPattern := List.getElem?_eq_getElem inPattern
        have isPart := List.getElem?_eq_getElem inType
        rcases exists_matchInto_of_matchList inner isPattern isPart with ⟨before, after, step⟩
        rw [List.getElem_mapIdx, component_cons isPart]
        exact ih _ (List.getElem_mem inPattern) (all_of_part firm (List.getElem_mem inPattern))
          (all_of_part ground (List.getElem_mem inType)) step

theorem exists_matchList (each : List.Forall₂
      (fun pattern ty => ∀ found, ∃ result, matchInto pattern ty found = .ok result) patterns types)
    (found : ParamMatch) : ∃ result, matchList patterns types found = .ok result := by
  induction each generalizing found with
  | nil => exact ⟨found, matchList_nil [] found⟩
  | cons here _ ih =>
    rcases here found with ⟨middle, step⟩
    rcases ih middle with ⟨result, rest⟩
    exact ⟨result, matchList_cons_eq_ok.mpr ⟨middle, step, rest⟩⟩

theorem exists_matchInto_bindAt {image : List Nat → Ty} (firm : pattern.isFirm = true)
    (ground : (pattern.bindAt image).isGround = true) (found : ParamMatch) :
    ∃ result, matchInto pattern (pattern.bindAt image) found = .ok result := by
  induction pattern generalizing image found with
  | step pattern ih =>
    rcases pattern.param_or_not with ⟨index, name, rfl⟩ | noParam
    · exact ⟨_, rfl⟩
    · have each : List.Forall₂
          (fun part ty => ∀ found, ∃ result, matchInto part ty found = .ok result)
          pattern.parts (pattern.bindAt image).parts := by
        rw [List.forall₂_iff_get, parts_bindAt noParam]
        refine ⟨by simp, fun number inside inside' before => ?_⟩
        simp only [List.get_eq_getElem, List.getElem_mapIdx]
        apply ih _ (List.getElem_mem inside) (all_of_part firm (List.getElem_mem inside))
        apply all_of_part ground
        rw [parts_bindAt noParam, List.mem_iff_getElem]
        exact ⟨number, inside', by simp⟩
      rcases exists_matchList each found with ⟨result, inner⟩
      exact ⟨result, (matchInto_eq_ok firm noParam ground).mpr ⟨sameFormer_bindAt noParam, inner⟩⟩

/-- What a match makes of the types found before. It keeps them, and for each parameter of the
pattern other than `Self` it records a component that stands at a position of the parameter. -/
structure Records (pattern ty : Ty) (found result : ParamMatch) : Prop where
  keeps : ∀ {index bound}, found.find? index = some bound → result.find? index = some bound
  records : ∀ {path index name}, pattern.at? path = some (param index name) → index ≠ -1 →
    ∃ bound, result.find? index = some bound
  origin : ∀ {index bound}, result.find? index = some bound → found.find? index = some bound ∨
    ∃ path name, pattern.at? path = some (param index name) ∧ ty.at? path = some bound

theorem records_param (index : Int) (name : String) (ty : Ty) (found : ParamMatch) :
    Records (param index name) ty found
      (if index = -1 ∨ found.contains index then found else found.insert index ty) := by
  by_cases known : index = -1 ∨ found.contains index
  · rw [if_pos known]
    refine ⟨id, fun stands proper => ?_, .inl⟩
    cases (at?_param_eq_some.mp stands).2
    exact Option.isSome_iff_exists.mp (known.resolve_left proper)
  · rw [if_neg known]
    have new : found.find? index = none := by
      simpa [Table.contains] using fun isFound => known (.inr isFound)
    refine ⟨fun {other bound} isFound => ?_, fun stands _ => ?_, fun {other bound} isFound => ?_⟩
    · have different : index ≠ other := by
        rintro rfl
        rw [new] at isFound
        cases isFound
      rw [Table.find?_insert, if_neg different, isFound]
    · cases (at?_param_eq_some.mp stands).2
      exact ⟨ty, by simp⟩
    · rw [Table.find?_insert] at isFound
      split at isFound
      · next same =>
          subst same
          exact .inr ⟨[], name, rfl, isFound⟩
      · exact .inl isFound

theorem Records.cons {middle : ParamMatch} (first : Records pattern ty found middle)
    (rest : Records (tuple patterns) (tuple types) middle result) :
    Records (tuple (pattern :: patterns)) (tuple (ty :: types)) found result where
  keeps isFound := rest.keeps (first.keeps isFound)
  records := by
    intro path index name stands proper
    rcases path with _ | ⟨_ | number, path⟩
    · simp at stands
    · rcases first.records stands proper with ⟨bound, isFound⟩
      exact ⟨bound, rest.keeps isFound⟩
    · have below : (tuple patterns).at? (number :: path) = some (param index name) := stands
      exact rest.records below proper
  origin := by
    intro index bound isFound
    rcases rest.origin isFound with early | ⟨path, name, stands, here⟩
    · rcases first.origin early with earlier | ⟨path, name, stands, here⟩
      · exact .inl earlier
      · exact .inr ⟨0 :: path, name, stands, here⟩
    · rcases path with _ | ⟨number, path⟩
      · simp at stands
      · exact .inr ⟨(number + 1) :: path, name, stands, here⟩

theorem Records.of_parts (noParam : ∀ index name, pattern ≠ param index name)
    (records : Records (tuple pattern.parts) (tuple ty.parts) found result) :
    Records pattern ty found result where
  keeps := records.keeps
  records := by
    intro path index name stands
    rcases path with _ | ⟨number, path⟩
    · exact absurd (Option.some.inj stands) (noParam index name)
    · have below : (tuple pattern.parts).at? (number :: path) = some (param index name) := stands
      exact records.records below
  origin := by
    intro index bound isFound
    rcases records.origin isFound with early | ⟨path, name, stands, here⟩
    · exact .inl early
    · rcases path with _ | ⟨number, path⟩
      · simp at stands
      · exact .inr ⟨number :: path, name, stands, here⟩

theorem records_matchList (each : ∀ pattern ∈ patterns, ∀ ty ∈ types, ∀ found result,
      matchInto pattern ty found = .ok result → Records pattern ty found result)
    (count : patterns.length = types.length)
    (matched : matchList patterns types found = .ok result) :
    Records (tuple patterns) (tuple types) found result := by
  induction patterns generalizing types found with
  | nil =>
    cases List.length_eq_zero_iff.mp count.symm
    rw [matchList_nil] at matched
    cases matched
    refine ⟨id, fun {path index name} stands => ?_, .inl⟩
    cases path <;> simp [at?_cons, parts] at stands
  | cons pattern patterns ih =>
    rcases types with _ | ⟨ty, types⟩
    · cases count
    · rcases matchList_cons_eq_ok.mp matched with ⟨middle, here, rest⟩
      have first := each pattern List.mem_cons_self ty List.mem_cons_self found middle here
      apply first.cons
      apply ih _ (Nat.succ.inj count) rest
      intro other member otherType memberType
      exact each other (List.mem_cons_of_mem _ member) otherType
        (List.mem_cons_of_mem _ memberType)

theorem records_matchInto (firm : pattern.isFirm = true) (ground : ty.isGround = true)
    (matched : matchInto pattern ty found = .ok result) : Records pattern ty found result := by
  induction pattern generalizing ty found result with
  | step pattern ih =>
    rcases pattern.param_or_not with ⟨index, name, rfl⟩ | noParam
    · cases matched
      exact records_param index name ty found
    · rcases (matchInto_eq_ok firm noParam ground).mp matched with ⟨same, inner⟩
      apply Records.of_parts noParam
      apply records_matchList _ (length_parts_of_sameFormer same) inner
      intro part member partTy memberTy before after step
      exact ih part member (all_of_part firm member) (all_of_part ground memberTy) step

theorem isMatch?_eq_true :
    pattern.isMatch? ty = some true ↔ ∃ result, matchInto pattern ty .empty = .ok result := by
  unfold isMatch? matchWith
  split <;> simp_all

theorem isMatch?_iff_bindAt (firm : pattern.isFirm = true) (ground : ty.isGround = true) :
    pattern.isMatch? ty = some true ↔ ∃ image : List Nat → Ty, pattern.bindAt image = ty := by
  rw [isMatch?_eq_true]
  constructor
  · rintro ⟨result, matched⟩
    exact ⟨ty.component, bindAt_component firm ground matched⟩
  · rintro ⟨image, rfl⟩
    exact exists_matchInto_bindAt firm ground .empty

/-- Equal parameters stand for equal parts. -/
def Consistent (pattern ty : Ty) : Prop :=
  ∀ path path' index name name', pattern.at? path = some (param index name) →
    pattern.at? path' = some (param index name') → ty.at? path = ty.at? path'

theorem consistent_of_nodup (distinct : pattern.paramIndexes.Nodup) : Consistent pattern ty := by
  intro path path' index name name' stands stands'
  rw [path_unique distinct stands stands']

theorem exists_bindAt_eq (pattern : Ty) (image : Int → Ty) :
    ∃ placed : List Nat → Ty,
      pattern.bindAt placed = pattern.bindParams (fun index _ => image index) ∧
      ∀ path index name, pattern.at? path = some (param index name) →
        placed path = image index := by
  have agree : ∀ path index name, pattern.at? path = some (param index name) →
      ((pattern.at? path).bind param?).elim absent image = image index := by
    intro path index name stands
    rw [stands]
    rfl
  exact ⟨_, bindAt_eq_bindParams agree, agree⟩

/-- What matches is an instance if the components for each parameter are equal. -/
theorem exists_bindParams_iff (firm : pattern.isFirm = true) (ground : ty.isGround = true) :
    (∃ image : Int → Ty, pattern.bindParams (fun index _ => image index) = ty) ↔
      pattern.isMatch? ty = some true ∧ Consistent pattern ty := by
  constructor
  · rintro ⟨image, rfl⟩
    rcases exists_bindAt_eq pattern image with ⟨placed, same, agree⟩
    refine ⟨(isMatch?_iff_bindAt firm ground).mpr ⟨placed, same⟩, ?_⟩
    intro path path' index name name' stands stands'
    rw [← same, at?_bindAt stands, at?_bindAt stands', agree path index name stands,
      agree path' index name' stands']
  · rintro ⟨matched, consistent⟩
    -- Any position of a parameter will do, as the components at all of them are equal.
    have chosen : ∀ index, ∃ bound, ∀ path name, pattern.at? path = some (param index name) →
        ty.component path = bound := by
      intro index
      by_cases occurs : ∃ path name, pattern.at? path = some (param index name)
      · rcases occurs with ⟨path, name, stands⟩
        refine ⟨ty.component path, fun path' name' stands' => ?_⟩
        rw [component, component, consistent _ _ _ _ _ stands' stands]
      · exact ⟨absent, fun path name stands => absurd ⟨path, name, stands⟩ occurs⟩
    choose image agree using chosen
    rcases isMatch?_eq_true.mp matched with ⟨result, steps⟩
    refine ⟨image, ?_⟩
    rw [← bindAt_eq_bindParams fun path index name => agree index path name]
    exact bindAt_component firm ground steps

/-- A ground type matches a pattern if and only if it is an instance of it by position, and it is an
instance proper if and only if it matches and the components for each parameter are equal. Patterns
without repeated parameters are matched by their instances only. -/
theorem matches_iff_instance (shape : pattern.isShape (0 ≤ ·) = true)
    (ground : ty.isGround = true) :
    (pattern.isMatch? ty = some true ↔ ∃ image : List Nat → Ty, pattern.bindAt image = ty) ∧
    ((∃ image : Int → Ty, pattern.bindParams (fun index _ => image index) = ty) ↔
      pattern.isMatch? ty = some true ∧ Consistent pattern ty) ∧
    (pattern.paramIndexes.Nodup → (pattern.isMatch? ty = some true ↔
      ∃ image : Int → Ty, pattern.bindParams (fun index _ => image index) = ty)) ∧
    (pattern.isMatch? ty ≠ some true → pattern.isMatch? ty = some false) := by
  have firm := isFirm_of_isShape shape
  refine ⟨isMatch?_iff_bindAt firm ground, exists_bindParams_iff firm ground, fun distinct => ?_,
    fun differs => ?_⟩
  · rw [exists_bindParams_iff firm ground]
    exact (and_iff_left (consistent_of_nodup distinct)).symm
  · have answers := Present.isMatch? (isPresent_of_isShape shape) (isPresent_of_isShape ground)
    rcases Option.isSome_iff_exists.mp answers with ⟨_ | _, answer⟩
    · exact answer
    · exact absurd answer differs

theorem matches_iff_instance_record :
    (fn [record [("a", param 1 "U"), ("b", list (param 0 "T"))]] int).isShape (0 ≤ ·) = true ∧
    (fn [record [("a", bool), ("b", list int)]] int).isGround = true ∧
    (fn [record [("a", param 1 "U"), ("b", list (param 0 "T"))]] int).isMatch?
      (fn [record [("a", bool), ("b", list int)]] int) = some true ∧
    ∃ image : Int → Ty,
      (fn [record [("a", param 1 "U"), ("b", list (param 0 "T"))]] int).bindParams
          (fun index _ => image index) =
        fn [record [("a", bool), ("b", list int)]] int := by
  have shape :
      (fn [record [("a", param 1 "U"), ("b", list (param 0 "T"))]] int).isShape (0 ≤ ·) = true := by
    decide
  have ground : (fn [record [("a", bool), ("b", list int)]] int).isGround = true := by decide
  exact ⟨shape, ground, rfl, ((matches_iff_instance shape ground).2.2.1 (by decide)).mp rfl⟩

/-- The first match of a repeated parameter does not bind the others: a pair of different types
matches a pair of equal parameters. -/
theorem matches_repeatedParam :
    (tuple [param 0 "T", param 0 "T"]).isShape (0 ≤ ·) = true ∧
    (tuple [int, bool]).isGround = true ∧
    (tuple [param 0 "T", param 0 "T"]).isMatch? (tuple [int, bool]) = some true ∧
    ¬∃ image : Int → Ty,
      (tuple [param 0 "T", param 0 "T"]).bindParams (fun index _ => image index) =
        tuple [int, bool] := by
  refine ⟨by decide, by decide, rfl, ?_⟩
  rintro ⟨image, same⟩
  have pair : tuple [image 0, image 0] = tuple [int, bool] := same
  simp only [tuple.injEq, List.cons.injEq] at pair
  have clash : int = bool := pair.1.symm.trans pair.2.1
  cases clash

end Ty

end TraitCheck
