import TraitCheck.Proofs.Trait.AssocTypes

/-!
# Candidates for a self type

`Ty.Suits` says when a type matches a pattern: one of the two is open, or they can be compared and
each part of the pattern suits the part that it is compared with (`Ty.Compared`). Unification takes
apart no more than a match does, so where an instance of a pattern unifies with a type, the type
matches. And a type that is solved further has the same formers with fewer open parts, so it matches
no more patterns than before.
-/

namespace TraitCheck

variable {fields row : Row} {pair : Ty × Ty}

namespace Ty

variable {pattern ty : Ty} {found result : ParamMatch} {pairs : List (Ty × Ty)}

/-- A field of a record pattern is compared with the field of its label, if both have a type. -/
structure ComparedField (row : Row) (field : String × Ty) (pair : Ty × Ty) : Prop where
  pattern : pair.1 = field.2
  given : field.2.isAbsent = false
  finds : Row.find? field.1 row = some pair.2
  present : pair.2.isAbsent = false

/-- The parts of a pattern and the parts of a type that they have to match, for a pattern and a type
that are not open. -/
inductive Compared : Ty → Ty → List (Ty × Ty) → Prop
  | prim (kind : Prim) : Compared (prim kind) (prim kind) []
  | named {args args' : List Ty} (decl : DefId) (count : args.length = args'.length) :
      Compared (named decl args) (named decl args') (args.zip args')
  | fn {params params' : List Ty} {result result' : Ty} (count : params.length = params'.length) :
      Compared (fn params result) (fn params' result')
        ((params ++ [result]).zip (params' ++ [result']))
  | tuple {elems elems' : List Ty} (count : elems.length = elems'.length) :
      Compared (tuple elems) (tuple elems') (elems.zip elems')
  | record {fields row : Row} {pairs : List (Ty × Ty)} (count : fields.length = row.length)
      (each : List.Forall₂ (ComparedField row) fields pairs) :
      Compared (record fields) (record row) pairs

/-- A pattern suits a type if one of them is open or if it suits the type part by part. -/
inductive Suits : Ty → Ty → Prop
  | openPattern {pattern ty : Ty} (isOpen : pattern.isOpen = true) : Suits pattern ty
  | openType {pattern ty : Ty} (isOpen : ty.isOpen = true) : Suits pattern ty
  | parts {pattern ty : Ty} {pairs : List (Ty × Ty)} (compared : Compared pattern ty pairs)
      (each : ∀ pair ∈ pairs, Suits pair.1 pair.2) : Suits pattern ty

theorem matchRow_eq_ok_iff :
    matchRow fields row found = .ok result ↔
      ∃ pairs, List.Forall₂ (ComparedField row) fields pairs ∧
        matchList (pairs.map Prod.fst) (pairs.map Prod.snd) found = .ok result := by
  induction fields generalizing found with
  | nil =>
    simp [matchRow]
  | cons field fields ih =>
    rcases field with ⟨label, part⟩
    rw [matchRow]
    constructor
    · intro matched
      split at matched
      · cases matched
      · next given =>
          split at matched
          · cases matched
          · next ty has =>
              split at matched
              · cases matched
              · next present =>
                  split at matched
                  · next middle step =>
                      rcases ih.mp matched with ⟨pairs, each, rest⟩
                      refine ⟨(part, ty) :: pairs, .cons ?_ each, ?_⟩
                      · exact ⟨rfl, by simpa using given, has, by simpa using present⟩
                      · exact matchList_cons_eq_ok.mpr ⟨middle, step, rest⟩
                  · cases matched
    · rintro ⟨pairs, each, matched⟩
      rcases each with _ | ⟨⟨rfl, given, has, present⟩, each⟩
      rcases matchList_cons_eq_ok.mp matched with ⟨middle, step, rest⟩
      simp only [given, has, present, step]
      exact ih.mpr ⟨_, each, rest⟩

theorem matchList_unzip {patterns types : List Ty} (count : patterns.length = types.length) :
    matchList ((patterns.zip types).map Prod.fst) ((patterns.zip types).map Prod.snd) found =
      matchList patterns types found := by
  rw [List.map_fst_zip count.le, List.map_snd_zip count.ge]

theorem matchInto_fn_eq_ok {params params' : List Ty} {output output' : Ty} :
    matchInto (fn params output) (fn params' output') found = .ok result ↔
      params.length = params'.length ∧
        matchList (params ++ [output]) (params' ++ [output']) found = .ok result := by
  by_cases count : params.length = params'.length
  · simp only [matchInto, isOpen, Bool.false_eq_true, ↓reduceIte, count, true_and,
      matchList_append count]
    cases matchList params params' found <;> simp [matchList_cons_eq_ok]
  · simp [matchInto, isOpen, count]

theorem matchInto_eq_ok_iff (settledPattern : pattern.isOpen = false)
    (settled : ty.isOpen = false) :
    matchInto pattern ty found = .ok result ↔
      ∃ pairs, Compared pattern ty pairs ∧
        matchList (pairs.map Prod.fst) (pairs.map Prod.snd) found = .ok result := by
  constructor
  · intro matched
    cases pattern with
    | var id | param index name | unknown => cases settledPattern
    | prim kind =>
      cases ty <;> simp [matchInto, settled, ite_differs_eq_ok] at matched
      rcases matched with ⟨rfl, same⟩
      exact ⟨[], .prim kind, by simpa using same⟩
    | named decl args =>
      cases ty <;> simp [matchInto, settled, ite_differs_eq_ok] at matched
      rcases matched with ⟨⟨rfl, count⟩, inner⟩
      exact ⟨_, .named decl count, (matchList_unzip count).trans inner⟩
    | fn params output =>
      cases ty with
      | fn params' output' =>
        rcases matchInto_fn_eq_ok.mp matched with ⟨count, inner⟩
        exact ⟨_, .fn count, (matchList_unzip (by simp [count])).trans inner⟩
      | _ => simp [matchInto, settled] at matched
    | tuple elems =>
      cases ty <;> simp [matchInto, settled, ite_differs_eq_ok] at matched
      exact ⟨_, .tuple matched.1, (matchList_unzip matched.1).trans matched.2⟩
    | record fields =>
      cases ty <;> simp [matchInto, settled, ite_differs_eq_ok] at matched
      rcases matchRow_eq_ok_iff.mp matched.2 with ⟨pairs, each, rest⟩
      exact ⟨pairs, .record matched.1 each, rest⟩
    | _ => simp [matchInto, settled] at matched
  · rintro ⟨pairs, compared, matched⟩
    cases compared with
    | prim kind => simpa [matchInto, isOpen] using matched
    | named decl count | tuple count =>
      rw [matchList_unzip count] at matched
      simpa [matchInto, isOpen, count] using matched
    | fn count =>
      rw [matchList_unzip (by simp [count])] at matched
      exact matchInto_fn_eq_ok.mpr ⟨count, matched⟩
    | record count each =>
      simpa [matchInto, isOpen, count] using matchRow_eq_ok_iff.mpr ⟨_, each, matched⟩

theorem matchInto_openPattern (isOpen : pattern.isOpen = true) (ty : Ty) (found : ParamMatch) :
    ∃ result, matchInto pattern ty found = .ok result := by
  cases pattern <;> cases isOpen <;> exact ⟨_, by rw [matchInto]⟩

theorem matchInto_openType (pattern : Ty) (isOpen : ty.isOpen = true) (found : ParamMatch) :
    ∃ result, matchInto pattern ty found = .ok result := by
  cases pattern <;> simp [matchInto, isOpen]

theorem Compared.mem_parts (compared : Compared pattern ty pairs) (member : pair ∈ pairs) :
    pair.1 ∈ pattern.parts ∧ pair.2 ∈ ty.parts := by
  cases compared with
  | prim kind => cases member
  | named decl count | fn count | tuple count => exact List.of_mem_zip member
  | record count each =>
    rcases exists_partner each member with ⟨field, inFields, here⟩
    refine ⟨here.pattern ▸ List.mem_map_of_mem inFields, ?_⟩
    exact List.mem_map_of_mem (Row.mem_of_find? here.finds)

theorem forall₂_unzip {holds : Ty → Ty → Prop} (each : ∀ pair ∈ pairs, holds pair.1 pair.2) :
    List.Forall₂ holds (pairs.map Prod.fst) (pairs.map Prod.snd) := by
  rw [List.forall₂_map_left_iff, List.forall₂_map_right_iff, List.forall₂_same]
  exact each

theorem suits_of_matchInto (matched : matchInto pattern ty found = .ok result) :
    pattern.Suits ty := by
  induction pattern generalizing ty found result with
  | step pattern ih =>
    cases openPattern : pattern.isOpen with
    | true => exact .openPattern openPattern
    | false =>
      cases openType : ty.isOpen with
      | true => exact .openType openType
      | false =>
        rcases (matchInto_eq_ok_iff openPattern openType).mp matched with
          ⟨pairs, compared, inner⟩
        refine .parts compared fun pair member => ?_
        rcases List.mem_iff_getElem?.mp member with ⟨number, isAt⟩
        have isPattern : (pairs.map Prod.fst)[number]? = some pair.1 := by simp [isAt]
        have isType : (pairs.map Prod.snd)[number]? = some pair.2 := by simp [isAt]
        rcases exists_matchInto_of_matchList inner isPattern isType with
          ⟨before, after, step⟩
        exact ih pair.1 (compared.mem_parts member).1 step

theorem Suits.exists_matchInto (suits : pattern.Suits ty) (found : ParamMatch) :
    ∃ result, matchInto pattern ty found = .ok result := by
  induction suits generalizing found with
  | openPattern isOpen => exact matchInto_openPattern isOpen _ found
  | openType isOpen => exact matchInto_openType _ isOpen found
  | @parts pattern ty pairs compared _ ih =>
    rcases exists_matchList (forall₂_unzip ih) found with ⟨result, inner⟩
    refine ⟨result, (matchInto_eq_ok_iff ?_ ?_).mpr ⟨pairs, compared, inner⟩⟩ <;>
      cases compared <;> rfl

theorem isMatch?_iff_suits : pattern.isMatch? ty = some true ↔ pattern.Suits ty := by
  rw [isMatch?_eq_true]
  constructor
  · rintro ⟨result, matched⟩
    exact suits_of_matchInto matched
  · intro suits
    exact suits.exists_matchInto .empty

/-- Whether the labels of a record ascend. -/
def isOrderedFormer : Ty → Bool
  | .record fields => (Row.labels fields).Pairwise (· < ·)
  | _ => true

/-- Whether the labels of all records in a type ascend. -/
def isOrdered (ty : Ty) : Bool := ty.all isOrderedFormer

theorem compared_record (ordered : (record fields).isOrderedFormer = true)
    (same : Row.labels fields = Row.labels row) (whole : (record fields).lacksField = false)
    (whole' : (record row).lacksField = false) :
    Compared (record fields) (record row) ((Row.types fields).zip (Row.types row)) := by
  have count : fields.length = row.length := by simpa [Row.labels] using congrArg List.length same
  have distinct : (Row.labels row).Nodup :=
    same ▸ (of_decide_eq_true ordered).imp fun less => ne_of_lt less
  simp only [lacksField, List.any_eq_false, Bool.not_eq_true] at whole whole'
  refine .record count (List.forall₂_iff_get.mpr ⟨by simp [Row.types, count], ?_⟩)
  intro number inside inPairs
  have inRow : number < row.length := count ▸ inside
  have found := (Row.find?_of_labels_eq distinct same).get inside (by simpa [Row.types] using inRow)
  simp only [List.get_eq_getElem, Row.types, List.getElem_map, List.getElem_zip] at found ⊢
  exact ⟨rfl, whole _ (List.getElem_mem inside), found, whole' _ (List.getElem_mem inRow)⟩

theorem lacksField_of_bindLeaves {onVar : VarId → Ty} {onParam : Int → String → Ty}
    (whole : ((record fields).bindLeaves onVar onParam).lacksField = false) :
    (record fields).lacksField = false := by
  simp only [bindLeaves_record, lacksField, List.any_map, List.any_eq_false, Function.comp_apply,
    Bool.not_eq_true] at whole ⊢
  intro field member
  cases isAbsent : field.2 with
  | absent => simpa [isAbsent] using whole field member
  | _ => rfl

theorem compared_of_components {image : Int → String → Ty}
    (ordered : pattern.isOrderedFormer = true) (settled : pattern.isOpen = false)
    (decomposed : (pattern.bindParams image).components ty = .ok pairs) :
    Compared pattern ty (pattern.parts.zip ty.parts) := by
  rw [bindParams_eq_bindLeaves] at decomposed
  have same := (components_eq_ok decomposed).1
  cases pattern with
  | var id | param index name | unknown => cases settled
  | prim kind =>
    cases ty <;> simp [sameFormer] at same
    exact same ▸ .prim kind
  | named decl args =>
    cases ty <;> simp [sameFormer] at same
    exact same.1 ▸ .named decl same.2
  | fn params output =>
    cases ty <;> simp [sameFormer] at same
    exact .fn same
  | tuple elems =>
    cases ty <;> simp [sameFormer] at same
    exact .tuple same
  | record fields =>
    cases ty with
    | record row =>
      rw [bindLeaves_record, components] at decomposed
      split at decomposed
      · cases decomposed
      · next whole =>
          split at decomposed
          · cases decomposed
          · next labels =>
              simp only [Bool.or_eq_true, not_or, Bool.not_eq_true] at whole
              rw [labels_map, not_not] at labels
              rw [← bindLeaves_record] at whole
              exact compared_record ordered labels (lacksField_of_bindLeaves whole.1) whole.2
    | _ => simp [components] at decomposed
  | absent | scheme names body | foreign name => cases ty <;> simp [components] at decomposed

end Ty

namespace Subst

open Ty (var)

variable {subst after : Subst} {limit : Nat}

theorem exists_of_solveAll {solvePair : Subst → Ty → Ty → Outcome} {pairs : List (Ty × Ty)}
    (solved : solveAll solvePair subst pairs = (after, none)) (member : pair ∈ pairs) :
    ∃ start finish, solvePair start pair.1 pair.2 = (finish, none) := by
  induction pairs generalizing subst with
  | nil => cases member
  | cons first rest ih =>
    rcases solveAll_cons_eq_none solved with ⟨middle, here, later⟩
    rcases List.mem_cons.mp member with rfl | inRest
    · exact ⟨subst, middle, here⟩
    · exact ih later inRest

theorem components_of_unifyWithin {expected found : Ty}
    (settledExpected : expected.isOpen = false) (settledFound : found.isOpen = false)
    (unified : unifyWithin limit subst expected found = (after, none)) :
    ∃ limit' pairs, expected.components found = .ok pairs ∧
      solveAll (unifyWithin limit') subst pairs = (after, none) := by
  have same : ∀ {ty : Ty}, ty.isOpen = false → subst.shallow ty = ty := by
    intro ty settled
    rw [shallow, follow_of_noVar]
    rintro id rfl
    cases settled
  have sameExpected := same settledExpected
  have sameFound := same settledFound
  cases limit with
  | zero => cases unified
  | succ limit =>
    generalize outcome : unifyWithin (limit + 1) subst expected found = result at unified
    have step := outcome ▸ unifyStep limit expected found
    cases step with
    | left isVar =>
      rw [← sameExpected, isVar] at settledExpected
      cases settledExpected
    | right isVar =>
      rw [← sameFound, isVar] at settledFound
      cases settledFound
    | placeholder unknown =>
      rcases unknown with isUnknown | isUnknown
      · rw [← sameExpected, isUnknown] at settledExpected
        cases settledExpected
      · rw [← sameFound, isUnknown] at settledFound
        cases settledFound
    | descend _ _ decomposed =>
      rw [sameExpected, sameFound] at decomposed
      exact ⟨limit, _, decomposed, unified⟩
    | _ => cases unified

/-- A pattern suits every type that an instance of it unifies with. -/
theorem suits_of_unifyWithin {pattern ty : Ty} {image : Int → String → Ty}
    (ordered : pattern.isOrdered = true)
    (unified : unifyWithin limit subst (pattern.bindParams image) ty = (after, none)) :
    pattern.Suits ty := by
  induction pattern generalizing limit subst ty after with
  | step pattern ih =>
    cases openPattern : pattern.isOpen with
    | true => exact .openPattern openPattern
    | false =>
      cases openType : ty.isOpen with
      | true => exact .openType openType
      | false =>
        have settled : (pattern.bindParams image).isOpen = false := by
          rw [Ty.bindParams_eq_bindLeaves]
          cases pattern <;> simp [Ty.isOpen] at openPattern ⊢
        rcases components_of_unifyWithin settled openType unified with
          ⟨limit', pairs, decomposed, solved⟩
        have former := (Ty.all_iff.mp ordered).1
        have compared := Ty.compared_of_components former openPattern decomposed
        refine .parts compared fun pair member => ?_
        have noParam : ∀ index name, pattern ≠ .param index name := by
          rintro index name rfl
          cases openPattern
        have inPairs : (pair.1.bindParams image, pair.2) ∈ pairs := by
          rw [(Ty.components_eq_ok decomposed).2, Ty.parts_bindParams noParam,
            List.zip_map_left]
          exact List.mem_map_of_mem member
        rcases exists_of_solveAll solved inPairs with ⟨start, finish, step⟩
        have isPart := (compared.mem_parts member).1
        exact ih pair.1 isPart (Ty.all_of_part ordered isPart) step

/-- Matching rejects no type that an instance of the pattern unifies with. The arguments in the
place of the parameters may be any types, and bindings and types may be of any kind. -/
theorem isMatch?_of_unify {pattern inst ty : Ty} (ordered : pattern.isOrdered = true)
    {args : List Ty} (instantiated : pattern.substParams? args = some inst)
    (unified : (subst.unify inst ty).2 = none) : pattern.isMatch? ty = some true := by
  have isInstance : inst = pattern.substParams args := by
    unfold Ty.substParams? Ty.complete? at instantiated
    split at instantiated
    · next none =>
        rw [List.isEmpty_iff.mp none, Ty.substParams_nil]
        exact (Option.some.inj instantiated).symm
    · split at instantiated
      · exact (Option.some.inj instantiated).symm
      · cases instantiated
  rw [Ty.isMatch?_iff_suits]
  subst isInstance
  exact suits_of_unifyWithin ordered (Prod.ext rfl unified)

/-- The type matched holds a variable with a binding and one without. -/
theorem isMatch?_of_unify_record :
    (Ty.fn [.record [("a", .param 0 "T"), ("b", .list (.param 0 "T"))]] (.param 1 "U")).isOrdered =
        true ∧
      (Ty.fn [.record [("a", .param 0 "T"), ("b", .list (.param 0 "T"))]]
        (.param 1 "U")).substParams?
          [var 0, var 1] =
        some (.fn [.record [("a", var 0), ("b", .list (var 0))]] (var 1)) ∧
      ((empty.bind 2 (.list .int)).unify
        (.fn [.record [("a", var 0), ("b", .list (var 0))]] (var 1))
        (.fn [.record [("a", var 3), ("b", var 2)]] .bool)).2 = none ∧
      (Ty.fn [.record [("a", .param 0 "T"), ("b", .list (.param 0 "T"))]] (.param 1 "U")).isMatch?
        (.fn [.record [("a", var 3), ("b", var 2)]] .bool) = some true := by
  have ordered :
      (Ty.fn [.record [("a", .param 0 "T"), ("b", .list (.param 0 "T"))]]
        (.param 1 "U")).isOrdered = true := by
    decide
  have instantiated :
      (Ty.fn [.record [("a", .param 0 "T"), ("b", .list (.param 0 "T"))]]
        (.param 1 "U")).substParams?
          [var 0, var 1] =
        some (.fn [.record [("a", var 0), ("b", .list (var 0))]] (var 1)) := rfl
  have unified : ((empty.bind 2 (.list .int)).unify
      (.fn [.record [("a", var 0), ("b", .list (var 0))]] (var 1))
      (.fn [.record [("a", var 3), ("b", var 2)]] .bool)).2 = none := rfl
  exact ⟨ordered, instantiated, unified, isMatch?_of_unify ordered instantiated unified⟩

end Subst

namespace Ty

variable {pattern ty : Ty} {pairs : List (Ty × Ty)} {image : VarId → Ty}

theorem forall₂_of_mapTypes (present : (record row).isPresent = true)
    (each : List.Forall₂ (ComparedField (Row.mapTypes (bindVars image) row)) fields pairs) :
    ∃ pairs', List.Forall₂ (ComparedField row) fields pairs' ∧
      pairs = pairs'.map fun pair => (pair.1, pair.2.bindVars image) := by
  induction each with
  | nil => exact ⟨[], .nil, rfl⟩
  | @cons field pair fields pairs here _ ih =>
    rcases ih with ⟨pairs', rest, rfl⟩
    have finds := here.finds
    rw [Row.find?_mapTypes, Option.map_eq_some_iff] at finds
    rcases finds with ⟨before, has, becomes⟩
    have presentField := Present.field present (Row.mem_of_find? has)
    refine ⟨(pair.1, before) :: pairs', .cons ?_ rest, by simp [becomes]⟩
    exact ⟨here.pattern, here.given, has, Present.isAbsent presentField⟩

theorem zip_map_bindVars (patterns types : List Ty) :
    patterns.zip (types.map (bindVars image)) =
      (patterns.zip types).map fun pair => (pair.1, pair.2.bindVars image) := by
  rw [List.zip_map_right]
  rfl

/-- Putting in types for variables below the top does not change which parts are compared. -/
theorem Compared.of_bindVars (noVar : ∀ id, ty ≠ var id) (present : ty.isPresent = true)
    (compared : Compared pattern (ty.bindVars image) pairs) :
    ∃ pairs', Compared pattern ty pairs' ∧
      pairs = pairs'.map fun pair => (pair.1, pair.2.bindVars image) := by
  cases ty with
  | var id => exact absurd rfl (noVar id)
  | prim kind =>
    cases compared with
    | prim => exact ⟨[], .prim kind, rfl⟩
  | named decl args =>
    rw [bindVars_named] at compared
    cases compared with
    | named _ count => exact ⟨_, .named decl (by simpa using count), zip_map_bindVars _ args⟩
  | fn params result =>
    rw [bindVars_fn] at compared
    cases compared with
    | fn count =>
      refine ⟨_, .fn (by simpa using count), ?_⟩
      rw [← zip_map_bindVars, List.map_append, List.map_singleton]
  | tuple elems =>
    rw [bindVars_tuple] at compared
    cases compared with
    | tuple count => exact ⟨_, .tuple (by simpa using count), zip_map_bindVars _ elems⟩
  | record row =>
    rw [bindVars_record] at compared
    cases compared with
    | record count each =>
      rcases forall₂_of_mapTypes present each with ⟨pairs', each', same⟩
      exact ⟨pairs', .record (by simpa using count) each', same⟩
  | _ => cases compared

theorem isOpen_bindVars (noVar : ∀ id, ty ≠ var id) : (ty.bindVars image).isOpen = ty.isOpen := by
  cases ty with
  | var id => exact absurd rfl (noVar id)
  | _ => simp [isOpen]

theorem Suits.of_bindVars (present : ty.isPresent = true)
    (suits : pattern.Suits (ty.bindVars image)) : pattern.Suits ty := by
  induction pattern generalizing ty with
  | step pattern ih =>
    rcases ty.var_or_not with ⟨id, rfl⟩ | noVar
    · exact .openType rfl
    · cases suits with
      | openPattern isOpen => exact .openPattern isOpen
      | openType isOpen => exact .openType (isOpen_bindVars noVar ▸ isOpen)
      | parts compared each =>
        rcases compared.of_bindVars noVar present with ⟨pairs', compared', rfl⟩
        refine .parts compared' fun pair member => ?_
        rcases compared'.mem_parts member with ⟨isPart, isPart'⟩
        exact ih pair.1 isPart (all_of_part present isPart')
          (each _ (List.mem_map_of_mem member))

end Ty

namespace Registry

variable {registry : Registry} {self : Ty} {trait : Nat} {impl : Impl}

theorem find?_of_imp {impls : List Impl} {accepts accepts' : Impl → Bool}
    (ascending : impls.Pairwise fun first second => first.id < second.id)
    (imp : ∀ impl, accepts impl = true → accepts' impl = true)
    (first : impls.find? accepts = some impl) :
    ∃ earlier, impls.find? accepts' = some earlier ∧ earlier.id ≤ impl.id := by
  induction impls with
  | nil => cases first
  | cons head rest ih =>
    rcases List.pairwise_cons.mp ascending with ⟨least, ascendingRest⟩
    by_cases accepted : accepts' head = true
    · refine ⟨head, List.find?_cons_of_pos accepted, ?_⟩
      rcases List.mem_cons.mp (List.mem_of_find?_eq_some first) with rfl | inRest
      · exact le_refl _
      · exact (least impl inRest).le
    · rw [List.find?_cons_of_neg accepted]
      rw [List.find?_cons_of_neg (mt (imp head) accepted)] at first
      exact ih ascendingRest first

theorem isSome_matches? (completePattern : impl.implementer.isComplete = true)
    (complete : self.isComplete = true) : impl.matches? self ≠ none :=
  Option.ne_none_iff_isSome.mpr (Ty.isSome_isMatch? completePattern complete)

theorem Indexed.isSome_inherentImpls? (indexed : registry.Indexed)
    (complete : self.isComplete = true)
    (completes : ∀ impl ∈ registry.impls, impl.isInherent = true →
      impl.implementer.isComplete = true) :
    (registry.inherentImpls? self).isSome = true := by
  rw [indexed.inherentImpls?_eq_ite, if_neg]
  · rfl
  · intro isOpen
    rcases List.any_eq_true.mp isOpen with ⟨impl, member, here⟩
    rw [Bool.and_eq_true, Option.isNone_iff_eq_none] at here
    exact isSome_matches? (completes impl member here.1) complete here.2

theorem Indexed.isSome_findImpl? (indexed : registry.Indexed) (complete : self.isComplete = true)
    (completes : ∀ impl ∈ registry.impls, impl.isOf trait = true →
      impl.implementer.isComplete = true) :
    (registry.findImpl? self trait).isSome = true := by
  rcases indexed.findImpl?_cases self trait with ⟨found, _⟩ | ⟨_, stalls⟩
  · rw [found]
    rfl
  · obtain ⟨impl, listed, isOpen⟩ := stalls.exists_open
    obtain ⟨registered, isOf⟩ := List.mem_filter.mp listed
    exact absurd isOpen (isSome_matches? (completes impl registered isOf) complete)

section Solving

variable {ty solved : Ty} (fewer : ∀ pattern : Ty,
  pattern.isMatch? solved = some true → pattern.isMatch? ty = some true)

include fewer

theorem Indexed.sublist_inherentImpls? (indexed : registry.Indexed) {few many : List Impl}
    (searched : registry.inherentImpls? solved = some few)
    (searchedBefore : registry.inherentImpls? ty = some many) : few.Sublist many := by
  rw [indexed.inherentImpls?_eq_ite, Option.ite_none_left_eq_some] at searched searchedBefore
  rcases searched with ⟨_, ⟨⟩⟩
  rcases searchedBefore with ⟨_, ⟨⟩⟩
  refine List.monotone_filter_right _ fun impl candidate => ?_
  rw [Bool.and_eq_true, decide_eq_true_eq] at candidate ⊢
  exact ⟨candidate.1, fewer _ candidate.2⟩

theorem Indexed.findImpl?_no_later (indexed : registry.Indexed) {found? : Option Impl}
    (searched : registry.findImpl? solved trait = some (some impl))
    (searchedBefore : registry.findImpl? ty trait = some found?) :
    ∃ earlier, found? = some earlier ∧ earlier.id ≤ impl.id := by
  rcases indexed.findImpl?_cases solved trait with ⟨found, _⟩ | ⟨stopped, _⟩
  · rcases indexed.findImpl?_cases ty trait with ⟨foundBefore, _⟩ | ⟨stopped, _⟩
    · rw [found, Option.some.injEq] at searched
      rw [foundBefore, Option.some.injEq] at searchedBefore
      rw [← searchedBefore]
      refine find?_of_imp indexed.ascending (fun candidate accepted => ?_) searched
      rw [Bool.and_eq_true, decide_eq_true_eq] at accepted ⊢
      exact ⟨accepted.1, fewer _ accepted.2⟩
    · cases stopped.symm.trans searchedBefore
  · cases stopped.symm.trans searched

end Solving

/-- Candidates only become fewer when variables of a type are solved. What matches the solved type
has matched before, so inherent impls that remain were there before, and the first impl of a trait
was preceded by none that matches only now. The searches have an answer if no record in the self
types that they compare lacks the type of a field. -/
theorem candidates_shrink (requests : List Registration) {subst : Subst} (acyclic : subst.Acyclic)
    {ty solved : Ty} (present : ty.isPresent = true) (applied : subst.applied? ty = some solved) :
    let registry := ofAll requests
    (∀ pattern : Ty, pattern.isMatch? solved = some true → pattern.isMatch? ty = some true) ∧
    (∀ few many, registry.inherentImpls? solved = some few →
      registry.inherentImpls? ty = some many → few.Sublist many) ∧
    ((∀ impl ∈ registry.impls, impl.isInherent = true → impl.implementer.isComplete = true) →
      (registry.inherentImpls? solved).isSome = true ∧ (registry.inherentImpls? ty).isSome = true) ∧
    ∀ trait,
      (∀ impl found?, registry.findImpl? solved trait = some (some impl) →
        registry.findImpl? ty trait = some found? →
        ∃ earlier, found? = some earlier ∧ earlier.id ≤ impl.id) ∧
      ((∀ impl ∈ registry.impls, impl.isOf trait = true → impl.implementer.isComplete = true) →
        (registry.findImpl? solved trait).isSome = true ∧
          (registry.findImpl? ty trait).isSome = true) := by
  have indexed := (indexed_ofAll requests).1
  have complete := Ty.isComplete_of_isPresent present
  have completeSolved := acyclic.isComplete_of_applied? complete applied
  have fewer : ∀ pattern : Ty,
      pattern.isMatch? solved = some true → pattern.isMatch? ty = some true := by
    intro pattern matched
    rw [← (Subst.applied?_eq_some.mp applied).2, Ty.isMatch?_iff_suits] at matched
    exact Ty.isMatch?_iff_suits.mpr (matched.of_bindVars present)
  refine ⟨fewer, fun few many => indexed.sublist_inherentImpls? fewer, fun completes => ?_,
    fun trait => ⟨fun impl found? => indexed.findImpl?_no_later fewer, fun completes => ?_⟩⟩
  · exact ⟨indexed.isSome_inherentImpls? completeSolved completes,
      indexed.isSome_inherentImpls? complete completes⟩
  · exact ⟨indexed.isSome_findImpl? completeSolved completes,
      indexed.isSome_findImpl? complete completes⟩

/-- A trait with an impl for pairs of an integer and a record and one for all types, and such impls
without a trait. -/
def overlapping (field : Ty) : List Registration :=
  [.trait ⟨1⟩ "Show" [] [],
    .impl ⟨⟨2⟩, some ⟨1⟩, .tuple [.int, .record [("a", field)]], [], [], .empty⟩,
    .impl ⟨⟨3⟩, some ⟨1⟩, .param 0 "T", [], [], .empty⟩,
    .impl ⟨⟨4⟩, none, .tuple [.int, .record [("a", field)]], [], [], .empty⟩,
    .impl ⟨⟨5⟩, none, .param 0 "T", [], [], .empty⟩]

/-- What is learnt about the type rules out an integer, and with it the impls for pairs. -/
theorem candidates_shrink_pair :
    (Subst.empty.bind 0 .bool).Acyclic ∧
    (Ty.tuple [.var 0, .record [("a", .int)]]).isPresent = true ∧
    (Subst.empty.bind 0 .bool).applied? (.tuple [.var 0, .record [("a", .int)]]) =
      some (.tuple [.bool, .record [("a", .int)]]) ∧
    (∃ few many,
      (ofAll (overlapping (.param 0 "T"))).inherentImpls? (.tuple [.bool, .record [("a", .int)]]) =
        some few ∧
      (ofAll (overlapping (.param 0 "T"))).inherentImpls? (.tuple [.var 0, .record [("a", .int)]]) =
        some many ∧
      few.map (·.id) = [3] ∧ many.map (·.id) = [2, 3] ∧ few.Sublist many) ∧
    ∃ impl found?,
      (ofAll (overlapping (.param 0 "T"))).findImpl? (.tuple [.bool, .record [("a", .int)]]) 0 =
        some (some impl) ∧
      (ofAll (overlapping (.param 0 "T"))).findImpl? (.tuple [.var 0, .record [("a", .int)]]) 0 =
        some found? ∧
      impl.id = 1 ∧ ∃ earlier, found? = some earlier ∧ earlier.id ≤ impl.id := by
  have acyclic : (Subst.empty.bind 0 .bool).Acyclic := Subst.acyclic_empty.bind rfl (by decide)
  have present : (Ty.tuple [.var 0, .record [("a", .int)]]).isPresent = true := by decide
  have applied : (Subst.empty.bind 0 .bool).applied? (.tuple [.var 0, .record [("a", .int)]]) =
      some (.tuple [.bool, .record [("a", .int)]]) := rfl
  have searched := (indexed_ofAll (overlapping (.param 0 "T"))).1.inherentImpls?_eq
  have shrink := candidates_shrink (overlapping (.param 0 "T")) acyclic present applied
  refine ⟨acyclic, present, applied, ⟨_, _, searched _, searched _, rfl, rfl, ?_⟩,
    _, _, rfl, rfl, rfl, ?_⟩
  · exact shrink.2.1 _ _ (searched _) (searched _)
  · exact (shrink.2.2.2 0).1 _ _ rfl rfl

/-- A record without the type of a field is come to only as long as the type before it may still
match. Then the search has no answer, although it has one for the solved type. -/
theorem candidates_openField :
    (Subst.empty.bind 0 .bool).Acyclic ∧
    (Ty.tuple [.var 0, .record [("a", .int)]]).isPresent = true ∧
    (Subst.empty.bind 0 .bool).applied? (.tuple [.var 0, .record [("a", .int)]]) =
      some (.tuple [.bool, .record [("a", .int)]]) ∧
    ((ofAll (overlapping .absent)).inherentImpls? (.tuple [.bool, .record [("a", .int)]])).map
      (·.map (·.id)) = some [3] ∧
    ((ofAll (overlapping .absent)).inherentImpls? (.tuple [.var 0, .record [("a", .int)]])).isNone =
      true ∧
    ((ofAll (overlapping .absent)).findImpl? (.tuple [.bool, .record [("a", .int)]]) 0).map
      (·.map (·.id)) = some (some 1) ∧
    ((ofAll (overlapping .absent)).findImpl? (.tuple [.var 0, .record [("a", .int)]]) 0).isNone =
      true := by
  have searched := (indexed_ofAll (overlapping .absent)).1.inherentImpls?_eq
  rw [searched, searched]
  exact ⟨Subst.acyclic_empty.bind rfl (by decide), by decide, rfl, rfl, rfl, rfl, rfl⟩

end Registry

end TraitCheck
