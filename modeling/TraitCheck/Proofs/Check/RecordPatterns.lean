import TraitCheck.Proofs.Check.Constructions

/-!
# The fields of record patterns

A record pattern is checked against a type that is known to be a record or a struct, where the type
of each field is looked up, or else against a record that is made up for it. Then each entry has a
new variable, and of several entries with one label the row of these keeps the last one. So before
the type is known only the last entry with a label is tied to the field.
-/

namespace TraitCheck

namespace Checker

variable {α : Type} {before middle after start last : Checker} {fields : List (Field Pattern)}
  {span : Span} {expected ty : Ty} {find : String → CheckM (Option Ty)} {name : String}
    {settings : Settings}
  {items : List Item} {structs : Table DefId StructInfo}

/-- The type of a field of a record or struct. -/
def fieldOf? (structs : Table DefId StructInfo) (name : String) : Ty → Option Ty
  | .record row => Row.find? name row
  | .named decl args => do
    let info ← structs.find? decl
    let written ← info.field? name
    return written.substParams args
  | _ => none

/-- A type is in the end that of a field of another type. -/
def AtField (settings : Settings) (items : List Item) (structs : Table DefId StructInfo)
    (whole : Ty) (name : String) (ty : Ty) : Prop :=
  ∃ declared, fieldOf? structs name ((check settings (some items)).subst.apply whole) =
    some declared ∧ EndsEqual settings items declared ty

theorem acyclic_check (settings : Settings) (items : List Item) :
    (check settings (some items)).subst.Acyclic := by
  obtain ⟨obeys, ready⟩ := any_of_reached (.start : Reached settings items _ _)
  rw [subst_check]
  exact (obeys_finish obeys ready).acyclic

theorem atField_of_fieldOf? {whole : Ty} (found : fieldOf? structs name whole = some ty) :
    AtField settings items structs whole name ty := by
  have again := (Subst.Extends.refl _).apply_apply (acyclic_check settings items)
  cases whole with
  | record row =>
    refine ⟨(check settings (some items)).subst.apply ty, ?_, again ty⟩
    rw [Subst.apply, Ty.bindVars_record]
    change Row.find? name (Row.mapTypes _ row) = _
    rw [Row.find?_mapTypes, show Row.find? name row = some ty from found, Option.map_some]
    rfl
  | named decl args =>
    obtain ⟨info, declared, found⟩ := Option.bind_eq_some_iff.mp found
    obtain ⟨written, hasField, ⟨⟩⟩ := Option.bind_eq_some_iff.mp found
    refine ⟨written.substParams (args.map (check settings (some items)).subst.apply), ?_, ?_⟩
    · rw [Subst.apply_named]
      simp only [fieldOf?, declared, hasField, Option.bind_eq_bind, Option.bind_some,
        Option.pure_def]
    · refine Ty.bindVars_substParams_congr ?_ written
      rw [List.map_map]
      exact List.map_congr_left fun arg _ => again arg
  | _ => cases found

theorem find_cases (known : knownFields expected before = .ok (some find) after) (name : String) :
    (∃ fault, find name = throw fault) ∨ ∃ found, find name = pure found := by
  rcases (of_knownFields known).2 with ⟨row, _, rfl⟩ | ⟨decl, args, info, _, _, rfl⟩
  · unfold recordField?
    split
    · exact .inl ⟨_, rfl⟩
    · exact .inr ⟨_, rfl⟩
  · unfold structField?
    split
    · next written _ =>
        cases written.substParams? args with
        | none => exact .inl ⟨_, rfl⟩
        | some ty => exact .inr ⟨_, rfl⟩
    · exact .inr ⟨_, rfl⟩

theorem of_knownFields_none (ran : knownFields expected before = .ok none after) :
    after = before := by
  obtain ⟨reached, middle, looked, found⟩ := bind_eq_ok.mp ran
  cases (of_shallow looked).1
  split at found
  · cases found
  · obtain ⟨_, _, ⟨⟩, made⟩ := bind_eq_ok.mp found
    exact (EStateM.Result.ok.inj made).2.symm
  · cases found
    rfl

theorem fieldOf?_of_knownFields (known : knownFields expected before = .ok (some find) after)
    (ran : find name start = .ok (some ty) last) :
    fieldOf? before.structs name (before.subst.shallow expected) = some ty := by
  rcases (of_knownFields known).2 with ⟨row, shape, rfl⟩ | ⟨decl, args, info, shape, declared, rfl⟩
  · rw [shape]
    exact find?_of_recordField? ran
  · obtain ⟨written, hasField, rfl⟩ := field?_of_structField? ran
    rw [shape]
    simp only [fieldOf?, declared, hasField, Option.bind_eq_bind, Option.bind_some, Option.pure_def]

theorem errorCount_le (step : CheckM α) [∀ settings, Lockstep settings settings step] {result : α}
    (ran : step before = .ok result after) : before.log.errorCount ≤ after.log.errorCount := by
  have grown := log_finish step before
  rw [finish_of_ok ran] at grown
  rw [grown]
  generalize reported step before = diagnostics
  generalize before.log = log
  induction diagnostics generalizing log with
  | nil => exact le_rfl
  | cons diagnostic rest ih => exact (log.errorCount_le_add diagnostic).trans (ih _)

theorem runs_of_expect {found : Ty} (ran : expect expected found span before = .ok () after)
    (clean : after.log.errorCount ≤ before.log.errorCount) :
    Runs (expect expected found span) before () after := by
  obtain ⟨failure, compared, ranUnify, rest⟩ := bind_eq_ok.mp ran
  have quiet := (runs_of_quiet ranUnify).quiet
  cases failure with
  | none =>
    cases rest
    exact ⟨ran, quiet⟩
  | some error =>
    obtain ⟨diagnostic, composed, ranMismatch, rest⟩ := bind_eq_ok.mp rest
    cases rest
    have same := (runs_of_quiet ranMismatch).quiet
    have more := Log.errorCount_add composed.log (severity_of_mismatch ranMismatch)
    have kept : composed.log.errorCount = before.log.errorCount := by rw [same, quiet]
    change (composed.log.add diagnostic).errorCount ≤ _ at clean
    omega

theorem errorCount_reportUnknownField
    (ran : reportUnknownField span name expected before = .ok () after) :
    before.log.errorCount < after.log.errorCount := by
  obtain ⟨text, composed, ranText, rest⟩ := bind_eq_ok.mp ran
  cases rest
  rw [← (runs_of_quiet ranText).quiet]
  change _ < (composed.log.add _).errorCount
  rw [Log.errorCount_add _ rfl]
  exact Nat.lt_succ_self _

theorem checkFields_of_known (known : knownFields expected start = .ok (some find) start)
    (ran : checkKnownFields find expected fields before = .ok () last)
    (clean : last.log.errorCount ≤ before.log.errorCount) :
    ∃ types, List.Forall₂ (fun entry ty => find entry.name = pure (some ty)) fields types ∧
      checkFields fields types before = .ok () last := by
  have (settings : Settings) (name : String) : Lockstep settings settings (find name) := by
    rcases find_cases known name with ⟨fault, same⟩ | ⟨found, same⟩
    · rw [same]
      infer_instance
    · rw [same]
      infer_instance
  have (settings : Settings) (fields : List (Field Pattern)) :
      Lockstep settings settings (checkKnownFields find expected fields) :=
    lockstep_checkKnownFields find expected (this settings) fields
  induction fields generalizing before with
  | nil => exact ⟨[], .nil, ran⟩
  | cons entry rest ih =>
    obtain ⟨name, pattern, place⟩ := entry
    rw [checkKnownFields] at ran
    obtain ⟨found, looked, ranFind, ran⟩ := bind_eq_ok.mp ran
    rcases find_cases known name with ⟨fault, same⟩ | ⟨found', same⟩
    · rw [same] at ranFind
      cases ranFind
    rw [same] at ranFind
    cases ranFind
    cases found with
    | none =>
      obtain ⟨_, told, ranReport, ran⟩ := bind_eq_ok.mp ran
      have more := errorCount_reportUnknownField ranReport
      have kept := errorCount_le _ ran
      omega
    | some ty =>
      obtain ⟨_, middle, ranPattern, ranRest⟩ := bind_eq_ok.mp ran
      have early := errorCount_le _ ranPattern
      obtain ⟨types, found, ranFields⟩ := ih ranRest (clean.trans early)
      refine ⟨ty :: types, .cons same found, ?_⟩
      rw [checkFields]
      exact bind_eq_ok.mpr ⟨(), middle, ranPattern, ranFields⟩

/-- How a record pattern comes by the types of its sub-patterns, before these are checked. -/
inductive Opens (fields : List (Field Pattern)) (span : Span) (expected : Ty) (start : Checker) :
    List Ty → Checker → Prop
  | known {find : String → CheckM (Option Ty)} {types : List Ty}
      (known : knownFields expected start = .ok (some find) start)
      (found : List.Forall₂ (fun entry ty => find entry.name = pure (some ty)) fields types) :
      Opens fields span expected start types start
  | unsolved {middle : Checker} (unknown : knownFields expected start = .ok none start)
      (compared : Runs (expect expected
        (rowOf fields (nextVars start.supply.next fields.length)) span)
        { start with supply := ⟨start.supply.next + fields.length⟩ } () middle) :
      Opens fields span expected start (nextVars start.supply.next fields.length) middle

theorem opens_of_clean (ran : checkPattern (.record fields span) expected start = .ok () last)
    (clean : last.log.errorCount ≤ start.log.errorCount) :
    ∃ types middle, Opens fields span expected start types middle ∧
      checkFields fields types middle = .ok () last := by
  rw [checkPattern_record] at ran
  obtain ⟨known, opened, ranKnown, ran⟩ := bind_eq_ok.mp ran
  cases known with
  | some find =>
    cases (of_knownFields ranKnown).1
    obtain ⟨types, found, ranFields⟩ := checkFields_of_known ranKnown ran clean
    exact ⟨types, start, .known ranKnown found, ranFields⟩
  | none =>
    cases of_knownFields_none ranKnown
    obtain ⟨_, taken, ⟨⟩, ran⟩ := bind_eq_ok.mp ran
    obtain ⟨_, middle, ranExpect, ranFields⟩ := bind_eq_ok.mp ran
    have kept := errorCount_le _ ranFields
    have compared := runs_of_expect ranExpect (kept.trans clean)
    exact ⟨_, middle, .unsolved ranKnown compared, ranFields⟩

/-- Of the entries of a row, the last one with a label stays. -/
theorem fieldOf?_rowOf {types : List Ty} (sameLength : types.length = fields.length)
    {position : Nat} {entry : Field Pattern} (isEntry : fields[position]? = some entry)
    (isType : types[position]? = some ty)
    (isLast : entry.name ∉ (fields.drop (position + 1)).map (·.name))
    (structs : Table DefId StructInfo) :
    fieldOf? structs entry.name (rowOf fields types) = some ty := by
  have isPair : ((fields.map (·.name)).zip types)[position]? = some (entry.name, ty) := by
    simp [List.getElem?_zip_eq_some, isEntry, isType]
  have names : ((fields.map (·.name)).zip types).map Prod.fst = fields.map (·.name) :=
    List.map_fst_zip (by rw [List.length_map, sameLength])
  rw [List.map_drop, ← names, ← List.map_drop] at isLast
  obtain ⟨bound, same⟩ := List.getElem?_eq_some_iff.mp isPair
  change Row.find? entry.name (Row.insertAll ((fields.map (·.name)).zip types) []) = some ty
  rw [← List.take_append_drop position ((fields.map (·.name)).zip types),
    List.drop_eq_getElem_cons bound, same, Row.insertAll, List.foldl_append, List.foldl_cons]
  change Row.find? entry.name (Row.insertAll _ _) = _
  rw [Row.find?_insertAll_of_notMem _ isLast, Row.find?_insert, if_pos rfl]

theorem AtField.of_endsEqual {whole other : Ty}
    (atField : AtField settings items structs whole name ty)
    (same : EndsEqual settings items other whole) :
    AtField settings items structs other name ty := by
  rw [AtField, same]
  exact atField

theorem endsEqual_shallow {pattern : Pattern}
    (reached : Reached settings items (.pattern pattern expected) start)
    (ran : checkPattern pattern expected start = .ok () last) (ty : Ty) :
    EndsEqual settings items ty (start.subst.shallow ty) := by
  cases placed_of_reached reached with
  | collecting stage => cases stage
  | checking obeys fits _ =>
    have changes := (keeps_checkPattern fits).changes obeys ran
    have acyclic := (changes.obeys obeys).acyclic
    have later (ty : Ty) : (check settings (some items)).subst.apply (start.subst.apply ty) =
        (check settings (some items)).subst.apply ty := by
      rw [← apply_apply_of_reached reached ran, (changes.extends obeys).apply_apply acyclic,
        apply_apply_of_reached reached ran]
    rw [EndsEqual, ← later ty, ← obeys.acyclic.apply_shallow, later]

/-- A record pattern that is checked without an error checks its sub-patterns against the types of
their fields in the end. If the type was not known, this is so for the last entry with each label,
and every entry has a new variable of its own. -/
theorem record_pattern_at_fields
    (reached : Reached settings items (.pattern (.record fields span) expected) start)
    (ran : checkPattern (.record fields span) expected start = .ok () last)
    (clean : last.log.errorCount = start.log.errorCount) :
    ∃ types middle, Opens fields span expected start types middle ∧
      checkFields fields types middle = .ok () last ∧ types.length = fields.length ∧
      ∀ position entry ty, fields[position]? = some entry → types[position]? = some ty →
        (knownFields expected start = .ok none start →
          entry.name ∉ (fields.drop (position + 1)).map (·.name)) →
        AtField settings items start.structs expected entry.name ty := by
  obtain ⟨types, middle, opens, ranFields⟩ := opens_of_clean ran clean.le
  cases opens with
  | @known find _ known found =>
    refine ⟨types, start, .known known found, ranFields, found.length_eq.symm, ?_⟩
    intro position entry ty isEntry isType _
    obtain ⟨inFields, rfl⟩ := List.getElem?_eq_some_iff.mp isEntry
    obtain ⟨inTypes, rfl⟩ := List.getElem?_eq_some_iff.mp isType
    have looked : find fields[position].name = pure (some types[position]) :=
      found.get inFields inTypes
    exact (atField_of_fieldOf? (fieldOf?_of_knownFields known (congrFun looked start))).of_endsEqual
      (endsEqual_shallow reached ran expected)
  | unsolved unknown compared =>
    refine ⟨_, middle, .unsolved unknown compared, ranFields, length_nextVars _ _, ?_⟩
    intro position entry ty isEntry isType isLast
    have called : ⟨.expect expected (rowOf fields (nextVars start.supply.next fields.length)) span,
        { start with supply := ⟨start.supply.next + fields.length⟩ }⟩ ∈
        (Task.pattern (.record fields span) expected).walk.calls start :=
      Walk.mem_calls_after (show (Walk.step (knownFields expected)).run start = .ok none start from
        unknown) (Walk.mem_calls_after rfl mem_calls_call)
    have inRow := fieldOf?_rowOf (length_nextVars _ _) isEntry isType (isLast unknown) start.structs
    exact (atField_of_fieldOf? inRow).of_endsEqual
      (endsEqual_of_expect (.call reached called) compared)

/-- Returns what the first of two entries with one label binds, where nothing is known about the
matched value. -/
def splitItems : List Item :=
  [.function ⟨⟨1⟩, "first", .empty, [], [⟨⟨1⟩, "x", .unknown, .empty⟩], .prim .int,
    .matchOn (.localRef ⟨1⟩ .empty)
      [.mk (.record [⟨"a", .bind ⟨2⟩ "y" .empty, .empty⟩, ⟨"a", .bind ⟨3⟩ "_z" .empty, .empty⟩]
        .empty) .missing (.localRef ⟨2⟩ .empty) .empty] .empty⟩]

def Call.splitsLabel : Call → Bool
  | ⟨.pattern (.record [first, second] span) (.var id), start⟩ =>
    id = 0 && start.supply.next = 2 && first.name = "a" && second.name = "a" &&
      (match knownFields (.var 0) start with
        | .ok none _ => true
        | _ => false) &&
      match checkPattern (.record [first, second] span) (.var 0) start with
      | .ok _ last => last.log.errorCount = start.log.errorCount
      | _ => false
  | _ => false

theorem exists_splitsLabel : ∃ first second span start last,
    first.name = "a" ∧ second.name = "a" ∧ start.supply.next = 2 ∧
    Reached {} splitItems (.pattern (.record [first, second] span) (.var 0)) start ∧
    knownFields (.var 0) start = .ok none start ∧
    checkPattern (.record [first, second] span) (.var 0) start = .ok () last ∧
    last.log.errorCount = start.log.errorCount := by
  have found : (Call.follow ⟨.items splitItems, initial {}⟩ [2, 0, 0, 1, 0]).any
    Call.splitsLabel = true := by decide +kernel
  obtain ⟨call, followed, splits⟩ := (Option.any_eq_true _ _).mp found
  unfold Call.splitsLabel at splits
  split at splits
  · next first second span id start =>
      simp only [Bool.and_eq_true, decide_eq_true_eq] at splits
      obtain ⟨⟨⟨⟨⟨rfl, supply⟩, isA⟩, isA'⟩, unknown⟩, clean⟩ := splits
      split at unknown
      · next middle ranKnown =>
          cases of_knownFields_none ranKnown
          split at clean
          · next last ran =>
              exact ⟨first, second, span, start, last, isA, isA', supply, .follow .start followed,
                ranKnown, ran, of_decide_eq_true clean⟩
          · cases clean
      · cases unknown
  · cases splits

theorem record_pattern_at_fields_last : ∃ first second span start last types middle ty,
    first.name = "a" ∧ second.name = "a" ∧
    Reached {} splitItems (.pattern (.record [first, second] span) (.var 0)) start ∧
    checkPattern (.record [first, second] span) (.var 0) start = .ok () last ∧
    last.log.errorCount = start.log.errorCount ∧
    Opens [first, second] span (.var 0) start types middle ∧
    types[1]? = some ty ∧ AtField {} splitItems start.structs (.var 0) second.name ty := by
  obtain ⟨first, second, span, start, last, isA, isA', _, reached, _, ran, clean⟩ :=
    exists_splitsLabel
  obtain ⟨types, middle, opens, _, sameLength, atFields⟩ :=
    record_pattern_at_fields reached ran clean
  have isType := List.getElem?_eq_getElem (sameLength ▸ Nat.one_lt_two : 1 < types.length)
  exact ⟨first, second, span, start, last, types, middle, _, isA, isA', reached, ran, clean, opens,
    isType, atFields 1 second _ rfl isType fun _ => List.not_mem_nil⟩

theorem subst_splitItems : (check {} (some splitItems)).subst =
    ⟨⟨[(0, .record [("a", .var 3)]), (1, .var 2), (2, .prim .int)]⟩, ⟨[]⟩⟩ := by
  cbv

/-- The sub-pattern of the first of two entries is checked against a type that ends up as `Int`,
while the field ends up as a variable. -/
theorem record_pattern_splits_label : ∃ first second span start last types middle ty,
    first.name = "a" ∧ second.name = "a" ∧
    Reached {} splitItems (.pattern (.record [first, second] span) (.var 0)) start ∧
    checkPattern (.record [first, second] span) (.var 0) start = .ok () last ∧
    last.log.errorCount = start.log.errorCount ∧
    Opens [first, second] span (.var 0) start types middle ∧
    checkFields [first, second] types middle = .ok () last ∧
    types[0]? = some ty ∧ ¬AtField {} splitItems start.structs (.var 0) first.name ty := by
  obtain ⟨first, second, span, start, last, isA, isA', supply, reached, unknown, ran, clean⟩ :=
    exists_splitsLabel
  obtain ⟨types, middle, opens, ranFields⟩ := opens_of_clean ran clean.le
  have isType : types[0]? = some (.var 2) := by
    cases opens with
    | known known _ => cases unknown.symm.trans known
    | unsolved _ _ =>
      rw [supply]
      rfl
  refine ⟨first, second, span, start, last, types, middle, _, isA, isA', reached, ran, clean, opens,
    ranFields, isType, ?_⟩
  rintro ⟨declared, isField, same⟩
  rw [subst_splitItems, isA] at isField
  rw [EndsEqual, subst_splitItems] at same
  cases isField
  cases same

end Checker

end TraitCheck
