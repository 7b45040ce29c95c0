import TraitCheck.Proofs.Check.Invariant
import TraitCheck.Proofs.Check.Parallel
import TraitCheck.Proofs.Matching.Values

/-!
# Patterns that match everything

A pattern whose check reports nothing has the type that it was checked against, so an irrefutable
one matches every value of that type. The proof follows the check: what a pattern asks of its type
is what it finds in the value, once variables are assigned types that agree with all bindings.
-/

namespace TraitCheck

variable {find : String → CheckM (Option Ty)} {ty expected : Ty}

namespace Pattern

mutual

/-- No record pattern repeats a label. -/
def distinctLabels : Pattern → Bool
  | .tuple elems _ | .list elems _ | .ctor _ _ elems _ => allDistinctLabels elems
  | .record fields _ => decide (fields.map (·.name)).Nodup && fieldsDistinctLabels fields
  | .missing | .wildcard _ | .bind _ _ _ | .literal _ | .foreign _ _ => true

def allDistinctLabels : List Pattern → Bool
  | [] => true
  | pattern :: rest => distinctLabels pattern && allDistinctLabels rest

def fieldsDistinctLabels : List (Field Pattern) → Bool
  | [] => true
  | ⟨_, pattern, _⟩ :: rest => distinctLabels pattern && fieldsDistinctLabels rest

end

end Pattern

namespace Checker

variable {α : Type} {step : CheckM α} {before after : Checker}

theorem not_runs_reportUnbound {span : Span} {what : String} :
    ¬Runs (reportUnbound span what) before () after := by
  intro ran
  exact not_runs_report ran

theorem not_runs_reportUnknownField {span : Span} {name : String} :
    ¬Runs (reportUnknownField span name ty) before () after := by
  intro ran
  obtain ⟨_, _, _, reported⟩ := ran.of_bind fun _ _ _ _ => inferInstance
  exact not_runs_report reported

theorem of_shallow {reached : Ty} (ran : shallow ty before = .ok reached after) :
    after = before ∧ before.subst.shallow ty = reached := by
  obtain ⟨_, _, ⟨⟩, ran⟩ := bind_eq_ok.mp ran
  rcases found : before.subst.shallow? ty with _ | other
  · rw [found] at ran
    cases ran
  · rw [found] at ran
    cases ran
    exact ⟨rfl, Subst.shallow?_eq_some found⟩

theorem find?_of_recordField? {row : Row} {name : String}
    (ran : recordField? row name before = .ok (some ty) after) : Row.find? name row = some ty := by
  unfold recordField? at ran
  generalize Row.find? name row = found at ran ⊢
  split at ran
  · cases ran
  · cases ran
    rfl

theorem field?_of_structField? {info : StructInfo} {args : List Ty} {name : String}
    (ran : structField? info args name before = .ok (some ty) after) :
    ∃ written, info.field? name = some written ∧ ty = written.substParams args := by
  unfold structField? at ran
  rcases found : info.field? name with _ | written
  · rw [found] at ran
    cases ran
  · rw [found] at ran
    obtain ⟨result, _, complete, ⟨⟩⟩ := bind_eq_ok.mp ran
    rcases replaced : written.substParams? args with _ | other
    · rw [replaced] at complete
      cases complete
    · rw [replaced] at complete
      cases complete
      exact ⟨written, rfl, Ty.substParams?_eq_some replaced⟩

theorem of_knownFields (ran : knownFields expected before = .ok (some find) after) :
    after = before ∧
      ((∃ row, before.subst.shallow expected = .record row ∧ find = recordField? row) ∨
        ∃ decl args info, before.subst.shallow expected = .named decl args ∧
          before.structs.find? decl = some info ∧ find = structField? info args) := by
  obtain ⟨reached, middle, looked, found⟩ := bind_eq_ok.mp ran
  obtain ⟨rfl, known⟩ := of_shallow looked
  split at found
  · cases found
    exact ⟨rfl, .inl ⟨_, known, rfl⟩⟩
  · next decl args =>
      obtain ⟨_, _, ⟨⟩, made⟩ := bind_eq_ok.mp found
      rcases declared : middle.structs.find? decl with _ | info
      · rw [declared] at made
        cases made
      · rw [declared] at made
        cases made
        exact ⟨rfl, .inr ⟨decl, args, info, known, declared, rfl⟩⟩
  · cases found

instance : Logs (knownFields expected) :=
  logs_bind fun reached _ _ _ => by split <;> infer_instance

theorem logs_of_knownFields (ran : knownFields expected before = .ok (some find) after)
    (name : String) : Logs (find name) := by
  rcases (of_knownFields ran).2 with ⟨row, _, rfl⟩ | ⟨decl, args, info, _, _, rfl⟩
  · infer_instance
  · infer_instance

theorem logs_checkKnownFields (find : String → CheckM (Option Ty)) (expected : Ty)
    (logs : ∀ name, Logs (find name)) (fields : List (Field Pattern)) :
    Logs (checkKnownFields find expected fields) := by
  induction fields with
  | nil =>
    rw [checkKnownFields]
    infer_instance
  | cons field rest ih =>
    rw [checkKnownFields]
    refine logs_bind fun found _ _ _ => ?_
    cases found <;> infer_instance

/-- A state has the declarations of a world, and its bindings agree with the assignment. -/
structure Models (world : World) (checker : Checker) : Prop where
  structs : checker.structs = world.structs
  enums : checker.enums = world.enums
  satisfies : Subst.Satisfies world.assignment checker.subst

variable {world : World} {expected found : Ty}

theorem Models.earlier {policy : Policy} (models : Models world after)
    (changes : Changes policy false before after) (obeys : before.Obeys policy) :
    Models world before := by
  have same := changes.sameDeclarations
  exact ⟨same.structs.symm.trans models.structs, same.enums.symm.trans models.enums,
    (changes.extends obeys).satisfies models.satisfies⟩

theorem Models.of_unify (models : Models world after) (obeys : before.Obeys .any)
    (fitsExpected : Policy.any.FitsIn before expected) (fitsFound : Policy.any.FitsIn before found)
    (compared : Runs (unify expected found) before none after) :
    expected.bindVars world.assignment = found.bindVars world.assignment := by
  obtain ⟨succeeds, trace, rfl⟩ := compared.of_unify
  have agree := Subst.unify_apply_eq obeys.acyclic
    (fun _ _ bound => (obeys.bound bound rfl).2.isKnown) fitsExpected.isKnown fitsFound.isKnown
    (Prod.ext rfl succeeds.symm)
  rw [← models.satisfies.bindVars_apply expected, ← models.satisfies.bindVars_apply found]
  exact congrArg _ agree

/-- A step runs quietly and ends in a state that agrees with a world. -/
structure Quietly (world : World) (step : CheckM α) (before : Checker) (value : α)
    (after : Checker) : Prop where
  obeys : before.Obeys .any
  ran : Runs step before value after
  models : Models world after

namespace Quietly

variable {property : α → Checker → Prop} {value : α}

theorem modelsBefore (quiet : Quietly world step before value after)
    (keeps : Keeps .any false step before property) : Models world before :=
  quiet.models.earlier (keeps.changes quiet.obeys quiet.ran.ok) quiet.obeys

/-- A quiet sequence of steps is taken apart, if it is known what the first one keeps. -/
theorem of_bind {β : Type} {next : α → CheckM β} {result : β} [Logs step]
    (logs : ∀ value before middle, step before = .ok value middle → Logs (next value))
    (first : Keeps .any false step before property)
    (quiet : Quietly world (step >>= next) before result after) :
    ∃ value middle, Runs step before value middle ∧ Changes .any false before middle ∧
      property value middle ∧ Quietly world (next value) middle result after := by
  obtain ⟨value, middle, ranFirst, ranSecond⟩ := quiet.ran.of_bind logs
  have changes := first.changes quiet.obeys ranFirst.ok
  exact ⟨value, middle, ranFirst, changes, (first quiet.obeys).2 value middle ranFirst.ok,
    changes.obeys quiet.obeys, ranSecond, quiet.models⟩

theorem of_get {next : Checker → CheckM α}
    (quiet : Quietly world (get >>= next) before value after) :
    Quietly world (next before) before value after :=
  ⟨quiet.obeys, ⟨quiet.ran.ok, quiet.ran.quiet⟩, quiet.models⟩

end Quietly

section Keeping

variable {types : List Ty} {span : Span}

theorem keeps_expect (fitsExpected : Policy.any.FitsIn before expected)
    (fitsFound : Policy.any.FitsIn before found) :
    Keeps .any false (expect expected found span) before fun _ _ => True :=
  (holds_expect expected found span).keeps ⟨fitsExpected, fitsFound⟩

theorem keeps_checkPattern {pattern : Pattern} (fits : Policy.any.FitsIn before expected) :
    Keeps .any false (checkPattern pattern expected) before fun _ _ => True :=
  (holds_pattern pattern expected).keeps fits

theorem keeps_checkPatterns {patterns : List Pattern} (sameLength : patterns.length = types.length)
    (fit : FitAll .any before types) :
    Keeps .any false (checkPatterns patterns types) before fun _ _ => True :=
  (holds_patterns patterns types).keeps ⟨sameLength, fit⟩

theorem keeps_checkFields {entries : List (Field Pattern)}
    (sameLength : entries.length = types.length) (fit : FitAll .any before types) :
    Keeps .any false (checkFields entries types) before fun _ _ => True :=
  (holds_fields entries types).keeps ⟨sameLength, fit⟩

theorem keeps_checkKnownFields {entries : List (Field Pattern)}
    (finds : Finds .any false find before) (fits : Policy.any.FitsIn before expected) :
    Keeps .any false (checkKnownFields find expected entries) before fun _ _ => True :=
  (holds_knownFields find expected entries).keeps ⟨finds, fits⟩

theorem Finds.later (finds : Finds .any false find before)
    (changes : Changes .any false before after) : Finds .any false find after :=
  fun name last more => finds name last (changes.trans more)

end Keeping

section Asking

variable {count : Nat} {shape : List Ty → Ty} {span : Span} {rest : List Ty → CheckM Unit}

/-- Asks for a type of a shape with fresh types in it, and goes on with these. -/
def asking (expected : Ty) (count : Nat) (shape : List Ty → Ty) (span : Span)
    (rest : List Ty → CheckM Unit) : CheckM Unit := do
  let types ← freshList count
  expect expected (shape types) span
  rest types

instance [∀ types, Logs (rest types)] : Logs (asking expected count shape span rest) := by
  unfold asking
  infer_instance

theorem Quietly.of_asking [∀ types, Logs (rest types)]
    (shaped : ∀ types checker, FitAll .any checker types →
      Policy.any.FitsIn checker (shape types))
    (fits : Policy.any.FitsIn before expected)
    (keeps : ∀ types start, types.length = count → FitAll .any start types →
      Keeps .any false (rest types) start fun _ _ => True)
    (quiet : Quietly world (asking expected count shape span rest) before () after) :
    ∃ types start, types.length = count ∧ FitAll .any start types ∧
      Quietly world (rest types) start () after ∧
      expected.bindVars world.assignment = (shape types).bindVars world.assignment := by
  obtain ⟨types, taken, _, toTaken, ⟨sameLength, fit⟩, quiet⟩ := Quietly.of_bind
    (fun _ _ _ _ => inferInstance) (keeps_freshList count) quiet
  have fitsTaken := toTaken.fits fits
  have fitsShape := shaped types taken fit
  have obeysTaken := quiet.obeys
  obtain ⟨_, start, ranExpect, toStart, _, quiet⟩ := quiet.of_bind (fun _ _ _ _ => inferInstance)
    (keeps_expect fitsTaken fitsShape)
  have fitStart := toStart.fitAll fit
  refine ⟨types, start, sameLength, fitStart, quiet, ?_⟩
  exact (quiet.modelsBefore (keeps types start sameLength fitStart)).of_unify obeysTaken fitsTaken
    fitsShape (runs_expect.mp ranExpect)

end Asking

section Fields

variable {Scalar : Type} {entries : List (Field Pattern)} {span : Span} {value : Value Scalar}

/-- The values have the types, one by one. -/
abbrev InhabitAll (world : World) (types : List Ty) (values : List (Value Scalar)) : Prop :=
  List.Forall₂ (Inhabits world) (types.map (Ty.bindVars world.assignment)) values

/-- A field of a value has a type. -/
def HasField (world : World) (fields : List (String × Value Scalar)) (name : String) (ty : Ty) :
    Prop :=
  ∃ held, fields.lookup name = some held ∧ Inhabits world (ty.bindVars world.assignment) held

/-- The fields of a value have the types that are found for them. -/
def Locates (world : World) (find : String → CheckM (Option Ty))
    (fields : List (String × Value Scalar)) : Prop :=
  ∀ name ty start reached, find name start = .ok (some ty) reached → HasField world fields name ty

theorem locates_of_knownFields (separate : world.Separate) (models : Models world before)
    (known : knownFields expected before = .ok (some find) after)
    (inhabits : Inhabits world (expected.bindVars world.assignment) value) :
    ∃ fields, value = .record fields ∧ Locates world find fields := by
  obtain ⟨rfl, known⟩ := of_knownFields known
  rw [← models.satisfies.bindVars_shallow] at inhabits
  rcases known with ⟨row, shape, rfl⟩ | ⟨decl, args, info, shape, declared, rfl⟩
  · rw [shape, Ty.bindVars_record] at inhabits
    obtain ⟨fields, rfl, each⟩ := inhabits.of_record
    refine ⟨fields, rfl, fun name ty start reached ran => each name _ ?_⟩
    have found : (Row.mapTypes (Ty.bindVars world.assignment) row).find? name =
        some (ty.bindVars world.assignment) := by
      rw [Row.find?_mapTypes, find?_of_recordField? ran, Option.map_some]
    exact found
  · rw [shape, Ty.bindVars_named] at inhabits
    rw [models.structs] at declared
    obtain ⟨fields, rfl, each⟩ := inhabits.of_struct separate declared
    refine ⟨fields, rfl, fun name ty start reached ran => ?_⟩
    obtain ⟨written, found, rfl⟩ := field?_of_structField? ran
    rw [HasField, World.bindVars_substParams]
    exact each name written found

/-- A record with fresh types for the fields that a pattern names. -/
def rowOf (entries : List (Field Pattern)) (types : List Ty) : Ty :=
  .record (Row.ofList ((entries.map (·.name)).zip types))

theorem hasField_of_rowOf {types : List Ty} (distinct : (entries.map (·.name)).Nodup)
    (sameLength : entries.length = types.length)
    (inhabits : Inhabits world ((rowOf entries types).bindVars world.assignment) value) :
    ∃ fields, value = .record fields ∧
      List.Forall₂ (fun entry ty => HasField world fields entry.name ty) entries types := by
  rw [rowOf, Ty.bindVars_record] at inhabits
  obtain ⟨fields, rfl, each⟩ := inhabits.of_record
  refine ⟨fields, rfl, List.forall₂_iff_zip.mpr ⟨sameLength, fun {entry ty} member => ?_⟩⟩
  have named : (entry.name, ty) ∈ (entries.map (·.name)).zip types := by
    rw [List.zip_map_left]
    exact List.mem_map.mpr ⟨(entry, ty), member, rfl⟩
  have distinctZip : (((entries.map (·.name)).zip types).map Prod.fst).Nodup := by
    rw [List.map_fst_zip (by rw [List.length_map, sameLength])]
    exact distinct
  have found : (Row.mapTypes (Ty.bindVars world.assignment)
      (Row.ofList ((entries.map (·.name)).zip types))).find? entry.name =
        some (ty.bindVars world.assignment) := by
    rw [Row.find?_mapTypes, Row.ofList, Row.find?_insertAll [] distinctZip named, Option.map_some]
  exact each entry.name (ty.bindVars world.assignment) found

/-- The check of the entries of a record pattern, once it is seen if fields are known. -/
def checkEntries (expected : Ty) (entries : List (Field Pattern)) (span : Span) :
    Option (String → CheckM (Option Ty)) → CheckM Unit
  | some find => checkKnownFields find expected entries
  | none => asking expected entries.length (rowOf entries) span (checkFields entries)

theorem checkPattern_record (expected : Ty) (entries : List (Field Pattern)) (span : Span) :
    checkPattern (.record entries span) expected =
      knownFields expected >>= checkEntries expected entries span := by
  rw [checkPattern]
  refine congrArg _ (funext fun known => ?_)
  cases known <;> rfl

theorem logs_checkEntries {known : Option (String → CheckM (Option Ty))}
    (ran : knownFields expected before = .ok known after) :
    Logs (checkEntries expected entries span known) := by
  cases known with
  | some find => exact logs_checkKnownFields find expected (logs_of_knownFields ran) entries
  | none => exact inferInstanceAs (Logs (asking _ _ _ _ _))

end Fields

section Accepting

variable {Scalar : Type} [DecidableEq Scalar] {reading : Reading Scalar} {pattern : Pattern}
  {patterns : List Pattern} {entries : List (Field Pattern)} {name : String} {span : Span}

/-- A pattern matches all values of a type against which it was checked quietly. -/
def AcceptsAll (world : World) (reading : Reading Scalar) (pattern : Pattern) : Prop :=
  ∀ ⦃before after expected value⦄, Policy.any.FitsIn before expected →
    Quietly world (checkPattern pattern expected) before () after →
    Inhabits world (expected.bindVars world.assignment) value →
    pattern.accepts world.enums reading value = true

def ListAcceptsAll (world : World) (reading : Reading Scalar) (patterns : List Pattern) : Prop :=
  ∀ ⦃before after types values⦄, FitAll .any before types →
    Quietly world (checkPatterns patterns types) before () after →
    patterns.length = types.length → InhabitAll world types values →
    Pattern.allAccept world.enums reading patterns values = true

def FieldsAcceptAll (world : World) (reading : Reading Scalar) (entries : List (Field Pattern)) :
    Prop :=
  ∀ ⦃before after types fields⦄, FitAll .any before types →
    Quietly world (checkFields entries types) before () after →
    List.Forall₂ (fun entry ty => HasField world fields entry.name ty) entries types →
    Pattern.fieldsAccept world.enums reading entries fields = true

def KnownFieldsAcceptAll (world : World) (reading : Reading Scalar)
    (entries : List (Field Pattern)) : Prop :=
  ∀ ⦃before after expected find fields⦄, Policy.any.FitsIn before expected →
    Finds .any false find before → (∀ name, Logs (find name)) → Locates world find fields →
    Quietly world (checkKnownFields find expected entries) before () after →
    Pattern.fieldsAccept world.enums reading entries fields = true

theorem acceptsAll_tuple (elems : ListAcceptsAll world reading patterns) :
    AcceptsAll world reading (.tuple patterns span) := by
  intro before after expected value fits quiet inhabits
  have quiet : Quietly world (asking expected patterns.length .tuple span (checkPatterns patterns))
      before () after := quiet
  obtain ⟨types, start, sameLength, fit, quiet, same⟩ := quiet.of_asking
    (fun _ _ => Policy.admits_tuple) fits fun _ _ sameLength => keeps_checkPatterns sameLength.symm
  rw [same, Ty.bindVars_tuple] at inhabits
  obtain ⟨values, rfl, each⟩ := inhabits.of_tuple
  rw [Pattern.accepts]
  exact elems fit quiet sameLength.symm each

theorem acceptsAll_record (separate : world.Separate) (distinct : (entries.map (·.name)).Nodup)
    (fields : FieldsAcceptAll world reading entries)
    (knownFields : KnownFieldsAcceptAll world reading entries) :
    AcceptsAll world reading (.record entries span) := by
  intro before after expected value fits quiet inhabits
  rw [checkPattern_record] at quiet
  have models := quiet.modelsBefore (checkPattern_record expected entries span ▸
    keeps_checkPattern fits)
  obtain ⟨known, start, ranKnown, changes, finds, quiet⟩ := quiet.of_bind
    (fun _ _ _ => logs_checkEntries) (keeps_knownFields fits)
  have fitsStart := changes.fits fits
  cases known with
  | some find =>
    obtain ⟨values, rfl, located⟩ := locates_of_knownFields separate models ranKnown.ok inhabits
    rw [Pattern.accepts]
    exact knownFields fitsStart (finds find rfl) (logs_of_knownFields ranKnown.ok) located quiet
  | none =>
    obtain ⟨types, asked, sameLength, fit, quiet, same⟩ := Quietly.of_asking
      (fun _ _ => fits_ofList) fitsStart
      (fun _ _ sameLength => keeps_checkFields sameLength.symm) quiet
    rw [same] at inhabits
    obtain ⟨values, rfl, each⟩ := hasField_of_rowOf distinct sameLength.symm inhabits
    rw [Pattern.accepts]
    exact fields fit quiet each

theorem listAcceptsAll_cons (first : AcceptsAll world reading pattern)
    (rest : ListAcceptsAll world reading patterns) :
    ListAcceptsAll world reading (pattern :: patterns) := by
  intro before after types values fit quiet sameLength each
  cases types with
  | nil => cases sameLength
  | cons ty types =>
    obtain ⟨fitsFirst, fitRest⟩ := List.forall_mem_cons.mp fit
    obtain ⟨value, values, inhabits, eachRest, rfl⟩ := List.forall₂_cons_left_iff.mp each
    have obeys := quiet.obeys
    rw [checkPatterns] at quiet
    obtain ⟨_, middle, ran, changes, _, quiet⟩ := quiet.of_bind (fun _ _ _ _ => inferInstance)
      (keeps_checkPattern fitsFirst)
    have fitMiddle := changes.fitAll fitRest
    have sameRest := Nat.succ.inj sameLength
    have models := quiet.modelsBefore (keeps_checkPatterns sameRest fitMiddle)
    rw [Pattern.allAccept, Bool.and_eq_true]
    exact ⟨first fitsFirst ⟨obeys, ran, models⟩ inhabits,
      rest fitMiddle quiet sameRest eachRest⟩

theorem fieldsAccept_cons {fields : List (String × Value Scalar)} {held : Value Scalar}
    (found : fields.lookup name = some held)
    (first : pattern.accepts world.enums reading held = true)
    (rest : Pattern.fieldsAccept world.enums reading entries fields = true) :
    Pattern.fieldsAccept world.enums reading (⟨name, pattern, span⟩ :: entries) fields = true := by
  rw [Pattern.fieldsAccept, found, Bool.and_eq_true]
  exact ⟨first, rest⟩

theorem fieldsAcceptAll_cons (first : AcceptsAll world reading pattern)
    (rest : FieldsAcceptAll world reading entries) :
    FieldsAcceptAll world reading (⟨name, pattern, span⟩ :: entries) := by
  intro before after types fields fit quiet each
  obtain ⟨ty, types, ⟨held, found, inhabits⟩, eachRest, rfl⟩ :=
    List.forall₂_cons_left_iff.mp each
  obtain ⟨fitsFirst, fitRest⟩ := List.forall_mem_cons.mp fit
  have obeys := quiet.obeys
  rw [checkFields] at quiet
  obtain ⟨_, middle, ran, changes, _, quiet⟩ := quiet.of_bind (fun _ _ _ _ => inferInstance)
    (keeps_checkPattern fitsFirst)
  have fitMiddle := changes.fitAll fitRest
  have models := quiet.modelsBefore (keeps_checkFields eachRest.length_eq fitMiddle)
  exact fieldsAccept_cons found (first fitsFirst ⟨obeys, ran, models⟩ inhabits)
    (rest fitMiddle quiet eachRest)

theorem knownFieldsAcceptAll_cons (first : AcceptsAll world reading pattern)
    (rest : KnownFieldsAcceptAll world reading entries) :
    KnownFieldsAcceptAll world reading (⟨name, pattern, span⟩ :: entries) := by
  intro before after expected find fields fits finds logs located quiet
  have := logs_checkKnownFields find expected logs entries
  have := logs name
  rw [checkKnownFields] at quiet
  obtain ⟨found, looked, ranFind, toLooked, fitsFound, quiet⟩ := quiet.of_bind
    (fun found _ _ _ => by cases found <;> infer_instance) (finds name before .refl)
  cases found with
  | none =>
    obtain ⟨_, _, ran, _⟩ := quiet.of_bind (fun _ _ _ _ => inferInstance) keeps_reads
    exact absurd ran not_runs_reportUnknownField
  | some ty =>
    obtain ⟨held, has, inhabits⟩ := located name ty before looked ranFind.ok
    have obeys := quiet.obeys
    obtain ⟨_, middle, ran, changes, _, quiet⟩ := quiet.of_bind (fun _ _ _ _ => inferInstance)
      (keeps_checkPattern (fitsFound ty rfl))
    have later := toLooked.trans changes
    have fitsMiddle := later.fits fits
    have findsMiddle := finds.later later
    have models := quiet.modelsBefore (keeps_checkKnownFields findsMiddle fitsMiddle)
    exact fieldsAccept_cons has (first (fitsFound ty rfl) ⟨obeys, ran, models⟩ inhabits)
      (rest fitsMiddle findsMiddle logs located quiet)

mutual

/-- A pattern that counts as irrefutable matches all values of its type. -/
theorem acceptsAll_of_isIrrefutable (separate : world.Separate) : (pattern : Pattern) →
    pattern.isIrrefutable = true → pattern.distinctLabels = true →
    AcceptsAll world reading pattern
  | .wildcard _, _, _ | .bind _ _ _, _, _ => fun _ _ _ _ _ _ _ => by rw [Pattern.accepts]
  | .tuple elems _, irrefutable, distinct => by
    rw [Pattern.isIrrefutable] at irrefutable
    rw [Pattern.distinctLabels] at distinct
    exact acceptsAll_tuple (listAcceptsAll_of_isIrrefutable separate elems irrefutable distinct)
  | .record entries _, irrefutable, distinct => by
    rw [Pattern.isIrrefutable] at irrefutable
    rw [Pattern.distinctLabels, Bool.and_eq_true, decide_eq_true_iff] at distinct
    obtain ⟨fields, known⟩ := fieldsAcceptAll_of_isIrrefutable separate entries irrefutable
      distinct.2
    exact acceptsAll_record separate distinct.1 fields known

theorem listAcceptsAll_of_isIrrefutable (separate : world.Separate) : (patterns : List Pattern) →
    Pattern.allIrrefutable patterns = true → Pattern.allDistinctLabels patterns = true →
    ListAcceptsAll world reading patterns
  | [], _, _ => by
    intro before after types values fit quiet sameLength each
    cases List.length_eq_zero_iff.mp sameLength.symm
    cases each
    rw [Pattern.allAccept]
  | pattern :: patterns, irrefutable, distinct => by
    rw [Pattern.allIrrefutable, Bool.and_eq_true] at irrefutable
    rw [Pattern.allDistinctLabels, Bool.and_eq_true] at distinct
    exact listAcceptsAll_cons
      (acceptsAll_of_isIrrefutable separate pattern irrefutable.1 distinct.1)
      (listAcceptsAll_of_isIrrefutable separate patterns irrefutable.2 distinct.2)

theorem fieldsAcceptAll_of_isIrrefutable (separate : world.Separate) :
    (entries : List (Field Pattern)) → Pattern.fieldsIrrefutable entries = true →
    Pattern.fieldsDistinctLabels entries = true →
    FieldsAcceptAll world reading entries ∧ KnownFieldsAcceptAll world reading entries
  | [], _, _ => ⟨fun _ _ _ _ _ _ _ => by rw [Pattern.fieldsAccept],
      fun _ _ _ _ _ _ _ _ _ _ => by rw [Pattern.fieldsAccept]⟩
  | ⟨_, pattern, _⟩ :: entries, irrefutable, distinct => by
    rw [Pattern.fieldsIrrefutable, Bool.and_eq_true] at irrefutable
    rw [Pattern.fieldsDistinctLabels, Bool.and_eq_true] at distinct
    have first : AcceptsAll world reading pattern :=
      acceptsAll_of_isIrrefutable separate pattern irrefutable.1 distinct.1
    obtain ⟨fields, known⟩ := fieldsAcceptAll_of_isIrrefutable separate entries irrefutable.2
      distinct.2
    exact ⟨fieldsAcceptAll_cons first fields, knownFieldsAcceptAll_cons first known⟩

end

end Accepting

end Checker

end TraitCheck
