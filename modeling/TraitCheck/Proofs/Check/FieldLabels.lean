import TraitCheck.Proofs.Check.Reports
import TraitCheck.Proofs.Check.Structs

/-!
# The labels of struct literals

A label that is not declared or was set before is reported when its field is checked, and labels
that were left out are reported at the end. The diagnostics of a literal about its own fields are
told apart from those about the values, which may hold literals of their own. Among the former there
is none about a label exactly if the labels are those that the struct declares, each of them once.
-/

namespace TraitCheck

variable {expected : Ty} {decl : DefId}
variable {found : Ty} {field : Field Expr} {error : UnifyError}

/-- Whether the diagnostic is about labels. -/
def Diagnostic.isLabel (diagnostic : Diagnostic) : Bool :=
  diagnostic.code = .unknownField || diagnostic.code = .missingField

namespace Checker

variable {before after start : Checker} {info : StructInfo} {generics : List Ty}
  {seen seen' : List String} {fields : List (Field Expr)} {span : Span} {ty : Ty}
  {diagnostic : Diagnostic}

instance (expr : Expr) : Quiet (spanOf expr) where
  keeps _ := by
    unfold spanOf
    cases expr.span? <;> rfl

instance (span : Span) : Quiet (mismatch error expected found span) := by
  unfold mismatch
  infer_instance

theorem isLabel_differing (error : UnifyError) (whole inner : String) (span : Span) :
    (differing error whole inner span).isLabel = false := by
  unfold differing
  dsimp only
  split
  case h_4 | h_5 | h_6 => split <;> rfl
  all_goals rfl

theorem isLabel_of_mismatch
    (ran : mismatch error expected found span before = .ok diagnostic after) :
    diagnostic.isLabel = false := by
  rcases cases_of_mismatch ran with ⟨message, rfl⟩ | ⟨whole, inner, rfl⟩
  · rfl
  · exact isLabel_differing ..

theorem isLabel_of_reportMismatch
    (member : diagnostic ∈ reported (reportMismatch error expected found span pure) before) :
    diagnostic.isLabel = false := by
  -- The diagnostic is composed without a report, so it is the only one in the end.
  have silent : (finish (mismatch error expected found span) { before with log := .empty 0 }).log =
      .empty 0 := Quiet.keeps _
  rw [finish] at silent
  rw [reported, reportMismatch, finish_bind] at member
  rcases ran : mismatch error expected found span { before with log := .empty 0 } with
    ⟨made, middle⟩ | ⟨fault, middle⟩
  · rw [ran] at silent member
    have added : (middle.log.add made).items = [made] := by
      rw [silent]
      exact reported_report made before
    change diagnostic ∈ (middle.log.add made).items at member
    rw [added, List.mem_singleton] at member
    rw [member]
    exact isLabel_of_mismatch ran
  · rw [ran] at silent member
    rw [silent] at member
    cases member

theorem isLabel_of_expect (member : diagnostic ∈ reported (expect expected found span) before) :
    diagnostic.isLabel = false := by
  rcases @mem_reported_bind _ _ _ (unify expected found) _ _
    (fun failure _ => by cases failure <;> infer_instance) _ member
    with early | ⟨failure, middle, _, late⟩
  · rw [reported_of_quiet] at early
    cases early
  · cases failure with
    | none =>
      rw [reported_of_quiet] at late
      cases late
    | some error => exact isLabel_of_reportMismatch late

theorem checkInitializer_of_new (declared : field.name ∈ info.fields.map Prod.fst)
    (isNew : field.name ∉ seen) :
    ∃ written, info.field? field.name = some written ∧
      checkInitializer info generics seen field ty = (do
        let wanted ← ofComplete (written.substParams? generics)
        let place ← spanOf field.content
        expect wanted ty place
        return seen ++ [field.name]) := by
  rcases Option.isSome_iff_exists.mp ((info.isSome_field? _).mpr declared) with ⟨written, found⟩
  refine ⟨written, found, ?_⟩
  rw [checkInitializer, found]
  dsimp only
  rw [if_neg (by simpa using isNew)]

theorem reported_of_refused
    (refused : ¬(field.name ∈ info.fields.map Prod.fst ∧ field.name ∉ seen)) (before : Checker) :
    ∃ diagnostic ∈ reported (checkInitializer info generics seen field ty) before,
      diagnostic.isLabel = true := by
  have member (diagnostic : Diagnostic) :
      diagnostic ∈ reported (do report diagnostic; return seen : CheckM (List String)) before := by
    change diagnostic ∈ reported (report diagnostic) before
    rw [reported_report]
    exact List.mem_cons_self
  rcases found : info.field? field.name with _ | written
  · rw [checkInitializer, found]
    exact ⟨_, member _, rfl⟩
  · have declared := (info.isSome_field? field.name).mp (by rw [found]; rfl)
    have again : seen.contains field.name = true := by simpa [declared] using refused
    rw [checkInitializer, found]
    dsimp only
    rw [if_pos again]
    exact ⟨_, member _, rfl⟩

theorem isLabel_of_new (declared : field.name ∈ info.fields.map Prod.fst)
    (isNew : field.name ∉ seen)
    (member : diagnostic ∈ reported (checkInitializer info generics seen field ty) before) :
    diagnostic.isLabel = false := by
  rcases checkInitializer_of_new declared isNew with ⟨written, _, same⟩
  rw [same] at member
  rcases mem_reported_bind _ member with early | ⟨wanted, _, _, member⟩
  · rw [reported_of_quiet] at early
    cases early
  rcases mem_reported_bind _ member with early | ⟨place, _, _, member⟩
  · rw [reported_of_quiet] at early
    cases early
  rcases mem_reported_bind _ member with compared | ⟨_, _, _, late⟩
  · exact isLabel_of_expect compared
  · rw [reported_of_quiet] at late
    cases late

theorem seen_of_new (declared : field.name ∈ info.fields.map Prod.fst) (isNew : field.name ∉ seen)
    (ran : checkInitializer info generics seen field ty before = .ok seen' after) :
    seen' = seen ++ [field.name] := by
  rcases checkInitializer_of_new declared isNew with ⟨written, _, same⟩
  rw [same] at ran
  rcases bind_eq_ok.mp ran with ⟨wanted, _, _, ran⟩
  rcases bind_eq_ok.mp ran with ⟨place, _, _, ran⟩
  rcases bind_eq_ok.mp ran with ⟨_, _, _, ⟨⟩⟩
  rfl

/-- A field of a struct literal at the moment when its value is inferred. -/
structure Initialization where
  field : Field Expr
  /-- The type of the value. -/
  ty : Ty
  /-- The labels that were set before. -/
  seen : List String
  start : Checker

/-- The diagnostics about a field of a struct literal, apart from those about its value. -/
def Initialization.reports (info : StructInfo) (generics : List Ty) (entry : Initialization) :
    List Diagnostic :=
  reported (checkInitializer info generics entry.seen entry.field entry.ty) entry.start

/-- The fields of a struct literal, as far as checking them gets. -/
def initializations (info : StructInfo) (generics : List Ty) :
    (seen : List String) → List (Field Expr) → (before : Checker) → List Initialization
  | _, [], _ => []
  | seen, field :: rest, before =>
    match inferExpr field.content before with
    | .error _ _ => []
    | .ok ty middle =>
      ⟨field, ty, seen, middle⟩ ::
        match checkInitializer info generics seen field ty middle with
        | .error _ _ => []
        | .ok seen next => initializations info generics seen rest next

/-- The diagnostics about the values of fields, the one at which checking stops included. -/
def reportsOfValues (info : StructInfo) (generics : List Ty) :
    (seen : List String) → List (Field Expr) → (before : Checker) → List Diagnostic
  | _, [], _ => []
  | seen, field :: rest, before =>
    reported (inferExpr field.content) before ++
      match inferExpr field.content before with
      | .error _ _ => []
      | .ok ty middle =>
        match checkInitializer info generics seen field ty middle with
        | .error _ _ => []
        | .ok seen next => reportsOfValues info generics seen rest next

theorem of_checkInitializers_cons {rest : List (Field Expr)}
    (ran : checkInitializers info generics seen (field :: rest) before = .ok seen' after) :
    ∃ ty middle further next, inferExpr field.content before = .ok ty middle ∧
      checkInitializer info generics seen field ty middle = .ok further next ∧
      checkInitializers info generics further rest next = .ok seen' after := by
  rw [checkInitializers] at ran
  rcases bind_eq_ok.mp ran with ⟨ty, middle, ranValue, ran⟩
  rcases bind_eq_ok.mp ran with ⟨further, next, ranField, ranRest⟩
  exact ⟨ty, middle, further, next, ranValue, ranField, ranRest⟩

theorem initializations_of_ok
    (ran : checkInitializers info generics seen fields before = .ok seen' after) :
    (initializations info generics seen fields before).map (·.field) = fields := by
  induction fields generalizing seen before with
  | nil => rfl
  | cons field rest ih =>
    rcases of_checkInitializers_cons ran with
      ⟨ty, middle, further, next, ranValue, ranField, ranRest⟩
    simp only [initializations, ranValue, ranField, List.map_cons, ih ranRest]

/-- Labels are declared, different and not among those set before. -/
structure LabelsFit (info : StructInfo) (seen labels : List String) : Prop where
  declared : ∀ label ∈ labels, label ∈ info.fields.map Prod.fst
  unseen : ∀ label ∈ labels, label ∉ seen
  nodup : labels.Nodup

theorem labelsFit_cons {label : String} {rest : List String} :
    LabelsFit info seen (label :: rest) ↔
      (label ∈ info.fields.map Prod.fst ∧ label ∉ seen) ∧
        LabelsFit info (seen ++ [label]) rest := by
  constructor
  · rintro ⟨declared, unseen, nodup⟩
    rw [List.forall_mem_cons] at declared unseen
    rw [List.nodup_cons] at nodup
    refine ⟨⟨declared.1, unseen.1⟩, declared.2, fun other member => ?_, nodup.2⟩
    rw [List.mem_append, List.mem_singleton, not_or]
    exact ⟨unseen.2 other member, fun same => nodup.1 (same ▸ member)⟩
  · rintro ⟨⟨isDeclared, isNew⟩, declared, unseen, nodup⟩
    refine ⟨List.forall_mem_cons.mpr ⟨isDeclared, declared⟩,
      List.forall_mem_cons.mpr ⟨isNew, fun other member inSeen => ?_⟩,
      List.nodup_cons.mpr ⟨fun inRest => ?_, nodup⟩⟩
    · exact unseen other member (List.mem_append_left _ inSeen)
    · exact unseen label inRest (List.mem_append_right _ (List.mem_singleton_self label))

theorem isLabel_of_labelsFit (fit : LabelsFit info seen (fields.map (·.name)))
    {entry : Initialization} (listed : entry ∈ initializations info generics seen fields before)
    (member : diagnostic ∈ entry.reports info generics) : diagnostic.isLabel = false := by
  induction fields generalizing seen before with
  | nil => cases listed
  | cons field rest ih =>
    rw [List.map_cons, labelsFit_cons] at fit
    rcases fit with ⟨⟨declared, isNew⟩, fitRest⟩
    rw [initializations] at listed
    split at listed
    · cases listed
    · rcases List.mem_cons.mp listed with rfl | listed
      · exact isLabel_of_new declared isNew member
      · split at listed
        · cases listed
        · next further _ ran =>
            cases seen_of_new declared isNew ran
            exact ih fitRest listed

/-- If all fields were checked and no label was reported, the labels are accepted. -/
theorem labelsFit_of_unlabelled
    (ran : checkInitializers info generics seen fields before = .ok seen' after)
    (unlabelled : ∀ entry ∈ initializations info generics seen fields before,
      ∀ diagnostic ∈ entry.reports info generics, diagnostic.isLabel = false) :
    LabelsFit info seen (fields.map (·.name)) := by
  induction fields generalizing seen before with
  | nil => exact ⟨nofun, nofun, List.nodup_nil⟩
  | cons field rest ih =>
    rcases of_checkInitializers_cons ran with
      ⟨ty, middle, further, next, ranValue, ranField, ranRest⟩
    simp only [initializations, ranValue, ranField, List.forall_mem_cons] at unlabelled
    have accepted : field.name ∈ info.fields.map Prod.fst ∧ field.name ∉ seen := by
      by_contra refused
      rcases reported_of_refused refused middle with ⟨diagnostic, member, isLabel⟩
      rw [unlabelled.1 diagnostic member] at isLabel
      cases isLabel
    cases seen_of_new accepted.1 accepted.2 ranField
    exact labelsFit_cons.mpr ⟨accepted, ih ranRest unlabelled.2⟩

theorem seen_of_labelsFit (fit : LabelsFit info seen (fields.map (·.name)))
    (ran : checkInitializers info generics seen fields before = .ok seen' after) :
    seen' = seen ++ fields.map (·.name) := by
  induction fields generalizing seen before with
  | nil =>
    cases ran
    rw [List.map_nil, List.append_nil]
  | cons field rest ih =>
    rw [List.map_cons, labelsFit_cons] at fit
    rcases fit with ⟨⟨declared, isNew⟩, fitRest⟩
    rcases of_checkInitializers_cons ran with ⟨ty, middle, further, next, _, ranField, ranRest⟩
    cases seen_of_new declared isNew ranField
    rw [ih fitRest ranRest, List.append_assoc]
    rfl

theorem reported_reportMissingFields (info : StructInfo) (seen : List String) (span : Span)
    (before : Checker) :
    (∀ diagnostic ∈ reported (reportMissingFields info seen span) before,
      diagnostic.isLabel = false) ↔ ∀ label ∈ info.fields.map Prod.fst, label ∈ seen := by
  rw [List.forall_mem_map]
  rcases unset : info.fields.filter fun field => !seen.contains field.1 with _ | ⟨field, rest⟩
  · have silent : reported (reportMissingFields info seen span) before = [] := by
      rw [reportMissingFields, unset]
      rfl
    rw [silent]
    refine ⟨fun _ field member => ?_, fun _ => List.forall_mem_nil _⟩
    simpa using List.filter_eq_nil_iff.mp unset field member
  · have reports : ∃ message, reported (reportMissingFields info seen span) before =
        [.error .missingField span message] := by
      rw [reportMissingFields, unset]
      exact ⟨_, reported_report _ before⟩
    rcases reports with ⟨message, reports⟩
    rw [reports]
    refine ⟨fun unlabelled => ?_, fun all => ?_⟩
    · cases unlabelled _ (List.mem_singleton_self _)
    · have member : field ∈ info.fields.filter fun field => !seen.contains field.1 :=
        unset ▸ List.mem_cons_self
      rcases List.mem_filter.mp member with ⟨declared, isUnset⟩
      simp [all field declared] at isUnset

/-- The variables for the generics of the struct. -/
def literalArgs (info : StructInfo) (start : Checker) : List Ty :=
  (start.supply.freshList info.generics.length).1

/-- The state after taking variables for the generics. -/
def literalStart (info : StructInfo) (start : Checker) : Checker :=
  { start with supply := (start.supply.freshList info.generics.length).2 }

/-- How the fields of a literal are checked. -/
def literalFields (info : StructInfo) (fields : List (Field Expr)) (start : Checker) :
    List Initialization :=
  initializations info (literalArgs info start) [] fields (literalStart info start)

/-- The diagnostics about the values of a struct literal, as far as checking them gets. -/
def valueReports (info : StructInfo) (fields : List (Field Expr)) (start : Checker) :
    List Diagnostic :=
  reportsOfValues info (literalArgs info start) [] fields (literalStart info start)

/-- The diagnostics of a struct literal about its own fields, those left out included. -/
def fieldReports (info : StructInfo) (fields : List (Field Expr)) (span : Span) (start : Checker) :
    List Diagnostic :=
  (literalFields info fields start).flatMap (·.reports info (literalArgs info start)) ++
    match checkInitializers info (literalArgs info start) [] fields (literalStart info start) with
    | .ok seen middle => reported (reportMissingFields info seen span) middle
    | .error _ _ => []

/-- The body of a struct literal, once its type arguments are taken. -/
def inferFields (info : StructInfo) (generics : List Ty) (decl : DefId) (fields : List (Field Expr))
    (span : Span) : CheckM Ty := do
  let seen ← checkInitializers info generics [] fields
  reportMissingFields info seen span
  return .named decl generics

theorem inferExpr_structLit (found : start.structs.find? decl = some info) :
    inferExpr (.structLit decl fields span) start =
      inferFields info (literalArgs info start) decl fields span (literalStart info start) := by
  rw [inferExpr, get_bind, found]
  rfl

theorem of_structLit (found : start.structs.find? decl = some info)
    (ran : inferExpr (.structLit decl fields span) start = .ok ty after) :
    ty = .named decl (literalArgs info start) ∧ ∃ seen middle,
      checkInitializers info (literalArgs info start) [] fields (literalStart info start) =
        .ok seen middle ∧
      reportMissingFields info seen span middle = .ok () after := by
  rw [inferExpr_structLit found] at ran
  rcases bind_eq_ok.mp ran with ⟨seen, middle, ranFields, ran⟩
  rcases bind_eq_ok.mp ran with ⟨_, _, ranMissing, ⟨⟩⟩
  exact ⟨rfl, seen, middle, ranFields, ranMissing⟩

theorem sublist_reported_checkInitializers (info : StructInfo) (generics : List Ty)
    (seen : List String) (fields : List (Field Expr)) (before : Checker) :
    ((initializations info generics seen fields before).flatMap (·.reports info generics)).Sublist
      (reported (checkInitializers info generics seen fields) before) := by
  induction fields generalizing seen before with
  | nil => exact List.nil_sublist _
  | cons field rest ih =>
    rw [checkInitializers, reported_bind, initializations]
    refine List.Sublist.trans ?_ (List.sublist_append_right _ _)
    rcases inferExpr field.content before with ⟨ty, middle⟩ | ⟨fault, middle⟩
    · dsimp only
      rw [List.flatMap_cons, reported_bind]
      refine List.Sublist.append (List.Sublist.refl _) ?_
      rcases checkInitializer info generics seen field ty middle with
        ⟨further, next⟩ | ⟨fault, next⟩
      · exact ih further next
      · exact List.nil_sublist _
    · exact List.nil_sublist _

theorem perm_reported_checkInitializers (info : StructInfo) (generics : List Ty)
    (seen : List String) (fields : List (Field Expr)) (before : Checker) :
    (reported (checkInitializers info generics seen fields) before).Perm
      (reportsOfValues info generics seen fields before ++
        (initializations info generics seen fields before).flatMap (·.reports info generics)) := by
  induction fields generalizing seen before with
  | nil => exact .nil
  | cons field rest ih =>
    rw [checkInitializers, reported_bind, initializations, reportsOfValues, List.append_assoc]
    refine List.Perm.append_left _ ?_
    rcases inferExpr field.content before with ⟨ty, middle⟩ | ⟨fault, middle⟩
    · dsimp only
      rw [List.flatMap_cons, reported_bind]
      rcases checkInitializer info generics seen field ty middle with
        ⟨further, next⟩ | ⟨fault, next⟩
      · exact ((ih further next).append_left _).trans (List.perm_append_comm_assoc ..)
      · exact .refl _
    · exact .nil

/-- The fields left out are reported after everything else. -/
theorem reported_structLit (found : start.structs.find? decl = some info) :
    reported (inferExpr (.structLit decl fields span)) start =
      reported (checkInitializers info (literalArgs info start) [] fields)
        (literalStart info start) ++
        match checkInitializers info (literalArgs info start) [] fields
          (literalStart info start) with
        | .ok seen middle => reported (reportMissingFields info seen span) middle
        | .error _ _ => [] := by
  have same : reported (inferExpr (.structLit decl fields span)) start =
      reported (inferFields info (literalArgs info start) decl fields span)
        (literalStart info start) := by
    have foundThere : { start with log := .empty 0 }.structs.find? decl = some info := found
    rw [reported, finish, inferExpr_structLit foundThere]
    rfl
  rw [same, inferFields, reported_bind]
  rcases checkInitializers info (literalArgs info start) [] fields (literalStart info start) with
    ⟨seen, middle⟩ | ⟨fault, middle⟩
  · dsimp only
    rw [reported_bind]
    split
    · rw [reported_of_quiet (pure _), List.append_nil]
    · rw [List.append_nil]
  · rfl

theorem sublist_reported_structLit (found : start.structs.find? decl = some info) :
    (fieldReports info fields span start).Sublist
      (reported (inferExpr (.structLit decl fields span)) start) := by
  rw [reported_structLit found]
  exact (sublist_reported_checkInitializers ..).append (.refl _)

theorem perm_reported_structLit (found : start.structs.find? decl = some info) :
    (reported (inferExpr (.structLit decl fields span)) start).Perm
      (valueReports info fields start ++ fieldReports info fields span start) := by
  rw [reported_structLit found, fieldReports, ← List.append_assoc]
  exact (perm_reported_checkInitializers ..).append_right _

theorem unlabelled_of_perm (nodup : (info.fields.map Prod.fst).Nodup)
    (perm : (fields.map (·.name)).Perm (info.fields.map Prod.fst)) :
    ∀ diagnostic ∈ fieldReports info fields span start, diagnostic.isLabel = false := by
  have fit : LabelsFit info [] (fields.map (·.name)) :=
    ⟨fun label => perm.mem_iff.mp, fun _ _ => List.not_mem_nil, perm.nodup_iff.mpr nodup⟩
  intro diagnostic member
  rcases List.mem_append.mp member with early | late
  · rcases List.mem_flatMap.mp early with ⟨entry, listed, inReports⟩
    exact isLabel_of_labelsFit fit listed inReports
  · split at late
    · next seen middle ran =>
        rw [seen_of_labelsFit fit ran] at late
        refine (reported_reportMissingFields ..).mpr (fun label declared => ?_) _ late
        exact perm.mem_iff.mpr declared
    · cases late

theorem perm_of_unlabelled (nodup : (info.fields.map Prod.fst).Nodup)
    (found : start.structs.find? decl = some info)
    (ran : inferExpr (.structLit decl fields span) start = .ok ty after)
    (unlabelled : ∀ diagnostic ∈ fieldReports info fields span start, diagnostic.isLabel = false) :
    (fields.map (·.name)).Perm (info.fields.map Prod.fst) := by
  rcases of_structLit found ran with ⟨_, seen, middle, ranFields, _⟩
  rw [fieldReports, ranFields, List.forall_mem_append] at unlabelled
  rcases unlabelled with ⟨ofFields, ofMissing⟩
  have fit := labelsFit_of_unlabelled ranFields fun entry listed diagnostic member =>
    ofFields diagnostic (List.mem_flatMap.mpr ⟨entry, listed, member⟩)
  have complete := (reported_reportMissingFields ..).mp ofMissing
  rw [seen_of_labelsFit fit ranFields] at complete
  exact (List.perm_ext_iff_of_nodup fit.nodup nodup).mpr fun label =>
    ⟨fit.declared label, complete label⟩

end Checker

end TraitCheck
