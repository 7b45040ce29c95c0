import TraitCheck.Proofs.Check.FieldLabels
import TraitCheck.Proofs.Matching.Coverage

/-!
# Construction and destructuring

A struct literal that reports nothing has compared the declared type of each field with the type of
its value, at fresh type arguments. Reading the field by its name, or binding it in a record
pattern, gives the declared type at the same arguments. A variant literal and a constructor pattern
take arguments of their own, which are made equal when the pattern is checked.
-/

namespace TraitCheck

variable {decl : DefId}
variable {name : String} {entry : Initialization}

theorem Subst.apply_named (subst : Subst) (decl : DefId) (args : List Ty) :
    subst.apply (.named decl args) = .named decl (args.map subst.apply) := by
  simp [Subst.apply]

namespace Checker

variable {before middle after start : Checker} {info : StructInfo} {generics : List Ty}
  {seen seen' : List String} {fields : List (Field Expr)} {span : Span} {ty : Ty}
  {settings : Settings} {items : List Item} {base : Expr} {written wanted : Ty}

/-- A value was compared with the declared type of a field of that name, and both are equal in the
end. -/
def Initializes (settings : Settings) (items : List Item) (info : StructInfo) (generics : List Ty)
    (name : String) (ty : Ty) : Prop :=
  ∃ written wanted, info.field? name = some written ∧ written.substParams? generics = some wanted ∧
    EndsEqual settings items wanted ty

theorem initializes_of_quiet {field : Field Expr}
    (reached : Reached settings items (.initializer info generics seen field ty) start)
    (quiet : Runs (checkInitializer info generics seen field ty) start seen' after) :
    Initializes settings items info generics field.name ty := by
  have accepted : field.name ∈ info.fields.map Prod.fst ∧ field.name ∉ seen := by
    by_contra refused
    rcases reported_of_refused refused start with ⟨diagnostic, member, _⟩
    rw [(log_eq_iff_of_ok _ quiet.ok).mp quiet.quiet] at member
    cases member
  rcases checkInitializer_of_new accepted.1 accepted.2 with ⟨written, found, same⟩
  rw [same] at quiet
  rcases runs_bind.mp quiet with ⟨wanted, _, ranWanted, quiet⟩
  rcases runs_bind.mp quiet with ⟨place, compared, ranPlace, quiet⟩
  rcases runs_bind.mp quiet with ⟨_, _, ranExpect, _⟩
  have called : ⟨.expect wanted ty place, compared⟩ ∈
      (Task.initializer info generics seen field ty).walk.calls start := by
    change _ ∈ (Walk.ofInitializer info generics seen field ty).calls start
    rw [Walk.ofInitializer, found]
    dsimp only
    rw [if_neg (by simpa using accepted.2)]
    exact Walk.mem_calls_after ranWanted.ok (Walk.mem_calls_after ranPlace.ok mem_calls_call)
  exact ⟨written, wanted, found, (runs_ofComplete.mp ranWanted).1,
    endsEqual_of_expect (.call reached called) ranExpect⟩

theorem initializes_of_listed
    (reached : Reached settings items (.structFields info generics seen fields) before)
    (quiet : Runs (checkInitializers info generics seen fields) before seen' after)
    (listed : entry ∈ initializations info generics seen fields before) :
    Initializes settings items info generics entry.field.name entry.ty := by
  induction fields generalizing seen before with
  | nil => cases listed
  | cons field rest ih =>
    rw [checkInitializers] at quiet
    rcases runs_bind.mp quiet with ⟨ty, middle, ranValue, quiet⟩
    rcases runs_bind.mp quiet with ⟨further, next, ranField, ranRest⟩
    have calledField : ⟨.initializer info generics seen field ty, middle⟩ ∈
        (Task.structFields info generics seen (field :: rest)).walk.calls before :=
      Walk.mem_calls_after ranValue.ok mem_calls_call
    have calledRest : ⟨.structFields info generics further rest, next⟩ ∈
        (Task.structFields info generics seen (field :: rest)).walk.calls before :=
      Walk.mem_calls_after ranValue.ok (Walk.mem_calls_after ranField.ok List.mem_cons_self)
    simp only [initializations, ranValue.ok, ranField.ok] at listed
    rcases List.mem_cons.mp listed with rfl | listed
    · exact initializes_of_quiet (.call reached calledField) ranField
    · exact ih (.call reached calledRest) ranRest listed

theorem initializes_of_structLit (found : start.structs.find? decl = some info)
    (reached : Reached settings items (.expr (.structLit decl fields span)) start)
    (quiet : Runs (inferExpr (.structLit decl fields span)) start ty after)
    (listed : entry ∈ literalFields info fields start) :
    Initializes settings items info (literalArgs info start) entry.field.name entry.ty := by
  have runs : Runs (inferFields info (literalArgs info start) decl fields span)
      (literalStart info start) ty after :=
    ⟨inferExpr_structLit found ▸ quiet.ok, quiet.quiet⟩
  rcases runs_bind.mp runs with ⟨seen, middle, ranFields, _⟩
  have called : ⟨.structFields info (literalArgs info start) [] fields, literalStart info start⟩ ∈
      (Task.expr (.structLit decl fields span)).walk.calls start := by
    change _ ∈ (Walk.step get >>= fun checker => _ : Walk Ty).calls start
    refine Walk.mem_calls_after (show (Walk.step get).run start = .ok start start from rfl) ?_
    rw [found]
    exact Walk.mem_calls_after (show (Walk.step (freshList info.generics.length)).run start =
      .ok (literalArgs info start) (literalStart info start) from rfl) mem_calls_call
  exact initializes_of_listed (.call reached called) ranFields listed

theorem inferField_named
    (found : before.structs.find? decl = some info) (declared : info.field? name = some written)
    (replaced : written.substParams? generics = some wanted) :
    inferField base name span (.named decl generics) before =
        .ok (written.substParams (generics.map before.subst.apply)) before ∨
      before.subst.applied? (.named decl generics) = none ∧
        inferField base name span (.named decl generics) before =
          .error .incompleteType before := by
  rcases applied : before.subst.applied? (.named decl generics) with _ | solution
  · right
    have stops : solved (.named decl generics) before = .error .incompleteType before := by
      change ofComplete (before.subst.applied? (.named decl generics)) before = _
      rw [applied]
      rfl
    refine ⟨rfl, ?_⟩
    change EStateM.bind (solved (.named decl generics)) _ before = _
    rw [EStateM.bind, stops]
  · left
    have known : solution = .named decl (generics.map before.subst.apply) := by
      rcases Subst.applied?_eq_some.mp applied with ⟨_, rfl⟩
      exact Subst.apply_named ..
    refine bind_eq_ok.mpr ⟨solution, before, (runs_solved.mpr ⟨applied, rfl⟩).ok, ?_⟩
    refine bind_eq_ok.mpr
      ⟨some (written.substParams (generics.map before.subst.apply)), before, ?_, rfl⟩
    rw [known, fieldType?, get_bind, found]
    dsimp only
    rw [structField?, declared]
    refine bind_eq_ok.mpr ⟨_, before, ?_, rfl⟩
    rw [Ty.substParams?_of_length (List.length_map _) replaced]
    rfl

theorem access_of_initializes (found : start.structs.find? decl = some info)
    (reached : Reached settings items (.expr base) start)
    (ran : inferExpr base start = .ok (.named decl generics) after)
    (initializes : Initializes settings items info generics name ty) (span : Span) :
    (∃ read, inferExpr (.fieldAccess base name span) start = .ok read after ∧
      EndsEqual settings items read ty) ∨
      after.subst.applied? (.named decl generics) = none ∧
        inferExpr (.fieldAccess base name span) start = .error .incompleteType after := by
  rcases initializes with ⟨written, wanted, declared, replaced, same⟩
  have foundAfter : after.structs.find? decl = some info := by
    rw [(sameDeclarations_of_ok reached rfl ran).structs, found]
  have access : inferExpr (.fieldAccess base name span) start =
      inferField base name span (.named decl generics) after := by
    rw [inferExpr]
    change EStateM.bind (inferExpr base) _ start = _
    rw [EStateM.bind, ran]
  rw [access]
  rcases inferField_named foundAfter declared replaced with read | stops
  · refine .inl ⟨_, read, ?_⟩
    -- The declared type is taken at solved arguments, which are not changed by solving them again.
    have args : (generics.map after.subst.apply).map (check settings (some items)).subst.apply =
        generics.map (check settings (some items)).subst.apply := by
      rw [List.map_map]
      exact List.map_congr_left fun arg _ => apply_apply_of_reached reached ran arg
    refine Eq.trans ?_ same
    rw [Ty.substParams?_eq_some replaced]
    exact Ty.bindVars_substParams_congr args written
  · exact .inr stops

/-- A name that a pattern binds. -/
structure Binder where
  id : LocalId
  name : String
  span : Span

namespace Binder

/-- The pattern that binds the name. -/
def pattern (binder : Binder) : Pattern := .bind binder.id binder.name binder.span

/-- The locals after binding an unused name. -/
def bindIn (binder : Binder) (ty : Ty) (locals : Locals) : Locals :=
  locals.bind binder.id ⟨ty, binder.name, binder.span, false⟩

end Binder

theorem checkKnownFields_append (find : String → CheckM (Option Ty)) (expected : Ty)
    (early late : List (Field Pattern)) :
    checkKnownFields find expected (early ++ late) = (do
      checkKnownFields find expected early
      checkKnownFields find expected late) := by
  induction early with
  | nil =>
    rw [List.nil_append, checkKnownFields]
    rfl
  | cons entry rest ih =>
    rw [List.cons_append, checkKnownFields, checkKnownFields, ih, bind_assoc]
    refine congrArg _ (funext fun found => ?_)
    cases found <;> simp only [bind_assoc]

theorem checkPattern_struct (found : before.structs.find? decl = some info)
    (entries : List (Field Pattern)) :
    checkPattern (.record entries span) (.named decl generics) before =
      checkKnownFields (structField? info generics) (.named decl generics) entries before := by
  have known : knownFields (.named decl generics) before =
      .ok (some (structField? info generics)) before := by
    have stays : before.subst.shallow (.named decl generics) = .named decl generics :=
      Subst.follow_of_noVar (by simp) _
    have looked : shallow (.named decl generics) before = .ok (.named decl generics) before := by
      change ofComplete (before.subst.shallow? (.named decl generics)) before = _
      rw [Subst.shallow?, stays]
      rfl
    refine bind_eq_ok.mpr ⟨_, before, looked, ?_⟩
    change EStateM.Result.ok ((before.structs.find? decl).map _) before = _
    rw [found]
    rfl
  rw [checkPattern_record]
  change EStateM.bind (knownFields (.named decl generics)) _ before = _
  rw [EStateM.bind, known]
  rfl

theorem binds_field (found : before.structs.find? decl = some info)
    (foundMiddle : middle.structs.find? decl = some info)
    (declared : info.field? name = some written)
    (replaced : written.substParams? generics = some wanted) {early : List (Field Pattern)}
    (ran : checkPattern (.record early span) (.named decl generics) before = .ok () middle)
    (binder : Binder) (place : Span) (late : List (Field Pattern)) :
    checkPattern (.record (early ++ ⟨name, binder.pattern, place⟩ :: late) span)
    (.named decl generics)
        before =
      checkPattern (.record late span) (.named decl generics)
        { middle with locals := binder.bindIn wanted middle.locals } := by
  have foundBound :
      { middle with locals := binder.bindIn wanted middle.locals }.structs.find? decl =
      some info := foundMiddle
  rw [checkPattern_struct found] at ran
  rw [checkPattern_struct found, checkPattern_struct foundBound, checkKnownFields_append]
  change EStateM.bind (checkKnownFields _ _ early) _ before = _
  rw [EStateM.bind, ran, checkKnownFields]
  have read : structField? info generics name middle = .ok (some wanted) middle := by
    rw [structField?, declared]
    refine bind_eq_ok.mpr ⟨wanted, middle, ?_, rfl⟩
    rw [replaced]
    rfl
  change EStateM.bind (structField? info generics name) _ middle = _
  rw [EStateM.bind, read]
  rfl

section Variants

variable {decl : DefId} {name : String} {args : List Expr} {types : List Ty} {info : EnumInfo}
  {variant : Variant}

theorem Runs.of_get {α : Type} {next : Checker → CheckM α} {result : α}
    (quiet : Runs (get >>= next) before result after) : Runs (next before) before result after :=
  ⟨quiet.ok, quiet.quiet⟩

theorem length_of_inferAll (ran : inferAll args before = .ok types after) :
    types.length = args.length := by
  induction args generalizing before types with
  | nil =>
    cases ran
    rfl
  | cons first rest ih =>
    rw [inferAll] at ran
    rcases bind_eq_ok.mp ran with ⟨ty, middle, _, ran⟩
    rcases bind_eq_ok.mp ran with ⟨others, last, ranRest, ⟨⟩⟩
    rw [List.length_cons, List.length_cons, ih ranRest]

theorem endsEqual_of_args {declared : List Ty} {done : Unit}
    (reached : Reached settings items (.args declared types args) before)
    (quiet : Runs (expectArgs declared types args) before done after)
    (sameDeclared : declared.length = args.length) (sameTypes : types.length = args.length) :
    List.Forall₂ (EndsEqual settings items) declared types := by
  induction args generalizing declared types before with
  | nil =>
    rw [List.length_eq_zero_iff.mp sameDeclared, List.length_eq_zero_iff.mp sameTypes]
    exact .nil
  | cons arg rest ih =>
    rcases declared with _ | ⟨wanted, declared⟩
    · cases sameDeclared
    rcases types with _ | ⟨ty, types⟩
    · cases sameTypes
    rw [expectArgs] at quiet
    rcases runs_bind.mp quiet with ⟨place, opened, ranPlace, quiet⟩
    rcases runs_bind.mp quiet with ⟨_, next, ranExpect, ranRest⟩
    have calledExpect : ⟨.expect wanted ty place, opened⟩ ∈
        (Task.args (wanted :: declared) (ty :: types) (arg :: rest)).walk.calls before :=
      Walk.mem_calls_after ranPlace.ok mem_calls_call
    have calledRest : ⟨.args declared types rest, next⟩ ∈
        (Task.args (wanted :: declared) (ty :: types) (arg :: rest)).walk.calls before :=
      Walk.mem_calls_after ranPlace.ok (Walk.mem_calls_after ranExpect.ok List.mem_cons_self)
    refine .cons (endsEqual_of_expect (.call reached calledExpect) ranExpect) ?_
    exact ih (.call reached calledRest) ranRest (Nat.succ.inj sameDeclared)
      (Nat.succ.inj sameTypes)

theorem of_inferVariant
    (reached : Reached settings items (.variantLit decl name args span types) before)
    (quiet : Runs (inferVariant decl name args span types) before ty after)
    (sameTypes : types.length = args.length) :
    ∃ info variant generics, before.enums.find? decl = some info ∧
      info.variant? name = some variant ∧ variant.fields.length = args.length ∧
      ty = .named decl generics ∧
      List.Forall₂ (EndsEqual settings items)
        (variant.fields.map (·.substParams generics)) types := by
  rw [inferVariant] at quiet
  replace quiet := quiet.of_get
  rcases declared : before.enums.find? decl with _ | info
  · rw [declared] at quiet
    rcases runs_bind.mp quiet with ⟨_, _, reported, _⟩
    exact absurd reported not_runs_reportUnbound
  rw [declared] at quiet
  rcases named : info.variant? name with _ | variant
  · simp only [named] at quiet
    rcases runs_bind.mp quiet with ⟨_, _, _, quiet⟩
    rcases runs_bind.mp quiet with ⟨_, _, reported, _⟩
    exact absurd reported not_runs_report
  simp only [named] at quiet
  rcases runs_bind.mp quiet with ⟨generics, opened, ranFresh, quiet⟩
  by_cases sameArity : variant.fields.length = args.length
  · rw [if_neg (not_not.mpr sameArity)] at quiet
    rcases runs_bind.mp quiet with ⟨_, _, ranArgs, isResult⟩
    have called : ⟨.args (variant.fields.map (·.substParams generics)) types args, opened⟩ ∈
        (Task.variantLit decl name args span types).walk.calls before := by
      change _ ∈ (Walk.ofVariantLit decl name args span types).calls before
      rw [Walk.ofVariantLit]
      refine Walk.mem_calls_after (show (Walk.step get).run before = .ok before before from rfl) ?_
      rw [declared]
      refine Walk.mem_calls_after ranFresh.ok ?_
      simp only [named]
      rw [if_neg (not_not.mpr sameArity)]
      exact mem_calls_call
    have agree := endsEqual_of_args (.call reached called) ranArgs
      ((List.length_map _).trans sameArity) sameTypes
    exact ⟨info, variant, generics, rfl, named, sameArity, (runs_pure.mp isResult).1, agree⟩
  · rw [if_pos sameArity] at quiet
    rcases runs_bind.mp quiet with ⟨_, _, reported, _⟩
    exact absurd reported not_runs_report

/-- The first variant of a name and the first one of an arity are the same, if the one has the
other's arity and the other the one's name. -/
theorem find?_eq_of_mutual {α : Type} {list : List α} {first second : α → Bool} {one other : α}
    (isOne : list.find? first = some one) (isOther : list.find? second = some other)
    (crossOne : second one = true) (crossOther : first other = true) : other = one := by
  induction list with
  | nil => cases isOne
  | cons value rest ih =>
    by_cases holds : first value = true
    · rw [List.find?_cons_of_pos holds] at isOne
      cases isOne
      rw [List.find?_cons_of_pos crossOne] at isOther
      cases isOther
      rfl
    · rw [List.find?_cons_of_neg holds] at isOne
      by_cases holds' : second value = true
      · rw [List.find?_cons_of_pos holds'] at isOther
        cases isOther
        exact absurd crossOther holds
      · rw [List.find?_cons_of_neg holds'] at isOther
        exact ih isOne isOther

theorem Unambiguous.selects {arity : Nat} (unambiguous : Unambiguous info name arity)
    (named : info.variant? name = some variant) (sameArity : variant.fields.length = arity) :
    (info.variantsOfArity arity).head? = some variant := by
  have candidate : variant ∈ info.variantsOfArity arity :=
    List.mem_filter.mpr ⟨List.mem_of_find?_eq_some named, decide_eq_true sameArity⟩
  rcases candidates : info.variantsOfArity arity with _ | ⟨first, others⟩
  · rw [candidates] at candidate
    cases candidate
  · by_cases isUnnamed : name = ""
    · cases unambiguous.unnamed first others candidates isUnnamed
      rw [candidates] at candidate
      rw [List.mem_singleton.mp candidate]
      rfl
    · have isFirst : info.variants.find? (fun found => decide (found.fields.length = arity)) =
          some first := by
        rw [← List.head?_filter]
        exact congrArg List.head? candidates
      have sameName := unambiguous.named first others candidates isUnnamed
      rw [find?_eq_of_mutual named isFirst (decide_eq_true sameArity)
        (decide_eq_true sameName.symm)]
      rfl

/-- The locals after binding names in order. -/
def bindAll (locals : Locals) (binders : List Binder) (types : List Ty) :
    Locals :=
  (binders.zip types).foldl (fun locals (binder, ty) => binder.bindIn ty locals) locals

theorem checkPatterns_binders (binders : List Binder) (types : List Ty) (before : Checker) :
    checkPatterns (binders.map Binder.pattern) types before =
      .ok () { before with locals := bindAll before.locals binders types } := by
  induction binders generalizing types before with
  | nil => rfl
  | cons binder rest ih =>
    cases types with
    | nil => rfl
    | cons ty types =>
      rw [List.map_cons, checkPatterns]
      exact ih types { before with locals := binder.bindIn ty before.locals }

/-- A constructor pattern of variables, checked without a report against the type of a literal of
the same variant, binds them at the declared types for arguments that are the literal's in the
end. -/
theorem binds_args {binders : List Binder} {generics : List Ty} {last : Checker}
    (declared : before.enums.find? decl = some info) (named : info.variant? name = some variant)
    (sameArity : variant.fields.length = binders.length)
    (reached : Reached settings items
      (.pattern (.ctor decl name (binders.map Binder.pattern) span) (.named decl generics)) before)
    (quiet : Runs (checkPattern (.ctor decl name (binders.map Binder.pattern) span)
      (.named decl generics)) before () last) :
    ∃ generics', generics'.map (check settings (some items)).subst.apply =
        generics.map (check settings (some items)).subst.apply ∧
      last.locals = bindAll before.locals binders
        (variant.fields.map (·.substParams generics')) := by
  rw [checkPattern] at quiet
  replace quiet := quiet.of_get
  rw [declared] at quiet
  have quiet : Runs (asking (.named decl generics) info.generics.length (.named decl) span
    (checkVariant info name (binders.map Binder.pattern) span)) before () last := quiet
  rcases runs_bind.mp quiet with ⟨generics', taken, ranFresh, quiet⟩
  rcases runs_bind.mp quiet with ⟨_, compared, ranExpect, quiet⟩
  have called : ⟨.expect (.named decl generics) (.named decl generics') span, taken⟩ ∈
      (Task.pattern (.ctor decl name (binders.map Binder.pattern) span)
        (.named decl generics)).walk.calls before := by
    change _ ∈ (Walk.step get >>= fun checker => _ : Walk Unit).calls before
    refine Walk.mem_calls_after (show (Walk.step get).run before = .ok before before from rfl) ?_
    rw [declared]
    exact Walk.mem_calls_after ranFresh.ok mem_calls_call
  -- The pattern takes arguments of its own, and comparing the types made them the given ones.
  have agree := endsEqual_of_expect (.call reached called) ranExpect
  rw [EndsEqual, Subst.apply_named, Subst.apply_named, Ty.named.injEq] at agree
  rcases (runs_expect.mp ranExpect).of_unify with ⟨_, trace, rfl⟩
  cases ranFresh.ok
  rcases quiet.of_bind fun found _ _ _ => by cases found <;> infer_instance with
    ⟨selected, chosen, ranSelect, quiet⟩
  rcases of_selectVariant ranSelect with ⟨rfl, rfl, unambiguous⟩
  rw [List.length_map] at unambiguous quiet
  rw [unambiguous.selects named sameArity] at quiet
  have bound := quiet.ok
  dsimp only at bound
  rw [checkPatterns_binders] at bound
  cases bound
  exact ⟨_, agree.2.symm, rfl⟩

end Variants

/-- A field of a struct literal is read at the type that it was set to. An access right at the
literal gives that type, unless the type of the literal cannot be solved. A record pattern against
the type of the literal binds a variable at that type, between the entries before and after it. -/
structure ReadsBack (settings : Settings) (items : List Item) (literal : Expr) (start : Checker)
    (ty : Ty) (after : Checker) (name : String) (set : Ty) : Prop where
  access : ∀ place,
    (∃ read, inferExpr (.fieldAccess literal name place) start = .ok read after ∧
      EndsEqual settings items read set) ∨
    after.subst.applied? ty = none ∧
      inferExpr (.fieldAccess literal name place) start = .error .incompleteType after
  pattern : ∃ bound, EndsEqual settings items bound set ∧
    ∀ early binder place late span before middle,
      Reached settings items
        (.pattern (.record (early ++ ⟨name, Binder.pattern binder, place⟩ :: late) span) ty)
          before →
      checkPattern (.record early span) ty before = .ok () middle →
      checkPattern (.record (early ++ ⟨name, Binder.pattern binder, place⟩ :: late) span)
        ty before = checkPattern (.record late span) ty
          { middle with locals := binder.bindIn bound middle.locals }

/-- The variables of a constructor pattern that is checked without a report against the type of a
variant literal are bound at the types of the arguments. -/
def BindsBack (settings : Settings) (items : List Item) (decl : DefId) (name : String) (ty : Ty)
    (types : List Ty) : Prop :=
  ∀ binders span before last, binders.length = types.length →
    Reached settings items (.pattern (.ctor decl name (binders.map Binder.pattern) span) ty)
      before →
    Runs (checkPattern (.ctor decl name (binders.map Binder.pattern) span) ty) before () last →
    ∃ bounds, last.locals = bindAll before.locals binders bounds ∧
      List.Forall₂ (EndsEqual settings items) bounds types

theorem readsBack_of_structLit (found : start.structs.find? decl = some info)
    (reached : Reached settings items (.expr (.structLit decl fields span)) start)
    (quiet : Runs (inferExpr (.structLit decl fields span)) start ty after)
    (listed : entry ∈ literalFields info fields start) :
    ReadsBack settings items (.structLit decl fields span)
      start ty after entry.field.name entry.ty := by
  have initializes := initializes_of_structLit found reached quiet listed
  rcases of_structLit found quiet.ok with ⟨rfl, _⟩
  refine ⟨access_of_initializes found reached quiet.ok initializes, ?_⟩
  rcases initializes with ⟨written, wanted, declared, replaced, same⟩
  refine ⟨wanted, same,
    fun early binder place late patternSpan before middle reachedPattern ran => ?_⟩
  have sameStructs : before.structs = start.structs :=
    (sameDeclarations_of_reached reachedPattern rfl).structs.trans
      (sameDeclarations_of_reached reached rfl).structs.symm
  have keepsStructs : middle.structs = before.structs := by
    cases placed_of_reached reachedPattern with
    | collecting stage => cases stage
    | checking obeys fits _ =>
      exact (((keeps_checkPattern fits).changes obeys ran).sameDeclarations).structs
  have foundBefore : before.structs.find? decl = some info := sameStructs ▸ found
  exact binds_field foundBefore (keepsStructs ▸ foundBefore) declared replaced ran binder place late

theorem bindsBack_of_variant {args : List Expr}
    (reached : Reached settings items (.expr (.variant decl name args span)) start)
    (quiet : Runs (inferExpr (.variant decl name args span)) start ty after) :
    ∃ types, (∃ middle, inferAll args start = .ok types middle) ∧ types.length = args.length ∧
      BindsBack settings items decl name ty types := by
  rw [inferExpr] at quiet
  rcases runs_bind.mp quiet with ⟨types, middle, ranArgs, ranVariant⟩
  have sameLength := length_of_inferAll ranArgs.ok
  have called : ⟨.variantLit decl name args span types, middle⟩ ∈
      (Task.expr (.variant decl name args span)).walk.calls start :=
    Walk.mem_calls_after ranArgs.ok List.mem_cons_self
  have reachedLit := reached.call called
  rcases of_inferVariant reachedLit ranVariant sameLength with
    ⟨info, variant, generics, declared, named, sameArity, rfl, agree⟩
  refine ⟨types, ⟨middle, ranArgs.ok⟩, sameLength, ?_⟩
  intro binders patternSpan before last sameBinders reachedPattern quietPattern
  have sameEnums : before.enums = middle.enums :=
    (sameDeclarations_of_reached reachedPattern rfl).enums.trans
      (sameDeclarations_of_reached reachedLit rfl).enums.symm
  have declaredBefore : before.enums.find? decl = some info := sameEnums ▸ declared
  have arity : variant.fields.length = binders.length :=
    sameArity.trans (sameLength.symm.trans sameBinders.symm)
  rcases binds_args declaredBefore named arity reachedPattern quietPattern with
    ⟨generics', sameArgs, bound⟩
  refine ⟨_, bound, List.forall₂_map_left_iff.mpr ?_⟩
  refine (List.forall₂_map_left_iff.mp agree).imp fun field ty same => ?_
  exact (Ty.bindVars_substParams_congr sameArgs field).trans same

/-- Construction and destructuring agree, if no two items share a number. A struct literal reports
what its values report and, in its own right, what is wrong with its fields. The latter is nothing
about its labels if they are the declared names in some order, and if the literal is checked to its
end, only then; only a check that stops short of its own end may leave a literal unfinished. If the
literal reports nothing at all, its fields are read at the types of their values. Variables of a
constructor pattern are bound at the types of the arguments of a variant literal. -/
theorem reads_back_constructed (distinct : (items.filterMap Item.id?).Nodup) :
    (∀ item fields span start, .struct item ∈ items →
      Reached settings items (.expr (.structLit item.id fields span)) start →
      ∃ info, start.structs.find? item.id = some info ∧
        (reported (inferExpr (.structLit item.id fields span)) start).Perm
          (valueReports info fields start ++ fieldReports info fields span start) ∧
        (fieldReports info fields span start).Sublist
          (reported (inferExpr (.structLit item.id fields span)) start) ∧
        (∀ final, checkItems items (initial settings) = .ok () final →
          ∃ ty after, inferExpr (.structLit item.id fields span) start = .ok ty after) ∧
        ((fields.map (·.name)).Perm (item.fields.map (·.name)).dedup →
          ∀ diagnostic ∈ fieldReports info fields span start, diagnostic.isLabel = false) ∧
        ∀ ty after, inferExpr (.structLit item.id fields span) start = .ok ty after →
          ((∀ diagnostic ∈ fieldReports info fields span start, diagnostic.isLabel = false) →
            (fields.map (·.name)).Perm (item.fields.map (·.name)).dedup) ∧
          (literalFields info fields start).map (·.field) = fields ∧
          (after.log = start.log → ∀ entry ∈ literalFields info fields start,
            ReadsBack settings items (.structLit item.id fields span)
              start ty after entry.field.name entry.ty)) ∧
    ∀ decl name args span start ty after,
      Reached settings items (.expr (.variant decl name args span)) start →
      Runs (inferExpr (.variant decl name args span)) start ty after →
      ∃ types, (∃ middle, inferAll args start = .ok types middle) ∧ types.length = args.length ∧
        BindsBack settings items decl name ty types := by
  refine ⟨fun item fields span start member reached => ?_, fun _ _ _ _ _ _ _ =>
    bindsBack_of_variant⟩
  rcases hasStruct_of_reached reached distinct member rfl with ⟨info, found, lists⟩
  refine ⟨info, found, perm_reported_structLit found, sublist_reported_structLit found,
    fun final ran => returns_of_reached reached ran, fun perm => ?_, fun ty after ran => ?_⟩
  · exact unlabelled_of_perm lists.nodup (perm.trans lists.perm_dedup.symm)
  · refine ⟨fun unlabelled => ?_, ?_, fun same entry listed => ?_⟩
    · exact (perm_of_unlabelled lists.nodup found ran unlabelled).trans lists.perm_dedup
    · rcases of_structLit found ran with ⟨_, seen, middle, ranFields, _⟩
      exact initializations_of_ok ranFields
    · exact readsBack_of_structLit found reached ⟨ran, same⟩ listed

def pairFields : List (Field Expr) :=
  [⟨"right", .localRef ⟨1⟩ .empty, .empty⟩, ⟨"left", .list [] .empty, .empty⟩]

/-- Builds a pair and takes one side out of it, then wraps that and takes it out again. -/
def pairBody : Expr :=
  .block [.letBind (.record [⟨"left", .bind ⟨2⟩ "xs" .empty, .empty⟩] .empty) .absent
      (.structLit ⟨1⟩ pairFields .empty) .empty]
    (.matchOn (.variant ⟨2⟩ "Some" [.localRef ⟨2⟩ .empty] .empty)
      [.mk (.ctor ⟨2⟩ "Some" [.bind ⟨3⟩ "ys" .empty] .empty) .missing (.localRef ⟨3⟩ .empty) .empty,
       .mk (.ctor ⟨2⟩ "None" [] .empty) .missing (.localRef ⟨2⟩ .empty) .empty] .empty) .empty

def pairItems : List Item :=
  [.struct ⟨⟨1⟩, "Pair", .empty, ["A", "B"],
      [⟨"left", .list (.param 0 "A"), .empty⟩, ⟨"right", .param 1 "B", .empty⟩]⟩,
    .enum ⟨⟨2⟩, "Option", .empty, ["T"], [⟨"Some", [.param 0 "T"], .empty⟩, ⟨"None", [], .empty⟩]⟩,
    .function ⟨⟨3⟩, "swap", .empty, [], [⟨⟨1⟩, "n", .prim .int, .empty⟩], .absent, pairBody⟩]

/-- Whether a call comes to its end without a report, and passes a test together with its result. -/
def Call.isQuiet (test : {α : Type} → Task α → α → Bool) (call : Call) : Bool :=
  match call.task.run call.start with
  | .ok result after => test call.task result && after.log = call.start.log
  | .error _ _ => false

theorem exists_quiet {items : List Item} {path : List Nat}
    {test : {α : Type} → Task α → α → Bool}
    (found : (Call.follow ⟨.items items, initial {}⟩ path).any (Call.isQuiet test) = true) :
    ∃ (α : Type) (task : Task α) (start : Checker) (result : α) (after : Checker),
      Reached {} items task start ∧ Runs task.run start result after ∧ test task result = true := by
  rcases (Option.any_eq_true _ _).mp found with ⟨call, followed, quiet⟩
  unfold Call.isQuiet at quiet
  split at quiet
  · next result after ran =>
      rcases Bool.and_eq_true_iff.mp quiet with ⟨passed, same⟩
      exact ⟨_, call.task, call.start, result, after, .follow .start followed,
        ⟨ran, of_decide_eq_true same⟩, passed⟩
  · cases quiet

-- Numbers of variables tie the patterns below to the literals whose types they are checked against.
def buildsPair : {α : Type} → Task α → α → Bool
  | _, .expr (.structLit decl fields _), .named decl' [.var first, .var second] =>
    decl = ⟨1⟩ && decl' = ⟨1⟩ && first = 1 && second = 2 && fields.map (·.name) = ["right", "left"]
  | _, _, _ => false

def matchesPair : {α : Type} → Task α → α → Bool
  | _, .pattern (.record [⟨name, .bind _ _ _, _⟩] _) (.named decl [.var first, .var second]), _ =>
    decl = ⟨1⟩ && first = 1 && second = 2 && name = "left"
  | _, _, _ => false

def buildsSome : {α : Type} → Task α → α → Bool
  | _, .expr (.variant decl name [_] _), .named decl' [.var id] =>
    decl = ⟨2⟩ && decl' = ⟨2⟩ && id = 4 && name = "Some"
  | _, _, _ => false

def matchesSome : {α : Type} → Task α → α → Bool
  | _, .pattern (.ctor decl name [.bind _ _ _] _) (.named decl' [.var id]), _ =>
    decl = ⟨2⟩ && decl' = ⟨2⟩ && id = 4 && name = "Some"
  | _, _, _ => false

theorem exists_pair : ∃ fields span start after,
    Reached {} pairItems (.expr (.structLit ⟨1⟩ fields span)) start ∧
    Runs (inferExpr (.structLit ⟨1⟩ fields span)) start (.named ⟨1⟩ [.var 1, .var 2]) after ∧
    fields.map (·.name) = ["right", "left"] := by
  have found : (Call.follow ⟨.items pairItems, initial {}⟩ [2, 0, 0, 0, 0]).any
    (Call.isQuiet buildsPair) = true := by decide +kernel
  rcases exists_quiet found with ⟨α, task, start, result, after, reached, quiet, passed⟩
  unfold buildsPair at passed
  split at passed
  · simp only [Bool.and_eq_true, decide_eq_true_eq] at passed
    rcases passed with ⟨⟨⟨⟨rfl, rfl⟩, rfl⟩, rfl⟩, labels⟩
    exact ⟨_, _, start, after, reached, quiet, labels⟩
  · cases passed

theorem exists_pair_pattern : ∃ binder place span start,
    Reached {} pairItems (.pattern (.record [⟨"left", Binder.pattern binder, place⟩] span)
      (.named ⟨1⟩ [.var 1, .var 2])) start := by
  have found : (Call.follow ⟨.items pairItems, initial {}⟩ [2, 0, 0, 0, 1, 0]).any
    (Call.isQuiet matchesPair) = true := by decide +kernel
  rcases exists_quiet found with ⟨α, task, start, result, after, reached, _, passed⟩
  unfold matchesPair at passed
  split at passed
  · simp only [Bool.and_eq_true, decide_eq_true_eq] at passed
    rcases passed with ⟨⟨⟨rfl, rfl⟩, rfl⟩, rfl⟩
    exact ⟨⟨_, _, _⟩, _, _, start, reached⟩
  · cases passed

theorem exists_some : ∃ arg span start after,
    Reached {} pairItems (.expr (.variant ⟨2⟩ "Some" [arg] span)) start ∧
    Runs (inferExpr (.variant ⟨2⟩ "Some" [arg] span)) start (.named ⟨2⟩ [.var 4]) after := by
  have found : (Call.follow ⟨.items pairItems, initial {}⟩ [2, 0, 0, 1, 0]).any
    (Call.isQuiet buildsSome) = true := by decide +kernel
  rcases exists_quiet found with ⟨α, task, start, result, after, reached, quiet, passed⟩
  unfold buildsSome at passed
  split at passed
  · simp only [Bool.and_eq_true, decide_eq_true_eq] at passed
    rcases passed with ⟨⟨⟨rfl, rfl⟩, rfl⟩, rfl⟩
    exact ⟨_, _, start, after, reached, quiet⟩
  · cases passed

theorem exists_some_pattern : ∃ binder span start after,
    Reached {} pairItems (.pattern (.ctor ⟨2⟩ "Some" [Binder.pattern binder] span)
      (.named ⟨2⟩ [.var 4])) start ∧
    Runs (checkPattern (.ctor ⟨2⟩ "Some" [Binder.pattern binder] span) (.named ⟨2⟩ [.var 4]))
      start () after := by
  have found : (Call.follow ⟨.items pairItems, initial {}⟩ [2, 0, 0, 1, 1, 0]).any
    (Call.isQuiet matchesSome) = true := by decide +kernel
  rcases exists_quiet found with ⟨α, task, start, result, after, reached, quiet, passed⟩
  unfold matchesSome at passed
  split at passed
  · simp only [Bool.and_eq_true, decide_eq_true_eq] at passed
    rcases passed with ⟨⟨⟨rfl, rfl⟩, rfl⟩, rfl⟩
    exact ⟨⟨_, _, _⟩, _, start, after, reached, quiet⟩
  · cases passed

theorem reads_back_constructed_pair :
    (pairItems.filterMap Item.id?).Nodup ∧
    (∃ fields span start after info,
      Reached {} pairItems (.expr (.structLit ⟨1⟩ fields span)) start ∧
      Runs (inferExpr (.structLit ⟨1⟩ fields span)) start (.named ⟨1⟩ [.var 1, .var 2]) after ∧
      fields.map (·.name) = ["right", "left"] ∧
      (∀ diagnostic ∈ fieldReports info fields span start, diagnostic.isLabel = false) ∧
      (literalFields info fields start).map (·.field) = fields ∧
      ∀ entry ∈ literalFields info fields start,
        ReadsBack {} pairItems (.structLit ⟨1⟩ fields span) start
          (.named ⟨1⟩ [.var 1, .var 2]) after entry.field.name entry.ty) ∧
    (∃ binder place span start,
      Reached {} pairItems (.pattern (.record [⟨"left", Binder.pattern binder, place⟩] span)
        (.named ⟨1⟩ [.var 1, .var 2])) start) ∧
    ∃ arg span start found middle binder patternSpan before last bound,
      Reached {} pairItems (.expr (.variant ⟨2⟩ "Some" [arg] span)) start ∧
      inferAll [arg] start = .ok [found] middle ∧
      Runs (checkPattern (.ctor ⟨2⟩ "Some" [Binder.pattern binder] patternSpan)
        (.named ⟨2⟩ [.var 4])) before () last ∧
      last.locals = bindAll before.locals [binder] [bound] ∧
        EndsEqual {} pairItems bound found := by
  have distinct : (pairItems.filterMap Item.id?).Nodup := by decide
  rcases @reads_back_constructed {} pairItems distinct with ⟨ofStruct, ofVariant⟩
  rcases exists_pair with ⟨fields, span, start, after, reached, quiet, labels⟩
  rcases exists_some with ⟨arg, argSpan, begins, ends, reachedSome, quietSome⟩
  rcases exists_some_pattern with ⟨binder, patternSpan, before, last, reachedPattern, quietPattern⟩
  rcases ofStruct _ fields span start List.mem_cons_self reached with
    ⟨info, found, _, _, _, unlabelled, finished⟩
  rcases finished _ _ quiet.ok with ⟨_, listed, readsBack⟩
  rcases ofVariant _ _ _ _ _ _ _ reachedSome quietSome with
    ⟨types, ⟨middle, ranArgs⟩, sameLength, binds⟩
  rcases List.length_eq_one_iff.mp sameLength with ⟨ty, rfl⟩
  rcases binds [binder] patternSpan before last rfl reachedPattern quietPattern with
    ⟨bounds, bound, same⟩
  rcases List.forall₂_cons_right_iff.mp same with ⟨boundTy, others, sameTy, rest, rfl⟩
  cases rest
  have perm : (fields.map (·.name)).Perm ["left", "right"] := by
    rw [labels]
    decide
  refine ⟨distinct,
    ⟨fields, span, start, after, info, reached, quiet, labels, unlabelled perm, listed,
    readsBack quiet.quiet⟩, exists_pair_pattern, ?_⟩
  exact ⟨arg, argSpan, begins, ty, middle, binder, patternSpan, before, last, boundTy, reachedSome,
    ranArgs, quietPattern, bound, sameTy⟩

/-- The value of the one field that is set is missing, and that ends the check before the other
field is missed. -/
def unsetItems : List Item :=
  [.struct ⟨⟨1⟩, "S", .empty, [], [⟨"x", .prim .unit, .empty⟩, ⟨"y", .prim .int, .empty⟩]⟩,
    .function
      ⟨⟨2⟩, "main", .empty, [], [], .absent, .structLit ⟨1⟩ [⟨"x", .missing, .empty⟩] .empty⟩]

def Call.setsQuietly (labels : List String) : Call → Bool
  | ⟨.expr (.structLit decl fields span), start⟩ =>
    decl = ⟨1⟩ && fields.map (·.name) = labels &&
      (reported (inferExpr (.structLit decl fields span)) start).isEmpty
  | _ => false

/-- A literal that does not set all fields can go unreported. -/
theorem labels_escape_unset :
    (unsetItems.filterMap Item.id?).Nodup ∧
      ∃ item fields span start, .struct item ∈ unsetItems ∧
        Reached {} unsetItems (.expr (.structLit item.id fields span)) start ∧
        reported (inferExpr (.structLit item.id fields span)) start = [] ∧
        ¬(fields.map (·.name)).Perm (item.fields.map (·.name)) := by
  have found : (Call.follow ⟨.items unsetItems, initial {}⟩ [2, 0, 0]).any
    (Call.setsQuietly ["x"]) = true := by decide +kernel
  rcases (Option.any_eq_true _ _).mp found with ⟨call, followed, sets⟩
  have reached := Reached.follow .start followed
  unfold Call.setsQuietly at sets
  split at sets
  · next decl fields span start =>
      simp only [Bool.and_eq_true, decide_eq_true_eq] at sets
      rcases sets with ⟨⟨rfl, labels⟩, quiet⟩
      refine ⟨by decide, _, fields, span, start, List.mem_cons_self, reached,
        List.isEmpty_iff.mp quiet, ?_⟩
      rw [labels]
      decide
  · cases sets

end Checker

end TraitCheck
