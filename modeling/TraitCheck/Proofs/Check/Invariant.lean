import TraitCheck.Proofs.Check.Contracts

/-!
# Every call of a check is ready

One lemma for each procedure says that its contract holds, given the contracts of the procedures
that it calls. The recursion of the checker follows the syntax tree, and so does the induction that
puts the lemmas together. In the end every call that a check makes starts in a state that obeys the
policy, and so does the state in which it ends.
-/

namespace TraitCheck

variable {items : List Item} {α : Type} {start : Checker} {resolution : Resolution} {ty : Ty}
variable {impl : Impl} {settings : Settings} {types : List Ty}

namespace Registry

variable {registry : Registry} {self : Ty} {name : String}

theorem mem_of_implsAt {ids : List Nat} (member : impl ∈ registry.implsAt ids) :
    impl ∈ registry.impls := by
  obtain ⟨id, _, found⟩ := List.mem_filterMap.mp member
  exact List.mem_of_getElem? found

theorem mem_of_allMatching {impls found : List Impl}
    (matched : allMatching self impls = some found) (member : impl ∈ found) : impl ∈ impls := by
  induction impls generalizing found with
  | nil =>
    cases matched
    cases member
  | cons first rest ih =>
    rw [allMatching] at matched
    split at matched
    · cases matched
    · obtain ⟨others, restMatched, rfl⟩ := Option.map_eq_some_iff.mp matched
      rcases List.mem_cons.mp member with rfl | inOthers
      · exact List.mem_cons_self
      · exact List.mem_cons_of_mem _ (ih restMatched inOthers)
    · exact List.mem_cons_of_mem _ (ih matched member)

theorem mem_of_firstMatching {impls : List Impl}
    (matched : firstMatching self impls = some (some impl)) : impl ∈ impls := by
  induction impls with
  | nil => cases matched
  | cons first rest ih =>
    rw [firstMatching] at matched
    split at matched
    · cases matched
    · cases matched
      exact List.mem_cons_self
    · exact List.mem_cons_of_mem _ (ih matched)

/-- A type that is registered with a trait or an impl. -/
def Registers (registry : Registry) (ty : Ty) : Prop :=
  ty ∈ registry.traits.flatMap Trait.types ∨ ty ∈ registry.impls.flatMap Impl.types

theorem registers_method {method : ImplMethod} (registered : impl ∈ registry.impls)
    (found : impl.method? name = some method) : registry.Registers method.ty := by
  refine .inr (List.mem_flatMap_of_mem registered (List.mem_cons_of_mem _ ?_))
  exact List.mem_append_left _ (List.mem_map_of_mem (List.mem_of_find?_eq_some found))

theorem registers_resolution {trait : Nat} (registered : impl ∈ registry.impls)
    (resolved : registry.resolution? name trait impl = some resolution) :
    ∀ ty ∈ resolution.types, registry.Registers ty := by
  obtain ⟨declared, isTrait, rest⟩ := Option.bind_eq_some_iff.mp resolved
  obtain ⟨decl, isDecl, last⟩ := Option.bind_eq_some_iff.mp rest
  split at last
  · next method found =>
      cases last
      intro ty member
      exact List.mem_singleton.mp member ▸ registers_method registered found
  · cases last
    intro ty member
    refine .inl (List.mem_flatMap_of_mem (List.mem_of_getElem? isTrait) ?_)
    exact List.mem_append_left _
      (List.mem_flatMap_of_mem (List.mem_of_find?_eq_some isDecl) member)

theorem registers_resolveIn? {traits : List Nat}
    (resolved : registry.resolveIn? self name traits = some (some resolution)) :
    ∀ ty ∈ resolution.types, registry.Registers ty := by
  induction traits with
  | nil => cases resolved
  | cons trait rest ih =>
    rw [resolveIn?] at resolved
    split at resolved
    · cases resolved
    · next found matched =>
        split at resolved
        · next chosen isChosen =>
            cases resolved
            obtain ⟨impl, rfl, made⟩ := Option.bind_eq_some_iff.mp isChosen
            exact registers_resolution (mem_of_implsAt (mem_of_firstMatching matched)) made
        · exact ih resolved

theorem types_of_resolveMethod?
    (resolved : registry.resolveMethod? self name = some (some resolution))
    (member : ty ∈ resolution.types) : registry.Registers ty := by
  unfold resolveMethod? at resolved
  split at resolved
  · cases resolved
  · next chosen inherent =>
      cases resolved
      obtain ⟨impls, matched, found⟩ := Option.map_eq_some_iff.mp inherent
      obtain ⟨impl, implMember, made⟩ := List.exists_of_findSome?_eq_some found
      obtain ⟨method, isMethod, rfl⟩ := Option.map_eq_some_iff.mp made
      have registered := mem_of_implsAt (mem_of_allMatching matched implMember)
      exact List.mem_singleton.mp member ▸ registers_method registered isMethod
  · exact registers_resolveIn? resolved ty member

end Registry

namespace Checker

variable {policy : Policy} {declaring : Bool} {before : Checker} {checker : Checker}
  {rest : List Ty} {task : Task α}

theorem WritesAll.left {first second : List Ty} (writes : WritesAll policy (first ++ second)) :
    WritesAll policy first :=
  fun ty member => writes ty (List.mem_append_left _ member)

theorem WritesAll.right {first second : List Ty} (writes : WritesAll policy (first ++ second)) :
    WritesAll policy second :=
  fun ty member => writes ty (List.mem_append_right _ member)

theorem WritesAll.head {first : Ty} (writes : WritesAll policy (first :: rest)) :
    policy.Writes 0 first :=
  writes first List.mem_cons_self

theorem WritesAll.tail {first : Ty} (writes : WritesAll policy (first :: rest)) :
    WritesAll policy rest :=
  fun ty member => writes ty (List.mem_cons_of_mem _ member)

theorem holds_expect (expected found : Ty) (span : Span) :
    Holds policy declaring (.expect expected found span) :=
  fun _ ready => watches_compare ready.1 ready.2

theorem holds_resolve (ty : Ty) : Holds policy declaring (.resolve ty) :=
  fun _ ready => watches_step (keeps_resolveType ready)

/-- The type of an expression is compared at the place of the expression. -/
theorem watches_expectAt {expected found : Ty} {node : Expr} {next : Unit → Walk α}
    {good : α → Checker → Prop} (fitsExpected : policy.FitsIn before expected)
    (fitsFound : policy.FitsIn before found)
    (second : ∀ after, Changes policy declaring before after →
      Watches policy declaring (next ()) after good) :
    Watches policy declaring (do
      let span ← Walk.step (spanOf node)
      Walk.call (.expect expected found span) >>= next) before good := by
  refine watches_reads fun _ middle early => ?_
  refine (holds_expect _ _ _).bind ⟨early.fits fitsExpected, early.fits fitsFound⟩ ?_
  exact fun _ after late _ => second after (early.trans late)

theorem fits_ofList {names : List String} (fit : FitAll policy checker types) :
    policy.FitsIn checker (.record (Row.ofList (names.zip types))) := by
  refine Policy.admits_record fun field member => ?_
  rcases Row.mem_insertAll member with added | ⟨⟨⟩⟩
  exact fit field.2 (List.of_mem_zip added).2

mutual

theorem holds_pattern : (shape : Pattern) → (expected : Ty) →
    Holds policy declaring (.pattern shape expected)
  | .missing, _ => fun _ _ => watches_step keeps_throw
  | .wildcard _, _ => fun _ _ => watches_pure trivial
  | .bind _ _ _, _ => fun _ fits => watches_step (keeps_bindLocal fits)
  | .literal _, _ => fun _ fits => (holds_expect _ _ _).call ⟨fits, Policy.admits_prim _⟩
  | .tuple shapes _, _ => by
    intro before fits
    refine watches_after (keeps_freshList _) ?_
    intro types middle changes ⟨sameLength, fitTypes⟩
    refine (holds_expect _ _ _).bind
      ⟨changes.fits fits, Policy.admits_tuple fitTypes⟩ ?_
    intro _ after later _
    exact (holds_patterns shapes types).call ⟨sameLength.symm, later.fitAll fitTypes⟩
  | .list shapes _, _ => by
    intro before fits
    refine watches_fresh fun elem middle changes fitsElem => ?_
    refine (holds_expect _ _ _).bind ⟨changes.fits fits, fitsElem.list⟩ ?_
    intro _ after later _
    refine (holds_patterns shapes _).call ⟨List.length_replicate.symm, fun ty member => ?_⟩
    exact List.eq_of_mem_replicate member ▸ later.fits fitsElem
  | .record entries _, expected => by
    intro before fits
    refine watches_after (keeps_knownFields fits) ?_
    intro result middle changes finds
    cases result with
    | some find =>
      exact (holds_knownFields find expected entries).call
        ⟨finds find rfl, changes.fits fits⟩
    | none =>
      refine watches_after (keeps_freshList _) ?_
      intro types reached toReached ⟨sameLength, fitTypes⟩
      refine (holds_expect _ _ _).bind
        ⟨(changes.trans toReached).fits fits, fits_ofList fitTypes⟩ ?_
      intro _ after later _
      exact (holds_fields entries types).call ⟨sameLength.symm, later.fitAll fitTypes⟩
  | .ctor decl _ shapes _, _ => by
    intro before fits
    refine watches_get fun obeys => ?_
    split
    · refine watches_reads fun _ _ _ => ?_
      exact (holds_untyped shapes).call trivial
    · next info declared =>
        refine watches_after (keeps_freshList _) ?_
        intro generics middle changes ⟨_, fitGenerics⟩
        refine (holds_expect _ _ _).bind
          ⟨changes.fits fits, Policy.admits_named decl fitGenerics⟩ ?_
        intro _ compared toCompared _
        refine watches_after keeps_selectVariant ?_
        intro result after toAfter selected
        cases result with
        | none => exact (holds_untyped shapes).call trivial
        | some found =>
          obtain ⟨isVariant, sameArity⟩ := selected found rfl
          refine (holds_patterns shapes _).call
            ⟨by rw [List.length_map, sameArity], fun ty member => ?_⟩
          obtain ⟨field, fieldMember, rfl⟩ := List.mem_map.mp member
          have inInfo : field ∈ info.types := List.mem_flatMap_of_mem isVariant fieldMember
          have toEnd := toCompared.trans toAfter
          exact ((changes.trans toEnd).fits (obeys.enum declared field inInfo)).substParams
            (toEnd.fitAll fitGenerics)
  | .foreign _ _, _ => fun _ _ => watches_step (keeps_reads.mono fun _ _ _ _ => trivial)

theorem holds_patterns : (shapes : List Pattern) → (types : List Ty) →
    Holds policy declaring (.patterns shapes types)
  | shape :: shapes, ty :: types => by
    intro before ⟨sameLength, fit⟩
    have ⟨fits, fitRest⟩ := List.forall_mem_cons.mp fit
    refine (holds_pattern shape ty).bind fits fun _ after changes _ => ?_
    exact (holds_patterns shapes types).call
      ⟨Nat.succ.inj sameLength, changes.fitAll fitRest⟩
  | [], _ | _ :: _, [] => fun _ _ => watches_pure trivial

theorem holds_untyped : (shapes : List Pattern) → Holds policy declaring (.untyped shapes)
  | [] => fun _ _ => watches_pure trivial
  | shape :: shapes => by
    intro before _
    refine watches_fresh fun ty _ _ fits => ?_
    refine (holds_pattern shape ty).bind fits fun _ _ _ _ => ?_
    exact (holds_untyped shapes).call trivial

theorem holds_fields : (entries : List (Field Pattern)) → (types : List Ty) →
    Holds policy declaring (.fields entries types)
  | ⟨_, shape, _⟩ :: entries, ty :: types => by
    intro before ⟨sameLength, fit⟩
    have ⟨fits, fitRest⟩ := List.forall_mem_cons.mp fit
    refine (holds_pattern shape ty).bind fits fun _ after changes _ => ?_
    exact (holds_fields entries types).call
      ⟨Nat.succ.inj sameLength, changes.fitAll fitRest⟩
  | [], _ | _ :: _, [] => fun _ _ => watches_pure trivial

theorem holds_knownFields (find : String → CheckM (Option Ty)) (expected : Ty) :
    (entries : List (Field Pattern)) → Holds policy declaring (.knownFields find expected entries)
  | [] => fun _ _ => watches_pure trivial
  | ⟨name, shape, _⟩ :: entries => by
    intro before ⟨finds, fits⟩
    refine watches_after (finds name before .refl) ?_
    intro found middle changes fitsFound
    have rest : ∀ after, Changes policy declaring middle after →
        Watches policy declaring (Walk.call (.knownFields find expected entries)) after
          fun _ _ => True :=
      fun after later => (holds_knownFields find expected entries).call
        ⟨fun name last more => finds name last ((changes.trans later).trans more),
          (changes.trans later).fits fits⟩
    cases found with
    | some ty =>
      refine (holds_pattern shape ty).bind (fitsFound ty rfl) ?_
      exact fun _ after later _ => rest after later
    | none =>
      refine watches_reads fun _ reported toReported => ?_
      refine watches_fresh fun ty taken toTaken fitsTy => ?_
      refine (holds_pattern shape ty).bind fitsTy fun _ after later _ => ?_
      exact rest after ((toReported.trans toTaken).trans later)

end

section Rules

variable {left right callee receiver operand : Expr} {leftTy rightTy calleeTy receiverTy : Ty}
  {types : List Ty} {name : String} {span : Span}

theorem holds_operands (op : BinaryOp) (left right : Expr) (leftTy rightTy : Ty) :
    Holds policy declaring (.operands op left right leftTy rightTy) := by
  intro before ready
  refine (holds_unify _ _).bind ready fun failure _ _ _ => ?_
  cases failure with
  | none => exact watches_pure trivial
  | some error => exact watches_reads fun _ _ _ => watches_pure trivial

theorem holds_pipe (right : Expr) (leftTy rightTy : Ty) :
    Holds policy declaring (.pipe right leftTy rightTy) := by
  intro before ⟨fitsLeft, fitsRight⟩
  refine watches_fresh fun result middle changes fits => ?_
  refine watches_bind (watches_compare (changes.fits fitsRight)
    (Policy.admits_fn (by simpa using changes.fits fitsLeft) fits)) fun _ after later _ => ?_
  exact watches_pure (later.fits fits)

theorem holds_operation (rule : OperatorClass) (op : BinaryOp) (left right : Expr) (span : Span)
    (leftTy rightTy : Ty) :
    Holds policy declaring (.operation rule op left right span leftTy rightTy) := by
  intro before ⟨fitsLeft, fitsRight⟩
  cases rule with
  | arithmetic | concatenation =>
    refine (holds_operands _ _ _ _ _).bind ⟨fitsLeft, fitsRight⟩ ?_
    intro same middle changes _
    cases same with
    | true =>
      refine watches_reads fun _ after later => ?_
      exact watches_pure ((changes.trans later).fits fitsLeft)
    | false => exact watches_pure (changes.fits fitsLeft)
  | comparison =>
    refine (holds_operands _ _ _ _ _).bind ⟨fitsLeft, fitsRight⟩ ?_
    intro _ _ _ _
    exact watches_pure (Policy.admits_prim _)
  | logical =>
    refine watches_expectAt (Policy.admits_prim _) fitsLeft fun _ changes => ?_
    refine watches_expectAt (Policy.admits_prim _) (changes.fits fitsRight) fun _ _ => ?_
    exact watches_pure (Policy.admits_prim _)
  | pipe => exact (holds_pipe _ _ _).call ⟨fitsLeft, fitsRight⟩

theorem holds_unary (op : UnaryOp) (operand : Expr) (span : Span) (operandTy : Ty) :
    Holds policy declaring (.unary op operand span operandTy) := by
  intro before fits
  cases op with
  | neg =>
    refine watches_reads fun _ after changes => ?_
    exact watches_pure (changes.fits fits)
  | not =>
    refine watches_expectAt (Policy.admits_prim _) fits fun _ _ => ?_
    exact watches_pure (Policy.admits_prim _)
  | reserved code =>
    exact watches_reads fun _ _ _ => watches_step keeps_fresh

theorem holds_apply (callee : Expr) (span : Span) (calleeTy : Ty) (types : List Ty) :
    Holds policy declaring (.apply callee span calleeTy types) := by
  intro before ⟨fitsCallee, fit⟩
  refine watches_fresh fun result middle changes fits => ?_
  refine watches_bind (watches_compare (changes.fits fitsCallee)
    (Policy.admits_fn (changes.fitAll fit) fits)) fun _ after later _ => ?_
  exact watches_pure (later.fits fits)

theorem fits_of_ty? {self : Ty} (fit : FitAll policy checker resolution.types)
    (fitsSelf : policy.FitsIn checker self) (found : resolution.ty? self = some ty) :
    policy.FitsIn checker ty := by
  cases resolution with
  | inherent impl method | provided impl method trait decl =>
    exact Option.some.inj found ▸ fit _ List.mem_cons_self
  | declared impl trait decl => exact fits_signature? fit fitsSelf found

theorem holds_resolved (resolution : Resolution) (self : Ty) (name : String) (span : Span)
    (receiverTy : Ty) (types : List Ty) :
    Holds policy declaring (.resolved resolution self name span receiverTy types) := by
  intro before ⟨fitMethod, fitsSelf, fitsReceiver, fit⟩
  refine watches_fresh fun result taken toTaken fits => ?_
  have declared : Keeps policy declaring (ofComplete (resolution.ty? self)) taken fun ty after =>
      policy.FitsIn after ty :=
    keeps_ofComplete fun ty found => fits_of_ty? (toTaken.fitAll fitMethod)
      (toTaken.fits fitsSelf) found
  refine watches_after declared fun ty known toKnown fitsTy => ?_
  refine watches_after (keeps_instantiate fitsTy) fun methodTy middle toMiddle
    fitsMethod => ?_
  have early := toTaken.trans (toKnown.trans toMiddle)
  have fitWanted : policy.FitsIn middle (.fn (receiverTy :: types) result) := by
    refine Policy.admits_fn (fun param member => ?_) ((toKnown.trans toMiddle).fits fits)
    rcases List.mem_cons.mp member with rfl | inTypes
    · exact early.fits fitsReceiver
    · exact early.fits (fit param inTypes)
  refine watches_bind (watches_compare fitsMethod fitWanted) fun _ after later _ => ?_
  exact watches_pure ((toKnown.trans (toMiddle.trans later)).fits fits)

theorem holds_methodCall (receiver : Expr) (name : String) (span : Span) (receiverTy : Ty)
    (types : List Ty) :
    Holds policy declaring (.methodCall receiver name span receiverTy types) := by
  intro before ⟨fitsReceiver, fit⟩
  refine watches_after (keeps_solved fitsReceiver) fun self early toEarly fitsSelf => ?_
  refine watches_get fun obeys => ?_
  have resolves :
      Keeps policy declaring (ofComplete (early.registry.resolveMethod? self name)) early
      fun found after => ∀ resolution, found = some resolution →
        FitAll policy after resolution.types :=
    keeps_ofComplete fun found resolved resolution isFound ty member => by
      subst isFound
      exact obeys.declared ty (mem_declaredTypes.mpr (by
        have := Registry.types_of_resolveMethod? resolved member
        tauto))
  refine watches_after resolves fun found middle toMiddle fitFound => ?_
  have changes := toEarly.trans toMiddle
  cases found with
  | none => exact watches_reads fun _ _ _ => watches_step keeps_fresh
  | some resolution =>
    refine watches_reads fun _ after later => ?_
    exact (holds_resolved _ _ _ _ _ _).call
      ⟨later.fitAll (fitFound resolution rfl), (toMiddle.trans later).fits fitsSelf,
        (changes.trans later).fits fitsReceiver, (changes.trans later).fitAll fit⟩

theorem holds_args (declared found : List Ty) (nodes : List Expr) :
    Holds policy declaring (.args declared found nodes) := by
  induction nodes generalizing declared found with
  | nil =>
    intro before _
    cases declared with
    | nil => exact watches_pure trivial
    | cons _ _ => cases found <;> exact watches_pure trivial
  | cons node nodes ih =>
    intro before ⟨sameLength, fitDeclared, fitFound⟩
    cases declared with
    | nil => exact watches_pure trivial
    | cons wanted declared =>
      cases found with
      | nil => exact watches_pure trivial
      | cons ty found =>
        have ⟨fitsWanted, fitRest⟩ := List.forall_mem_cons.mp fitDeclared
        have ⟨fits, fitOthers⟩ := List.forall_mem_cons.mp fitFound
        refine watches_expectAt fitsWanted fits fun after changes => ?_
        exact (ih declared found).call
          ⟨Nat.succ.inj sameLength, changes.fitAll fitRest, changes.fitAll fitOthers⟩

theorem holds_variantLit (decl : DefId) (name : String) (nodes : List Expr) (span : Span)
    (types : List Ty) : Holds policy declaring (.variantLit decl name nodes span types) := by
  intro before ⟨sameLength, fit⟩
  refine watches_get fun obeys => ?_
  split
  · exact watches_reads fun _ _ _ => watches_step keeps_fresh
  · next info declared =>
      refine watches_after (keeps_freshList _) ?_
      intro generics middle changes ⟨_, fitGenerics⟩
      split
      · refine watches_reads fun _ after later => ?_
        exact watches_pure (Policy.admits_named decl (later.fitAll fitGenerics))
      · next variant found =>
          have fitFields : ∀ after, Changes policy declaring middle after →
              FitAll policy after (variant.fields.map (·.substParams generics)) := by
            intro after later ty member
            obtain ⟨field, fieldMember, rfl⟩ := List.mem_map.mp member
            have inInfo : field ∈ info.types :=
              List.mem_flatMap_of_mem (List.mem_of_find?_eq_some found) fieldMember
            exact ((changes.trans later).fits
              (obeys.enum declared field inInfo)).substParams (later.fitAll fitGenerics)
          have finishes : ∀ after, Changes policy declaring middle after →
              Watches policy declaring (do
                Walk.call (.args (variant.fields.map (·.substParams generics)) types nodes)
                return .named decl generics) after fun ty after => policy.FitsIn after ty := by
            intro after later
            refine (holds_args _ _ _).bind
              ⟨sameLength, fitFields after later, (changes.trans later).fitAll fit⟩ ?_
            intro _ last toLast _
            exact watches_pure (Policy.admits_named decl
              ((later.trans toLast).fitAll fitGenerics))
          dsimp only
          split
          · exact watches_reads fun _ after later => finishes after later
          · exact finishes middle .refl

theorem holds_initializer (info : StructInfo) (generics : List Ty) (seen : List String)
    (entry : Field Expr) (ty : Ty) :
    Holds policy declaring (.initializer info generics seen entry ty) := by
  intro before ⟨fitInfo, fitGenerics, fits⟩
  change Watches policy declaring (Walk.ofInitializer info generics seen entry ty) before _
  unfold Walk.ofInitializer
  split
  · exact watches_reads fun _ _ _ => watches_pure trivial
  · next declared found =>
      split
      · exact watches_reads fun _ _ _ => watches_pure trivial
      · have wanted : Keeps policy declaring (ofComplete (declared.substParams? generics)) before
            fun ty after => policy.FitsIn after ty :=
          keeps_ofComplete fun ty replaced => .of_substParams?
            (fitInfo declared (StructInfo.mem_types_of_field? found)) replaced fitGenerics
        refine watches_after wanted fun ty early toEarly fitsWanted => ?_
        refine watches_expectAt fitsWanted (toEarly.fits fits) fun _ _ => ?_
        exact watches_pure trivial

theorem holds_params (binders : List Param) : Holds policy declaring (.params binders) := by
  induction binders with
  | nil => exact fun _ _ => watches_pure nofun
  | cons param rest ih =>
    intro before written
    refine (holds_resolve _).bind (WritesAll.head written) fun ty early toEarly fits => ?_
    refine watches_after (keeps_bindLocal fits) fun _ middle toMiddle _ => ?_
    refine ih.bind (WritesAll.tail written) fun types after toAfter fit => ?_
    refine watches_pure fun other member => ?_
    rcases List.mem_cons.mp member with rfl | inRest
    · exact (toMiddle.trans toAfter).fits fits
    · exact fit other inRest

theorem holds_coverage (scrutineeExpr : Expr) (cases : List Arm) (span : Span) (scrutinee : Ty) :
    Holds policy declaring (.coverage scrutineeExpr cases span scrutinee) :=
  fun _ _ => watches_step (keeps_reads.mono fun _ _ _ _ => trivial)

theorem holds_letBind (shape : Pattern) (ty : Ty) : Holds policy declaring (.letBind shape ty) := by
  intro before fits
  cases shape with
  | bind id name span => exact watches_step (keeps_bindLet_bind fits)
  | _ => exact (holds_pattern _ _).call fits

end Rules

theorem keeps_removeAll {binders : List Param} :
    Keeps policy declaring (binders.forM fun param => removeLocal param.id) before fun _ _ =>
      True :=
  keeps_forM fun _ _ _ _ => keeps_removeLocal

theorem watches_armBody {body : Expr} {cases : List Arm} {scrutineeTy result : Ty}
    {first : Option Span} (inner : Holds policy declaring (.expr body))
    (written : WritesAll policy body.annotations)
    (rest : ∀ first after, Changes policy declaring before after →
      Watches policy declaring (Walk.call (.arms scrutineeTy result first cases)) after
        fun _ _ => True)
    (fits : policy.FitsIn before result) :
    Watches policy declaring (do
      let bodyTy ← Walk.call (.expr body)
      let place ← match first with
        | some place => pure place
        | none => Walk.step (spanOf body)
      Walk.compare result bodyTy (reportArm result bodyTy body place)
      Walk.call (.arms scrutineeTy result (some place) cases)) before fun _ _ => True := by
  refine inner.bind written fun bodyTy reached toReached fitsBody => ?_
  have compares : ∀ place middle, Changes policy declaring reached middle →
      Watches policy declaring (do
        Walk.compare result bodyTy (reportArm result bodyTy body place)
        Walk.call (.arms scrutineeTy result (some place) cases)) middle fun _ _ => True := by
    intro place middle toMiddle
    have changes := toReached.trans toMiddle
    refine watches_bind (watches_compare (changes.fits fits) (toMiddle.fits fitsBody))
      fun _ after toAfter _ => ?_
    exact rest (some place) after (changes.trans toAfter)
  cases first with
  | some place => exact compares place reached .refl
  | none =>
    refine watches_reads fun place last toLast => ?_
    exact compares place last toLast

mutual

theorem holds_expr : (node : Expr) → Holds policy declaring (.expr node)
  | .missing | .literal _ => fun _ _ => watches_pure (Policy.admits_prim _)
  | .localRef _ _ => fun _ _ => watches_step keeps_inferLocal
  | .globalRef _ _ => fun _ _ => watches_step keeps_inferGlobal
  | .list elems _ => by
    intro before written
    refine watches_fresh fun elem _ _ fits => ?_
    refine (holds_elements elem elems).bind ⟨fits, written⟩ fun _ _ changes _ => ?_
    exact watches_pure (changes.fits fits).list
  | .tuple elems _ => by
    intro before written
    refine (holds_exprs elems).bind written fun types _ _ fit => ?_
    exact watches_pure (Policy.admits_tuple fit.2)
  | .record fields _ => by
    intro before written
    refine (holds_record [] fields).bind ⟨Policy.admits_record nofun, written⟩ ?_
    exact fun row _ _ fits => watches_pure fits
  | .structLit decl fields _ => by
    intro before written
    refine watches_get fun obeys => ?_
    split
    · refine (holds_initializers fields).bind written fun _ _ _ _ => ?_
      exact watches_reads fun _ _ _ => watches_step keeps_fresh
    · next info declared =>
        refine watches_after (keeps_freshList _) ?_
        intro generics early toEarly ⟨_, fit⟩
        refine (holds_structFields info generics [] fields).bind
          ⟨toEarly.fitAll (obeys.struct declared), fit, written⟩ fun _ middle toMiddle _ => ?_
        refine watches_reads fun _ after toAfter => ?_
        exact watches_pure (Policy.admits_named decl ((toMiddle.trans toAfter).fitAll fit))
  | .variant _ _ args _ => by
    intro before written
    refine (holds_exprs args).bind written fun types _ _ fit => ?_
    exact (holds_variantLit _ _ _ _ _).call fit
  | .lambda _ body _ => by
    intro before written
    refine (holds_params _).bind (WritesAll.left written) fun types _ _ fit => ?_
    refine (holds_expr body).bind (WritesAll.right written) ?_
    intro result _ toResult fits
    refine watches_after keeps_removeAll fun _ after toAfter _ => ?_
    exact watches_pure (Policy.admits_fn ((toResult.trans toAfter).fitAll fit)
      (toAfter.fits fits))
  | .call callee args _ => by
    intro before written
    refine (holds_expr callee).bind (WritesAll.left written) fun _ _ _ fits => ?_
    refine (holds_exprs args).bind (WritesAll.right written) ?_
    intro _ _ changes ⟨_, fit⟩
    exact (holds_apply _ _ _ _).call ⟨changes.fits fits, fit⟩
  | .methodCall receiver _ args _ => by
    intro before written
    refine (holds_expr receiver).bind (WritesAll.left written) fun _ _ _ fits => ?_
    refine (holds_exprs args).bind (WritesAll.right written) ?_
    intro _ _ changes ⟨_, fit⟩
    exact (holds_methodCall _ _ _ _ _).call ⟨changes.fits fits, fit⟩
  | .fieldAccess base _ _ => by
    intro before written
    refine (holds_expr base).bind written fun _ _ _ fits => ?_
    exact watches_step (keeps_inferField fits)
  | .tupleIndex base _ _ => by
    intro before written
    refine (holds_expr base).bind written fun _ _ _ fits => ?_
    exact watches_step (keeps_inferElement fits)
  | .binary op left right span => by
    intro before written
    change Watches policy declaring (Walk.ofExpr (.binary op left right span)) before _
    rw [Walk.ofExpr]
    split
    · exact watches_reads fun _ _ _ => watches_step keeps_fresh
    · refine (holds_expr left).bind (WritesAll.left written) fun _ _ _ fits => ?_
      refine (holds_expr right).bind (WritesAll.right written) ?_
      intro _ _ changes fits'
      exact (holds_operation _ _ _ _ _ _ _).call ⟨changes.fits fits, fits'⟩
  | .unary _ operand _ => by
    intro before written
    refine (holds_expr operand).bind written fun _ _ _ fits => ?_
    exact (holds_unary _ _ _ _).call fits
  | .conditional condition thenBranch elseBranch _ => by
    intro before written
    refine (holds_expr condition).bind (WritesAll.left (WritesAll.left written))
      fun _ _ _ fitsCondition => ?_
    refine watches_expectAt (Policy.admits_prim _) fitsCondition fun _ _ => ?_
    refine (holds_expr thenBranch).bind (WritesAll.right (WritesAll.left written))
      fun thenTy early _ fitsThen => ?_
    split
    · refine watches_expectAt (Policy.admits_prim _) fitsThen fun _ _ => ?_
      exact watches_pure (Policy.admits_prim _)
    · refine watches_fresh fun result _ toFresh fits => ?_
      refine (holds_unify _ _).bind ⟨fits, toFresh.fits fitsThen⟩
        fun _ _ toUnified _ => ?_
      refine (holds_expr elseBranch).bind (WritesAll.right written)
        fun _ _ toElse fitsElse => ?_
      refine watches_bind (watches_compare ((toUnified.trans toElse).fits fits) fitsElse)
        fun _ _ toAfter _ => ?_
      exact watches_pure (((toUnified.trans toElse).trans toAfter).fits fits)
  | .matchOn scrutinee arms _ => by
    intro before written
    refine (holds_expr scrutinee).bind (WritesAll.left written) ?_
    intro scrutineeTy _ _ fitsScrutinee
    refine watches_fresh fun result _ toFresh fits => ?_
    refine (holds_arms scrutineeTy result none arms).bind
      ⟨toFresh.fits fitsScrutinee, fits, WritesAll.right written⟩ fun _ _ toArms _ => ?_
    refine (holds_coverage _ _ _ _).bind
      ((toFresh.trans toArms).fits fitsScrutinee) fun _ _ toAfter _ => ?_
    exact watches_pure ((toArms.trans toAfter).fits fits)
  | .block stmts tail _ => by
    intro before written
    refine (holds_stmts stmts).bind (WritesAll.left written) fun _ _ _ _ => ?_
    exact (holds_expr tail).call (WritesAll.right written)
  | .ascribe expr _ _ => by
    intro before written
    refine (holds_resolve _).bind (WritesAll.head written)
      fun ascribed _ _ fitsAscribed => ?_
    refine (holds_expr expr).bind (WritesAll.tail written) fun _ _ toFound fits => ?_
    refine watches_expectAt (toFound.fits fitsAscribed) fits fun _ toAfter => ?_
    exact watches_pure ((toFound.trans toAfter).fits fitsAscribed)
  | .foreign _ _ => fun _ _ =>
    watches_reads fun _ _ _ => watches_step keeps_fresh

theorem holds_exprs : (nodes : List Expr) → Holds policy declaring (.exprs nodes)
  | [] => fun _ _ => watches_pure ⟨rfl, nofun⟩
  | node :: rest => by
    intro before written
    refine (holds_expr node).bind (WritesAll.left written) fun ty _ _ fits => ?_
    refine (holds_exprs rest).bind (WritesAll.right written) ?_
    intro types _ changes ⟨sameLength, fit⟩
    exact watches_pure ⟨congrArg Nat.succ sameLength,
      List.forall_mem_cons.mpr ⟨changes.fits fits, fit⟩⟩

theorem holds_elements (elem : Ty) :
    (nodes : List Expr) → Holds policy declaring (.elements elem nodes)
  | [] => fun _ _ => watches_pure trivial
  | node :: rest => by
    intro before ⟨fitsElem, written⟩
    refine (holds_expr node).bind (WritesAll.left written) fun _ _ toFirst fits => ?_
    refine watches_expectAt (toFirst.fits fitsElem) fits fun _ toAfter => ?_
    exact (holds_elements elem rest).call
      ⟨(toFirst.trans toAfter).fits fitsElem, WritesAll.right written⟩

theorem holds_record (row : Row) :
    (entries : List (Field Expr)) → Holds policy declaring (.record row entries)
  | [] => fun _ ready => watches_pure ready.1
  | ⟨_, value, _⟩ :: rest => by
    intro before ⟨fitsRow, written⟩
    refine (holds_expr value).bind (WritesAll.left written) fun ty _ toFirst fits => ?_
    split
    · refine watches_reads fun _ _ toReport => ?_
      exact (holds_record row rest).call
        ⟨(toFirst.trans toReport).fits fitsRow, WritesAll.right written⟩
    · refine (holds_record _ rest).call
        ⟨Policy.admits_record fun field member => ?_, WritesAll.right written⟩
      rcases Row.mem_insert member with rfl | old
      · exact fits
      · exact (toFirst.fits fitsRow).field old

theorem holds_initializers :
    (entries : List (Field Expr)) → Holds policy declaring (.initializers entries)
  | [] => fun _ _ => watches_pure trivial
  | ⟨_, value, _⟩ :: rest => by
    intro before written
    refine (holds_expr value).bind (WritesAll.left written) fun _ _ _ _ => ?_
    exact (holds_initializers rest).call (WritesAll.right written)

theorem holds_structFields (info : StructInfo) (generics : List Ty) (seen : List String) :
    (entries : List (Field Expr)) →
      Holds policy declaring (.structFields info generics seen entries)
  | [] => fun _ _ => watches_pure trivial
  | ⟨_, value, _⟩ :: rest => by
    intro before ⟨fitInfo, fitGenerics, written⟩
    refine (holds_expr value).bind (WritesAll.left written) fun _ _ toFirst fits => ?_
    refine (holds_initializer _ _ _ _ _).bind ⟨toFirst.fitAll fitInfo,
      toFirst.fitAll fitGenerics, fits⟩ fun seen _ toNext _ => ?_
    have changes := toFirst.trans toNext
    exact (holds_structFields info generics seen rest).call
      ⟨changes.fitAll fitInfo, changes.fitAll fitGenerics, WritesAll.right written⟩

theorem holds_arms (scrutineeTy result : Ty) (first : Option Span) :
    (cases : List Arm) → Holds policy declaring (.arms scrutineeTy result first cases)
  | [] => fun _ _ => watches_pure trivial
  | .mk _ guard body _ :: rest => by
    intro before ⟨fitsScrutinee, fits, written⟩
    have guardWritten := WritesAll.left (WritesAll.left written)
    have bodyWritten := WritesAll.right (WritesAll.left written)
    refine (holds_pattern _ _).bind fitsScrutinee fun _ early toEarly _ => ?_
    have goesOn : ∀ first after, Changes policy declaring before after →
        Watches policy declaring (Walk.call (.arms scrutineeTy result first rest)) after
          fun _ _ => True :=
      fun first after changes => (holds_arms scrutineeTy result first rest).call
        ⟨changes.fits fitsScrutinee, changes.fits fits, WritesAll.right written⟩
    dsimp only
    split
    · exact watches_armBody (holds_expr body) bodyWritten
        (fun first after changes => goesOn first after (toEarly.trans changes))
        (toEarly.fits fits)
    · refine (holds_expr guard).bind guardWritten fun _ _ toGuard fitsGuard => ?_
      refine watches_expectAt (Policy.admits_prim _) fitsGuard fun _ toMiddle => ?_
      have toHere := (toEarly.trans toGuard).trans toMiddle
      exact watches_armBody (holds_expr body) bodyWritten
        (fun first after changes => goesOn first after (toHere.trans changes))
        (toHere.fits fits)

theorem holds_stmts : (lines : List Stmt) → Holds policy declaring (.stmts lines)
  | [] => fun _ _ => watches_pure trivial
  | .missing :: _ => fun _ _ => watches_step keeps_throw
  | .letBind _ _ value _ :: rest => by
    intro before written
    have restWritten := WritesAll.right written
    have tyWritten := WritesAll.head (WritesAll.left written)
    refine (holds_expr value).bind (WritesAll.tail (WritesAll.left written))
      fun valueTy _ _ fits => ?_
    split
    · refine (holds_resolve _).bind tyWritten fun declared _ toDeclared fitsDeclared => ?_
      refine watches_expectAt fitsDeclared (toDeclared.fits fits) fun _ toCompared => ?_
      refine (holds_letBind _ _).bind (toCompared.fits fitsDeclared) fun _ _ _ _ => ?_
      exact (holds_stmts rest).call restWritten
    · refine (holds_letBind _ _).bind fits fun _ _ _ _ => ?_
      exact (holds_stmts rest).call restWritten
  | .run expr _ :: rest => by
    intro before written
    refine (holds_expr expr).bind (WritesAll.left written) fun _ _ _ _ => ?_
    exact (holds_stmts rest).call (WritesAll.right written)
  | .foreign _ _ :: rest => by
    intro before written
    exact watches_reads fun _ _ _ => (holds_stmts rest).call written

end

section Items

theorem holds_body (item : FunctionItem) (types : Signature) :
    Holds policy declaring (.body item types) := by
  intro before ⟨fit, written⟩
  refine watches_after (keeps_enterBody fit) fun result _ _ fits => ?_
  refine (holds_expr _).bind written fun found _ toFound fitsFound => ?_
  refine watches_bind (watches_compare (toFound.fits fits) fitsFound) fun _ _ _ _ => ?_
  exact watches_reads fun _ _ _ => watches_step keeps_leaveBody

theorem holds_function (item : FunctionItem) : Holds policy declaring (.function item) := by
  intro before written
  refine watches_get fun obeys => ?_
  split
  · exact watches_pure trivial
  · next types found =>
      split
      · exact watches_pure trivial
      · exact (holds_body _ _).call ⟨obeys.signature found, written⟩

theorem holds_implMethod (declared : Trait) (provided : Impl) (entry : ImplMethod) :
    Holds policy declaring (.implMethod declared provided entry) := by
  intro before ⟨fitDeclared, fitsSelf, fitsMethod⟩
  change Watches policy declaring (Walk.ofImplMethod declared provided entry) before _
  unfold Walk.ofImplMethod
  split
  · exact watches_pure trivial
  · next decl found =>
      have fitDecl : FitAll policy before decl.types := fun ty member =>
        fitDeclared ty (List.mem_append_left _
          (List.mem_flatMap_of_mem (List.mem_of_find?_eq_some found) member))
      have wanted :
          Keeps policy declaring (ofComplete (decl.signature? provided.implementer)) before
          fun ty after => policy.FitsIn after ty :=
        keeps_ofComplete fun ty made => fits_signature? fitDecl fitsSelf made
      refine watches_after wanted fun ty _ toWanted fits => ?_
      refine watches_after (keeps_instantiate (toWanted.fits fitsMethod))
        fun _ _ toFound fitsFound => ?_
      exact watches_compare (toFound.fits fits) fitsFound

theorem holds_conformance (declared : Trait) (provided : Impl) :
    Holds policy declaring (.conformance declared provided) := by
  intro before ⟨fitDeclared, fitProvided⟩
  refine watches_reads fun _ _ toReported => ?_
  refine watches_reads fun closed _ toKnown => ?_
  split
  · exact watches_pure trivial
  · refine watches_forM fun entry member after later => ?_
    have changes := (toReported.trans toKnown).trans later
    refine (holds_implMethod _ _ _).call ⟨changes.fitAll fitDeclared,
      changes.fits (fitProvided _ List.mem_cons_self), ?_⟩
    refine changes.fits (fitProvided _ (List.mem_cons_of_mem _ ?_))
    exact List.mem_append_left _ (List.mem_map_of_mem member)

theorem holds_impls : Holds policy declaring .impls := by
  intro before _
  refine watches_get fun obeys => watches_forM fun pair member after changes => ?_
  obtain ⟨trait, registered, inTrait⟩ := List.mem_flatMap.mp member
  obtain ⟨id, _, made⟩ := List.mem_filterMap.mp inTrait
  obtain ⟨impl, found, rfl⟩ := Option.map_eq_some_iff.mp made
  exact (holds_conformance _ _).call ⟨changes.fitAll (obeys.trait registered),
    changes.fitAll (obeys.impl (List.mem_of_getElem? found))⟩

theorem holds_declare (item : Item) : Holds policy declaring (.declare item) := by
  rintro before ⟨rfl, written⟩
  refine watches_step (keeps_declareItem fun entry isAlias => ?_)
  subst isAlias
  exact written _ List.mem_cons_self

theorem holds_aliasCycles (aliases : List AliasItem) :
    Holds policy declaring (.aliasCycles aliases) := by
  rintro before rfl
  exact watches_step keeps_checkAliasCycles

theorem holds_field (item : StructItem) (entry : Field Ty) :
    Holds policy declaring (.field item entry) := by
  rintro before ⟨rfl, written⟩
  refine watches_get fun _ => ?_
  dsimp only
  split
  · exact watches_step (keeps_reads.mono fun _ _ _ _ => trivial)
  · refine (holds_resolve _).bind written fun _ _ _ fits => ?_
    exact watches_step (keeps_addField fits)

theorem watches_resolveAll {list : List α} {type : α → Ty}
    (written : ∀ value ∈ list, policy.Writes 0 (type value)) :
    Watches policy declaring (list.mapM fun value => Walk.call (.resolve (type value))) before
      fun types after => FitAll policy after types :=
  watches_mapM (fun _ _ _ changes fits => changes.fits fits)
    fun value member _ _ => (holds_resolve _).call (written value member)

theorem holds_variantDecl (item : EnumItem) (entry : Field (List Ty)) :
    Holds policy declaring (.variant item entry) := by
  rintro before ⟨rfl, written⟩
  refine watches_bind (watches_resolveAll written) fun _ _ _ fit => ?_
  exact watches_step (keeps_addVariant fit)

theorem holds_members (item : Item) : Holds policy declaring (.members item) := by
  rintro before ⟨collecting, written⟩
  cases item with
  | struct item =>
    refine watches_forM fun entry member _ _ => ?_
    exact (holds_field item entry).call ⟨collecting, written _ (List.mem_map_of_mem member)⟩
  | enum item =>
    refine watches_forM fun entry member _ _ => ?_
    exact (holds_variantDecl item entry).call
      ⟨collecting, fun ty inEntry => written ty (List.mem_flatMap_of_mem member inEntry)⟩
  | _ => exact watches_pure trivial

theorem holds_signature (item : FunctionItem) : Holds policy declaring (.signature item) := by
  rintro before ⟨rfl, written⟩
  refine watches_bind (watches_resolveAll fun param member =>
    written _ (List.mem_append_left _ (List.mem_map_of_mem member))) fun _ _ _ fit => ?_
  refine (holds_resolve _).bind
    (written _ (List.mem_append_right _ List.mem_cons_self)) fun _ _ toResult fits => ?_
  exact watches_step (keeps_addSignature (toResult.fitAll fit) fits)

theorem holds_method (decl : MethodDecl) : Holds policy declaring (.method decl) := by
  intro before written
  refine watches_bind (watches_resolveAll fun ty member =>
    written ty (List.mem_append_left _ member)) fun types _ _ fit => ?_
  refine (holds_resolve _).bind
    (written _ (List.mem_append_right _ List.mem_cons_self)) fun result _ toResult fits => ?_
  refine watches_pure fun ty member => ?_
  rcases List.mem_append.mp member with isParam | isResult
  · exact toResult.fits (fit ty isParam)
  · exact List.mem_singleton.mp isResult ▸ fits

theorem holds_assoc (decl : AssocDecl) : Holds policy declaring (.assoc decl) := by
  intro before written
  change Watches policy declaring (if decl.default.isDeclared then do
    let default ← Walk.call (.resolve decl.default)
    return { decl with default }
    else return { decl with default := .absent }) before _
  split
  · refine (holds_resolve _).bind written fun default _ _ fits => ?_
    refine watches_pure fun ty member => ?_
    unfold AssocDecl.types at member
    split at member
    · cases member
    · exact List.mem_singleton.mp member ▸ fits
  · exact watches_pure nofun

theorem holds_trait (item : TraitItem) : Holds policy declaring (.trait item) := by
  rintro before ⟨rfl, written⟩
  have methods : Watches policy true (item.methods.mapM fun decl => Walk.call (.method decl)) before
      fun decls after => ∀ decl ∈ decls, FitAll policy after decl.types :=
    watches_mapM (fun _ _ _ changes fit => changes.fitAll fit) fun decl member _ _ =>
      (holds_method decl).call fun ty inDecl =>
        written ty (List.mem_append_left _ (List.mem_flatMap_of_mem member inDecl))
  refine watches_bind methods fun _ middle _ fitMethods => ?_
  have assocTypes : Watches policy true (item.assocTypes.mapM fun decl => Walk.call (.assoc decl))
      middle fun decls after => ∀ decl ∈ decls, FitAll policy after decl.types :=
    watches_mapM (fun _ _ _ changes fit => changes.fitAll fit) fun decl member _ _ =>
      (holds_assoc decl).call
        (written _ (List.mem_append_right _ (List.mem_map_of_mem member)))
  refine watches_bind assocTypes fun _ _ changes fitAssoc => ?_
  exact watches_step (keeps_addTrait
    (fun decl member => changes.fitAll (fitMethods decl member)) fitAssoc)

theorem holds_binding (entry : Field Ty) : Holds policy declaring (.binding entry) := by
  intro before written
  refine (holds_resolve _).bind written fun content _ _ fits => ?_
  exact watches_pure fits

theorem holds_impl (item : ImplItem) : Holds policy declaring (.impl item) := by
  rintro before ⟨rfl, written⟩
  refine (holds_resolve _).bind (WritesAll.head written) fun _ early _ fits => ?_
  have methods :
      Watches policy true (item.methods.mapM fun entry => .step (collectImplMethod entry))
      early fun methods after => ∀ method ∈ methods, policy.FitsIn after method.ty :=
    watches_mapM (fun _ _ _ changes fits => changes.fits fits) fun _ _ _ _ =>
      watches_step keeps_collectImplMethod
  have keepsMethods := methods.keeps
  simp only [Walk.run_mapM, Walk.run_step] at keepsMethods
  refine watches_after keepsMethods fun _ middle toMiddle fitMethods => ?_
  have assocTypes :
      Watches policy true (item.assocTypes.mapM fun entry => Walk.call (.binding entry))
      middle fun entries after => ∀ entry ∈ entries, policy.FitsIn after entry.content :=
    watches_mapM (fun _ _ _ changes fits => changes.fits fits) fun entry member _ _ =>
      (holds_binding entry).call (WritesAll.tail written _ (List.mem_map_of_mem member))
  refine watches_bind assocTypes fun _ _ toAssoc fitAssoc => ?_
  exact watches_step (keeps_addImpl ((toMiddle.trans toAssoc).fits fits)
    (fun method member => toAssoc.fits (fitMethods method member)) fitAssoc)

theorem function_mem {item : FunctionItem} (member : item ∈ Item.functions items) :
    .function item ∈ items := by
  obtain ⟨entry, entryMember, same⟩ := List.mem_filterMap.mp member
  cases entry <;> cases same
  exact entryMember

theorem alias_mem {item : AliasItem} (member : item ∈ Item.aliases items) :
    .alias item ∈ items := by
  obtain ⟨entry, entryMember, same⟩ := List.mem_filterMap.mp member
  cases entry <;> cases same
  exact entryMember

theorem trait_mem {item : TraitItem} (member : item ∈ Item.traits items) : .trait item ∈ items := by
  obtain ⟨entry, entryMember, same⟩ := List.mem_filterMap.mp member
  cases entry <;> cases same
  exact entryMember

theorem impl_mem {item : ImplItem} (member : item ∈ Item.impls items) : .impl item ∈ items := by
  obtain ⟨entry, entryMember, same⟩ := List.mem_filterMap.mp member
  cases entry <;> cases same
  exact entryMember

theorem holds_collect (all : List Item) : Holds policy declaring (.collect all) := by
  rintro before ⟨collecting, written⟩
  refine watches_bind (watches_forM fun item member _ _ =>
    (holds_declare item).call ⟨collecting, written item member⟩) fun _ _ _ _ => ?_
  refine (holds_aliasCycles _).bind collecting fun _ _ _ _ => ?_
  refine watches_bind (watches_forM fun item member _ _ =>
    (holds_members item).call ⟨collecting, written item member⟩) fun _ _ _ _ => ?_
  refine watches_bind (watches_forM fun item member _ _ => (holds_signature item).call
    ⟨collecting, WritesAll.left (written _ (function_mem member))⟩) fun _ _ _ _ => ?_
  refine watches_bind (watches_forM fun item member _ _ => (holds_trait item).call
    ⟨collecting, written _ (trait_mem member)⟩) fun _ _ _ _ => ?_
  exact watches_forM fun item member _ _ => (holds_impl item).call
    ⟨collecting, written _ (impl_mem member)⟩

theorem holds_items (all : List Item) : Holds policy declaring (.items all) := by
  rintro before ⟨collecting, written⟩
  refine (holds_collect all).bind ⟨collecting, written⟩ fun _ _ _ _ => ?_
  refine holds_impls.bind trivial fun _ _ _ _ => ?_
  exact watches_forM fun item member _ _ => (holds_function item).call
    (WritesAll.right (written _ (function_mem member)))

end Items

theorem holds (task : Task α) : Holds policy declaring task := by
  cases task with
  | items => exact holds_items _
  | collect => exact holds_collect _
  | declare => exact holds_declare _
  | aliasCycles => exact holds_aliasCycles _
  | members => exact holds_members _
  | field => exact holds_field _ _
  | variant => exact holds_variantDecl _ _
  | signature => exact holds_signature _
  | trait => exact holds_trait _
  | method => exact holds_method _
  | assoc => exact holds_assoc _
  | impl => exact holds_impl _
  | binding => exact holds_binding _
  | resolve => exact holds_resolve _
  | impls => exact holds_impls
  | conformance => exact holds_conformance _ _
  | implMethod => exact holds_implMethod _ _ _
  | function => exact holds_function _
  | body => exact holds_body _ _
  | expr => exact holds_expr _
  | exprs => exact holds_exprs _
  | elements => exact holds_elements _ _
  | record => exact holds_record _ _
  | initializers => exact holds_initializers _
  | structFields => exact holds_structFields _ _ _ _
  | initializer => exact holds_initializer _ _ _ _ _
  | variantLit => exact holds_variantLit _ _ _ _ _
  | args => exact holds_args _ _ _
  | params => exact holds_params _
  | apply => exact holds_apply _ _ _ _
  | methodCall => exact holds_methodCall _ _ _ _ _
  | resolved => exact holds_resolved _ _ _ _ _ _
  | operation => exact holds_operation _ _ _ _ _ _ _
  | operands => exact holds_operands _ _ _ _ _
  | pipe => exact holds_pipe _ _ _
  | unary => exact holds_unary _ _ _ _
  | arms => exact holds_arms _ _ _ _
  | coverage => exact holds_coverage _ _ _ _
  | stmts => exact holds_stmts _
  | letBind => exact holds_letBind _ _
  | pattern => exact holds_pattern _ _
  | patterns => exact holds_patterns _ _
  | untyped => exact holds_untyped _
  | fields => exact holds_fields _ _
  | knownFields => exact holds_knownFields _ _ _
  | expect => exact holds_expect _ _ _
  | unify => exact holds_unify _ _

theorem obeys_initial (base : policy.base = 0) : (initial settings).Obeys policy where
  started := base ▸ Nat.zero_le _
  acyclic := Subst.acyclic_empty
  bound := nofun
  params := nofun
  locals := nofun
  declared := nofun
  aliases := nofun

section Reached

variable (reached : Reached settings items task start)
include reached

/-- A call that follows from a state that obeys the policy starts in such a state and is ready. -/
theorem ready_of_reached (base : policy.base = 0)
    (written : ∀ item ∈ items, WritesAll policy item.annotations) :
    start.Obeys policy ∧ Ready policy true task start := by
  induction reached with
  | start => exact ⟨obeys_initial base, rfl, written⟩
  | call _ called ih =>
    have ⟨changes, ready⟩ := (holds _ _ ih.2).ready ih.1 _ called
    exact ⟨changes.obeys ih.1, ready⟩

theorem any_of_reached : start.Obeys .any ∧ Ready .any true task start :=
  ready_of_reached reached rfl fun _ _ ty _ => Policy.writes_any ty

theorem changes_of_reached :
    Changes .any true (task.finish start) (finish (checkItems items) (initial settings)) := by
  induction reached with
  | start => exact .refl
  | @call _ _ caller _ before _ reached called ih =>
    have ⟨obeys, ready⟩ := any_of_reached reached
    have toCaller := (holds caller before ready).rest obeys _ called
    rw [caller.run_walk] at toCaller
    exact toCaller.trans ih

theorem returns_of_reached {final : Checker}
    (ran : checkItems items (initial settings) = .ok () final) :
    ∃ result after, task.run start = .ok result after := by
  induction reached with
  | start => exact ⟨(), final, ran⟩
  | @call _ _ caller _ before _ reached called ih =>
    have ⟨obeys, ready⟩ := any_of_reached reached
    obtain ⟨result, after, ranCaller⟩ := ih
    rw [← caller.run_walk] at ranCaller
    exact (holds caller before ready).returns obeys result after ranCaller _ called

end Reached

theorem obeys_finish (obeys : start.Obeys policy)
    (ready : Ready policy declaring task start) : (task.finish start).Obeys policy :=
  ((holds task).keeps ready obeys).1.obeys obeys

end Checker

end TraitCheck
