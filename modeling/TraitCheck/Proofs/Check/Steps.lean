import TraitCheck.Proofs.Check.States

/-!
# The steps of a check

What the steps without calls of their own do to a state that obeys a policy: they take variables
from the supply, look at types, bind locals, add declarations, or report.
-/

namespace TraitCheck

variable {decl : DefId} {ty expected wanted operand : Ty} {α : Type} {item : FunctionItem}
  {info : StructInfo} {what method : String} {args params : List Ty}
variable {span : Span} {name : String} {error : UnifyError} {result found scheme : Ty}
  {id : LocalId} {generics : List String} {trait : Trait} {types : List Ty}

theorem StructInfo.mem_types_of_field? (found : info.field? name = some ty) : ty ∈ info.types := by
  obtain ⟨early, late, split, _⟩ := List.lookup_eq_some_iff.mp found
  rw [types, split]
  simp

theorem exists_of_mem_mapM {β : Type} {each : α → Option β} {list : List α} {results : List β}
    (mapped : list.mapM each = some results) {result : β} (member : result ∈ results) :
    ∃ value ∈ list, each value = some result := by
  induction list generalizing results with
  | nil =>
    cases mapped
    cases member
  | cons value rest ih =>
    rw [List.mapM_cons] at mapped
    obtain ⟨head, first, later⟩ := Option.bind_eq_some_iff.mp mapped
    obtain ⟨tail, others, same⟩ := Option.bind_eq_some_iff.mp later
    cases same
    rcases List.mem_cons.mp member with rfl | inTail
    · exact ⟨value, List.mem_cons_self, first⟩
    · obtain ⟨source, sourceMember, made⟩ := ih others inTail
      exact ⟨source, List.mem_cons_of_mem _ sourceMember, made⟩

theorem Registry.of_registerImpl (registry : Registry) (decl : ImplDecl) :
    (registry.registerImpl decl).2.traits = registry.traits ∧
      ∃ impls : List Impl, (registry.registerImpl decl).2.impls = registry.impls ++ impls ∧
        ∀ impl ∈ impls, impl.implementer = decl.implementer ∧ impl.methods = decl.methods ∧
          impl.assocTypes = decl.assocTypes := by
  unfold registerImpl
  split
  · next impl made =>
      refine ⟨?_, [impl], ?_, ?_⟩
      · unfold addImpl
        dsimp only
        split
        · rfl
        · split <;> rfl
      · unfold addImpl
        dsimp only
        split
        · rfl
        · split <;> rfl
      · rw [List.forall_mem_singleton]
        unfold implOf? at made
        dsimp only at made
        split at made
        · cases made
          exact ⟨rfl, rfl, rfl⟩
        · obtain ⟨trait, _, rfl⟩ := Option.map_eq_some_iff.mp made
          exact ⟨rfl, rfl, rfl⟩
  · exact ⟨rfl, [], (List.append_nil _).symm, nofun⟩

namespace Checker

variable {policy : Policy} {declaring : Bool} {before after : Checker} {ty : Ty}
  {assocTypes : List AssocDecl} {base : Expr} {baseTy : Ty} {implementer : Ty}
  {methods : List MethodDecl} {step : CheckM α}

section Reporting

variable {rel : Checker → Checker → Prop} [Steady rel] [Reporting rel]

instance (decl : MethodDecl) (method : ImplMethod) (provided : Ty) :
    Along rel (reportNonconforming trait decl method wanted provided error) := by
  unfold reportNonconforming
  infer_instance

instance (op : BinaryOp) (left right : Expr) (leftTy rightTy : Ty) :
    Along rel (reportOperands op left right leftTy rightTy error) := by
  unfold reportOperands
  infer_instance

instance (right : Expr) (rightTy : Ty) : Along rel (reportPipe right wanted rightTy error) := by
  unfold reportPipe
  infer_instance

instance (receiver : Expr) (self : Ty) : Along rel (reportNoMethod receiver method span self) := by
  unfold reportNoMethod
  split <;> infer_instance

instance (methodTy : Ty) : Along rel (reportResolved methodTy wanted method span args error) := by
  unfold reportResolved
  have : ∀ reached : Ty, Along rel (match error.fault, reached with
      | .arityMismatch, .fn params _ =>
        if params.length ≠ args.length + 1 then
          report (.error .typeMismatch span
            ("method `" ++ method ++ "`" ++ takesButSupplied (params.length - 1) args.length))
        else reportMismatch error methodTy wanted span pure
      | _, _ => reportMismatch error methodTy wanted span pure) := by
    intro reached
    split <;> infer_instance
  infer_instance

instance (thenBranch elseBranch : Expr) (elseTy : Ty) :
    Along rel (reportElse thenBranch elseBranch result elseTy error) := by
  unfold reportElse
  infer_instance

instance (bodyTy : Ty) (body : Expr) (first : Span) :
    Along rel (reportArm result bodyTy body first error) := by
  unfold reportArm
  infer_instance

instance (signature : Signature) (body : Ty) :
    Along rel (reportBody item signature result body error) := by
  unfold reportBody
  infer_instance

instance (finding : Unreachable) : Along rel (reportUnreachable finding) := by
  cases finding <;> (unfold reportUnreachable; infer_instance)

instance (scrutineeExpr : Expr) (arms : List Arm) (scrutinee : Ty) :
    Along rel (checkCoverage scrutineeExpr arms span scrutinee) := by
  unfold checkCoverage
  infer_instance

instance (info : EnumInfo) (variant : String) (arity : Nat) :
    Along rel (selectVariant info variant arity span) := by
  unfold selectVariant
  split <;> infer_instance

instance : Along rel checkUnused := by
  unfold checkUnused
  infer_instance

end Reporting

theorem keeps_fresh :
    Keeps policy declaring fresh before fun ty after => policy.FitsIn after ty := by
  intro obeys
  refine ⟨.single (.supply _ (Nat.le_succ _)), ?_⟩
  rintro _ _ ⟨⟩
  exact Policy.fits_fresh obeys.started

theorem keeps_freshList (count : Nat) :
    Keeps policy declaring (freshList count) before fun types after =>
      types.length = count ∧ ∀ ty ∈ types, policy.FitsIn after ty := by
  intro obeys
  refine ⟨.single (.supply _ (Nat.le_add_right _ _)), ?_⟩
  rintro _ _ ⟨⟩
  exact ⟨length_nextVars _ _, Policy.fits_nextVars obeys.started count⟩

theorem keeps_ofComplete {option : Option α} {good : α → Checker → Prop}
    (each : ∀ value, option = some value → good value before) :
    Keeps policy declaring (ofComplete option) before good := by
  cases option with
  | none => exact keeps_throw
  | some value => exact keeps_pure (each value rfl)

theorem keeps_withSupply {take : Supply → Option α × Supply} {good : Nat → α → Prop}
    (grown : before.Obeys policy → Policy.Grown good before.supply (take before.supply)) :
    Keeps policy declaring (withSupply take) before fun value after =>
      good after.supply.next value := by
  intro obeys
  have ⟨grows, result⟩ := grown obeys
  have changes : Changes policy declaring before { before with supply := (take before.supply).2 } :=
    .single (.supply _ grows)
  have keeps : Keeps policy declaring (ofComplete (take before.supply).1)
      { before with supply := (take before.supply).2 } fun value after =>
        good after.supply.next value :=
    keeps_ofComplete fun value made => result made
  have ⟨more, good⟩ := keeps (changes.obeys obeys)
  exact ⟨changes.trans more, good⟩

theorem keeps_instantiate (fits : policy.FitsIn before ty) :
    Keeps policy declaring (instantiate ty) before fun ty after => policy.FitsIn after ty :=
  keeps_withSupply fun obeys => Policy.grown_instantiate obeys.started fits

theorem applied?_eq {subst : Subst} {solved : Ty} (applied : subst.applied? ty = some solved) :
    solved = subst.apply ty := by
  obtain ⟨_, ⟨⟩⟩ := Option.ite_none_right_eq_some.mp applied
  rfl

theorem keeps_solved (fits : policy.FitsIn before ty) :
    Keeps policy declaring (solved ty) before fun ty after => policy.FitsIn after ty := by
  refine keeps_get fun obeys => keeps_ofComplete fun solved applied => ?_
  exact applied?_eq applied ▸ fits.apply obeys.closed

theorem keeps_shallow (fits : policy.FitsIn before ty) :
    Keeps policy declaring (shallow ty) before fun ty after => policy.FitsIn after ty := by
  refine keeps_get fun obeys => keeps_ofComplete fun reached followed => ?_
  rw [← Subst.shallow?_eq_some followed]
  exact obeys.closed.shallow fits

theorem keeps_applyParams {written : Bool} (admits : policy.Admits written before.supply.next ty) :
    Keeps policy declaring (applyParams ty) before fun ty after =>
      policy.Admits written after.supply.next ty := by
  refine keeps_get fun obeys => keeps_ofComplete fun applied replaced => ?_
  obtain ⟨_, ⟨⟩⟩ := Option.ite_none_right_eq_some.mp replaced
  exact (admits.replaceParams obeys.params).apply obeys.closed

theorem keeps_expandAliases (writes : policy.Writes before.supply.next ty) :
    Keeps policy declaring (expandAliases ty) before fun ty after =>
      policy.Writes after.supply.next ty := by
  refine keeps_get fun obeys => keeps_withSupply fun _ => ?_
  exact Policy.grown_expand obeys.started obeys.aliases writes

theorem keeps_resolveType (written : policy.Writes 0 ty) :
    Keeps policy declaring (resolveType ty) before fun ty after => policy.FitsIn after ty := by
  unfold resolveType
  split
  · exact keeps_fresh
  · have writes : policy.Writes before.supply.next ty := written.raise (Nat.zero_le _)
    refine keeps_bind (keeps_applyParams writes) fun applied middle _ _ writesApplied => ?_
    refine keeps_bind (keeps_expandAliases writesApplied) fun expanded after _ _ writesAll => ?_
    exact keeps_withSupply fun obeys => Policy.grown_resolve obeys.started writesAll

theorem fits_signature? {decl : MethodDecl} (fit : ∀ ty ∈ decl.types, policy.FitsIn before ty)
    (fitsSelf : policy.FitsIn before implementer)
    (made : decl.signature? implementer = some ty) : policy.FitsIn before ty := by
  obtain ⟨params, replaced, rest⟩ := Option.bind_eq_some_iff.mp made
  obtain ⟨result, replacedResult, same⟩ := Option.bind_eq_some_iff.mp rest
  cases same
  refine Policy.admits_fn (fun param member => ?_) ?_
  · obtain ⟨declared, declaredMember, replacedOne⟩ := exists_of_mem_mapM replaced member
    exact .of_substSelf? (fit declared (List.mem_append_left _ declaredMember)) replacedOne fitsSelf
  · exact .of_substSelf? (fit decl.result (List.mem_append_right _ List.mem_cons_self))
      replacedResult fitsSelf

theorem keeps_unify (fitsExpected : policy.FitsIn before expected)
    (fitsFound : policy.FitsIn before found) :
    Keeps policy declaring (unify expected found) before fun _ _ => True := by
  rw [unify_eq]
  refine keeps_bind keeps_reads fun _ middle _ changes _ => ?_
  have change : Change policy declaring middle
      { middle with subst := (middle.subst.unify expected found).1 } :=
    .unify (changes.fits fitsExpected) (changes.fits fitsFound)
  refine keeps_bind (keeps_modifyGet fun _ => .single change) fun failure after _ _ _ => ?_
  exact keeps_reads.mono fun _ _ _ _ => trivial

theorem keeps_compare {handle : UnifyError → CheckM Unit} [∀ error, Reads (handle error)]
    (fitsExpected : policy.FitsIn before expected) (fitsFound : policy.FitsIn before found) :
    Keeps policy declaring (compare expected found handle) before fun _ _ => True := by
  refine keeps_bind (keeps_unify fitsExpected fitsFound) fun failure after _ _ _ => ?_
  cases failure with
  | none => exact keeps_pure trivial
  | some error => exact keeps_reads.mono fun _ _ _ _ => trivial

theorem keeps_bindLocal {used : Bool} (fits : policy.FitsIn before ty) :
    Keeps policy declaring (bindLocal id name ty span used) before fun _ _ => True := by
  refine (keeps_modify fun _ => .single (.locals _ fun info member => ?_)).mono
    fun _ _ _ _ => trivial
  rcases Locals.mem_values_bind member with rfl | old
  · exact .inr fits
  · exact .inl ⟨info, old, rfl⟩

theorem keeps_removeLocal : Keeps policy declaring (removeLocal id) before fun _ _ => True := by
  refine (keeps_modify fun _ => .single (.locals _ fun info member => ?_)).mono
    fun _ _ _ _ => trivial
  exact .inl ⟨info, Locals.mem_values_remove member, rfl⟩

theorem keeps_inferLocal :
    Keeps policy declaring (inferLocal id span) before fun ty after => policy.FitsIn after ty := by
  refine keeps_get fun obeys => ?_
  split
  · exact keeps_bind keeps_reads fun _ _ _ _ _ => keeps_fresh
  · next info found =>
      have member := Locals.mem_values_of_find? found
      refine keeps_bind (keeps_modify fun _ => .single (.locals _ fun other otherMember => ?_))
        fun _ after _ changes _ => ?_
      · exact .inl (Locals.mem_values_refer otherMember)
      · exact keeps_instantiate (changes.fits (obeys.locals info member))

theorem keeps_inferGlobal :
    Keeps policy declaring (inferGlobal decl span) before fun ty after =>
      policy.FitsIn after ty := by
  refine keeps_get fun obeys => ?_
  split
  · next found => exact keeps_instantiate (obeys.global found)
  · split
    · exact keeps_bind keeps_reads fun _ _ _ _ _ => keeps_fresh
    · exact keeps_bind keeps_reads fun _ _ _ _ _ => keeps_fresh

/-- A type that was found fits. -/
def FitsIfFound (policy : Policy) (found : Option Ty) (after : Checker) : Prop :=
  ∀ ty, found = some ty → policy.FitsIn after ty

theorem keeps_recordField? {fields : Row} (fits : policy.FitsIn before (.record fields)) :
    Keeps policy declaring (recordField? fields name) before (FitsIfFound policy) := by
  unfold recordField?
  split
  · exact keeps_throw
  · refine keeps_pure fun ty found => ?_
    exact fits.field (Row.mem_of_find? found)

theorem keeps_structField? (fits : ∀ ty ∈ info.types, policy.FitsIn before ty)
    (fitArgs : ∀ arg ∈ args, policy.FitsIn before arg) :
    Keeps policy declaring (structField? info args name) before (FitsIfFound policy) := by
  unfold structField?
  split
  · next declared found =>
      have : Keeps policy declaring (ofComplete (declared.substParams? args)) before fun ty after =>
          policy.FitsIn after ty :=
        keeps_ofComplete fun ty replaced =>
          .of_substParams? (fits declared (StructInfo.mem_types_of_field? found)) replaced fitArgs
      refine keeps_bind this fun ty after _ _ fits => keeps_pure ?_
      rintro _ ⟨⟩
      exact fits
  · exact keeps_pure nofun

theorem keeps_fieldType? (fits : policy.FitsIn before ty) :
    Keeps policy declaring (fieldType? ty name) before (FitsIfFound policy) := by
  unfold fieldType?
  split
  · exact keeps_recordField? fits
  · refine keeps_get fun obeys => ?_
    split
    · next declared =>
        exact keeps_structField? (obeys.struct declared) fun arg member => fits.part member
    · exact keeps_pure nofun
  · exact keeps_pure nofun

theorem keeps_inferField (fits : policy.FitsIn before baseTy) :
    Keeps policy declaring (inferField base name span baseTy) before fun ty after =>
      policy.FitsIn after ty := by
  refine keeps_bind (keeps_solved fits) fun base' middle _ _ fitsBase => ?_
  refine keeps_bind (keeps_fieldType? fitsBase) fun result after _ _ fitsResult => ?_
  split
  · exact keeps_pure (fitsResult _ rfl)
  · refine keeps_bind keeps_reads fun _ _ _ _ _ => ?_
    exact keeps_bind keeps_reads fun _ _ _ _ _ => keeps_fresh
  · exact keeps_bind keeps_reads fun _ _ _ _ _ => keeps_fresh

theorem keeps_inferElement {position : Int} (fits : policy.FitsIn before baseTy) :
    Keeps policy declaring (inferElement base position span baseTy) before fun ty after =>
      policy.FitsIn after ty := by
  refine keeps_bind (keeps_solved fits) fun base' middle _ _ fitsBase => ?_
  dsimp only
  split
  · next found =>
      refine keeps_pure ?_
      split at found
      · split at found
        · cases found
        · exact fitsBase.part (List.mem_of_getElem? found)
      · cases found
  · refine keeps_bind keeps_reads fun _ _ _ _ _ => ?_
    exact keeps_bind keeps_reads fun _ _ _ _ _ => keeps_fresh
  · exact keeps_bind keeps_reads fun _ _ _ _ _ => keeps_fresh

/-- A way to find fields gives types that fit, now and later. -/
def Finds (policy : Policy) (declaring : Bool) (find : String → CheckM (Option Ty))
    (before : Checker) : Prop :=
  ∀ name after, Changes policy declaring before after →
    Keeps policy declaring (find name) after (FitsIfFound policy)

theorem keeps_knownFields (fits : policy.FitsIn before expected) :
    Keeps policy declaring (knownFields expected) before fun result after =>
      ∀ find, result = some find → Finds policy declaring find after := by
  refine keeps_bind (keeps_shallow fits) fun reached middle _ _ fitsReached => ?_
  split
  · refine keeps_pure ?_
    rintro _ ⟨⟩ name after changes
    exact keeps_recordField? (changes.fits fitsReached)
  · refine keeps_get fun obeys => keeps_pure ?_
    intro find found name after changes
    obtain ⟨info, declared, rfl⟩ := Option.map_eq_some_iff.mp found
    exact keeps_structField? (changes.fitAll (obeys.struct declared))
      (changes.fitAll fun arg member => fitsReached.part member)
  · exact keeps_pure nofun

theorem keeps_selectVariant {info : EnumInfo} {variant : String} {arity : Nat} :
    Keeps policy declaring (selectVariant info variant arity span) before fun result _ =>
      ∀ found, result = some found → found ∈ info.variants ∧ found.fields.length = arity := by
  unfold selectVariant
  split
  · exact keeps_pure nofun
  · next found others candidates =>
      have member : found ∈ info.variants ∧ found.fields.length = arity := by
        have : found ∈ info.variantsOfArity arity := candidates ▸ List.mem_cons_self
        simpa [EnumInfo.variantsOfArity] using this
      split
      · refine keeps_bind keeps_reads fun _ _ _ _ _ => keeps_pure ?_
        rintro _ ⟨⟩
        exact member
      · split
        · refine keeps_bind keeps_reads fun _ _ _ _ _ => keeps_pure ?_
          rintro _ ⟨⟩
          exact member
        · refine keeps_pure ?_
          rintro _ ⟨⟩
          exact member

theorem generalize?_eq {subst : Subst} {environment : List VarId}
    (generalised : subst.generalize? environment ty = some scheme) :
    scheme = subst.generalize environment ty := by
  obtain ⟨_, ⟨⟩⟩ := Option.ite_none_right_eq_some.mp generalised
  rfl

theorem keeps_bindLet_bind (fits : policy.FitsIn before ty) :
    Keeps policy declaring (bindLet (.bind id name span) ty) before fun _ _ => True := by
  rw [bindLet_eq]
  refine keeps_bind keeps_reads fun environment middle _ changes _ => ?_
  refine keeps_get fun obeys => ?_
  have generalised : Keeps policy declaring
      (ofComplete (middle.subst.generalize? environment ty)) middle fun scheme after =>
        policy.FitsIn after scheme :=
    keeps_ofComplete fun scheme made => generalize?_eq made ▸
      (changes.fits fits).generalize obeys.closed environment
  refine keeps_bind generalised fun scheme reached _ _ fitsScheme => ?_
  refine keeps_bind keeps_reads fun _ after _ later _ => ?_
  exact keeps_bindLocal (later.fits fitsScheme)

theorem keeps_clearParams : Keeps policy declaring
    (modify fun checker => { checker with subst := checker.subst.clearParams }) before
      fun _ _ => True := by
  refine (keeps_modify fun _ => .single (.params .empty ?_)).mono fun _ _ _ _ => trivial
  intro ty member
  cases member

theorem keeps_bindParam {index : Int} (fits : policy.FitsIn before ty) : Keeps policy declaring
    (modify fun checker => { checker with subst := checker.subst.bindParam index ty }) before
      fun _ _ => True := by
  refine (keeps_modify fun _ => .single (.params (before.subst.params.insert index ty) ?_)).mono
    fun _ _ _ _ => trivial
  intro other member
  rcases Table.mem_values_insert member with rfl | old
  · exact .inr fits
  · exact .inl old

theorem keeps_bindGenerics (count : Nat) :
    Keeps policy declaring (bindGenerics count) before fun _ _ => True := by
  refine keeps_bind keeps_clearParams fun _ middle _ _ _ => keeps_forM fun position _ after _ => ?_
  exact keeps_bind keeps_fresh fun ty _ _ _ fits => keeps_bindParam fits

theorem keeps_bindSignature {params : List Param} (fit : ∀ ty ∈ types, policy.FitsIn before ty) :
    Keeps policy declaring (bindSignature params types) before fun _ _ => True := by
  induction params generalizing types before with
  | nil => exact keeps_pure trivial
  | cons param params ih =>
    cases types with
    | nil => exact keeps_throw
    | cons ty types =>
      refine keeps_bind (keeps_applyParams (fit ty List.mem_cons_self))
        fun applied middle _ changes fits => ?_
      refine keeps_bind (keeps_bindLocal fits) fun _ after _ later _ => ?_
      exact ih ((changes.trans later).fitAll fun other member =>
        fit other (List.mem_cons_of_mem _ member))

theorem keeps_enterBody {signature : Signature}
    (fit : ∀ ty ∈ signature.types, policy.FitsIn before ty) :
    Keeps policy declaring (enterBody item signature) before fun ty after =>
      policy.FitsIn after ty := by
  refine keeps_bind (keeps_modify fun _ => .single (.current _)) fun _ placed _ toPlaced _ => ?_
  refine keeps_bind keeps_reads fun _ traced _ toTraced _ => ?_
  refine keeps_bind (keeps_bindGenerics _) fun _ generic _ toGeneric _ => ?_
  have early := (toPlaced.trans toTraced).trans toGeneric
  refine keeps_bind (keeps_bindSignature (early.fitAll fun ty member =>
    fit ty (List.mem_append_left _ member))) fun _ after _ toAfter _ => ?_
  exact keeps_applyParams ((early.trans toAfter).fits
    (fit signature.result (List.mem_append_right _ List.mem_cons_self)))

theorem keeps_leaveBody : Keeps policy declaring leaveBody before fun _ _ => True := by
  refine (keeps_modify fun _ => ?_).mono fun _ _ _ _ => trivial
  have forget : Change policy declaring before { before with locals := .empty } :=
    .locals .empty (by rintro info ⟨⟩)
  have clear : Change policy declaring { before with locals := .empty }
      { before with locals := .empty, subst := before.subst.clearParams } :=
    .params .empty (by rintro ty ⟨⟩)
  exact ((Relation.ReflTransGen.single forget).tail clear).tail (.current none)

theorem keeps_declare {change : Checker → Checker}
    (rest : change before = { before with
      registry := (change before).registry, names := (change before).names,
      spans := (change before).spans, structs := (change before).structs,
      enums := (change before).enums, aliases := (change before).aliases,
      globals := (change before).globals, signatures := (change before).signatures })
    (types : ∀ ty ∈ (change before).declaredTypes,
      ty ∈ before.declaredTypes ∨ policy.FitsIn before ty)
    (targets : ∀ info ∈ (change before).aliases.values,
      (∃ old ∈ before.aliases.values, old.target = info.target) ∨ policy.Writes 0 info.target)
    (functions : KeepsFunctions before (change before)) :
    Keeps policy true (modify change) before fun _ _ => True :=
  (keeps_modify fun _ => .single (.declare rfl rest types targets functions)).mono
    fun _ _ _ _ => trivial

theorem keeps_declareName : Keeps policy true (declareName decl name) before fun _ _ => True :=
  keeps_declare rfl (fun _ member => Or.inl member) (fun info member => Or.inl ⟨info, member, rfl⟩)
    (.of_same rfl rfl)

theorem mem_declaredTypes_declareStruct (member : ty ∈ declaredTypes
      { before with structs := before.structs.insert decl { name, generics } }) :
    ty ∈ before.declaredTypes := by
  simp only [mem_declaredTypes] at member ⊢
  grind [→ Table.mem_flatMap_insert, StructInfo.types]

theorem keeps_declareStruct :
    Keeps policy true (modify fun checker : Checker =>
      { checker with structs := checker.structs.insert decl { name, generics } }) before
      fun _ _ => True :=
  keeps_declare rfl (fun _ member => Or.inl (mem_declaredTypes_declareStruct member))
    (fun info member => Or.inl ⟨info, member, rfl⟩) (.of_same rfl rfl)

theorem mem_declaredTypes_declareEnum (member : ty ∈ declaredTypes
      { before with enums := before.enums.insert decl { name, generics } }) :
    ty ∈ before.declaredTypes := by
  simp only [mem_declaredTypes] at member ⊢
  grind [→ Table.mem_flatMap_insert, EnumInfo.types]

theorem keeps_declareEnum :
    Keeps policy true (modify fun checker : Checker =>
      { checker with enums := checker.enums.insert decl { name, generics } }) before
      fun _ _ => True :=
  keeps_declare rfl (fun _ member => Or.inl (mem_declaredTypes_declareEnum member))
    (fun info member => Or.inl ⟨info, member, rfl⟩) (.of_same rfl rfl)

theorem keeps_declareAlias {target : Ty} (writes : policy.Writes 0 target) :
    Keeps policy true (modify fun checker : Checker =>
      { checker with aliases := checker.aliases.insert decl { target } }) before
      fun _ _ => True := by
  refine keeps_declare rfl (fun _ member => Or.inl member) (fun info member => ?_)
    (.of_same rfl rfl)
  rcases Table.mem_values_insert member with rfl | kept
  · exact .inr writes
  · exact .inl ⟨info, kept, rfl⟩

theorem keeps_declareItem {item : Item}
    (written : ∀ entry, item = .alias entry → policy.Writes 0 entry.target) :
    Keeps policy true (declareItem item) before fun _ _ => True := by
  refine keeps_bind keeps_reads fun header middle _ _ _ => ?_
  obtain ⟨_, decl, span⟩ := header
  have placed : Keeps policy true (modify fun checker : Checker =>
      { checker with spans := checker.spans.insert decl span }) middle fun _ _ => True :=
    keeps_declare rfl (fun _ member => Or.inl member)
      (fun info member => Or.inl ⟨info, member, rfl⟩) (.of_same rfl rfl)
  refine keeps_bind placed fun _ after _ _ _ => ?_
  match item, written with
  | .struct item, _ => exact keeps_bind keeps_declareName fun _ _ _ _ _ => keeps_declareStruct
  | .enum item, _ => exact keeps_bind keeps_declareName fun _ _ _ _ _ => keeps_declareEnum
  | .alias item, written =>
    exact keeps_bind keeps_declareName fun _ _ _ _ _ => keeps_declareAlias (written item rfl)
  | .function item, _ | .trait item, _ => exact keeps_declareName
  | .foreign name decl span, _ => exact keeps_reads.mono fun _ _ _ _ => trivial
  | .impl _, _ | .missing, _ => exact keeps_pure trivial

theorem target_of_marked {marked : List AliasItem} {aliases : Table DefId AliasInfo}
    {info : AliasInfo}
    (member : info ∈ (marked.foldl (fun table item =>
      table.modify item.id fun info => { info with cyclic := true }) aliases).values) :
    ∃ old ∈ aliases.values, old.target = info.target := by
  induction marked generalizing aliases with
  | nil => exact ⟨info, member, rfl⟩
  | cons first rest ih =>
    obtain ⟨middle, middleMember, same⟩ := ih member
    rcases Table.mem_values_modify middleMember with kept | ⟨old, oldMember, rfl⟩
    · exact ⟨middle, kept, same⟩
    · exact ⟨old, oldMember, same⟩

theorem keeps_checkAliasCycles {aliases : List AliasItem} :
    Keeps policy true (checkAliasCycles aliases) before fun _ _ => True := by
  refine keeps_bind keeps_reads fun _ middle _ _ _ => keeps_forM fun cycle _ after _ => ?_
  cases cycle with
  | nil => exact keeps_pure trivial
  | cons first others =>
    have marks : Keeps policy true (modify fun checker : Checker =>
        { checker with
          aliases := (first :: others).foldl
            (fun table item => table.modify item.id fun info => { info with cyclic := true })
            checker.aliases }) after fun _ _ => True :=
      keeps_declare rfl (fun _ member => Or.inl member)
        (fun info member => Or.inl (target_of_marked member)) (.of_same rfl rfl)
    refine keeps_bind marks fun _ last _ _ _ => ?_
    exact keeps_reads.mono fun _ _ _ _ => trivial

theorem mem_declaredTypes_addField {other : Ty} (member : other ∈ declaredTypes { before with
      structs := before.structs.modify decl fun info =>
        { info with fields := info.fields ++ [(name, ty)] } }) :
    other ∈ before.declaredTypes ∨ other = ty := by
  simp only [mem_declaredTypes] at member ⊢
  grind [→ Table.mem_flatMap_modify, StructInfo.types]

theorem keeps_addField (fits : policy.FitsIn before ty) :
    Keeps policy true (addField decl name ty) before fun _ _ => True := by
  refine keeps_declare rfl (fun other member => ?_) (fun info member => Or.inl ⟨info, member, rfl⟩)
    (.of_same rfl rfl)
  rcases mem_declaredTypes_addField member with old | rfl
  · exact .inl old
  · exact .inr fits

theorem mem_declaredTypes_addVariant (member : ty ∈ declaredTypes { before with
      enums := before.enums.modify decl fun info =>
        { info with variants := info.variants ++ [⟨name, types⟩] } }) :
    ty ∈ before.declaredTypes ∨ ty ∈ types := by
  simp only [mem_declaredTypes] at member ⊢
  grind [→ Table.mem_flatMap_modify, EnumInfo.types]

theorem keeps_addVariant (fit : ∀ ty ∈ types, policy.FitsIn before ty) :
    Keeps policy true (addVariant decl name types) before fun _ _ => True := by
  refine keeps_declare rfl (fun other member => ?_) (fun info member => Or.inl ⟨info, member, rfl⟩)
    (.of_same rfl rfl)
  exact (mem_declaredTypes_addVariant member).imp_right (fit other)

theorem keepsFunctions_addSignature :
    KeepsFunctions before { before with
      signatures := before.signatures.insert item.id ⟨params, result, item.result.isDeclared⟩
      globals := before.globals.insert item.id (item.scheme params result) } := by
  constructor
  · intro decl found
    rw [Table.find?_insert]
    split
    · rfl
    · exact found
  · intro linked decl signature found
    rw [Table.find?_insert] at found ⊢
    split at found
    · next same =>
        cases found
        exact ⟨item, if_pos same⟩
    · next other =>
        rw [if_neg other]
        exact linked found

theorem mem_declaredTypes_addSignature (member : ty ∈ declaredTypes { before with
      signatures := before.signatures.insert item.id ⟨params, result, item.result.isDeclared⟩
      globals := before.globals.insert item.id (item.scheme params result) }) :
    ty ∈ before.declaredTypes ∨ ty = item.scheme params result ∨ ty ∈ params ∨ ty = result := by
  simp only [mem_declaredTypes] at member ⊢
  grind [→ Table.mem_values_insert, → Table.mem_flatMap_insert, Signature.types]

theorem keeps_addSignature (fitParams : ∀ ty ∈ params, policy.FitsIn before ty)
    (fits : policy.FitsIn before result) :
    Keeps policy true (addSignature item params result) before fun _ _ => True := by
  refine keeps_declare rfl (fun other member => ?_) (fun info member => Or.inl ⟨info, member, rfl⟩)
    keepsFunctions_addSignature
  rcases mem_declaredTypes_addSignature member with old | rfl | isParam | rfl
  · exact .inl old
  · refine .inr ?_
    unfold FunctionItem.scheme
    split
    · exact Policy.admits_fn fitParams fits
    · exact Policy.admits_scheme _ (Policy.admits_fn fitParams fits)
  · exact .inr (fitParams other isParam)
  · exact .inr fits

theorem mem_declaredTypes_addTrait {item : TraitItem} (member : ty ∈ declaredTypes { before with
      registry := before.registry.addTrait item.id item.name methods assocTypes }) :
    ty ∈ before.declaredTypes ∨ (∃ decl ∈ methods, ty ∈ decl.types) ∨
      ∃ decl ∈ assocTypes, ty ∈ decl.types := by
  have traits : (before.registry.addTrait item.id item.name methods assocTypes).traits =
      before.registry.traits ++ [⟨before.registry.traits.length, item.id, item.name, methods,
        assocTypes⟩] := rfl
  have impls : (before.registry.addTrait item.id item.name methods assocTypes).impls =
      before.registry.impls := rfl
  simp only [mem_declaredTypes, traits, impls] at member ⊢
  grind [Trait.types]

theorem keeps_addTrait {item : TraitItem}
    (fitMethods : ∀ decl ∈ methods, ∀ ty ∈ decl.types, policy.FitsIn before ty)
    (fitAssoc : ∀ decl ∈ assocTypes, ∀ ty ∈ decl.types, policy.FitsIn before ty) :
    Keeps policy true (addTrait item methods assocTypes) before fun _ _ => True := by
  refine keeps_declare rfl (fun other member => ?_) (fun info member => Or.inl ⟨info, member, rfl⟩)
    (.of_same rfl rfl)
  rcases mem_declaredTypes_addTrait member with old | ⟨decl, declMember, inDecl⟩ |
    ⟨decl, declMember, inDecl⟩
  · exact .inl old
  · exact .inr (fitMethods decl declMember other inDecl)
  · exact .inr (fitAssoc decl declMember other inDecl)

theorem keeps_collectImplMethod {entry : Field DefId} :
    Keeps policy declaring (collectImplMethod entry) before fun method after =>
      policy.FitsIn after method.ty := by
  refine keeps_get fun obeys => ?_
  split
  · next found => exact keeps_pure (obeys.global found)
  · refine keeps_bind keeps_reads fun _ middle _ _ _ => ?_
    exact keeps_bind keeps_fresh fun ty _ _ _ fits => keeps_pure fits

theorem mem_declaredTypes_registerImpl {decl : Registry.ImplDecl} (member : ty ∈ declaredTypes
      { before with registry := (before.registry.registerImpl decl).2 }) :
    ty ∈ before.declaredTypes ∨ ty = decl.implementer ∨ (∃ method ∈ decl.methods, ty = method.ty) ∨
      ∃ entry ∈ decl.assocTypes, ty = entry.content := by
  obtain ⟨sameTraits, impls, grown, same⟩ := before.registry.of_registerImpl decl
  have added : ty ∈ impls.flatMap Impl.types → ty = decl.implementer ∨
      (∃ method ∈ decl.methods, ty = method.ty) ∨ ∃ entry ∈ decl.assocTypes,
        ty = entry.content := by
    intro found
    obtain ⟨impl, isNew, inImpl⟩ := List.mem_flatMap.mp found
    obtain ⟨sameImplementer, sameMethods, sameAssoc⟩ := same impl isNew
    simpa only [Impl.types, sameImplementer, sameMethods, sameAssoc, List.mem_cons,
      List.mem_append, List.mem_map, eq_comm (a := ty)] using inImpl
  simp only [mem_declaredTypes, sameTraits, grown, List.flatMap_append, List.mem_append] at member ⊢
  grind

theorem keeps_addImpl {item : ImplItem} {methods : List ImplMethod}
    {assocTypes : List (Field Ty)} (fits : policy.FitsIn before implementer)
    (fitMethods : ∀ method ∈ methods, policy.FitsIn before method.ty)
    (fitAssoc : ∀ entry ∈ assocTypes, policy.FitsIn before entry.content) :
    Keeps policy true (addImpl item implementer methods assocTypes) before fun _ _ => True := by
  refine keeps_get fun _ => ?_
  refine keeps_bind (keeps_declare rfl (fun other member => ?_)
    (fun info member => Or.inl ⟨info, member, rfl⟩) (.of_same rfl rfl)) fun _ _ _ _ _ => ?_
  · rcases mem_declaredTypes_registerImpl member with old | rfl |
      ⟨method, methodMember, rfl⟩ | ⟨entry, entryMember, rfl⟩
    · exact .inl old
    · exact .inr fits
    · exact .inr (fitMethods method methodMember)
    · exact .inr (fitAssoc entry entryMember)
  · split
    · exact keeps_pure trivial
    · exact keeps_reads.mono fun _ _ _ _ => trivial

section Quiet

variable {α β : Type}

/-- The step reports nothing. -/
class Quiet (step : CheckM α) : Prop where
  keeps : ∀ before, (finish step before).log = before.log

def SameLog (before after : Checker) : Prop := after.log = before.log

instance : Steady SameLog where
  refl _ := rfl
  trans early late := Eq.trans late early
  trace _ _ := rfl

instance : Solving SameLog where
  take _ _ := rfl
  solve _ _ := rfl

instance : Naming SameLog where
  name _ _ := rfl

instance [along : Along SameLog step] : Quiet step := ⟨along.ends⟩

end Quiet

theorem runs_of_quiet [quiet : Quiet step] {result : α}
    (ran : step before = .ok result after) : Runs step before result after :=
  ⟨ran, finish_of_ok ran ▸ quiet.keeps before⟩

theorem of_solved {solution : Ty} (ran : solved ty before = .ok solution after) :
    solution = before.subst.apply ty ∧ after = before := by
  obtain ⟨applied, rfl⟩ := runs_solved.mp (runs_of_quiet ran)
  exact ⟨applied?_eq applied, rfl⟩

end Checker

end TraitCheck
