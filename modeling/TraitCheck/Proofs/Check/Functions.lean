import TraitCheck.Proofs.Check.Bindings
import TraitCheck.Proofs.Check.Rigidity

/-!
# The check of one function among the others

A `Visit` names the states around the check of the body of one function: the functions before it are
done, its generics and parameters are bound, its body is inferred and compared with the result type,
what it bound is forgotten, and the remaining functions are checked. In a check without errors every
function with a body has such a visit.
-/

namespace TraitCheck

open Ty (var)

variable {item : FunctionItem} {expected : Ty} {start : Checker}
variable {result found : Ty} {signature : Signature} {error : UnifyError} {span : Span}

namespace Checker

variable {before after : Checker} {body : Ty} {diagnostic : Diagnostic} {entered : Checker}

theorem forM_append_eq_ok {β : Type} {each : β → CheckM Unit} {first second : List β} :
    (first ++ second).forM each before = .ok () after ↔
      ∃ middle, first.forM each before = .ok () middle ∧ second.forM each middle =
        .ok () after := by
  induction first generalizing before with
  | nil =>
    constructor
    · exact fun ran => ⟨before, rfl, ran⟩
    · rintro ⟨_, ⟨⟩, ran⟩
      exact ran
  | cons value first ih =>
    constructor
    · intro ran
      obtain ⟨_, head, ranHead, ranRest⟩ := bind_eq_ok.mp ran
      obtain ⟨middle, ranFirst, ranSecond⟩ := ih.mp ranRest
      exact ⟨middle, bind_eq_ok.mpr ⟨(), head, ranHead, ranFirst⟩, ranSecond⟩
    · rintro ⟨middle, ranFirst, ranSecond⟩
      obtain ⟨_, head, ranHead, ranRest⟩ := bind_eq_ok.mp ranFirst
      exact bind_eq_ok.mpr ⟨(), head, ranHead, ih.mpr ⟨middle, ranRest, ranSecond⟩⟩

/-- Consecutive variables. -/
def genericVars (next count : Nat) : List VarId :=
  (List.range count).map fun (offset : Nat) => (next : VarId) + offset

/-- The parameters bound to consecutive variables. -/
def bindConsecutive (next count : Nat) (params : Table Int Ty) : Table Int Ty :=
  (List.range count).foldl (fun (table : Table Int Ty) (position : Nat) =>
    table.insert position (var ((next : VarId) + position))) params

theorem bindConsecutive_succ (next count : Nat) (params : Table Int Ty) :
    bindConsecutive next (count + 1) params =
      (bindConsecutive next count params).insert count (var ((next : VarId) + count)) := by
  simp [bindConsecutive, List.range_succ]

theorem bindGenerics_eq (count : Nat) (before : Checker) :
    bindGenerics count before = .ok () { before with
      supply := ⟨before.supply.next + count⟩
      subst := { before.subst with
        params := bindConsecutive before.supply.next count .empty } } := by
  refine bind_eq_ok.mpr ⟨(), { before with subst := before.subst.clearParams }, rfl, ?_⟩
  induction count with
  | zero => rfl
  | succ count ih =>
    rw [List.range_succ, bindConsecutive_succ]
    exact forM_append_eq_ok.mpr ⟨_, ih, rfl⟩

theorem find?_bindConsecutive (next count : Nat) (index : Int) :
    (bindConsecutive next count .empty).find? index =
      if index < 0 then none else ((genericVars next count)[index.toNat]?).map var := by
  induction count with
  | zero => simp [bindConsecutive, genericVars]
  | succ count ih =>
    rw [bindConsecutive_succ, Table.find?_insert, ih]
    simp only [genericVars, List.getElem?_map]
    by_cases same : (count : Int) = index
    · subst same
      simp
    · rw [if_neg same]
      split
      · rfl
      · next positive =>
          congr 2
          have other : index.toNat ≠ count := by omega
          grind

theorem of_applyParams {ty : Ty} (ran : applyParams ty before = .ok result after) :
    result = before.subst.applyParams ty ∧ after = before := by
  obtain ⟨_, _, ⟨⟩, solved⟩ := bind_eq_ok.mp ran
  obtain ⟨applied, rfl⟩ := runs_ofComplete.mp (runs_of_quiet solved)
  obtain ⟨_, ⟨⟩⟩ := Option.ite_none_right_eq_some.mp applied
  exact ⟨rfl, rfl⟩

theorem of_bindSignature {params : List Param} {types : List Ty}
    (ran : bindSignature params types before = .ok () after) :
    (∃ locals, after = { before with locals }) ∧
    (∀ id, after.locals.find? id = before.locals.find? id ∨
      ∃ ty ∈ types, ∃ info, after.locals.find? id = some info ∧
        info.ty = before.subst.applyParams ty) ∧
    ∀ param ∈ params, ∃ ty ∈ types, ∃ info, after.locals.find? param.id = some info ∧
      info.ty = before.subst.applyParams ty := by
  induction params generalizing types before with
  | nil =>
    cases ran
    exact ⟨⟨_, rfl⟩, fun _ => Or.inl rfl, nofun⟩
  | cons param params ih =>
    cases types with
    | nil => cases ran
    | cons ty types =>
      obtain ⟨applied, _, ranApply, ran⟩ := bind_eq_ok.mp ran
      obtain ⟨rfl, same⟩ := of_applyParams ranApply
      rw [same] at ran
      obtain ⟨_, _, ⟨⟩, ranRest⟩ := bind_eq_ok.mp ran
      obtain ⟨⟨locals, rfl⟩, kept, bound⟩ := ih ranRest
      have head : ∃ ty' ∈ ty :: types, ∃ info, locals.find? param.id = some info ∧
          info.ty = before.subst.applyParams ty' := by
        rcases kept param.id with same | ⟨other, member, info, found, isApplied⟩
        · rw [Locals.find?_bind, if_pos rfl] at same
          exact ⟨ty, List.mem_cons_self, _, same, rfl⟩
        · exact ⟨other, List.mem_cons_of_mem _ member, info, found, isApplied⟩
      refine ⟨⟨locals, rfl⟩, fun id => ?_, fun other member => ?_⟩
      · by_cases same : param.id = id
        · exact .inr (same ▸ head)
        · rcases kept id with old | ⟨other, member, found⟩
          · rw [Locals.find?_bind, if_neg same] at old
            exact .inl old
          · exact .inr ⟨other, List.mem_cons_of_mem _ member, found⟩
      · rcases List.mem_cons.mp member with rfl | inRest
        · exact head
        · obtain ⟨ty', tyMember, found⟩ := bound other inRest
          exact ⟨ty', List.mem_cons_of_mem _ tyMember, found⟩

/-- The state in which the body of a function is inferred. -/
structure Entered (item : FunctionItem) (signature : Signature) (start : Checker) (result : Ty)
    (entered : Checker) : Prop where
  vars : entered.subst.vars = start.subst.vars
  next : entered.supply.next = start.supply.next + item.generics.length
  params : ∀ index, entered.subst.lookupParam index =
    if index < 0 then none
    else ((genericVars start.supply.next item.generics.length)[index.toNat]?).map var
  result : result = entered.subst.applyParams signature.result
  locals : ∀ param ∈ item.params, ∃ ty ∈ signature.params, ∃ info,
    entered.locals.find? param.id = some info ∧ info.ty = entered.subst.applyParams ty

theorem of_enterBody (ran : enterBody item signature start = .ok result entered) :
    Entered item signature start result entered := by
  obtain ⟨_, placed, ⟨⟩, ran⟩ := bind_eq_ok.mp ran
  obtain ⟨_, traced, ranTrace, ran⟩ := bind_eq_ok.mp ran
  obtain ⟨trace, rfl⟩ := (runs_of_quiet ranTrace).of_traceStep fun text middle ran =>
    (runs_pure.mp ran).2
  obtain ⟨_, generic, ranGenerics, ran⟩ := bind_eq_ok.mp ran
  rw [bindGenerics_eq] at ranGenerics
  cases ranGenerics
  obtain ⟨_, bound, ranSignature, ranResult⟩ := bind_eq_ok.mp ran
  obtain ⟨⟨locals, rfl⟩, _, params⟩ := of_bindSignature ranSignature
  obtain ⟨rfl, rfl⟩ := of_applyParams ranResult
  exact ⟨rfl, rfl, find?_bindConsecutive _ _, rfl, params⟩

theorem Entered.applyParams_eq (enters : Entered item signature start result entered) (ty : Ty) :
    entered.subst.applyParams ty = entered.subst.apply
      (ty.substParams ((genericVars start.supply.next item.generics.length).map var)) := by
  unfold Subst.applyParams Subst.replaceParams Ty.substParams
  congr 2
  funext index name
  rw [enters.params]
  by_cases negative : index < 0
  · simp [negative]
  · have notSelf : index ≠ -1 := by omega
    simp [negative, notSelf]

theorem severity_differing (error : UnifyError) (whole inner : String) (span : Span) :
    (differing error whole inner span).severity = .error := by
  unfold differing
  dsimp only
  split
  case h_4 | h_5 | h_6 => split <;> rfl
  all_goals rfl

theorem cases_of_mismatch (ran : mismatch error expected found span before = .ok diagnostic after) :
    (∃ message, diagnostic = (Diagnostic.error .infiniteType span message).withPrimaryMessage
      "this expression would have an infinitely nested type") ∨
      ∃ whole inner, diagnostic = differing error whole inner span := by
  unfold mismatch at ran
  split at ran
  · obtain ⟨_, _, _, ran⟩ := bind_eq_ok.mp ran
    obtain ⟨_, _, _, ⟨⟩⟩ := bind_eq_ok.mp ran
    exact .inl ⟨_, rfl⟩
  · obtain ⟨whole, _, _, ran⟩ := bind_eq_ok.mp ran
    dsimp only at ran
    split at ran
    · obtain ⟨inner, _, _, ⟨⟩⟩ := bind_eq_ok.mp ran
      exact .inr ⟨whole, inner, rfl⟩
    · cases ran
      exact .inr ⟨whole, whole, rfl⟩

theorem severity_of_mismatch
    (ran : mismatch error expected found span before = .ok diagnostic after) :
    diagnostic.severity = .error := by
  rcases cases_of_mismatch ran with ⟨message, rfl⟩ | ⟨whole, inner, rfl⟩
  · rfl
  · exact severity_differing ..

theorem errorCount_of_reportMismatch {explain : Diagnostic → CheckM Diagnostic}
    (explains : ∀ {diagnostic explained : Diagnostic} {middle ended : Checker},
      explain diagnostic middle = .ok explained ended → explained.severity = diagnostic.severity)
    (ran : reportMismatch error expected found span explain before = .ok () after) :
    0 < after.log.errorCount := by
  obtain ⟨mismatched, _, ranMismatch, ran⟩ := bind_eq_ok.mp ran
  obtain ⟨explained, reported, ranExplain, ⟨⟩⟩ := bind_eq_ok.mp ran
  exact Log.errorCount_add_pos _ ((explains ranExplain).trans (severity_of_mismatch ranMismatch))

theorem of_compare {handle : UnifyError → CheckM Unit}
    (fails : ∀ {error : UnifyError} {middle : Checker}, handle error middle = .ok () after →
      0 < after.log.errorCount) (ran : compare expected found handle before = .ok () after)
    (clean : after.log.errorCount = 0) :
    before.subst.unify expected found = (after.subst, none) := by
  obtain ⟨failure, compared, ranUnify, ran⟩ := bind_eq_ok.mp ran
  obtain ⟨rfl, trace, rfl⟩ := (runs_of_quiet ranUnify).of_unify
  rcases failed : (before.subst.unify expected found).2 with _ | error
  · rw [failed] at ran
    cases ran
    exact Prod.ext rfl failed
  · rw [failed] at ran
    exact absurd clean (fails ran).ne'

theorem errorCount_of_reportBody
    (ran : reportBody item signature result body error before = .ok () after) :
    0 < after.log.errorCount := by
  obtain ⟨span, _, _, ran⟩ := bind_eq_ok.mp ran
  refine errorCount_of_reportMismatch (fun ranExplain => ?_) ran
  split at ranExplain
  · obtain ⟨_, _, _, ⟨⟩⟩ := bind_eq_ok.mp ranExplain
    rfl
  · cases ranExplain
    rfl

theorem of_expectBody (ran : expectBody item signature result body before = .ok () after)
    (clean : after.log.errorCount = 0) : before.subst.unify result body = (after.subst, none) :=
  of_compare errorCount_of_reportBody ran clean

theorem signature_of_collectSignature (ran : collectSignature item before = .ok () after) :
    (after.signatures.find? item.id).isSome = true := by
  obtain ⟨params, _, _, ran⟩ := bind_eq_ok.mp ran
  obtain ⟨result, _, _, ran⟩ := bind_eq_ok.mp ran
  cases ran
  dsimp only
  rw [Table.find?_insert, if_pos rfl]
  rfl

variable {policy : Policy}

theorem keeps_forM_call {β : Type} (call : β → Task Unit) {list : List β} {declaring : Bool}
    (ready : ∀ value ∈ list, ∀ after, Changes policy declaring before after →
      Ready policy declaring (call value) after) :
    Keeps policy declaring (list.forM fun value => (call value).run) before fun _ _ => True :=
  keeps_forM fun value member after changes =>
    ((holds (call value)).keeps (ready value member after changes)).mono fun _ _ _ _ => trivial

theorem signatures_of_forM {functions : List FunctionItem} (obeys : before.Obeys policy)
    (written : ∀ item ∈ functions, WritesAll policy item.written)
    (ran : functions.forM collectSignature before = .ok () after) :
    ∀ item ∈ functions, (after.signatures.find? item.id).isSome = true := by
  induction functions generalizing before with
  | nil => nofun
  | cons first functions ih =>
    obtain ⟨_, middle, ranFirst, ranRest⟩ := bind_eq_ok.mp ran
    have ready : Ready policy true (.signature first) before :=
      ⟨rfl, written first List.mem_cons_self⟩
    have obeysMiddle := (((holds _).keeps ready).changes obeys ranFirst).obeys obeys
    have writtenRest : ∀ item ∈ functions, WritesAll policy item.written :=
      fun item member => written item (List.mem_cons_of_mem _ member)
    intro item member
    rcases List.mem_cons.mp member with rfl | inRest
    · have later : Keeps policy true (functions.forM collectSignature) middle fun _ _ => True :=
        keeps_forM_call .signature fun item member _ _ => ⟨rfl, writtenRest item member⟩
      exact ((later.changes obeysMiddle ranRest).keepsFunctions).declared _
        (signature_of_collectSignature ranFirst)
    · exact ih obeysMiddle writtenRest ranRest item inRest

theorem of_collect {items : List Item} (ran : collect items before = .ok () after) :
    ∃ declared cyclic members signed traits,
      items.forM declareItem before = .ok () declared ∧
      checkAliasCycles (Item.aliases items) declared = .ok () cyclic ∧
      items.forM collectMembers cyclic = .ok () members ∧
      (Item.functions items).forM collectSignature members = .ok () signed ∧
      (Item.traits items).forM collectTrait signed = .ok () traits ∧
      (Item.impls items).forM collectImpl traits = .ok () after := by
  obtain ⟨_, declared, ranDeclare, ran⟩ := bind_eq_ok.mp ran
  obtain ⟨_, cyclic, ranCycles, ran⟩ := bind_eq_ok.mp ran
  obtain ⟨_, members, ranMembers, ran⟩ := bind_eq_ok.mp ran
  obtain ⟨_, signed, ranSignatures, ran⟩ := bind_eq_ok.mp ran
  obtain ⟨_, traits, ranTraits, ranImpls⟩ := bind_eq_ok.mp ran
  exact ⟨declared, cyclic, members, signed, traits, ranDeclare, ranCycles, ranMembers,
    ranSignatures, ranTraits, ranImpls⟩

theorem signatures_of_collect {items : List Item} (obeys : before.Obeys .any)
    (ran : collect items before = .ok () after) :
    ∀ item ∈ Item.functions items, (after.signatures.find? item.id).isSome = true := by
  have written : ∀ types : List Ty, WritesAll .any types := fun _ ty _ => Policy.writes_any ty
  rcases of_collect ran with ⟨declared, cyclic, members, signed, traits, ranDeclare, ranCycles,
    ranMembers, ranSignatures, ranTraits, ranImpls⟩
  have toDeclared := Keeps.changes
    (keeps_forM_call .declare fun _ _ _ _ => ⟨rfl, written _⟩) obeys ranDeclare
  have obeysDeclared := toDeclared.obeys obeys
  have cycles : Ready .any true (.aliasCycles (Item.aliases items)) declared := rfl
  have toCyclic := ((holds _).keeps cycles).changes obeysDeclared ranCycles
  have obeysCyclic := toCyclic.obeys obeysDeclared
  have toMembers := Keeps.changes
    (keeps_forM_call .members fun _ _ _ _ => ⟨rfl, written _⟩) obeysCyclic ranMembers
  have obeysMembers := toMembers.obeys obeysCyclic
  have toSigned := Keeps.changes
    (keeps_forM_call .signature fun _ _ _ _ => ⟨rfl, written _⟩) obeysMembers ranSignatures
  have obeysSigned := toSigned.obeys obeysMembers
  have toTraits := Keeps.changes
    (keeps_forM_call .trait fun _ _ _ _ => ⟨rfl, written _⟩) obeysSigned ranTraits
  have toImpls := Keeps.changes
    (keeps_forM_call .impl fun _ _ _ _ => ⟨rfl, written _⟩) (toTraits.obeys obeysSigned)
    ranImpls
  intro item member
  have found := signatures_of_forM obeysMembers (fun _ _ => written _) ranSignatures item member
  exact ((toTraits.trans toImpls).keepsFunctions).declared _ found

/-- The check of a module up to some functions. -/
def checkUpTo (items : List Item) (done : List FunctionItem) : CheckM Unit := do
  collect items
  checkImpls
  done.forM checkFunction

/-- The states around the check of the body of a function in a check that ends. -/
structure Visit (settings : Settings) (items : List Item) (done : List FunctionItem)
    (item : FunctionItem) (rest : List FunctionItem) where
  signature : Signature
  /-- The result type, in terms of the variables for the generics. -/
  result : Ty
  /-- The type inferred for the body. -/
  body : Ty
  start : Checker
  entered : Checker
  inferred : Checker
  compared : Checker
  left : Checker
  reaches : checkUpTo items done (initial settings) = .ok () start
  signed : start.signatures.find? item.id = some signature
  enters : enterBody item signature start = .ok result entered
  infers : inferExpr item.body entered = .ok body inferred
  compares : expectBody item signature result body inferred = .ok () compared
  leaves : (do checkUnused; leaveBody) compared = .ok () left
  ends : rest.forM checkFunction left = .ok () (check settings (some items))

variable {settings : Settings} {items : List Item} {done rest : List FunctionItem}
  {item : FunctionItem} {declaring : Bool}

theorem checkItems_of_clean (clean : (check settings (some items)).log.hasErrors = false) :
    checkItems items (initial settings) = .ok () (check settings (some items)) := by
  rw [check_some] at clean ⊢
  rcases ran : checkItems items (initial settings) with ⟨_, after⟩ | ⟨fault, after⟩
  · rfl
  · rw [ran] at clean
    exact absurd (Log.errorCount_add_pos after.log rfl) (of_decide_eq_false clean)

theorem of_checkUpTo (base : policy.base = 0)
    (written : ∀ entry ∈ items, WritesAll policy entry.annotations)
    (known : ∀ other ∈ done, other ∈ Item.functions items)
    (ran : checkUpTo items done (initial settings) = .ok () start) :
    ∃ collected, collect items (initial settings) = .ok () collected ∧
      Changes policy true (initial settings) collected ∧ Changes policy true collected start := by
  obtain ⟨_, collected, ranCollect, ran⟩ := bind_eq_ok.mp ran
  obtain ⟨_, conforming, ranImpls, ranDone⟩ := bind_eq_ok.mp ran
  have obeys : (initial settings).Obeys policy := obeys_initial base
  have readyCollect : Ready policy true (.collect items) (initial settings) := ⟨rfl, written⟩
  have toCollected := ((holds _).keeps readyCollect).changes obeys ranCollect
  have obeysCollected := toCollected.obeys obeys
  have readyImpls : Ready policy true .impls collected := trivial
  have toConforming := ((holds _).keeps readyImpls).changes obeysCollected ranImpls
  have checks : Keeps policy true (done.forM checkFunction) conforming fun _ _ => True :=
    keeps_forM_call .function fun other member _ _ =>
      WritesAll.right (written _ (function_mem (known other member)))
  have toStart := checks.changes (toConforming.obeys obeysCollected) ranDone
  exact ⟨collected, ranCollect, toCollected, toConforming.trans toStart⟩

theorem exists_visit (clean : (check settings (some items)).log.hasErrors = false)
    (order : Item.functions items = done ++ item :: rest) (present : item.body.isMissing = false) :
    Nonempty (Visit settings items done item rest) := by
  obtain ⟨_, collected, ranCollect, ran⟩ := bind_eq_ok.mp (checkItems_of_clean clean)
  obtain ⟨_, conforming, ranImpls, ran⟩ := bind_eq_ok.mp ran
  rw [order] at ran
  obtain ⟨start, ranDone, ran⟩ := forM_append_eq_ok.mp ran
  obtain ⟨_, left, ranFunction, ranRest⟩ := bind_eq_ok.mp ran
  have ranUpTo : checkUpTo items done (initial settings) = .ok () start :=
    bind_eq_ok.mpr ⟨(), collected, ranCollect, bind_eq_ok.mpr ⟨(), conforming, ranImpls, ranDone⟩⟩
  obtain ⟨signature, signed⟩ : ∃ signature, start.signatures.find? item.id = some signature := by
    have known : ∀ other ∈ done, other ∈ Item.functions items := by simp +contextual [order]
    obtain ⟨_, ranCollect, _, changes⟩ :=
      of_checkUpTo rfl (fun _ _ ty _ => Policy.writes_any ty) known ranUpTo
    refine Option.isSome_iff_exists.mp ((changes.keepsFunctions).declared _ ?_)
    exact signatures_of_collect (obeys_initial rfl) ranCollect item (by simp [order])
  obtain ⟨_, _, ⟨⟩, ran⟩ := bind_eq_ok.mp ranFunction
  rw [signed] at ran
  dsimp only at ran
  rw [present] at ran
  obtain ⟨result, entered, ranEnter, ran⟩ := bind_eq_ok.mp ran
  obtain ⟨body, inferred, ranInfer, ran⟩ := bind_eq_ok.mp ran
  obtain ⟨_, compared, ranCompare, ran⟩ := bind_eq_ok.mp ran
  exact ⟨⟨signature, result, body, start, entered, inferred, compared, left, ranUpTo, signed,
    ranEnter, ranInfer, ranCompare, ran, ranRest⟩⟩

namespace Visit

variable (visit : Visit settings items done item rest)

/-- The variables for the generics of the function. -/
def generics : List VarId := genericVars visit.start.supply.next item.generics.length

theorem toStart (base : policy.base = 0)
    (written : ∀ entry ∈ items, WritesAll policy entry.annotations)
    (order : Item.functions items = done ++ item :: rest) :
    Changes policy true (initial settings) visit.start := by
  have known : ∀ other ∈ done, other ∈ Item.functions items := by simp +contextual [order]
  obtain ⟨_, _, early, late⟩ := of_checkUpTo base written known visit.reaches
  exact early.trans late

theorem toFinal (obeys : visit.left.Obeys policy)
    (written : ∀ entry ∈ items, WritesAll policy entry.annotations)
    (order : Item.functions items = done ++ item :: rest) :
    Changes policy false visit.left (check settings (some items)) := by
  have checks : Keeps policy false (rest.forM checkFunction) visit.left fun _ _ => True := by
    refine keeps_forM_call .function fun other member _ _ => ?_
    have isFunction : other ∈ Item.functions items := by simp [order, member]
    exact WritesAll.right (written _ (function_mem isFunction))
  exact checks.changes obeys visit.ends

/-- What a visit does to the state under a policy. -/
structure Follows (policy : Policy) : Prop where
  fromStart : visit.start.Obeys policy
  toEntered : Changes policy false visit.start visit.entered
  toInferred : Changes policy false visit.entered visit.inferred
  toCompared : Changes policy false visit.inferred visit.compared
  toLeft : Changes policy false visit.compared visit.left
  fitsResult : policy.FitsIn visit.inferred visit.result
  fitsBody : policy.FitsIn visit.inferred visit.body

theorem follows (obeys : visit.start.Obeys policy)
    (written : WritesAll policy item.body.annotations) : visit.Follows policy := by
  have enters : Keeps policy false (enterBody item visit.signature) visit.start
      fun ty after => policy.FitsIn after ty := keeps_enterBody (obeys.signature visit.signed)
  have toEntered := enters.changes obeys visit.enters
  have obeysEntered := toEntered.obeys obeys
  have ready : Ready policy false (.expr item.body) visit.entered := written
  have infers : Keeps policy false (inferExpr item.body) visit.entered
      fun ty after => policy.FitsIn after ty := (holds _).keeps ready
  have toInferred := infers.changes obeysEntered visit.infers
  have obeysInferred := toInferred.obeys obeysEntered
  have fitsResult := toInferred.fits ((enters obeys).2 _ _ visit.enters)
  have fitsBody := (infers obeysEntered).2 _ _ visit.infers
  have compares : Keeps policy false (expectBody item visit.signature visit.result visit.body)
      visit.inferred fun _ _ => True := keeps_compare fitsResult fitsBody
  have toCompared := compares.changes obeysInferred visit.compares
  have leaves : Keeps policy false (do checkUnused; leaveBody) visit.compared fun _ _ => True :=
    keeps_bind keeps_reads fun _ _ _ _ _ => keeps_leaveBody
  have toLeft := leaves.changes (toCompared.obeys obeysInferred) visit.leaves
  exact ⟨obeys, toEntered, toInferred, toCompared, toLeft, fitsResult, fitsBody⟩

theorem left_forgets : visit.left.locals.values = [] ∧ visit.left.subst.params.values = [] := by
  obtain ⟨_, _, _, ran⟩ := bind_eq_ok.mp visit.leaves
  generalize visit.left = left at ran ⊢
  cases ran
  exact ⟨rfl, rfl⟩

variable {visit}

namespace Follows

theorem obeysInferred (follows : visit.Follows policy) : visit.inferred.Obeys policy :=
  (follows.toEntered.trans follows.toInferred).obeys follows.fromStart

theorem toEnd (follows : visit.Follows policy) : Changes policy false visit.start visit.left :=
  ((follows.toEntered.trans follows.toInferred).trans follows.toCompared).trans follows.toLeft

theorem obeysLeft (follows : visit.Follows policy) : visit.left.Obeys policy :=
  follows.toEnd.obeys follows.fromStart

end Follows

end Visit

end Checker

end TraitCheck
