import TraitCheck.Proofs.Check.Visits

/-!
# The operands of arithmetic, negation and concatenation

When one of these operators is checked, its operands have a type of the right kind, or their type is
a variable that is not solved yet. In the first case they keep that type to the end of the check. In
the second case the operator asks for nothing more, and the variable can later be solved by any
type.
-/

namespace TraitCheck

variable {ty leftTy rightTy : Ty} {op : BinaryOp}
variable {span : Span} {left right : Expr}

namespace Ty

/-- The types on which arithmetic is defined. -/
def isNumber : Ty → Bool
  | .prim kind => kind.isNumeric
  | _ => false

/-- The types of which values can be concatenated. -/
def isSequence : Ty → Bool
  | .prim kind => kind = .string
  | ty => ty.listElem?.isSome

end Ty

/-- What the operands of an operator have to be besides equal, by its typing rule. -/
def OperatorClass.operand? : OperatorClass → Option (Ty → Bool)
  | .arithmetic => some Ty.isNumber
  | .concatenation => some Ty.isSequence
  | .comparison | .logical | .pipe => none

namespace Checker

/-- What becomes of an operand: in the end its type is of the right kind, or its type was an
unsolved variable when the operator was checked, and is in the end what that variable has become. -/
def Accepted (valid : Ty → Bool) (moment final : Subst) (operand : Ty) : Prop :=
  valid (final.apply operand) = true ∨
    ∃ id, moment.lookup id = none ∧ moment.apply operand = .var id ∧
      final.apply operand = final.apply (.var id)

/-- A test of solved types that lets variables pass. -/
structure Passes (valid test : Ty → Bool) : Prop where
  valid_or_var : ∀ ty, ty.isKnown = true → test ty = true → valid ty = true ∨ ∃ id, ty = .var id
  stays : ∀ ty image, valid ty = true → valid (ty.bindVars image) = true

theorem passes_isNumeric : Passes Ty.isNumber Ty.isNumeric where
  valid_or_var ty known numeric := by
    cases ty with
    | prim kind => exact .inl numeric
    | var id => exact .inr ⟨id, rfl⟩
    | unknown => cases known
    | _ => cases numeric
  stays ty image number := by
    cases ty with
    | prim kind => exact number
    | _ => cases number

theorem passes_isConcatenable : Passes Ty.isSequence Ty.isConcatenable where
  valid_or_var ty known concatenable := by
    cases ty with
    | var id => exact .inr ⟨id, rfl⟩
    | unknown => cases known
    | _ => exact .inl concatenable
  stays ty image sequence := by
    cases ty with
    | prim kind => exact sequence
    | named decl args =>
      rcases args with _ | ⟨elem, _ | _⟩
      · cases sequence
      · simp only [Ty.isSequence, Ty.listElem?, Ty.bindVars_named, List.map_cons, List.map_nil] at *
        split at sequence
        · next isList => simp [isList]
        · cases sequence
      · cases sequence
    | _ => cases sequence

variable {valid test : Ty → Bool} {before after last : Checker} {declaring : Bool} {operand : Expr}
  {rule : OperatorClass}

theorem Passes.accepted (passes : Passes valid test) {operand : Ty} (obeys : after.Obeys .any)
    (fits : Policy.any.FitsIn after operand) (tested : test (after.subst.apply operand) = true)
    (later : Changes .any declaring after last) :
    Accepted valid after.subst last.subst operand := by
  have acyclic := (later.obeys obeys).acyclic
  have solvedLater := (later.extends obeys).apply_apply acyclic operand
  have known := (fits.apply obeys.closed).isKnown
  rcases passes.valid_or_var _ known tested with isValid | ⟨id, isVar⟩
  · refine .inl ?_
    rw [← solvedLater, Subst.apply_eq_bindVars]
    exact passes.stays _ _ isValid
  · refine .inr ⟨id, ?_, isVar, ?_⟩
    · exact obeys.acyclic.unbound_of_mem_apply (by rw [isVar]; simp)
    · rw [← solvedLater, isVar]

theorem errorCount_of_reportOperands {error : UnifyError}
    (ran : reportOperands op left right leftTy rightTy error before = .ok () after) :
    0 < after.log.errorCount := by
  obtain ⟨rightSpan, _, _, ran⟩ := bind_eq_ok.mp ran
  obtain ⟨leftSpan, _, _, ran⟩ := bind_eq_ok.mp ran
  refine errorCount_of_reportMismatch (fun ranExplain => ?_) ran
  cases ranExplain
  rfl

theorem of_unifyOperands {same : Bool}
    (ran : unifyOperands op left right leftTy rightTy before = .ok same after) :
    same = true ∧ before.subst.unify leftTy rightTy = (after.subst, none) ∨
      same = false ∧ 0 < after.log.errorCount := by
  obtain ⟨failure, compared, ranUnify, ran⟩ := bind_eq_ok.mp ran
  obtain ⟨rfl, trace, rfl⟩ := (runs_of_quiet ranUnify).of_unify
  rcases failed : (before.subst.unify leftTy rightTy).2 with _ | error
  · rw [failed] at ran
    cases ran
    exact .inl ⟨rfl, Prod.ext rfl failed⟩
  · rw [failed] at ran
    obtain ⟨_, reported, ranReport, ⟨⟩⟩ := bind_eq_ok.mp ran
    exact .inr ⟨rfl, errorCount_of_reportOperands ranReport⟩

theorem of_solvedTest {complaint : Ty → String → Diagnostic}
    (isError : ∀ found text, (complaint found text).severity = .error) (ran : (do
      let found ← solved ty
      unless test found do
        let text ← quote found
        report (complaint found text) : CheckM Unit) before = .ok () after)
    (clean : after.log.errorCount = 0) : after = before ∧ test (before.subst.apply ty) = true := by
  obtain ⟨found, middle, ranSolved, ran⟩ := bind_eq_ok.mp ran
  obtain ⟨rfl, rfl⟩ := of_solved ranSolved
  split at ran
  · next passed =>
      cases ran
      exact ⟨rfl, passed⟩
  · obtain ⟨_, _, _, ⟨⟩⟩ := bind_eq_ok.mp ran
    exact absurd clean (Log.errorCount_add_pos _ (isError _ _)).ne'

theorem of_testedOperands {tests : CheckM Unit}
    (tested : ∀ {middle : Checker}, tests middle = .ok () after → after = middle ∧
      test (middle.subst.apply leftTy) = true) (ran : (do
      if ← unifyOperands op left right leftTy rightTy then tests
      return leftTy : CheckM Ty) before = .ok ty after) (clean : after.log.errorCount = 0) :
    ty = leftTy ∧ before.subst.unify leftTy rightTy = (after.subst, none) ∧
      test (after.subst.apply leftTy) = true := by
  obtain ⟨same, middle, ranOperands, ran⟩ := bind_eq_ok.mp ran
  rcases of_unifyOperands ranOperands with ⟨rfl, unified⟩ | ⟨rfl, failed⟩
  · obtain ⟨_, _, ranTests, ⟨⟩⟩ := bind_eq_ok.mp ran
    obtain ⟨rfl, passed⟩ := tested ranTests
    exact ⟨rfl, unified, passed⟩
  · cases ran
    exact absurd clean failed.ne'

theorem of_inferOperation (asks : rule.operand? = some valid)
    (ran : inferOperation rule op left right span leftTy rightTy before = .ok ty after)
    (clean : after.log.errorCount = 0) :
    ty = leftTy ∧ before.subst.unify leftTy rightTy = (after.subst, none) ∧
      ∃ test, Passes valid test ∧ test (after.subst.apply leftTy) = true := by
  cases rule with
  | arithmetic =>
    cases asks
    obtain ⟨isLeft, unified, passed⟩ :=
      of_testedOperands (fun ran => of_solvedTest (fun _ _ => rfl) ran clean) ran clean
    exact ⟨isLeft, unified, _, passes_isNumeric, passed⟩
  | concatenation =>
    cases asks
    obtain ⟨isLeft, unified, passed⟩ :=
      of_testedOperands (fun ran => of_solvedTest (fun _ _ => rfl) ran clean) ran clean
    exact ⟨isLeft, unified, _, passes_isConcatenable, passed⟩
  | _ => cases asks

theorem of_inferNegation {operandTy : Ty}
    (ran : inferUnary .neg operand span operandTy before = .ok ty after)
    (clean : after.log.errorCount = 0) :
    ty = operandTy ∧ after = before ∧ (before.subst.apply operandTy).isNumeric = true := by
  obtain ⟨_, _, ranCheck, ⟨⟩⟩ := bind_eq_ok.mp ran
  exact ⟨rfl, of_solvedTest (fun _ _ => rfl) ranCheck clean⟩

section Module

variable {settings : Settings} {items : List Item} {start : Checker}

theorem accepts_operands (clean : (check settings (some items)).log.hasErrors = false)
    (reached : Reached settings items (.expr (.binary op left right span)) start)
    (ruled : op.class? = some rule) (asks : rule.operand? = some valid) :
    ∃ leftTy rightTy first second after,
      inferExpr left start = .ok leftTy first ∧ inferExpr right first = .ok rightTy second ∧
      inferExpr (.binary op left right span) start = .ok leftTy after ∧
      (check settings (some items)).subst.apply leftTy =
        (check settings (some items)).subst.apply rightTy ∧
      Accepted valid after.subst (check settings (some items)).subst leftTy := by
  obtain ⟨ty, after, ran, noError, toEnd⟩ := ends_of_reached clean reached
  have infers : inferExpr (.binary op left right span) start = .ok ty after := ran
  rw [inferExpr, ruled] at infers
  obtain ⟨leftTy, first, ranLeft, infers⟩ := bind_eq_ok.mp infers
  obtain ⟨rightTy, second, ranRight, infers⟩ := bind_eq_ok.mp infers
  have called : ⟨.operation rule op left right span leftTy rightTy, second⟩ ∈
      (Task.expr (.binary op left right span)).walk.calls start := by
    simp only [Task.walk, Walk.ofExpr, ruled]
    exact Walk.mem_calls_after ranLeft (Walk.mem_calls_after ranRight List.mem_cons_self)
  obtain ⟨obeys, fitsLeft, fitsRight⟩ := any_of_reached (.call reached called)
  obtain ⟨rfl, unified, test, passes, passed⟩ := of_inferOperation asks infers noError
  have changes := ((holds (.operation rule op left right span ty rightTy)).keeps
    (show Ready .any true _ second from ⟨fitsLeft, fitsRight⟩)).changes obeys infers
  have obeysAfter := changes.obeys obeys
  refine ⟨ty, rightTy, first, second, after, ranLeft, ranRight, ran, ?_, ?_⟩
  · exact apply_eq_of_unify obeys fitsLeft fitsRight obeysAfter unified toEnd
  · exact passes.accepted obeysAfter (changes.fits fitsLeft) passed toEnd

theorem accepts_negated (clean : (check settings (some items)).log.hasErrors = false)
    (reached : Reached settings items (.expr (.unary .neg operand span)) start) :
    ∃ ty middle after,
      inferExpr operand start = .ok ty middle ∧
      inferExpr (.unary .neg operand span) start = .ok ty after ∧
      Accepted Ty.isNumber after.subst (check settings (some items)).subst ty := by
  obtain ⟨result, after, ran, noError, toEnd⟩ := ends_of_reached clean reached
  have infers : inferExpr (.unary .neg operand span) start = .ok result after := ran
  rw [inferExpr] at infers
  obtain ⟨ty, middle, ranOperand, infers⟩ := bind_eq_ok.mp infers
  have called : ⟨.unary .neg operand span ty, middle⟩ ∈
      (Task.expr (.unary .neg operand span)).walk.calls start :=
    Walk.mem_calls_after ranOperand List.mem_cons_self
  have ⟨obeys, fits⟩ := any_of_reached (.call reached called)
  obtain ⟨rfl, rfl, passed⟩ := of_inferNegation infers noError
  exact ⟨_, _, _, ranOperand, ran, passes_isNumeric.accepted obeys fits passed toEnd⟩

/-- In a check without errors the operands of arithmetic are numbers in the end and those of a
concatenation strings or lists, except that an operand whose type was an unsolved variable when the
operator was checked has whatever type solved the variable later. Both operands have the same type.
All operators in the bodies of functions are checked. -/
theorem operands_accepted (clean : (check settings (some items)).log.hasErrors = false) :
    let final := (check settings (some items)).subst
    (∀ {op left right span rule valid start},
      Reached settings items (.expr (.binary op left right span)) start →
      op.class? = some rule → rule.operand? = some valid →
      ∃ leftTy rightTy first second after,
        inferExpr left start = .ok leftTy first ∧ inferExpr right first = .ok rightTy second ∧
        inferExpr (.binary op left right span) start = .ok leftTy after ∧
        final.apply leftTy = final.apply rightTy ∧ Accepted valid after.subst final leftTy) ∧
    (∀ {operand span start},
      Reached settings items (.expr (.unary .neg operand span)) start →
      ∃ ty middle after,
        inferExpr operand start = .ok ty middle ∧
        inferExpr (.unary .neg operand span) start = .ok ty after ∧
        Accepted Ty.isNumber after.subst final ty) ∧
    ∀ item ∈ Item.functions items, ∀ node, item.body.Inside node → node.isMissing = false →
      ∃ start, Reached settings items (.expr node) start :=
  ⟨accepts_operands clean, accepts_negated clean,
    fun _ member _ inside present => reached_inside clean member inside present⟩

end Module

/-- A function with a parameter `x` without a type. -/
def ofParam (body : Expr) : FunctionItem :=
  { id := ⟨1⟩, name := "f", span := .empty, generics := [], params := [⟨⟨1⟩, "x", .absent, .empty⟩]
    result := .absent, body }

/-- `-x + 1`. -/
def negatesAndAdds : FunctionItem :=
  ofParam (.binary .add (.unary .neg (.localRef ⟨1⟩ .empty) .empty) (.literal ⟨.int, "1", .empty⟩)
    .empty)

/-- `(x + x, x and true)`, where the sum leaves the type of `x` open. -/
def addsTruth : FunctionItem :=
  ofParam (.tuple
    [.binary .add (.localRef ⟨1⟩ .empty) (.localRef ⟨1⟩ .empty) .empty,
      .binary .and (.localRef ⟨1⟩ .empty) (.literal ⟨.bool, "true", .empty⟩) .empty] .empty)

theorem operands_accepted_negatesAndAdds :
    (check {} (some [.function negatesAndAdds])).log.hasErrors = false ∧
      ∃ start leftTy rightTy first second after,
        Reached {} [.function negatesAndAdds] (.expr negatesAndAdds.body) start ∧
        inferExpr (.unary .neg (.localRef ⟨1⟩ .empty) .empty) start = .ok leftTy first ∧
        inferExpr (.literal ⟨.int, "1", .empty⟩) first = .ok rightTy second ∧
        inferExpr negatesAndAdds.body start = .ok leftTy after ∧
        Accepted Ty.isNumber after.subst (check {} (some [.function negatesAndAdds])).subst
          leftTy := by
  have clean : (check {} (some [.function negatesAndAdds])).log.hasErrors = false := by
    decide +kernel
  have ⟨binary, _, visited⟩ := operands_accepted clean
  obtain ⟨start, reached⟩ := visited negatesAndAdds List.mem_cons_self _ .root rfl
  obtain ⟨leftTy, rightTy, first, second, after, left, right, whole, _, accepted⟩ :=
    binary reached rfl rfl
  exact ⟨clean, start, leftTy, rightTy, first, second, after, reached, left, right, whole, accepted⟩

/-- A call that infers arithmetic whose left operand has a type as expected. -/
def Call.infersSum (expected : Ty → Bool) : Call → Bool
  | ⟨.expr (.binary op left _ _), start⟩ =>
    op.class? = some .arithmetic &&
      match inferExpr left start with
      | .ok ty _ => expected ty
      | .error _ _ => false
  | _ => false

theorem exists_sum (items : List Item) (path : List Nat) (expected : Ty → Bool)
    (found : (Call.follow ⟨.items items, initial {}⟩ path).any (Call.infersSum expected) = true) :
    ∃ op left right span start ty after, op.class? = some .arithmetic ∧
      Reached {} items (.expr (.binary op left right span)) start ∧
      inferExpr left start = .ok ty after ∧ expected ty = true := by
  obtain ⟨call, followed, infers⟩ := (Option.any_eq_true _ _).mp found
  have reached := Reached.follow .start followed
  unfold Call.infersSum at infers
  split at infers
  · next op left right span start =>
      obtain ⟨ruled, infers⟩ := Bool.and_eq_true_iff.mp infers
      split at infers
      · next ty after ran =>
          exact ⟨op, left, right, span, start, ty, after, of_decide_eq_true ruled, reached, ran,
            infers⟩
      · cases infers
  · cases infers

/-- An operand of a sum can end as neither a number nor an unsolved variable, without an error. -/
theorem operands_escape_addsTruth :
    (check {} (some [.function addsTruth])).log.hasErrors = false ∧
      ∃ op left right span start ty after, op.class? = some .arithmetic ∧
        Reached {} [.function addsTruth] (.expr (.binary op left right span)) start ∧
        inferExpr left start = .ok ty after ∧
        ((check {} (some [.function addsTruth])).subst.apply ty).isNumber = false ∧
        ((check {} (some [.function addsTruth])).subst.apply ty).vars = [] := by
  have ⟨op, left, right, span, start, ty, after, ruled, reached, ran, expected⟩ :=
    exists_sum [.function addsTruth] [2, 0, 0, 0, 0]
      (fun ty =>
        ((check {} (some [.function addsTruth])).subst.apply ty).isNumber = false ∧
          ((check {} (some [.function addsTruth])).subst.apply ty).vars = [])
      (by decide +kernel)
  exact ⟨by decide +kernel, op, left, right, span, start, ty, after, ruled, reached, ran,
    of_decide_eq_true expected⟩

end Checker

end TraitCheck
