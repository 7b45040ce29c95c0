import TraitCheck.Proofs.Check.Steps

/-!
# What the procedures of a check rely on

A call is `Ready` if the types among its arguments fit the policy and those in the syntax tree may
be written, and `Good` says what its result is then. `Watches` is the statement about the body of a
procedure: it keeps the policy up to its end and up to each call that it makes, and these calls are
ready. With one such statement for every procedure, all calls of a check are ready.
-/

namespace TraitCheck

mutual

/-- The types written in an expression. Where none was written, the absent type stands. -/
def Expr.annotations : Expr → List Ty
  | .missing | .literal _ | .localRef _ _ | .globalRef _ _ | .foreign _ _ => []
  | .list elems _ => annotationsOfAll elems
  | .tuple elems _ => annotationsOfAll elems
  | .record fields _ => annotationsOfFields fields
  | .structLit _ fields _ => annotationsOfFields fields
  | .variant _ _ args _ => annotationsOfAll args
  | .lambda params body _ => params.map (·.ty) ++ body.annotations
  | .call callee args _ => callee.annotations ++ annotationsOfAll args
  | .methodCall receiver _ args _ => receiver.annotations ++ annotationsOfAll args
  | .fieldAccess base _ _ => base.annotations
  | .tupleIndex base _ _ => base.annotations
  | .binary _ left right _ => left.annotations ++ right.annotations
  | .unary _ operand _ => operand.annotations
  | .conditional condition thenBranch elseBranch _ =>
    condition.annotations ++ thenBranch.annotations ++ elseBranch.annotations
  | .matchOn scrutinee arms _ => scrutinee.annotations ++ annotationsOfArms arms
  | .block stmts tail _ => annotationsOfStmts stmts ++ tail.annotations
  | .ascribe expr ty _ => ty :: expr.annotations

def Expr.annotationsOfAll : List Expr → List Ty
  | [] => []
  | expr :: rest => expr.annotations ++ annotationsOfAll rest

def Expr.annotationsOfFields : List (Field Expr) → List Ty
  | [] => []
  | ⟨_, value, _⟩ :: rest => value.annotations ++ annotationsOfFields rest

def Expr.annotationsOfArms : List Arm → List Ty
  | [] => []
  | .mk _ guard body _ :: rest => guard.annotations ++ body.annotations ++ annotationsOfArms rest

def Expr.annotationsOfStmts : List Stmt → List Ty
  | [] => []
  | .missing :: rest => annotationsOfStmts rest
  | .letBind _ ty value _ :: rest => ty :: value.annotations ++ annotationsOfStmts rest
  | .run expr _ :: rest => expr.annotations ++ annotationsOfStmts rest
  | .foreign _ _ :: rest => annotationsOfStmts rest

end

def TraitItem.annotations (item : TraitItem) : List Ty :=
  item.methods.flatMap MethodDecl.types ++ item.assocTypes.map (·.default)

def ImplItem.annotations (item : ImplItem) : List Ty :=
  item.implementer :: item.assocTypes.map (·.content)

/-- The types of the method found. -/
def Resolution.types : Resolution → List Ty
  | .inherent _ method => [method.ty]
  | .provided _ method _ _ => [method.ty]
  | .declared _ _ decl => decl.types

/-- The types in the signature of a function. -/
def FunctionItem.written (item : FunctionItem) : List Ty := item.params.map (·.ty) ++ [item.result]

/-- The types written in an item. -/
def Item.annotations : Item → List Ty
  | .function item => item.written ++ item.body.annotations
  | .struct item => item.fields.map (·.content)
  | .enum item => item.variants.flatMap (·.content)
  | .alias item => [item.target]
  | .trait item => item.annotations
  | .impl item => item.annotations
  | .missing | .foreign _ _ _ => []

namespace Checker

/-- All types may be held by the state. -/
abbrev FitAll (policy : Policy) (checker : Checker) (types : List Ty) : Prop :=
  ∀ ty ∈ types, policy.FitsIn checker ty

/-- All types may be written. -/
abbrev WritesAll (policy : Policy) (types : List Ty) : Prop := ∀ ty ∈ types, policy.Writes 0 ty

theorem writesAll_of_plain {policy : Policy} {types : List Ty}
    (plain : ∀ ty ∈ types, ty.vars = []) : WritesAll policy types := by
  intro ty member
  refine Policy.writes_of_vars fun id found => ?_
  rw [plain ty member] at found
  cases found

/-- What a call relies on. -/
def Ready (policy : Policy) (declaring : Bool) : {α : Type} → Task α → Checker → Prop
  | _, .items all, _ => declaring = true ∧ ∀ item ∈ all, WritesAll policy item.annotations
  | _, .collect all, _ => declaring = true ∧ ∀ item ∈ all, WritesAll policy item.annotations
  | _, .declare item, _ => declaring = true ∧ WritesAll policy item.annotations
  | _, .aliasCycles _, _ => declaring = true
  | _, .members item, _ => declaring = true ∧ WritesAll policy item.annotations
  | _, .field _ entry, _ => declaring = true ∧ policy.Writes 0 entry.content
  | _, .variant _ entry, _ => declaring = true ∧ WritesAll policy entry.content
  | _, .signature item, _ => declaring = true ∧ WritesAll policy item.written
  | _, .trait item, _ => declaring = true ∧ WritesAll policy item.annotations
  | _, .method decl, _ => WritesAll policy decl.types
  | _, .assoc decl, _ => policy.Writes 0 decl.default
  | _, .impl item, _ => declaring = true ∧ WritesAll policy item.annotations
  | _, .binding entry, _ => policy.Writes 0 entry.content
  | _, .resolve ty, _ => policy.Writes 0 ty
  | _, .impls, _ => True
  | _, .conformance declared provided, start =>
    FitAll policy start declared.types ∧ FitAll policy start provided.types
  | _, .implMethod declared provided entry, start =>
    FitAll policy start declared.types ∧ policy.FitsIn start provided.implementer ∧
      policy.FitsIn start entry.ty
  | _, .function item, _ => WritesAll policy item.body.annotations
  | _, .body item types, start =>
    FitAll policy start types.types ∧ WritesAll policy item.body.annotations
  | _, .expr node, _ => WritesAll policy node.annotations
  | _, .exprs nodes, _ => WritesAll policy (Expr.annotationsOfAll nodes)
  | _, .elements elem nodes, start =>
    policy.FitsIn start elem ∧ WritesAll policy (Expr.annotationsOfAll nodes)
  | _, .record row entries, start =>
    policy.FitsIn start (.record row) ∧ WritesAll policy (Expr.annotationsOfFields entries)
  | _, .initializers entries, _ => WritesAll policy (Expr.annotationsOfFields entries)
  | _, .structFields info generics _ entries, start =>
    FitAll policy start info.types ∧ FitAll policy start generics ∧
      WritesAll policy (Expr.annotationsOfFields entries)
  | _, .initializer info generics _ _ ty, start =>
    FitAll policy start info.types ∧ FitAll policy start generics ∧ policy.FitsIn start ty
  | _, .variantLit _ _ nodes _ types, start =>
    types.length = nodes.length ∧ FitAll policy start types
  | _, .args declared found nodes, start =>
    found.length = nodes.length ∧ FitAll policy start declared ∧ FitAll policy start found
  | _, .params binders, _ => WritesAll policy (binders.map (·.ty))
  | _, .apply _ _ calleeTy types, start =>
    policy.FitsIn start calleeTy ∧ FitAll policy start types
  | _, .methodCall _ _ _ receiverTy types, start =>
    policy.FitsIn start receiverTy ∧ FitAll policy start types
  | _, .resolved resolution self _ _ receiverTy types, start =>
    FitAll policy start resolution.types ∧ policy.FitsIn start self ∧
      policy.FitsIn start receiverTy ∧ FitAll policy start types
  | _, .operation _ _ _ _ _ leftTy rightTy, start =>
    policy.FitsIn start leftTy ∧ policy.FitsIn start rightTy
  | _, .operands _ _ _ leftTy rightTy, start =>
    policy.FitsIn start leftTy ∧ policy.FitsIn start rightTy
  | _, .pipe _ leftTy rightTy, start => policy.FitsIn start leftTy ∧ policy.FitsIn start rightTy
  | _, .unary _ _ _ operandTy, start => policy.FitsIn start operandTy
  | _, .arms scrutinee result _ cases, start =>
    policy.FitsIn start scrutinee ∧ policy.FitsIn start result ∧
      WritesAll policy (Expr.annotationsOfArms cases)
  | _, .coverage _ _ _ scrutinee, start => policy.FitsIn start scrutinee
  | _, .stmts lines, _ => WritesAll policy (Expr.annotationsOfStmts lines)
  | _, .letBind _ ty, start => policy.FitsIn start ty
  | _, .pattern _ expected, start => policy.FitsIn start expected
  | _, .patterns shapes types, start =>
    shapes.length = types.length ∧ FitAll policy start types
  | _, .untyped _, _ => True
  | _, .fields entries types, start =>
    entries.length = types.length ∧ FitAll policy start types
  | _, .knownFields find expected _, start =>
    Finds policy declaring find start ∧ policy.FitsIn start expected
  | _, .expect expected found _, start => policy.FitsIn start expected ∧ policy.FitsIn start found
  | _, .unify expected found, start => policy.FitsIn start expected ∧ policy.FitsIn start found

/-- What is known of the result of a call. -/
def Good (policy : Policy) : {α : Type} → Task α → α → Checker → Prop
  | _, .method _, decl, after => FitAll policy after decl.types
  | _, .assoc _, decl, after => FitAll policy after decl.types
  | _, .binding _, entry, after => policy.FitsIn after entry.content
  | _, .resolve _, ty, after => policy.FitsIn after ty
  | _, .expr _, ty, after => policy.FitsIn after ty
  | _, .exprs nodes, types, after => types.length = nodes.length ∧ FitAll policy after types
  | _, .record _ _, row, after => policy.FitsIn after (.record row)
  | _, .variantLit _ _ _ _ _, ty, after => policy.FitsIn after ty
  | _, .params _, types, after => FitAll policy after types
  | _, .apply _ _ _ _, ty, after => policy.FitsIn after ty
  | _, .methodCall _ _ _ _ _, ty, after => policy.FitsIn after ty
  | _, .resolved _ _ _ _ _ _, ty, after => policy.FitsIn after ty
  | _, .operation _ _ _ _ _ _ _, ty, after => policy.FitsIn after ty
  | _, .pipe _ _ _, ty, after => policy.FitsIn after ty
  | _, .unary _ _ _ _, ty, after => policy.FitsIn after ty
  | _, _, _, _ => True

/-- The call gives a result. -/
def Call.Returns (call : Call) : Prop :=
  ∃ result after, call.task.run call.start = .ok result after

/-- A body keeps a policy, and so do the changes up to each of its calls, which are ready, and from
there on. It has a result only if each of its calls has one. -/
structure Watches (policy : Policy) (declaring : Bool) {α : Type} (walk : Walk α) (before : Checker)
    (good : α → Checker → Prop) : Prop where
  keeps : Keeps policy declaring walk.run before good
  ready : before.Obeys policy → ∀ call ∈ walk.calls before,
    Changes policy declaring before call.start ∧ Ready policy declaring call.task call.start
  rest : before.Obeys policy → ∀ call ∈ walk.calls before,
    Changes policy declaring (call.task.finish call.start) (finish walk.run before)
  returns : before.Obeys policy → ∀ value after, walk.run before = .ok value after →
    ∀ call ∈ walk.calls before, call.Returns

variable {policy : Policy} {declaring : Bool} {before : Checker} {α β : Type} {walk : Walk α}
  {good : α → Checker → Prop} {list : List β} {next : α → Walk β} {task : Task α}

theorem watches_pure {value : α} (holds : good value before) :
    Watches policy declaring (pure value) before good :=
  ⟨keeps_pure holds, by rintro _ _ ⟨⟩, by rintro _ _ ⟨⟩, by rintro _ _ _ _ _ ⟨⟩⟩

theorem watches_step {step : CheckM α} (keeps : Keeps policy declaring step before good) :
    Watches policy declaring (Walk.step step) before good :=
  ⟨keeps, by rintro _ _ ⟨⟩, by rintro _ _ ⟨⟩, by rintro _ _ _ _ _ ⟨⟩⟩

theorem calls_bind (walk : Walk α) (next : α → Walk β) (before : Checker) :
    (walk >>= next).calls before =
      match walk.run before with
      | .ok value middle => walk.calls before ++ (next value).calls middle
      | .error _ _ => walk.calls before := by
  change (Walk.bind walk next before).2 = _
  unfold Walk.bind Walk.run Walk.calls
  rcases walk before with ⟨_ | _, calls⟩ <;> rfl

theorem mem_calls_call : ⟨task, before⟩ ∈ (Walk.call task >>= next).calls before := by
  rw [calls_bind]
  split
  · exact List.mem_append_left _ List.mem_cons_self
  · exact List.mem_cons_self

theorem watches_bind {good' : β → Checker → Prop}
    (first : Watches policy declaring walk before good)
    (second : ∀ value after, Changes policy declaring before after → good value after →
      Watches policy declaring (next value) after good') :
    Watches policy declaring (walk >>= next) before good' := by
  constructor
  · rw [Walk.run_bind]
    exact keeps_bind first.keeps fun value after _ changes holds =>
      (second value after changes holds).keeps
  · intro obeys call member
    rw [calls_bind] at member
    split at member
    · next value middle ran =>
        rcases List.mem_append.mp member with early | late
        · exact first.ready obeys call early
        · have changes := first.keeps.changes obeys ran
          have obeysMiddle := changes.obeys obeys
          have ⟨later, ready⟩ := (second value middle changes
            ((first.keeps obeys).2 value middle ran)).ready obeysMiddle call late
          exact ⟨changes.trans later, ready⟩
    · exact first.ready obeys call member
  · intro obeys call member
    rw [calls_bind] at member
    rw [Walk.run_bind]
    split at member
    · next value middle ran =>
        have changes := first.keeps.changes obeys ran
        have obeysMiddle := changes.obeys obeys
        have watches := second value middle changes ((first.keeps obeys).2 value middle ran)
        rcases List.mem_append.mp member with early | late
        · have toMiddle := first.rest obeys call early
          rw [finish_of_ok ran] at toMiddle
          rw [finish_bind, ran]
          exact toMiddle.trans (watches.keeps obeysMiddle).1
        · rw [finish_bind, ran]
          exact watches.rest obeysMiddle call late
    · next fault middle failed =>
        have toEnd := first.rest obeys call member
        rw [finish, failed] at toEnd
        rw [finish_bind, failed]
        exact toEnd
  · intro obeys result after ran call member
    rw [Walk.run_bind] at ran
    obtain ⟨value, middle, ranFirst, ranSecond⟩ := bind_eq_ok.mp ran
    rw [calls_bind] at member
    simp only [ranFirst] at member
    have changes := first.keeps.changes obeys ranFirst
    have obeysMiddle := changes.obeys obeys
    rcases List.mem_append.mp member with early | late
    · exact first.returns obeys value middle ranFirst call early
    · exact (second value middle changes ((first.keeps obeys).2 value middle ranFirst)).returns
        obeysMiddle result after ranSecond call late

section Steps

variable {step : CheckM α} {good' : β → Checker → Prop}

theorem watches_after (keeps : Keeps policy declaring step before good)
    (second : ∀ value after, Changes policy declaring before after → good value after →
      Watches policy declaring (next value) after good') :
    Watches policy declaring (Walk.step step >>= next) before good' :=
  watches_bind (watches_step keeps) second

theorem watches_reads [Reads step] (second : ∀ value after, Changes policy declaring before after →
      Watches policy declaring (next value) after good') :
    Watches policy declaring (Walk.step step >>= next) before good' :=
  watches_after keeps_reads fun value after changes _ => second value after changes

theorem watches_fresh {next : Ty → Walk β}
    (second : ∀ ty after, Changes policy declaring before after → policy.FitsIn after ty →
      Watches policy declaring (next ty) after good') :
    Watches policy declaring (Walk.step fresh >>= next) before good' :=
  watches_after keeps_fresh second

theorem watches_get {next : Checker → Walk β}
    (second : before.Obeys policy → Watches policy declaring (next before) before good') :
    Watches policy declaring (Walk.step get >>= next) before good' := by
  constructor
  · rw [Walk.run_bind]
    exact keeps_get fun obeys => (second obeys).keeps
  · intro obeys call member
    exact (second obeys).ready obeys call member
  · intro obeys call member
    exact (second obeys).rest obeys call member
  · intro obeys result after ran call member
    exact (second obeys).returns obeys result after ran call member

end Steps

theorem watches_forM {each : β → Walk Unit}
    (watches : ∀ value ∈ list, ∀ after, Changes policy declaring before after →
      Watches policy declaring (each value) after fun _ _ => True) :
    Watches policy declaring (list.forM each) before fun _ _ => True := by
  induction list generalizing before with
  | nil => exact watches_pure trivial
  | cons value rest ih =>
    refine watches_bind (watches value List.mem_cons_self before .refl) ?_
    intro _ middle changes _
    refine ih fun other member after later => ?_
    exact watches other (List.mem_cons_of_mem _ member) after (changes.trans later)

theorem watches_mapM {each : β → Walk α}
    (stable : ∀ value middle after, Changes policy declaring middle after → good value middle →
      good value after)
    (watches : ∀ value ∈ list, ∀ after, Changes policy declaring before after →
      Watches policy declaring (each value) after good) :
    Watches policy declaring (list.mapM each) before fun values after =>
      ∀ value ∈ values, good value after := by
  induction list generalizing before with
  | nil => exact watches_pure (by simp)
  | cons value rest ih =>
    rw [List.mapM_cons]
    refine watches_bind (watches value List.mem_cons_self before .refl) ?_
    intro head middle changes goodHead
    refine watches_bind (ih fun other member after later =>
      watches other (List.mem_cons_of_mem _ member) after (changes.trans later)) ?_
    intro tail after later goodTail
    refine watches_pure fun result member => ?_
    rcases List.mem_cons.mp member with rfl | inTail
    · exact stable _ _ _ later goodHead
    · exact goodTail result inTail

/-- The contract of a procedure: if a call is ready, its body keeps the policy, makes ready calls,
and gives a good result. -/
def Holds (policy : Policy) (declaring : Bool) (task : Task α) : Prop :=
  ∀ before, Ready policy declaring task before →
    Watches policy declaring task.walk before (Good policy task)

theorem Holds.keeps (holds : Holds policy declaring task)
    (ready : Ready policy declaring task before) :
    Keeps policy declaring task.run before (Good policy task) :=
  task.run_walk ▸ (holds before ready).keeps

theorem Holds.call (holds : Holds policy declaring task)
    (ready : Ready policy declaring task before) :
    Watches policy declaring (Walk.call task) before (Good policy task) := by
  refine ⟨holds.keeps ready, fun _ call member => ?_, fun _ call member => ?_,
    fun _ result after ran call member => ?_⟩
  · cases List.mem_singleton.mp member
    exact ⟨.refl, ready⟩
  · cases List.mem_singleton.mp member
    exact .refl
  · cases List.mem_singleton.mp member
    exact ⟨result, after, ran⟩

theorem Holds.bind {good : β → Checker → Prop}
    (holds : Holds policy declaring task) (ready : Ready policy declaring task before)
    (second : ∀ value after, Changes policy declaring before after → Good policy task value after →
      Watches policy declaring (next value) after good) :
    Watches policy declaring (Walk.call task >>= next) before good :=
  watches_bind (holds.call ready) second

theorem holds_unify (expected found : Ty) : Holds policy declaring (.unify expected found) :=
  fun _ ready => watches_step (keeps_unify ready.1 ready.2)

theorem watches_compare {expected found : Ty} {handle : UnifyError → CheckM Unit}
    [∀ error, Reads (handle error)] (fitsExpected : policy.FitsIn before expected)
    (fitsFound : policy.FitsIn before found) :
    Watches policy declaring (Walk.compare expected found handle) before fun _ _ => True := by
  refine (holds_unify expected found).bind ⟨fitsExpected, fitsFound⟩ fun failure after _ _ => ?_
  cases failure with
  | none => exact watches_pure trivial
  | some error => exact watches_step (keeps_reads.mono fun _ _ _ _ => trivial)

end Checker

end TraitCheck
