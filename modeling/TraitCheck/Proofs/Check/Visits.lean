import TraitCheck.Proofs.Check.Functions
import TraitCheck.Proofs.Check.Stages

/-!
# The nodes that a check visits

A check that comes to its end has called `inferExpr` on the body of every function, and on every
expression inside a body, down to the leaves. Only the operands of an operator without a typing rule
are passed over, and such an operator is an error.
-/

namespace TraitCheck

variable {α : Type} {before start : Checker} {node : Expr} {item : FunctionItem} {task : Task α}

def Stmt.exprs : Stmt → List Expr
  | .letBind _ _ value _ => [value]
  | .run expr _ => [expr]
  | .missing | .foreign _ _ => []

/-- The expressions directly inside an expression. -/
def Expr.children : Expr → List Expr
  | .missing | .literal _ | .localRef _ _ | .globalRef _ _ | .foreign _ _ => []
  | .list elems _ | .tuple elems _ => elems
  | .record fields _ | .structLit _ fields _ => fields.map (·.content)
  | .variant _ _ args _ => args
  | .lambda _ body _ => [body]
  | .call callee args _ => callee :: args
  | .methodCall receiver _ args _ => receiver :: args
  | .fieldAccess base _ _ | .tupleIndex base _ _ => [base]
  | .binary _ left right _ => [left, right]
  | .unary _ operand _ => [operand]
  | .conditional condition thenBranch elseBranch _ => [condition, thenBranch, elseBranch]
  | .matchOn scrutinee arms _ => scrutinee :: arms.flatMap fun arm => [arm.guard, arm.body]
  | .block stmts tail _ => stmts.flatMap Stmt.exprs ++ [tail]
  | .ascribe expr _ _ => [expr]

/-- An expression stands in another one, at any depth. -/
inductive Expr.Inside (root : Expr) : Expr → Prop
  | root : Inside root root
  | child {parent node : Expr} (inside : Inside root parent) (member : node ∈ parent.children) :
      Inside root node

namespace Checker

namespace Walk

variable {α β : Type} {wanted : Call → Prop} {walk : Walk α} {next : α → Walk β}

/-- A walk that comes to its end makes a call of a certain kind. -/
def Makes (wanted : Call → Prop) (walk : Walk α) : Prop :=
  ∀ before value after, walk.run before = .ok value after → ∃ call ∈ walk.calls before, wanted call

theorem makes_call (isWanted : ∀ start, wanted ⟨task, start⟩) : Makes wanted (call task) :=
  fun before _ _ _ => ⟨⟨task, before⟩, List.mem_cons_self, isWanted before⟩

theorem calls_of_bind_ok {after : Checker} {result : β}
    (ran : (walk >>= next).run before = .ok result after) :
    ∃ value middle, walk.run before = .ok value middle ∧ (next value).run middle =
      .ok result after ∧
      (walk >>= next).calls before = walk.calls before ++ (next value).calls middle := by
  rw [run_bind] at ran
  obtain ⟨value, middle, ranFirst, ranSecond⟩ := bind_eq_ok.mp ran
  refine ⟨value, middle, ranFirst, ranSecond, ?_⟩
  rw [calls_bind, ranFirst]

theorem mem_calls_after {middle : Checker} {value : α} {call : Call}
    (ran : walk.run before = .ok value middle) (member : call ∈ (next value).calls middle) :
    call ∈ (walk >>= next).calls before := by
  rw [calls_bind, ran]
  exact List.mem_append_right _ member

theorem Makes.bind (makes : Makes wanted walk) (next : α → Walk β) :
    Makes wanted (walk >>= next) := by
  intro before result after ran
  obtain ⟨value, middle, ranFirst, _, same⟩ := calls_of_bind_ok ran
  obtain ⟨call, member, isWanted⟩ := makes before value middle ranFirst
  exact ⟨call, same ▸ List.mem_append_left _ member, isWanted⟩

theorem Makes.after (walk : Walk α) (makes : ∀ value, Makes wanted (next value)) :
    Makes wanted (walk >>= next) := by
  intro before result after ran
  obtain ⟨value, middle, _, ranSecond, same⟩ := calls_of_bind_ok ran
  obtain ⟨call, member, isWanted⟩ := makes value middle result after ranSecond
  exact ⟨call, same ▸ List.mem_append_right _ member, isWanted⟩

theorem Makes.forM {each : β → Walk Unit} {list : List β} {value : β} (member : value ∈ list)
    (makes : Makes wanted (each value)) : Makes wanted (list.forM each) := by
  induction list with
  | nil => cases member
  | cons first rest ih =>
    rcases List.mem_cons.mp member with rfl | inRest
    · exact makes.bind _
    · exact .after _ fun _ => ih inRest

end Walk

/-- The expressions that a call infers one after the other. -/
def Task.pending : {α : Type} → Task α → List Expr
  | _, .exprs nodes | _, .elements _ nodes => nodes
  | _, .record _ entries | _, .initializers entries | _, .structFields _ _ _ entries =>
    entries.map (·.content)
  | _, .arms _ _ _ cases => cases.flatMap fun arm => [arm.guard, arm.body]
  | _, .stmts lines => lines.flatMap Stmt.exprs
  | _, _ => []

def Task.size : {α : Type} → Task α → Nat
  | _, .exprs nodes | _, .elements _ nodes => nodes.length
  | _, .record _ entries | _, .initializers entries | _, .structFields _ _ _ entries =>
    entries.length
  | _, .arms _ _ _ cases => cases.length
  | _, .stmts lines => lines.length
  | _, _ => 0

/-- A call infers an expression, or goes through a list with it. -/
def Call.Leads (node : Expr) (call : Call) : Prop :=
  (∃ start, call = ⟨.expr node, start⟩) ∨ node ∈ call.task.pending

section Lists

open Walk

variable {node : Expr} {size : Nat}

theorem makes_expr :
    Makes (fun call => call.Leads node ∧ call.task.size < size + 1) (call (.expr node)) :=
  makes_call fun start => ⟨.inl ⟨start, rfl⟩, Nat.succ_pos _⟩

theorem makes_rest (pending : node ∈ task.pending) :
    Makes (fun call => call.Leads node ∧ call.task.size < task.size + 1) (call task) :=
  makes_call fun _ => ⟨.inr pending, Nat.lt_succ_self _⟩

theorem makes_arms {scrutinee result : Ty} {first : Option Span} {cases : List Arm}
    (pending : node ∈ cases.flatMap fun arm => [arm.guard, arm.body])
    (present : node.isMissing = false) :
    Makes (fun call => call.Leads node ∧ call.task.size < cases.length)
      (ofArms scrutinee result first cases) := by
  rcases cases with _ | ⟨⟨pattern, guard, body, span⟩, rest⟩
  · cases pending
  · refine .after _ fun _ => ?_
    dsimp only
    rcases List.mem_append.mp pending with here | inRest
    · rcases List.mem_pair.mp here with rfl | rfl
      · change node.isMissing = false at present
        rw [if_neg (by simp [present])]
        exact makes_expr.bind _
      · split
        · exact makes_expr.bind _
        · exact .after _ fun _ => .after _ fun _ => .after _ fun _ => makes_expr.bind _
    · have later (place : Span) :
          Makes (fun call => call.Leads node ∧ call.task.size < rest.length + 1)
          (call (.arms scrutinee result (some place) rest)) := makes_rest inRest
      split
      · refine .after _ fun _ => ?_
        cases first <;> exact .after _ fun _ => .after _ fun _ => later _
      · refine .after _ fun _ => .after _ fun _ => .after _ fun _ => .after _ fun _ => ?_
        cases first <;> exact .after _ fun _ => .after _ fun _ => later _

theorem makes_stmts {lines : List Stmt} (pending : node ∈ lines.flatMap Stmt.exprs) :
    Makes (fun call => call.Leads node ∧ call.task.size < lines.length) (ofStmts lines) := by
  rcases lines with _ | ⟨line, rest⟩
  · cases pending
  · have later (inRest : node ∈ rest.flatMap Stmt.exprs) :
        Makes (fun call => call.Leads node ∧ call.task.size < rest.length + 1)
          (call (.stmts rest)) :=
      makes_rest inRest
    cases line with
    | missing =>
      intro before value after ran
      cases ran
    | letBind shape ty value span =>
      rcases List.mem_cons.mp pending with rfl | inRest
      · exact makes_expr.bind _
      · refine .after _ fun _ => ?_
        dsimp only
        split
        · exact .after _ fun _ => .after _ fun _ => .after _ fun _ => .after _ fun _ => later inRest
        · exact .after _ fun _ => later inRest
    | run value span =>
      rcases List.mem_cons.mp pending with rfl | inRest
      · exact makes_expr.bind _
      · exact .after _ fun _ => later inRest
    | foreign name span => exact .after _ fun _ => later pending

theorem makes_pending (task : Task α) (pending : node ∈ task.pending)
    (present : node.isMissing = false) :
    Makes (fun call => call.Leads node ∧ call.task.size < task.size) task.walk := by
  cases task with
  | arms scrutinee result first cases => exact makes_arms pending present
  | stmts lines => exact makes_stmts pending
  | exprs nodes =>
    cases nodes with
    | nil => cases pending
    | cons first rest =>
      rcases List.mem_cons.mp pending with rfl | inRest
      · exact makes_expr.bind _
      · exact .after _ fun _ => .bind (makes_rest inRest) _
  | elements elem nodes =>
    cases nodes with
    | nil => cases pending
    | cons first rest =>
      rcases List.mem_cons.mp pending with rfl | inRest
      · exact makes_expr.bind _
      · exact .after _ fun _ => .after _ fun _ => .after _ fun _ => makes_rest inRest
  | record row entries =>
    cases entries with
    | nil => cases pending
    | cons first rest =>
      rcases List.mem_cons.mp pending with rfl | inRest
      · exact makes_expr.bind _
      · refine .after _ fun _ => ?_
        have later (row : Row) :
            Makes (fun call => call.Leads node ∧ call.task.size < rest.length + 1)
              (call (.record row rest)) := makes_rest inRest
        split
        · exact .after _ fun _ => later _
        · exact later _
  | initializers entries =>
    cases entries with
    | nil => cases pending
    | cons first rest =>
      rcases List.mem_cons.mp pending with rfl | inRest
      · exact makes_expr.bind _
      · exact .after _ fun _ => makes_rest inRest
  | structFields info generics seen entries =>
    cases entries with
    | nil => cases pending
    | cons first rest =>
      rcases List.mem_cons.mp pending with rfl | inRest
      · exact makes_expr.bind _
      · exact .after _ fun _ => .after _ fun _ => makes_rest inRest
  | _ => cases pending

end Lists

open Walk in
theorem makes_child {parent : Expr} (member : node ∈ parent.children)
    (present : node.isMissing = false)
    (ruled : ∀ op left right span, parent = .binary op left right span → op.class? ≠ none) :
    Makes (Call.Leads node) (ofExpr parent) := by
  have here : Makes (Call.Leads node) (call (.expr node)) :=
    makes_call fun start => Or.inl ⟨start, rfl⟩
  have within {α : Type} (task : Task α) (pending : node ∈ task.pending) :
      Makes (Call.Leads node) (call task) := makes_call fun _ => Or.inr pending
  cases parent with
  | list elems span => exact .after _ fun elem => .bind (within (.elements elem elems) member) _
  | tuple elems span => exact .bind (within (.exprs elems) member) _
  | record fields span => exact .bind (within (.record [] fields) member) _
  | structLit decl fields span =>
    refine .after _ fun checker => ?_
    split
    · exact .bind (within (.initializers fields) member) _
    · next info _ =>
        exact .after _ fun generics =>
          .bind (within (.structFields info generics [] fields) member) _
  | variant decl name args span => exact .bind (within (.exprs args) member) _
  | lambda params body span | ascribe expr ty span =>
    cases List.mem_singleton.mp member
    exact .after _ fun _ => here.bind _
  | call callee args span | methodCall receiver name args span =>
    rcases List.mem_cons.mp member with rfl | inArgs
    · exact here.bind _
    · exact .after _ fun _ => .bind (within (.exprs args) inArgs) _
  | fieldAccess base name span | tupleIndex base position span | unary op operand span =>
    cases List.mem_singleton.mp member
    exact here.bind _
  | binary op left right span =>
    obtain ⟨rule, found⟩ := Option.ne_none_iff_exists'.mp (ruled _ _ _ _ rfl)
    simp only [ofExpr, found]
    rcases List.mem_pair.mp member with rfl | rfl
    · exact here.bind _
    · exact .after _ fun _ => here.bind _
  | conditional condition thenBranch elseBranch span =>
    simp only [Expr.children, List.mem_cons, List.not_mem_nil, or_false] at member
    rcases member with rfl | rfl | rfl
    · exact here.bind _
    · exact .after _ fun _ => .after _ fun _ => .after _ fun _ => here.bind _
    · refine .after _ fun _ => .after _ fun _ => .after _ fun _ => .after _ fun _ => ?_
      rw [if_neg (by simp [present])]
      exact .after _ fun _ => .after _ fun _ => here.bind _
  | matchOn scrutinee arms span =>
    rcases List.mem_cons.mp member with rfl | inArms
    · exact here.bind _
    · exact .after _ fun ty => .after _ fun result =>
        .bind (within (.arms ty result none arms) inArms) _
  | block stmts tail span =>
    rcases List.mem_append.mp member with inStmts | isTail
    · exact .bind (within (.stmts stmts) inStmts) _
    · cases List.mem_singleton.mp isTail
      exact .after _ fun _ => here
  | _ => cases member

variable {settings : Settings} {items : List Item} {final : Checker}

theorem reached_of_makes (ran : checkItems items (initial settings) = .ok () final)
    {wanted : Call → Prop} (reached : Reached settings items task start)
    (makes : task.walk.Makes wanted) :
    ∃ call : Call, Reached settings items call.task call.start ∧ wanted call := by
  obtain ⟨result, after, ranTask⟩ := returns_of_reached reached ran
  rw [← task.run_walk] at ranTask
  obtain ⟨call, called, isWanted⟩ := makes _ _ _ ranTask
  exact ⟨call, .call reached called, isWanted⟩

theorem reached_of_leads (ran : checkItems items (initial settings) = .ok () final)
    (present : node.isMissing = false) {call : Call}
    (reached : Reached settings items call.task call.start) (leads : call.Leads node) :
    ∃ start, Reached settings items (.expr node) start := by
  induction size : call.task.size using Nat.strong_induction_on generalizing call with
  | h size ih =>
    rcases leads with ⟨start, rfl⟩ | pending
    · exact ⟨start, reached⟩
    · obtain ⟨next, reachedNext, leads, smaller⟩ :=
        reached_of_makes ran reached (makes_pending call.task pending present)
      exact ih _ (size ▸ smaller) reachedNext leads rfl

/-- In a check without errors, a call has a result and reports no error, and from there the check
goes on to its end. -/
theorem ends_of_reached (clean : (check settings (some items)).log.hasErrors = false)
    (reached : Reached settings items task start) :
    ∃ result after, task.run start = .ok result after ∧ after.log.errorCount = 0 ∧
      Changes .any true after (check settings (some items)) := by
  have ran := checkItems_of_clean clean
  obtain ⟨result, after, ranTask⟩ := returns_of_reached reached ran
  have toEnd := changes_of_reached reached
  rw [Task.finish, finish_of_ok ranTask, finish_of_ok ran] at toEnd
  refine ⟨result, after, ranTask, ?_, toEnd⟩
  have none : (check settings (some items)).log.errorCount = 0 :=
    Nat.eq_zero_of_not_pos (of_decide_eq_false clean)
  exact Nat.le_zero.mp (none ▸ toEnd.errorCount_le)

theorem apply_eq_of_unify {expected found : Ty} {after last : Checker} {declaring : Bool}
    (obeys : before.Obeys .any) (fitsExpected : Policy.any.FitsIn before expected)
    (fitsFound : Policy.any.FitsIn before found) (obeysAfter : after.Obeys .any)
    (unified : before.subst.unify expected found = (after.subst, none))
    (later : Changes .any declaring after last) :
    last.subst.apply expected = last.subst.apply found := by
  have agree := Subst.unify_apply_eq obeys.acyclic
    (fun _ _ bound => (obeys.bound bound rfl).2.isKnown)
      fitsExpected.isKnown fitsFound.isKnown unified
  have acyclic := (later.obeys obeysAfter).acyclic
  have extends' := later.extends obeysAfter
  rw [← extends'.apply_apply acyclic expected, agree, extends'.apply_apply acyclic]

theorem class?_of_clean (clean : (check settings (some items)).log.hasErrors = false)
    {op : BinaryOp} {left right : Expr} {span : Span}
    (reached : Reached settings items (.expr (.binary op left right span)) start) :
    op.class? ≠ none := by
  intro unruled
  obtain ⟨ty, after, ran, noError, _⟩ := ends_of_reached clean reached
  change inferExpr (.binary op left right span) start = _ at ran
  rw [inferExpr, unruled] at ran
  obtain ⟨_, reported, ⟨⟩, ⟨⟩⟩ := bind_eq_ok.mp ran
  exact absurd noError (Log.errorCount_add_pos _ rfl).ne'

theorem reached_checkBody (ran : checkItems items (initial settings) = .ok () final)
    (member : item ∈ Item.functions items) (present : item.body.isMissing = false) :
    ∃ signature start, start.signatures.find? item.id = some signature ∧
      Reached settings items (.body item signature) start := by
  have calls :
      Walk.Makes (fun call => ∃ start, call = ⟨.function item, start⟩) (Task.items items).walk :=
    .after _ fun _ => .after _ fun _ =>
      .forM member (Walk.makes_call fun start => ⟨start, rfl⟩)
  obtain ⟨_, reached, start, rfl⟩ := reached_of_makes ran .start calls
  obtain ⟨types, signed⟩ : ∃ types, start.signatures.find? item.id = some types := by
    cases placed_of_reached reached with
    | collecting stage => cases stage
    | checking _ _ same =>
      obtain ⟨_, middle, ranCollect, _⟩ := bind_eq_ok.mp ran
      have signed := signatures_of_collect (obeys_initial rfl) ranCollect item member
      rw [same.signatures, collected, finish_of_ok ranCollect]
      exact Option.isSome_iff_exists.mp signed
  have called : ⟨.body item types, start⟩ ∈ (Task.function item).walk.calls start := by
    refine Walk.mem_calls_after (rfl : (Walk.step get).run start = .ok start start) ?_
    rw [signed]
    dsimp only
    rw [if_neg (by simp [present])]
    exact List.mem_cons_self
  exact ⟨types, start, signed, .call reached called⟩

theorem reached_body (clean : (check settings (some items)).log.hasErrors = false)
    (member : item ∈ Item.functions items) (present : item.body.isMissing = false) :
    ∃ start, Reached settings items (.expr item.body) start := by
  have ran := checkItems_of_clean clean
  obtain ⟨types, start, _, reached⟩ := reached_checkBody ran member present
  have infers : Walk.Makes (fun call => ∃ start, call = ⟨.expr item.body, start⟩)
      (Task.body item types).walk :=
    .after _ fun _ => .bind (Walk.makes_call fun start => ⟨start, rfl⟩) _
  obtain ⟨_, reachedBody, entered, rfl⟩ := reached_of_makes ran reached infers
  exact ⟨entered, reachedBody⟩

theorem reached_inside (clean : (check settings (some items)).log.hasErrors = false)
    (member : item ∈ Item.functions items) (inside : item.body.Inside node)
    (present : node.isMissing = false) : ∃ start, Reached settings items (.expr node) start := by
  have ran := checkItems_of_clean clean
  induction inside with
  | root => exact reached_body clean member present
  | @child parent node _ isChild ih =>
    have parentPresent : parent.isMissing = false := by
      cases parent with
      | missing => cases isChild
      | _ => rfl
    obtain ⟨start, reached⟩ := ih parentPresent
    have ruled : ∀ op left right span, parent = .binary op left right span → op.class? ≠ none :=
      fun op left right span same => class?_of_clean clean (same ▸ reached)
    obtain ⟨call, reachedCall, leads⟩ :=
      reached_of_makes ran reached (makes_child isChild present ruled)
    exact reached_of_leads ran present reachedCall leads

end Checker

end TraitCheck
