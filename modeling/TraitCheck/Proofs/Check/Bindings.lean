import TraitCheck.Proofs.Check.Invariant

/-!
# The bindings along a whole check

A check binds variables while it collects declarations, compares impls with traits and infers
bodies, and keeps the bindings of comparisons that fail. If no type in the module mentions a
variable, then at the start and at the end of every call that the check makes, the bindings are
acyclic and without placeholders, and all variables that the state mentions were handed out before.
So a fresh variable is new, and following bindings comes to an end.
-/

namespace TraitCheck.Checker

variable {checker : Checker}

/-- The types that a state holds outside the bindings of variables. -/
def heldTypes (checker : Checker) : List Ty :=
  checker.subst.params.values ++ checker.locals.values.map (·.ty) ++ checker.declaredTypes ++
    checker.aliases.values.map (·.target)

/-- A variable is bound, or occurs in a bound type or in a type that a state holds. -/
def Mentions (checker : Checker) (id : VarId) : Prop :=
  (∃ ty, checker.subst.lookup id = some ty) ∨
  (∃ source ty, checker.subst.lookup source = some ty ∧ id ∈ ty.vars) ∨
  ∃ ty ∈ checker.heldTypes, id ∈ ty.vars

/-- The bindings are acyclic and without placeholders, and only variables that were handed out are
mentioned. -/
structure Sane (checker : Checker) : Prop where
  acyclic : checker.subst.Acyclic
  taken : ∀ id, checker.Mentions id → id < (checker.supply.next : VarId)
  known : ∀ id ty, checker.subst.lookup id = some ty → ty.isKnown = true

theorem Sane.fresh_unmentioned (sane : checker.Sane) : ¬checker.Mentions checker.supply.next :=
  fun mentioned => lt_irrefl _ (sane.taken _ mentioned)

/-- Following bindings from a type comes to an end. -/
def Settles (checker : Checker) (ty : Ty) : Prop :=
  (∀ id, checker.subst.shallow ty = .var id → checker.subst.lookup id = none) ∧
  ∀ id ∈ (checker.subst.apply ty).vars, checker.subst.lookup id = none

theorem Sane.settles (sane : checker.Sane) (ty : Ty) : checker.Settles ty :=
  ⟨fun _ reached => sane.acyclic.unbound_of_shallow reached,
    fun _ member => sane.acyclic.unbound_of_mem_apply member⟩

theorem lt_of_admits {written : Bool} {next : Nat} {ty : Ty}
    (admits : Policy.taken.Admits written next ty) : ∀ id ∈ ty.vars, id < (next : VarId) :=
  fun id member => (of_decide_eq_true (admits.var_of_mem id member)).2

theorem Obeys.sane (obeys : checker.Obeys .taken) : checker.Sane where
  acyclic := obeys.acyclic
  taken := by
    rintro id (⟨ty, bound⟩ | ⟨source, ty, bound, member⟩ | ⟨ty, held, member⟩)
    · exact lt_of_admits (obeys.bound bound rfl).1 id (by simp)
    · exact lt_of_admits (obeys.bound bound rfl).2 id member
    · simp only [heldTypes, List.mem_append, List.mem_map] at held
      rcases held with ((isParam | ⟨info, isLocal, rfl⟩) | isDeclared) | ⟨info, isAlias, rfl⟩
      · exact lt_of_admits (obeys.params ty isParam) id member
      · exact lt_of_admits (obeys.locals info isLocal) id member
      · exact lt_of_admits (obeys.declared ty isDeclared) id member
      · exact lt_of_admits ((obeys.aliases info isAlias).raise (Nat.zero_le _)) id member
  known id ty bound := (obeys.bound bound rfl).2.isKnown

theorem check_some (settings : Settings) (items : List Item) :
    check settings (some items) =
      match checkItems items (initial settings) with
      | .ok _ checker => checker
      | .error _ checker =>
        { checker with log := checker.log.add (faultDiagnostic checker.current) } := rfl

theorem check_eq_finish (settings : Settings) (items : List Item) :
    ∃ log, check settings (some items) =
    { finish (checkItems items) (initial settings) with log } := by
  rw [check_some]
  unfold finish
  cases checkItems items (initial settings) with
  | ok done after => exact ⟨after.log, rfl⟩
  | error fault after => exact ⟨_, rfl⟩

theorem Sane.withLog (sane : checker.Sane) (log : Log) : { checker with log }.Sane :=
  ⟨sane.acyclic, sane.taken, sane.known⟩

/-- If no type in a module mentions a variable, all states of its check are sane: a fresh variable
is always new, bindings can be followed to the end, and only types without placeholders are
compared. -/
theorem reached_sane {settings : Settings} {items : List Item}
    (plain : ∀ item ∈ items, ∀ ty ∈ item.annotations, ty.vars = []) :
    (∀ {α : Type} {task : Task α} {start : Checker}, Reached settings items task start →
      ∀ point ∈ [start, task.finish start],
        point.Sane ∧ ¬point.Mentions point.supply.next ∧ ∀ ty, point.Settles ty) ∧
    (∀ {expected found : Ty} {start : Checker},
      Reached settings items (.unify expected found) start →
        expected.isKnown = true ∧ found.isKnown = true) ∧
    (check settings (some items)).Sane := by
  have written : ∀ item ∈ items, WritesAll .taken item.annotations :=
    fun item member => writesAll_of_plain (plain item member)
  have points : ∀ {α : Type} {task : Task α} {start : Checker}, Reached settings items task start →
      ∀ point ∈ [start, task.finish start], point.Sane := by
    intro α task start reached point member
    have ⟨obeys, ready⟩ := ready_of_reached reached rfl written
    rcases List.mem_pair.mp member with rfl | rfl
    · exact obeys.sane
    · exact (obeys_finish obeys ready).sane
  refine ⟨fun reached point member => ?_, fun reached => ?_, ?_⟩
  · have sane := points reached point member
    exact ⟨sane, sane.fresh_unmentioned, sane.settles⟩
  · have ⟨_, fitsExpected, fitsFound⟩ := ready_of_reached reached rfl written
    exact ⟨fitsExpected.isKnown, fitsFound.isKnown⟩
  · obtain ⟨log, same⟩ := check_eq_finish settings items
    rw [same]
    exact (points .start _ (List.mem_pair.mpr (.inr rfl))).withLog log

/-- A module with an alias, placeholders, a parameter without a type, and branches `(x, y)` and
`(y, 1)` whose comparison fails after it bound the type of `y`. -/
def partlyWritten : List Item :=
  [.alias ⟨⟨1⟩, "Pair", .empty, ["T"], .tuple [.param 0 "T", .unknown]⟩,
    .function
      { id := ⟨2⟩, name := "f", span := .empty, generics := ["T"]
        params :=
          [⟨⟨0⟩, "x", .named ⟨1⟩ [.param 0 "T"], .empty⟩, ⟨⟨1⟩, "y", .absent, .empty⟩]
        result := .unknown
        body :=
          .conditional (.literal ⟨.bool, "true", .empty⟩)
            (.tuple [.localRef ⟨0⟩ .empty, .localRef ⟨1⟩ .empty] .empty)
            (.tuple [.localRef ⟨1⟩ .empty, .literal ⟨.int, "1", .empty⟩] .empty) .empty }]

theorem reached_sane_partlyWritten :
    (∀ item ∈ partlyWritten, ∀ ty ∈ item.annotations, ty.vars = []) ∧
      (check {} (some partlyWritten)).log.errorCount = 1 ∧
      (check {} (some partlyWritten)).subst.size = 3 ∧
      (check {} (some partlyWritten)).Sane := by
  have plain : ∀ item ∈ partlyWritten, ∀ ty ∈ item.annotations, ty.vars = [] := by decide
  exact ⟨plain, by cbv, by cbv, (reached_sane plain).2.2⟩

end TraitCheck.Checker
