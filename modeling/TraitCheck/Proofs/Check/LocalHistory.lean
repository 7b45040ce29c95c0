import TraitCheck.Checker.Module
import TraitCheck.Proofs.Inference.Steps

/-!
# The history of the locals

`LocalStep` lists what happens to the locals of a function while its body is checked. What the two
parts of a table of locals hold after any steps can be read off the steps: each local that was bound
and not forgotten since has an entry, with what it was last bound to, and stands once in the order,
behind those that were first bound earlier since they were last absent.
-/

namespace TraitCheck

/-- What can be done to the locals. -/
inductive LocalStep where
  | bind (id : LocalId) (info : LocalInfo)
  | refer (id : LocalId) (span : Span)
  | remove (id : LocalId)
  | reset
  deriving Repr

namespace LocalStep

variable {steps : List LocalStep} {step : LocalStep} {id : LocalId} {info : LocalInfo} {place : Nat}

/-- The step of the checker. -/
def run : LocalStep → CheckM Unit
  | .bind id info => Checker.bindLocal id info.name info.ty info.span info.used
  | .refer id span => do
    let _ ← Checker.inferLocal id span
  | .remove id => Checker.removeLocal id
  | .reset => Checker.leaveBody

/-- The state after some steps. A reference to a local whose type cannot be instantiated stops, and
the state it has reached is kept. -/
def runAll (steps : List LocalStep) (start : Checker) : Checker :=
  steps.foldl (fun checker step => Checker.finish step.run checker) start

/-- What a step does to the two parts of a table of locals. -/
def apply (table : LocalTable) : LocalStep → LocalTable
  | .bind id info => table.bind id info
  | .refer id _ => table.refer id
  | .remove id => table.remove id
  | .reset => table.reset

theorem table_inferLocal (id : LocalId) (span : Span) (checker : Checker) :
    (Checker.finish (Checker.inferLocal id span) checker).locals.table =
      checker.locals.table.refer id := by
  rw [Checker.inferLocal_eq, Checker.finish_bind]
  change (Checker.finish (Checker.referTo id span (checker.locals.find? id))
    checker).locals.table = _
  rcases found : checker.locals.find? id with _ | info
  · rw [LocalTable.refer, Table.modify, show checker.locals.table.entries.find? id =
      none from found]
    rfl
  · rw [Checker.referTo, Checker.finish_bind]
    change (Checker.finish (Checker.withSupply _) _).locals.table = _
    rw [Checker.withSupply, Checker.finish_bind]
    change (Checker.finish (Checker.ofComplete _) _).locals.table = _
    unfold Checker.ofComplete
    split <;> rfl

theorem table_run (step : LocalStep) (checker : Checker) :
    (Checker.finish step.run checker).locals.table = step.apply checker.locals.table := by
  cases step with
  | bind id info | remove id | reset => rfl
  | refer id span =>
    rw [run, Checker.finish_bind, apply, ← table_inferLocal id span checker]
    unfold Checker.finish
    split <;> rfl

/-- The steps of a check change the two parts one by one as `apply` says. -/
theorem table_runAll (steps : List LocalStep) (start : Checker) :
    (runAll steps start).locals.table = steps.foldl apply start.locals.table := by
  induction steps generalizing start with
  | nil => rfl
  | cons step rest ih =>
    change (runAll rest (Checker.finish step.run start)).locals.table = _
    rw [ih, table_run]
    rfl

/-- Whether the step binds the local. -/
def binds (id : LocalId) : LocalStep → Bool
  | .bind other _ => other = id
  | _ => false

/-- Whether the step refers to the local. -/
def refersTo (id : LocalId) : LocalStep → Bool
  | .refer other _ => other = id
  | _ => false

/-- Whether the local is gone after the step. -/
def forgets (id : LocalId) : LocalStep → Bool
  | .remove other => other = id
  | .reset => true
  | _ => false

/-- What is known about a local after some steps: what it was last bound to, if it was not forgotten
since. It counts as used if it was bound so or was referred to since. -/
def Known (steps : List LocalStep) (id : LocalId) (info : LocalInfo) : Prop :=
  ∃ earlier given later, steps = earlier ++ .bind id given :: later ∧
    (∀ step ∈ later, step.binds id = false ∧ step.forgets id = false) ∧
    info = { given with used := given.used || later.any (·.refersTo id) }

/-- The place among some steps where a local was first bound since it was last absent. -/
def FirstBound (steps : List LocalStep) (id : LocalId) (place : Nat) : Prop :=
  ∃ earlier given later, steps = earlier ++ .bind id given :: later ∧ place = earlier.length ∧
    (∀ info, ¬Known earlier id info) ∧ ∀ step ∈ later, step.forgets id = false

theorem not_known_nil : ¬Known [] id info := by
  rintro ⟨earlier, given, later, split, _⟩
  simp at split

theorem known_concat :
    Known (steps ++ [step]) id info ↔
      step = .bind id info ∨ step.binds id = false ∧ step.forgets id = false ∧
        ∃ old, Known steps id old ∧ info = { old with used := old.used || step.refersTo id } := by
  constructor
  · rintro ⟨earlier, given, later, split, quiet, rfl⟩
    rcases List.eq_nil_or_concat later with rfl | ⟨later, last, rfl⟩
    · left
      obtain ⟨_, isLast⟩ := List.append_inj' split rfl
      simpa using isLast
    · right
      rw [List.concat_eq_append] at split quiet ⊢
      rw [← List.cons_append, ← List.append_assoc] at split
      obtain ⟨rfl, isLast⟩ := List.append_inj' split rfl
      cases isLast
      have quietLast := quiet step (by simp)
      refine ⟨quietLast.1, quietLast.2, _, ⟨earlier, given, later, rfl, ?_, rfl⟩, ?_⟩
      · exact fun other member => quiet other (List.mem_append_left _ member)
      · simp [Bool.or_assoc]
  · rintro (rfl | ⟨noBind, kept, old, ⟨earlier, given, later, rfl, quiet, rfl⟩, rfl⟩)
    · exact ⟨steps, info, [], rfl, by simp, by simp⟩
    · refine ⟨earlier, given, later ++ [step], by simp, ?_, by simp [Bool.or_assoc]⟩
      intro other member
      rcases List.mem_append.mp member with inLater | isLast
      · exact quiet other inLater
      · cases List.mem_singleton.mp isLast
        exact ⟨noBind, kept⟩

theorem FirstBound.lt_length (first : FirstBound steps id place) : place < steps.length := by
  obtain ⟨earlier, given, later, rfl, rfl, _⟩ := first
  simp

theorem firstBound_of_new (isNew : ∀ info, ¬Known steps id info) :
    FirstBound (steps ++ [.bind id info]) id steps.length :=
  ⟨steps, info, [], rfl, rfl, isNew, by simp⟩

theorem FirstBound.concat (first : FirstBound steps id place) (kept : step.forgets id = false) :
    FirstBound (steps ++ [step]) id place := by
  obtain ⟨earlier, given, later, rfl, rfl, isNew, quiet⟩ := first
  refine ⟨earlier, given, later ++ [step], by simp, rfl, isNew, ?_⟩
  intro other member
  rcases List.mem_append.mp member with inLater | isLast
  · exact quiet other inLater
  · cases List.mem_singleton.mp isLast
    exact kept

/-- A table of locals holds what some steps say. -/
structure Recorded (steps : List LocalStep) (table : LocalTable) : Prop where
  agrees : table.Agrees
  known : ∀ id info, table.entries.find? id = some info ↔ Known steps id info
  ordered : ∃ place : LocalId → Nat, (∀ id ∈ table.order, FirstBound steps id (place id)) ∧
    table.order.Pairwise fun first second => place first < place second

variable {table : LocalTable}

theorem recorded_nil : Recorded [] {} :=
  ⟨LocalTable.agrees_empty, fun _ _ => ⟨nofun, fun known => absurd known not_known_nil⟩,
    fun _ => 0, nofun, .nil⟩

theorem agrees_apply (agrees : table.Agrees) (step : LocalStep) : (step.apply table).Agrees := by
  cases step with
  | bind id info => exact agrees.bind id info
  | refer id span => exact agrees.refer id
  | remove id => exact agrees.remove id
  | reset => exact table.agrees_reset

theorem find?_apply (step : LocalStep) (table : LocalTable) (id : LocalId) (info : LocalInfo) :
    (step.apply table).entries.find? id = some info ↔
      step = .bind id info ∨ step.binds id = false ∧ step.forgets id = false ∧
        ∃ old, table.entries.find? id = some old ∧
          info = { old with used := old.used || step.refersTo id } := by
  cases step with
  | bind other given =>
    rw [apply, LocalTable.entries_bind, Table.find?_insert]
    by_cases same : other = id
    · simp [same, binds]
    · simp [same, binds, forgets, refersTo, @eq_comm _ info]
  | refer other span =>
    rw [apply, LocalTable.refer, Table.find?_modify]
    by_cases same : other = id
    · simp [same, binds, forgets, refersTo, eq_comm]
    · simp [same, binds, forgets, refersTo, eq_comm]
  | remove other =>
    rw [apply, LocalTable.find?_remove]
    by_cases same : other = id
    · simp [same, forgets]
    · simp [same, binds, forgets, refersTo, eq_comm]
  | reset => simp [apply, LocalTable.reset, forgets]

/-- A step keeps the locals that it does not forget in their order. Only a local that is bound and
was absent is added, at the end. -/
theorem order_apply (agrees : table.Agrees) (step : LocalStep) :
    (∃ id info, step = .bind id info ∧ id ∉ table.order ∧
        (step.apply table).order = table.order ++ [id]) ∨
      (step.apply table).order = table.order.filter fun id => !step.forgets id := by
  cases step with
  | bind id info =>
    rw [apply, agrees.order_bind]
    by_cases known : id ∈ table.order
    · right
      simp [known, forgets]
    · left
      exact ⟨id, info, rfl, known, if_neg known⟩
  | refer id span =>
    right
    simp [apply, LocalTable.refer, forgets]
  | remove id =>
    right
    rw [apply, agrees.order_remove]
    simp [forgets, eq_comm]
  | reset =>
    right
    simp [apply, LocalTable.reset, forgets]

theorem Recorded.not_known (recorded : Recorded steps table) (absent : id ∉ table.order) :
    ∀ info, ¬Known steps id info := by
  intro info known
  refine absent ((recorded.agrees.mem_order id).mpr ?_)
  rw [(recorded.known id info).mpr known]
  rfl

theorem Recorded.concat (recorded : Recorded steps table) (step : LocalStep) :
    Recorded (steps ++ [step]) (step.apply table) := by
  have agrees := agrees_apply recorded.agrees step
  have known : ∀ id info, (step.apply table).entries.find? id = some info ↔
      Known (steps ++ [step]) id info := by
    intro id info
    simp only [find?_apply, known_concat, recorded.known]
  obtain ⟨place, isPlace, ascending⟩ := recorded.ordered
  rcases order_apply recorded.agrees step with ⟨id, info, rfl, isNew, order⟩ | order
  · -- The new local is bound last, behind all places so far.
    have differ : ∀ other ∈ table.order, other ≠ id := fun other member same =>
      isNew (same ▸ member)
    refine ⟨agrees, known, Function.update place id steps.length, ?_, ?_⟩
    · rw [order]
      intro other member
      rcases List.mem_append.mp member with old | isLast
      · rw [Function.update_of_ne (differ other old)]
        exact (isPlace other old).concat rfl
      · cases List.mem_singleton.mp isLast
        rw [Function.update_self]
        exact firstBound_of_new (recorded.not_known isNew)
    · rw [order, List.pairwise_append]
      refine ⟨ascending.imp_of_mem ?_, List.pairwise_singleton _ _, ?_⟩
      · intro first second member member' before
        rwa [Function.update_of_ne (differ first member),
          Function.update_of_ne (differ second member')]
      · intro other old last isLast
        cases List.mem_singleton.mp isLast
        rw [Function.update_self, Function.update_of_ne (differ other old)]
        exact (isPlace other old).lt_length
  · refine ⟨agrees, known, place, ?_, ?_⟩
    · rw [order]
      intro id member
      obtain ⟨old, kept⟩ := List.mem_filter.mp member
      exact (isPlace id old).concat (by simpa using kept)
    · rw [order]
      exact ascending.filter _

theorem recorded_foldl (steps : List LocalStep) : Recorded steps (steps.foldl apply {}) := by
  induction steps using List.reverseRecOn with
  | nil => exact recorded_nil
  | append_singleton steps step ih =>
    rw [List.foldl_append]
    exact ih.concat step

/-- The steps of a check change the entries and the order of the locals as the steps on tables do.
After any of them that bind, refer to, remove and reset locals, every local with an entry stands in
the order exactly once and no other one does; a local has an entry exactly if it was bound and not
forgotten since, with what it was last bound to; and the locals with these entries are visited in
the order in which they were first bound since they were last absent. -/
theorem locals_of_history (steps : List LocalStep) (start : Checker) :
    let table := steps.foldl apply ({} : LocalTable)
    (runAll steps { start with locals := .empty }).locals.table = table ∧
      table.order.Nodup ∧
      (∀ id, id ∈ table.order ↔ (table.entries.find? id).isSome = true) ∧
      (∀ id info, table.entries.find? id = some info ↔ Known steps id info) ∧
      (∀ id info?, (id, info?) ∈ table.each ↔ ∃ info, info? = some info ∧ Known steps id info) ∧
      ∃ place : LocalId → Nat, (∀ visit ∈ table.each, FirstBound steps visit.1 (place visit.1)) ∧
        table.each.Pairwise fun first second => place first.1 < place second.1 := by
  intro table
  have recorded : Recorded steps table := recorded_foldl steps
  obtain ⟨place, isPlace, ascending⟩ := recorded.ordered
  refine ⟨table_runAll steps _, recorded.agrees.distinct, recorded.agrees.mem_order, recorded.known,
    fun id info? => ?_, place, fun visit member => ?_, List.pairwise_map.mpr ascending⟩
  · simp only [← recorded.known, LocalTable.each, List.mem_map, Prod.mk.injEq]
    constructor
    · rintro ⟨_, member, rfl, rfl⟩
      obtain ⟨info, found⟩ := Option.isSome_iff_exists.mp ((recorded.agrees.mem_order _).mp member)
      exact ⟨info, found, found⟩
    · rintro ⟨info, rfl, found⟩
      refine ⟨id, (recorded.agrees.mem_order id).mpr ?_, rfl, found⟩
      rw [found]
      rfl
  · obtain ⟨id, inOrder, rfl⟩ := List.mem_map.mp member
    exact isPlace id inOrder

end LocalStep

end TraitCheck
