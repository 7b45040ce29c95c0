import TraitCheck.Proofs.Check.Functions

/-!
# The generics of a function

While the body of a function is checked, its generics are ordinary variables. They are new and
unsolved when the body is entered, but the body may bind them like any others, to types, to each
other or into the type of another declaration, and nothing looks at them again. So callers can rely
on the scheme of a function at every instance exactly if the variables for its generics are still
rigid, which is settled once its own body is left.
-/

namespace TraitCheck

open Ty (var)

theorem Subst.apply_congr {first second : Subst} (same : first.vars = second.vars) (ty : Ty) :
    first.apply ty = second.apply ty := by
  have solutions : ∀ limit, first.solution limit = second.solution limit := by
    intro limit
    induction limit with
    | zero => rfl
    | succ limit ih =>
      funext id
      unfold solution lookup
      rw [same, ih]
  unfold Subst.apply Subst.size
  rw [same, solutions]

namespace Checker

variable {settings : Settings} {items : List Item} {done rest : List FunctionItem}
  {item : FunctionItem}

theorem SameDeclarations.declaredTypes_eq {before after : Checker}
    (same : SameDeclarations before after) : after.declaredTypes = before.declaredTypes := by
  unfold declaredTypes memberTypes
  rw [same.structs, same.enums, same.globals, same.signatures, same.registry]

theorem nodup_genericVars (next count : Nat) : (genericVars next count).Nodup := by
  refine List.nodup_range.map fun first second same => ?_
  simpa using same

theorem of_mem_genericVars {next count : Nat} {id : VarId} (member : id ∈ genericVars next count) :
    (next : VarId) ≤ id ∧ id < ((next + count : Nat) : VarId) := by
  obtain ⟨offset, inRange, rfl⟩ := List.mem_map.mp member
  have below := List.mem_range.mp inRange
  constructor
  · exact Int.le_add_of_nonneg_right (Int.natCast_nonneg offset)
  · rw [Int.natCast_add]
    exact Int.add_lt_add_left (Int.ofNat_lt.mpr below) _

namespace Visit

variable (visit : Visit settings items done item rest)

/-- The body of a function is checked at the instance of its type at new variables. -/
structure ChecksInstance : Prop where
  /-- The variables that stand for the generics in the body. -/
  bound : ∀ index, visit.entered.subst.lookupParam index =
    if index < 0 then none else (visit.generics[index.toNat]?).map var
  /-- They are new. -/
  fresh : visit.entered.subst.Rigid visit.generics visit.entered.declaredTypes
  /-- Callers are offered the type made from the signature. -/
  offered : ∃ declared : FunctionItem, (check settings (some items)).globals.find? item.id =
    some (declared.scheme visit.signature.params visit.signature.result)
  params : ∀ param ∈ item.params, ∃ ty ∈ visit.signature.params, ∃ info,
    visit.entered.locals.find? param.id = some info ∧
      info.ty = visit.entered.subst.apply (ty.substParams (visit.generics.map var))
  result : (check settings (some items)).subst.apply visit.body =
    (check settings (some items)).subst.apply
      (visit.signature.result.substParams (visit.generics.map var))

variable {visit}

theorem entered_eq : Entered item visit.signature visit.start visit.result visit.entered :=
  of_enterBody visit.enters

theorem rigid_entered (follows : visit.Follows .taken) :
    visit.entered.subst.Rigid visit.generics visit.entered.declaredTypes := by
  have above : ∀ id ∈ visit.generics, ¬Policy.taken.FitsIn visit.start (var id) := by
    intro id member fits
    exact absurd (of_decide_eq_true fits.allowed).2 (not_lt.mpr (of_mem_genericVars member).1)
  have solved : ∀ id ∈ visit.generics, visit.entered.subst.apply (var id) = var id := by
    intro id member
    rw [Subst.apply_congr entered_eq.vars]
    refine Subst.apply_var_of_unbound ?_
    rcases bound : visit.start.subst.lookup id with _ | ty
    · rfl
    · exact absurd (follows.fromStart.bound bound rfl).1 (above id member)
  constructor
  · refine (nodup_genericVars _ _).imp_of_mem fun {first second} inFirst inSecond differ same => ?_
    rw [solved first inFirst, solved second inSecond] at same
    exact differ (Ty.var.inj same)
  · intro id member
    refine ⟨id, solved id member, fun ty tyMember occurs => above id member ?_⟩
    rw [(follows.toEntered.sameDeclarations).declaredTypes_eq] at tyMember
    rw [Subst.apply_congr entered_eq.vars] at occurs
    have fits := (follows.fromStart.declared ty tyMember).apply follows.fromStart.closed
    exact Policy.admits_var (fits.var_of_mem id occurs)

theorem apply_body (follows : visit.Follows .taken)
    (toFinal : Changes .taken false visit.left (check settings (some items)))
    (clean : (check settings (some items)).log.hasErrors = false) :
    (check settings (some items)).subst.apply visit.body =
      (check settings (some items)).subst.apply
        (visit.signature.result.substParams (visit.generics.map var)) := by
  have obeysInferred := follows.obeysInferred
  have obeysCompared := follows.toCompared.obeys obeysInferred
  have acyclic := (toFinal.obeys follows.obeysLeft).acyclic
  have later := follows.toLeft.trans toFinal
  have noErrors : visit.compared.log.errorCount = 0 := by
    have few := later.errorCount_le
    have none :
        (check settings (some items)).log.errorCount = 0 := by simpa [Log.hasErrors] using clean
    omega
  have unified := of_expectBody visit.compares noErrors
  have agree := Subst.unify_apply_eq obeysInferred.acyclic
    (fun _ _ bound => (obeysInferred.bound bound rfl).2.isKnown) follows.fitsResult.isKnown
    follows.fitsBody.isKnown unified
  have fromCompared := later.extends obeysCompared
  have fromEntered := ((follows.toInferred.trans follows.toCompared).trans later).extends
    (follows.toEntered.obeys follows.fromStart)
  calc (check settings (some items)).subst.apply visit.body
      = (check settings (some items)).subst.apply visit.result := by
        rw [← fromCompared.apply_apply acyclic, ← agree, fromCompared.apply_apply acyclic]
    _ = _ := by
        rw [entered_eq.result, entered_eq.applyParams_eq, fromEntered.apply_apply acyclic]
        rfl

theorem checksInstance (order : Item.functions items = done ++ item :: rest)
    (plain : ∀ entry ∈ items, ∀ ty ∈ entry.annotations, ty.vars = [])
    (follows : visit.Follows .taken)
    (toFinal : Changes .taken false visit.left (check settings (some items)))
    (clean : (check settings (some items)).log.hasErrors = false) : visit.ChecksInstance := by
  refine ⟨entered_eq.params, rigid_entered follows, ?_, fun param member => ?_,
    apply_body follows toFinal clean⟩
  · have toStart : Changes .taken true (initial settings) visit.start := visit.toStart rfl
      (fun entry member => writesAll_of_plain (plain entry member)) order
    have linked : visit.start.Linked := (toStart.keepsFunctions).linked nofun
    rw [((follows.toEnd.trans toFinal).sameDeclarations).globals]
    exact linked visit.signed
  · obtain ⟨ty, tyMember, info, found, applied⟩ := entered_eq.locals param member
    exact ⟨ty, tyMember, info, found, applied.trans (entered_eq.applyParams_eq ty)⟩

/-- Whether generics are rigid towards all declarations is settled when their body is left. -/
theorem rigid_left_iff (order : Item.functions items = done ++ item :: rest)
    (plain : ∀ entry ∈ items, ∀ ty ∈ entry.annotations, ty.vars = [])
    (follows : visit.Follows .taken) :
    visit.left.subst.Rigid visit.generics visit.left.declaredTypes ↔
      (check settings (some items)).subst.Rigid visit.generics
        (check settings (some items)).declaredTypes := by
  have obeysLeft := follows.obeysLeft
  have toFinal := visit.toFinal obeysLeft
    (fun entry member => writesAll_of_plain (plain entry member)) order
  constructor
  · intro rigid
    have known : ∀ id ∈ visit.generics, Policy.taken.FitsIn visit.left (var id) := by
      intro id member
      have ⟨above, below⟩ := of_mem_genericVars member
      rw [← entered_eq.next] at below
      have grown := ((follows.toInferred.trans follows.toCompared).trans follows.toLeft).next_le
      exact Policy.admits_var (decide_eq_true ⟨(Int.natCast_nonneg _).trans above,
        lt_of_lt_of_le below (Int.ofNat_le.mpr grown)⟩)
    have ⟨noLocals, noParams⟩ := visit.left_forgets
    have reserves : visit.left.Obeys (reserving obeysLeft known) :=
      obeys_reserving rigid noLocals noParams
    exact rigid_of_changes rigid reserves (visit.toFinal reserves
      (fun entry member => writesAll_of_plain (plain entry member)) order)
  · intro rigid
    rw [(toFinal.sameDeclarations).declaredTypes_eq] at rigid
    exact rigid.of_extends (toFinal.extends obeysLeft) (toFinal.obeys obeysLeft).acyclic

end Visit

/-- In a check without errors, the body of a function was checked at the instance of its type at new
variables, and the scheme of the function holds at every instance exactly if these variables are
rigid in the end: then they can be given any types while all bindings hold and the types of all
functions stay the same. Towards all declarations they are rigid in the end exactly if they are
when the body is left, and the same holds towards the types of functions if no other declaration has
a variable of its own. -/
theorem generics_rigid_iff (plain : ∀ entry ∈ items, ∀ ty ∈ entry.annotations, ty.vars = [])
    {final : Checker} (ended : check settings (some items) = final)
    (clean : final.log.hasErrors = false)
    (order : Item.functions items = done ++ item :: rest) (present : item.body.isMissing = false) :
    ∃ visit : Visit settings items done item rest, visit.ChecksInstance ∧
      (visit.left.subst.Rigid visit.generics visit.left.declaredTypes ↔
        final.subst.Rigid visit.generics
          final.declaredTypes) ∧
      ((∀ ty ∈ final.declaredTypes, ∀ id ∈ ty.vars,
          ∃ function ∈ final.globals.values, id ∈ function.vars) →
        (visit.left.subst.Rigid visit.generics visit.left.globals.values ↔
          final.subst.Rigid visit.generics
            final.globals.values)) ∧
      (final.subst.Rigid visit.generics
          final.globals.values ↔
        ∀ image : VarId → Ty, ∃ assignment,
          Subst.Satisfies assignment final.subst ∧
          (∀ id ∈ visit.generics, assignment id = image id) ∧
          ∀ function ∈ final.globals.values,
            function.bindVars assignment = final.subst.apply function) := by
  subst ended
  obtain ⟨visit⟩ := exists_visit clean order present
  have written : ∀ entry ∈ items, WritesAll .taken entry.annotations :=
    fun entry member => writesAll_of_plain (plain entry member)
  have isFunction : item ∈ Item.functions items := by simp [order]
  have obeysStart := (visit.toStart rfl written order).obeys (obeys_initial rfl)
  have follows := visit.follows obeysStart (WritesAll.right (written _ (function_mem isFunction)))
  have toFinal := visit.toFinal follows.obeysLeft written order
  have same := toFinal.sameDeclarations
  have acyclic := (toFinal.obeys follows.obeysLeft).acyclic
  have settled := Visit.rigid_left_iff order plain follows
  refine ⟨visit, Visit.checksInstance order plain follows toFinal clean, settled, fun own => ?_,
    Subst.rigid_iff_images acyclic (nodup_genericVars _ _)⟩
  constructor
  · intro rigid
    rw [← same.globals] at rigid
    have towardsAll := rigid.of_vars own
    rw [same.declaredTypes_eq] at towardsAll
    refine (settled.mp towardsAll).of_vars fun function member id found => ⟨function, ?_, found⟩
    exact mem_declaredTypes.mpr (.inl member)
  · intro rigid
    rw [← same.globals]
    exact rigid.of_extends (toFinal.extends follows.obeysLeft) acyclic

/-- A function with a generic `T`, a parameter `x : T` and the result type `T`. -/
def overT (name : String) (body : Expr) : FunctionItem :=
  { id := ⟨1⟩, name, span := .empty, generics := ["T"]
    params := [⟨⟨0⟩, "x", .param 0 "T", .empty⟩], result := .param 0 "T", body }

/-- Calls such a function on `1` and on `true`. -/
def callsTwice : FunctionItem :=
  { id := ⟨2⟩, name := "main", span := .empty, generics := [], params := [], result := .absent
    body :=
      .tuple
        [.call (.globalRef ⟨1⟩ .empty) [.literal ⟨.int, "1", .empty⟩] .empty,
          .call (.globalRef ⟨1⟩ .empty) [.literal ⟨.bool, "true", .empty⟩] .empty] .empty }

def withCalls (called : FunctionItem) : List Item := [.function called, .function callsTwice]

def returnsT : FunctionItem := overT "id" (.localRef ⟨0⟩ .empty)

/-- The body `x + 1`. -/
def addsOne : FunctionItem :=
  overT "increment" (.binary .add (.localRef ⟨0⟩ .empty) (.literal ⟨.int, "1", .empty⟩) .empty)

theorem Visit.generics_eq (visit : Visit settings items done item rest) :
    visit.generics = genericVars (finish (checkUpTo items done) (initial settings)).supply.next
      item.generics.length := by
  rw [finish_of_ok visit.reaches]
  rfl

theorem generics_rigid_iff_returnsT :
    (∀ entry ∈ withCalls returnsT, ∀ ty ∈ entry.annotations, ty.vars = []) ∧
    (check {} (some (withCalls returnsT))).log.hasErrors = false ∧
    ∃ visit : Visit {} (withCalls returnsT) [] returnsT [callsTwice],
      visit.ChecksInstance ∧ visit.generics = [1] ∧
      ∀ image : VarId → Ty, ∃ assignment,
        Subst.Satisfies assignment (check {} (some (withCalls returnsT))).subst ∧
        (∀ id ∈ visit.generics, assignment id = image id) ∧
        ∀ function ∈ (check {} (some (withCalls returnsT))).globals.values,
          function.bindVars assignment =
            (check {} (some (withCalls returnsT))).subst.apply function := by
  have plain : ∀ entry ∈ withCalls returnsT, ∀ ty ∈ entry.annotations, ty.vars = [] := by decide
  have clean : (check {} (some (withCalls returnsT))).log.hasErrors = false := by decide +kernel
  have order : Item.functions (withCalls returnsT) = [] ++ returnsT :: [callsTwice] := rfl
  obtain ⟨visit, checks, _, _, supported⟩ := generics_rigid_iff plain rfl clean order rfl
  have generics : visit.generics = [1] := by
    rw [visit.generics_eq]
    decide +kernel
  refine ⟨plain, clean, visit, checks, generics, supported.mp ?_⟩
  rw [generics]
  refine ⟨List.pairwise_singleton _ _, fun id member => ⟨1, ?_, by decide +kernel⟩⟩
  cases List.mem_singleton.mp member
  cbv

/-- A body that adds one to a value of type `T` gives `T` the type `Int`. No error is reported, and
callers may still use the function for a `Bool`. -/
theorem generics_solved_addsOne :
    (check {} (some (withCalls addsOne))).log.hasErrors = false ∧
    ∃ visit : Visit {} (withCalls addsOne) [] addsOne [callsTwice],
      visit.generics = [1] ∧
      (check {} (some (withCalls addsOne))).subst.apply (var 1) = .int ∧
      (check {} (some (withCalls addsOne))).functionType? ⟨2⟩ =
        some (some (.fn [] (.tuple [.int, .bool]))) := by
  have clean : (check {} (some (withCalls addsOne))).log.hasErrors = false := by decide +kernel
  have order : Item.functions (withCalls addsOne) = [] ++ addsOne :: [callsTwice] := rfl
  obtain ⟨visit⟩ := exists_visit clean order rfl
  refine ⟨clean, visit, ?_, by cbv, by cbv⟩
  rw [visit.generics_eq]
  decide +kernel

end Checker

end TraitCheck
