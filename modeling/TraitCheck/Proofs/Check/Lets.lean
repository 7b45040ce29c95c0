import TraitCheck.Proofs.Check.Stages

/-!
# What a let generalises

The name of a `let` is generalised over the unsolved variables of its type that occur in no solved
type of a local or of a function. The types of members of structs, enums and traits are not asked,
and neither are the variables that stand for the generics of the function being checked.
-/

namespace TraitCheck.Checker

variable {settings : Settings} {items : List Item} {id : LocalId} {name : String} {span : Span}
  {ty : Ty} {start after : Checker} {checker : Checker} {var : VarId}

/-- The variables over which a `let` generalises. -/
def quantifiedVars (checker : Checker) (ty : Ty) : List VarId :=
  if ty.isScheme then [] else checker.subst.quantified checker.fixedVars ty

theorem mem_fixedVars_iff : var ∈ checker.fixedVars ↔ ∃ bound ∈ checker.boundTypes,
      var ∈ (checker.subst.apply bound).vars :=
  List.mem_flatMap

theorem mem_quantifiedVars : var ∈ checker.quantifiedVars ty ↔
      ty.isScheme = false ∧ var ∈ (checker.subst.apply ty).vars ∧
        ∀ bound ∈ checker.boundTypes, var ∉ (checker.subst.apply bound).vars := by
  unfold quantifiedVars
  cases ty.isScheme <;> simp [Subst.mem_quantified, mem_fixedVars_iff]

theorem generalize_fixedVars (checker : Checker) (ty : Ty) :
    checker.subst.generalize checker.fixedVars ty =
      if ty.isScheme then ty
      else if checker.quantifiedVars ty = [] then checker.subst.apply ty
      else (checker.subst.apply ty).quantify (checker.quantifiedVars ty) := by
  unfold Subst.generalize quantifiedVars Subst.quantified
  cases ty.isScheme with
  | true => rfl
  | false =>
    simp only [Bool.false_eq_true, ↓reduceIte]
    split <;> simp_all

theorem sameDeclarations_of_reached_letBind {shape : Pattern}
    (reached : Reached settings items (.letBind shape ty) start) :
    SameDeclarations (collected settings items) start := by
  cases placed_of_reached reached with
  | collecting stage => cases stage
  | checking _ _ same => exact same

theorem SameDeclarations.memberTypes_eq {before : Checker} (same : SameDeclarations before after) :
    after.memberTypes = before.memberTypes := by
  unfold memberTypes
  rw [same.structs, same.enums, same.registry]

/-- A `let` quantifies exactly those unsolved variables of its type that occur in the type of no
local and of no function. So it quantifies a variable of another type that the state holds, say of a
field or of what stands for a generic, exactly if that type shares a variable with the value and
with none of these. The types of members are safe if collecting them left no variable in them. -/
theorem letBind_quantifies
    (reached : Reached settings items (.letBind (.bind id name span) ty) start)
    (ran : bindLet (.bind id name span) ty start = .ok () after) :
    after.locals.find? id =
        some ⟨if ty.isScheme then ty
          else if start.quantifiedVars ty = [] then start.subst.apply ty
          else (start.subst.apply ty).quantify (start.quantifiedVars ty), name, span, false⟩ ∧
    (∀ var ∈ start.quantifiedVars ty,
      start.subst.lookup var = none ∧ var ∈ (start.subst.apply ty).vars ∧
        ∀ held ∈ start.locals.values.map (·.ty) ++ start.globals.values,
          var ∉ (start.subst.apply held).vars) ∧
    (∀ held ∈ start.subst.params.values ++ start.memberTypes,
      (∃ var ∈ start.quantifiedVars ty, var ∈ (start.subst.apply held).vars) ↔
        ty.isScheme = false ∧ ∃ var ∈ (start.subst.apply ty).vars,
          var ∈ (start.subst.apply held).vars ∧
            ∀ bound ∈ start.locals.values.map (·.ty) ++ start.globals.values,
              var ∉ (start.subst.apply bound).vars) ∧
    ((∀ member ∈ (collected settings items).memberTypes, member.vars = []) →
      ∀ var ∈ start.quantifiedVars ty, ∀ held ∈ start.memberTypes,
        var ∉ (start.subst.apply held).vars) := by
  refine ⟨?_, fun var quantified => ?_, fun held _ => ?_, fun plain var _ held member => ?_⟩
  · obtain ⟨trace, rfl⟩ := (runs_of_quiet ran).of_bindLet
    rw [← generalize_fixedVars]
    exact (Locals.find?_bind ..).trans (if_pos rfl)
  · have ⟨_, occurs, free⟩ := mem_quantifiedVars.mp quantified
    exact ⟨(any_of_reached reached).1.acyclic.unbound_of_mem_apply occurs, occurs, free⟩
  · constructor
    · rintro ⟨var, quantified, inHeld⟩
      have ⟨mono, occurs, free⟩ := mem_quantifiedVars.mp quantified
      exact ⟨mono, var, occurs, inHeld, free⟩
    · rintro ⟨mono, var, occurs, inHeld, free⟩
      exact ⟨var, mem_quantifiedVars.mpr ⟨mono, occurs, free⟩, inHeld⟩
  · rw [(sameDeclarations_of_reached_letBind reached).memberTypes_eq] at member
    intro occurs
    obtain ⟨source, inHeld, _⟩ := Ty.mem_vars_bindVars.mp occurs
    rw [plain held member] at inHeld
    cases inHeld

/-- A call that binds the name of a `let` as expected. -/
def Call.bindsLet (expected : Ty → Checker → Bool) : Call → Bool
  | ⟨.letBind (.bind id name span) ty, start⟩ =>
    expected ty start &&
      match bindLet (.bind id name span) ty start with
      | .ok _ _ => true
      | .error _ _ => false
  | _ => false

theorem exists_letBind (items : List Item) (path : List Nat) (expected : Ty → Checker → Bool)
    (found : (Call.follow ⟨.items items, initial {}⟩ path).any (Call.bindsLet expected) = true) :
    ∃ id name span ty start after, expected ty start = true ∧
      Reached {} items (.letBind (.bind id name span) ty) start ∧
      bindLet (.bind id name span) ty start = .ok () after := by
  obtain ⟨call, followed, binds⟩ := (Option.any_eq_true _ _).mp found
  have reached := Reached.follow .start followed
  unfold Call.bindsLet at binds
  split at binds
  · next id name span ty start =>
      obtain ⟨holds, ran⟩ := Bool.and_eq_true_iff.mp binds
      split at ran
      · next after bound => exact ⟨id, name, span, ty, start, after, holds, reached, bound⟩
      · cases ran
  · cases binds

/-- The value of a `let`, which is bound to the name `make` and then applied to `1` and to `true`,
in a module with a struct of one field. -/
def usesTwice (field : Ty) (value : Expr) : List Item :=
  [.struct ⟨⟨1⟩, "S", .empty, [], [⟨"a", field, .empty⟩]⟩,
    .function
      { id := ⟨2⟩, name := "main", span := .empty, generics := [], params := [], result := .absent
        body :=
          .block
            [.letBind (.bind ⟨2⟩ "make" .empty) .absent
              (.lambda [⟨⟨1⟩, "x", .absent, .empty⟩] value .empty) .empty]
            (.tuple
              [.call (.localRef ⟨2⟩ .empty) [.literal ⟨.int, "1", .empty⟩] .empty,
                .call (.localRef ⟨2⟩ .empty) [.literal ⟨.bool, "true", .empty⟩] .empty] .empty)
            .empty }]

/-- `|x| S { a = x }` for a field `a` without a type. -/
def opensField : List Item :=
  usesTwice .absent (.structLit ⟨1⟩ [⟨"a", .localRef ⟨1⟩ .empty, .empty⟩] .empty)

/-- `|x| x` next to a field of type `Int`. -/
def leavesField : List Item := usesTwice .int (.localRef ⟨1⟩ .empty)

theorem letBind_quantifies_leavesField :
    (∀ member ∈ (collected {} leavesField).memberTypes, member.vars = []) ∧
      ∃ id name span ty start after,
        Reached {} leavesField (.letBind (.bind id name span) ty) start ∧
        bindLet (.bind id name span) ty start = .ok () after ∧
        start.quantifiedVars ty ≠ [] ∧ start.memberTypes ≠ [] ∧
        ∀ var ∈ start.quantifiedVars ty, ∀ held ∈ start.memberTypes,
          var ∉ (start.subst.apply held).vars := by
  have plain : ∀ member ∈ (collected {} leavesField).memberTypes, member.vars = [] := by
    decide +kernel
  have ⟨id, name, span, ty, start, after, expected, reached, ran⟩ :=
    exists_letBind leavesField [2, 0, 0, 0, 1]
      (fun ty start => start.quantifiedVars ty ≠ [] ∧ start.memberTypes ≠ []) (by decide +kernel)
  have ⟨quantifies, declares⟩ := of_decide_eq_true expected
  exact ⟨plain, id, name, span, ty, start, after, reached, ran, quantifies, declares,
    (letBind_quantifies reached ran).2.2.2 plain⟩

/-- The variable of a field without a type is generalised by a `let`, and the struct can then be
built from an `Int` and from a `Bool` without an error. -/
theorem letBind_quantifies_opensField :
    (check {} (some opensField)).log.errorCount = 0 ∧
      ∃ id name span ty start after,
        Reached {} opensField (.letBind (.bind id name span) ty) start ∧
        bindLet (.bind id name span) ty start = .ok () after ∧
        ∃ var ∈ start.quantifiedVars ty, ∃ field ∈ start.structs.values.flatMap StructInfo.types,
          var ∈ (start.subst.apply field).vars := by
  have ⟨id, name, span, ty, start, after, expected, reached, ran⟩ :=
    exists_letBind opensField [2, 0, 0, 0, 1]
      (fun ty start => ∃ var ∈ start.quantifiedVars ty,
        ∃ field ∈ start.structs.values.flatMap StructInfo.types,
          var ∈ (start.subst.apply field).vars)
      (by decide +kernel)
  exact ⟨by decide +kernel, id, name, span, ty, start, after, reached, ran,
    of_decide_eq_true expected⟩

end TraitCheck.Checker
