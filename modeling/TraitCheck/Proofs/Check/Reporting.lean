import TraitCheck.Proofs.Check.Completion
import TraitCheck.Proofs.Check.Emissions

/-!
# What the settings decide

The settings of a check have no say in what is inferred. Two checks of one module can only part
where a line of the trace cannot be composed, and that does not happen if the types written in the
module are whole, whatever else is missing. So all settings lead to the same types and the same
registry, and each log holds a selection of one list of diagnostics: warnings about unused locals if
they are asked for, other warnings in any case, and errors up to the limit.
-/

namespace TraitCheck

/-- All warnings, and as many errors from the front. -/
def Diagnostic.firstErrors : Nat → List Diagnostic → List Diagnostic
  | _, [] => []
  | limit, diagnostic :: rest =>
    if diagnostic.severity = .error then
      match limit with
      | 0 => firstErrors 0 rest
      | limit + 1 => diagnostic :: firstErrors limit rest
    else diagnostic :: firstErrors limit rest

/-- The diagnostics that a limit on errors lets through. -/
def Diagnostic.limited (limit : Int) (diagnostics : List Diagnostic) : List Diagnostic :=
  if limit ≤ 0 then diagnostics else firstErrors limit.toNat diagnostics

namespace Log

/-- The number of errors. -/
def countErrors (diagnostics : List Diagnostic) : Nat :=
  diagnostics.countP (·.severity = .error)

/-- A log holds what the settings ask for of all diagnostics of a check, and has counted the errors
that it leaves out. -/
structure Selects (settings : Settings) (all : List Diagnostic) (log : Log) : Prop where
  kept : log.items = Diagnostic.limited settings.maxErrors (all.filter settings.shows)
  dropped : log.dropped + countErrors log.items = countErrors (all.filter settings.shows)

variable {log : Log} {diagnostics : List Diagnostic}

theorem addAll_of_unlimited (unlimited : log.limit ≤ 0) :
    (log.addAll diagnostics).items = log.items ++ diagnostics ∧
      (log.addAll diagnostics).dropped = log.dropped := by
  induction diagnostics generalizing log with
  | nil => simp [addAll]
  | cons diagnostic rest ih =>
    have notFull : ¬(0 < log.limit ∧ log.limit < ↑(log.errorCount + 1)) := by omega
    have added : (log.add diagnostic).items = log.items ++ [diagnostic] ∧
        (log.add diagnostic).dropped = log.dropped ∧
        (log.add diagnostic).limit = log.limit := by
      unfold add
      split
      · rw [if_neg notFull]
        exact ⟨rfl, rfl, rfl⟩
      · exact ⟨rfl, rfl, rfl⟩
    have further := @ih (log.add diagnostic) (added.2.2 ▸ unlimited)
    rw [added.1, added.2.1, List.append_assoc] at further
    exact further

theorem addAll_of_limited (limited : 0 < log.limit) :
    (log.addAll diagnostics).items =
        log.items ++ Diagnostic.firstErrors (log.limit.toNat - log.errorCount) diagnostics ∧
      (log.addAll diagnostics).dropped + countErrors (Diagnostic.firstErrors
          (log.limit.toNat - log.errorCount) diagnostics) =
            log.dropped + countErrors diagnostics := by
  induction diagnostics generalizing log with
  | nil => simp [addAll, Diagnostic.firstErrors]
  | cons diagnostic rest ih =>
    change ((log.add diagnostic).addAll rest).items = _ ∧
      ((log.add diagnostic).addAll rest).dropped + _ = _
    unfold add
    by_cases isError : diagnostic.severity = .error
    · by_cases full : log.limit < ↑(log.errorCount + 1)
      · have nothingLeft : log.limit.toNat - log.errorCount = 0 := by omega
        have stillNothing : log.limit.toNat - (log.errorCount + 1) = 0 := by omega
        rw [if_pos isError, if_pos ⟨limited, full⟩]
        have further := @ih { log with
          errorCount := log.errorCount + 1
          dropped := log.dropped + 1 } limited
        simp only [stillNothing, nothingLeft, Diagnostic.firstErrors, countErrors,
          List.countP_cons, isError, decide_true, ↓reduceIte] at further ⊢
        exact ⟨further.1, by omega⟩
      · have oneLeft : log.limit.toNat - log.errorCount =
            (log.limit.toNat - (log.errorCount + 1)) + 1 := by omega
        rw [if_pos isError, if_neg fun both => full both.2]
        have further := @ih { log with
          errorCount := log.errorCount + 1
          items := log.items ++ [diagnostic] } limited
        simp only [oneLeft, Diagnostic.firstErrors, countErrors, List.countP_cons, isError,
          decide_true, ↓reduceIte, List.append_assoc, List.singleton_append] at further ⊢
        exact ⟨further.1, by omega⟩
    · rw [if_neg isError]
      have further := @ih { log with items := log.items ++ [diagnostic] } limited
      simp only [Diagnostic.firstErrors, countErrors, List.countP_cons, isError, decide_false,
        ↓reduceIte, Bool.false_eq_true, List.append_assoc, List.singleton_append] at further ⊢
      exact ⟨further.1, by omega⟩

theorem selects_addAll (settings : Settings) (all : List Diagnostic) :
    ((Log.empty settings.maxErrors).addAll (all.filter settings.shows)).Selects settings all := by
  rcases lt_or_ge 0 settings.maxErrors with limited | unlimited
  · rcases @addAll_of_limited (.empty settings.maxErrors) (all.filter settings.shows) limited
      with ⟨kept, dropped⟩
    refine ⟨?_, ?_⟩
    · rw [kept, Diagnostic.limited, if_neg (Int.not_le.mpr limited)]
      rfl
    · rw [kept]
      exact dropped.trans (Nat.zero_add _)
  · rcases @addAll_of_unlimited (.empty settings.maxErrors) (all.filter settings.shows) unlimited
      with ⟨kept, dropped⟩
    refine ⟨?_, ?_⟩
    · rw [kept, Diagnostic.limited, if_pos unlimited]
      rfl
    · rw [kept, dropped]
      exact Nat.zero_add _

end Log

namespace Checker

variable {items : List Item} {left right : Settings} {first second : Checker}

theorem not_stopsIncomplete (typed : ∀ item ∈ items, item.isTyped = true) (settings : Settings) :
    ¬StopsIncomplete (checkItems items (initial settings)) := by
  have delivers : Delivers ⟨[], true⟩ (checkItems items) fun _ => True := by
    refine delivers_checking (fun item member => ?_) (fun _ _ _ member => ?_) fun strict => ?_
    · exact Item.fits_of_isTyped rfl (typed item member)
    · cases member
    · cases strict
  rintro ⟨after, stopped⟩
  have delivered := delivers_iff.mp delivers _ (intact_initial settings)
  rw [stopped] at delivered
  exact delivered.2 rfl

theorem Alike.functionType? (alike : Alike left right first second)
    (decl : DefId) : first.functionType? decl = second.functionType? decl := by
  cases alike
  rfl

theorem Alike.registry (alike : Alike left right first second) :
    first.registry = second.registry := by
  cases alike
  rfl

theorem together_check {module? : Option (List Item)}
    (typed : ∀ items, module? = some items → ∀ item ∈ items, item.isTyped = true) :
    Together left right .any (initial left) (initial right) (check left module?)
      (check right module?) := by
  cases module? with
  | none =>
    have stops : Agrees left right .any (throw .missingNode : CheckM Unit) fun _ => True :=
      agrees_throw
    have complete : ∀ checker : Checker,
        ¬StopsIncomplete (.error .missingNode checker : EStateM.Result Fault Checker Unit) := by
      rintro checker ⟨_, stopped⟩
      cases (EStateM.Result.error.inj stopped).1
    exact (stops (alike_initial left right)).conclude (fun _ _ => trivial) fun _ =>
      ⟨complete (initial left), complete (initial right)⟩
  | some items =>
    rw [check_eq_conclude, check_eq_conclude]
    exact (agrees_checkItems items (alike_initial left right)).conclude (fun _ _ => trivial)
      fun _ => ⟨not_stopsIncomplete (typed items rfl) left,
        not_stopsIncomplete (typed items rfl) right⟩

/-- The settings have no influence on the types of functions and on the registry. The log of a check
is a selection of the diagnostics that a check with no limit on errors reports about the same
module, with warnings about unused locals. -/
theorem check_settings {module? : Option (List Item)}
    (typed : ∀ items, module? = some items → ∀ item ∈ items, item.isTyped = true)
    (settings other : Settings) :
    (∀ decl, (check settings module?).functionType? decl =
      (check other module?).functionType? decl) ∧
    (check settings module?).registry = (check other module?).registry ∧
    (other.maxErrors ≤ 0 → other.warnUnused = true →
      (check settings module?).log.Selects settings (check other module?).log.items) := by
  obtain ⟨alike, _, emitted, _, logs, logsOther⟩ := @together_check settings other module? typed
  refine ⟨alike.functionType?, alike.registry, fun unlimited warns => ?_⟩
  have all : (check other module?).log.items = emitted := by
    have shown : emitted.filter other.shows = emitted :=
      List.filter_eq_self.mpr fun diagnostic _ => by simp [Settings.shows, warns]
    rw [logsOther, shown]
    exact (Log.addAll_of_unlimited unlimited).1
  rw [all, logs]
  exact Log.selects_addAll settings emitted

/-- A function with an unused local and two references to nothing, and a declaration with a missing
body and missing types. -/
def strayItems : List Item :=
  [.function
      { id := ⟨1⟩, name := "stray", span := .empty, generics := [], params := [], result := .absent
        body := .block
          [.letBind (.bind ⟨1⟩ "a" .empty) .absent (.globalRef ⟨8⟩ .empty) .empty]
          (.globalRef ⟨9⟩ .empty) .empty },
    .function
      { id := ⟨2⟩, name := "declared", span := .empty, generics := []
        params := [⟨⟨1⟩, "n", .absent, .empty⟩], result := .absent, body := .missing }]

def terse : Settings := { warnUnused := false, maxErrors := 1, trace := true }

theorem check_settings_terse :
    (∀ item ∈ strayItems, item.isTyped = true) ∧
      (∀ decl, (check terse (some strayItems)).functionType? decl =
        (check {} (some strayItems)).functionType? decl) ∧
      (check terse (some strayItems)).registry = (check {} (some strayItems)).registry ∧
      (check terse (some strayItems)).log.Selects terse (check {} (some strayItems)).log.items ∧
      (check {} (some strayItems)).log.items.length = 3 ∧
      (check terse (some strayItems)).log.dropped = 1 := by
  have typed : ∀ item ∈ strayItems, item.isTyped = true := by decide
  have result := @check_settings (some strayItems)
    (fun items same => Option.some.inj same ▸ typed) terse {}
  have selects := result.2.2 (by decide) rfl
  have reported : (check {} (some strayItems)).log.items.length = 3 := by decide +kernel
  have dropped : (check terse (some strayItems)).log.dropped = 1 := by decide +kernel
  exact ⟨typed, result.1, result.2.1, selects, reported, dropped⟩

end Checker

end TraitCheck
