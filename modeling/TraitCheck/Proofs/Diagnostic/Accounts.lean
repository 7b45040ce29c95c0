import TraitCheck.Proofs.Check.Reporting

/-!
# What a log accounts for

A log keeps every diagnostic that is no error and the first errors up to its limit, in the order in
which they were added, and counts the errors that it leaves out. The line behind the rendered
diagnostics counts all errors and warnings that were added, kept or not. A diagnostic of another
severity is kept and rendered, but no line is written for it alone.
-/

namespace TraitCheck

namespace Diagnostic

/-- The diagnostics of one severity. -/
def ofSeverity (severity : Severity) (diagnostics : List Diagnostic) : List Diagnostic :=
  diagnostics.filter (·.severity = severity)

/-- Whether the diagnostic is an error or a warning. -/
def isCounted (diagnostic : Diagnostic) : Bool :=
  diagnostic.severity = .error || diagnostic.severity = .warning

variable {severity : Severity} {diagnostics : List Diagnostic}

section Selections

variable (diagnostics : List Diagnostic)

theorem ofSeverity_error_firstErrors (limit : Nat) :
    ofSeverity .error (firstErrors limit diagnostics) =
      (ofSeverity .error diagnostics).take limit := by
  induction diagnostics generalizing limit with
  | nil => simp [firstErrors, ofSeverity]
  | cons diagnostic rest ih =>
    unfold ofSeverity at ih ⊢
    by_cases isError : diagnostic.severity = .error
    · cases limit with
      | zero => simpa [firstErrors, isError] using ih 0
      | succ limit => simp [firstErrors, isError, ih]
    · simp [firstErrors, isError, ih]

theorem ofSeverity_firstErrors (other : severity ≠ .error) (limit : Nat) :
    ofSeverity severity (firstErrors limit diagnostics) = ofSeverity severity diagnostics := by
  induction diagnostics generalizing limit with
  | nil => simp [firstErrors]
  | cons diagnostic rest ih =>
    unfold ofSeverity at ih ⊢
    by_cases isError : diagnostic.severity = .error
    · cases limit <;> simp [firstErrors, isError, other.symm, ih]
    · simp [firstErrors, isError, List.filter_cons, ih]

theorem sublist_firstErrors (limit : Nat) :
    (firstErrors limit diagnostics).Sublist diagnostics := by
  induction diagnostics generalizing limit with
  | nil => simp [firstErrors]
  | cons diagnostic rest ih =>
    by_cases isError : diagnostic.severity = .error
    · cases limit with
      | zero => simpa [firstErrors, isError] using (ih 0).cons diagnostic
      | succ limit => simp [firstErrors, isError, ih]
    · simp [firstErrors, isError, ih]

theorem sublist_limited (limit : Int) : (limited limit diagnostics).Sublist diagnostics := by
  unfold limited
  split
  · exact .refl _
  · exact sublist_firstErrors ..

theorem ofSeverity_error_limited (limit : Int) : ofSeverity .error (limited limit diagnostics) =
      if limit ≤ 0 then ofSeverity .error diagnostics
      else (ofSeverity .error diagnostics).take limit.toNat := by
  unfold limited
  split
  · rfl
  · exact ofSeverity_error_firstErrors ..

theorem ofSeverity_limited (other : severity ≠ .error) (limit : Int) :
    ofSeverity severity (limited limit diagnostics) = ofSeverity severity diagnostics := by
  unfold limited
  split
  · rfl
  · exact ofSeverity_firstErrors _ other _

theorem perm_errors_warnings :
    (ofSeverity .error diagnostics ++ ofSeverity .warning diagnostics).Perm
      (diagnostics.filter isCounted) := by
  induction diagnostics with
  | nil => exact .nil
  | cons diagnostic rest ih =>
    unfold ofSeverity isCounted at ih ⊢
    by_cases isError : diagnostic.severity = .error
    · simpa [isError] using ih
    · by_cases isWarning : diagnostic.severity = .warning
      · simpa [isWarning] using List.perm_middle.trans (ih.cons diagnostic)
      · simpa [isError, isWarning] using ih

end Selections

theorem exists_isCounted :
    (∃ diagnostic ∈ diagnostics, diagnostic.isCounted = true) ↔
      ¬((ofSeverity .error diagnostics).length = 0 ∧
        (ofSeverity .warning diagnostics).length = 0) := by
  have sameLength := (perm_errors_warnings diagnostics).length_eq
  rw [List.length_append] at sameLength
  have counted : 0 < (diagnostics.filter isCounted).length ↔
      ∃ diagnostic ∈ diagnostics, diagnostic.isCounted = true := by
    simp [List.length_pos_iff_exists_mem]
  rw [← counted]
  omega

end Diagnostic

namespace Log

open Diagnostic (ofSeverity)

theorem errorCount_addAll (log : Log) (added : List Diagnostic) :
    (log.addAll added).errorCount = log.errorCount + (ofSeverity .error added).length := by
  induction added generalizing log with
  | nil => rfl
  | cons diagnostic rest ih =>
    change ((log.add diagnostic).addAll rest).errorCount = _
    rw [ih]
    by_cases isError : diagnostic.severity = .error
    · rw [log.errorCount_add isError]
      simp [ofSeverity, isError]
      omega
    · have same : (log.add diagnostic).errorCount = log.errorCount := by simp [add, isError]
      simp [ofSeverity, isError, same]

theorem of_addAll_empty (limit : Int) (added : List Diagnostic) :
    ((empty limit).addAll added).items = Diagnostic.limited limit added ∧
      ((empty limit).addAll added).dropped + ((empty limit).addAll added).errors.length =
        (ofSeverity .error added).length := by
  have selects := selects_addAll { warnUnused := true, maxErrors := limit } added
  have shown : added.filter (Settings.shows { warnUnused := true, maxErrors := limit }) = added :=
    List.filter_eq_self.mpr fun _ _ => rfl
  have kept := selects.kept
  have dropped := selects.dropped
  rw [shown] at kept dropped
  simp only [countErrors, List.countP_eq_length_filter] at dropped
  exact ⟨kept, dropped⟩

end Log

namespace Renderer

open Diagnostic (ofSeverity)

/-- The line that sums up a rendering. -/
def tallyLine (errors warnings : Nat) : String :=
  toString errors ++ " error(s), " ++ toString warnings ++ " warning(s)\n"

theorem tally_addAll_empty (limit : Int) (added : List Diagnostic) :
    tally ((Log.empty limit).addAll added) =
      if ∃ diagnostic ∈ added, diagnostic.isCounted = true then
        [tallyLine (ofSeverity .error added).length (ofSeverity .warning added).length]
      else [] := by
  have ⟨kept, dropped⟩ := Log.of_addAll_empty limit added
  have warnings : ((Log.empty limit).addAll added).warnings = ofSeverity .warning added := by
    rw [← Diagnostic.ofSeverity_limited _ (by simp) limit, ← kept]
    rfl
  simp only [Diagnostic.exists_isCounted, ite_not]
  rw [tally, Nat.add_comm, dropped, warnings]
  rfl

theorem deliver_map_some {capacity : Option Nat} {pieces : List Bytes}
    (room : ∀ count, capacity = some count → pieces.length ≤ count) :
    deliver capacity (pieces.map some) = some (pieces.flatten, false) := by
  induction pieces generalizing capacity with
  | nil => cases capacity <;> rfl
  | cons piece rest ih =>
    cases capacity with
    | none =>
      have delivered := @ih none nofun
      simp [deliver, delivered]
    | some count =>
      cases count with
      | zero => exact absurd (room 0 rfl) (by simp)
      | succ count =>
        have roomRest : ∀ left, some count = some left → rest.length ≤ left := by
          rintro left ⟨⟩
          exact Nat.le_of_succ_le_succ (room (count + 1) rfl)
        have delivered := ih roomRest
        simp [deliver, delivered]

end Renderer

namespace Log

open Diagnostic (ofSeverity isCounted)

theorem hasErrors_addAll_empty {limit : Int} {added : List Diagnostic} :
    ((empty limit).addAll added).hasErrors = true ↔
      ∃ diagnostic ∈ added, diagnostic.severity = .error := by
  rw [hasErrors, decide_eq_true_iff, errorCount_addAll]
  simp [empty, ofSeverity, List.length_pos_iff_exists_mem]

/-- A log that has taken diagnostics keeps all that are no errors and the first errors up to its
limit, and has counted the errors that it leaves out. Its errors and its warnings share out all that
it keeps, except for diagnostics of other severities. A writer with enough room for diagnostics that
can be rendered gets them, and behind them a line with the numbers of all errors and warnings that
were added, if there are any. -/
theorem accounts_for_added (limit : Int) (added : List Diagnostic) :
    let log := (empty limit).addAll added
    log.items = Diagnostic.limited limit added ∧
    log.errors = (if limit ≤ 0 then ofSeverity .error added
      else (ofSeverity .error added).take limit.toNat) ∧
    (∀ severity, severity ≠ .error →
      ofSeverity severity log.items = ofSeverity severity added) ∧
    log.dropped + log.errors.length = (ofSeverity .error added).length ∧
    (log.hasErrors = true ↔ ∃ diagnostic ∈ added, diagnostic.severity = .error) ∧
    (log.errors ++ log.warnings).Perm (log.items.filter isCounted) ∧
    (∀ diagnostic ∈ log.errors, diagnostic ∉ log.warnings) ∧
    ((∀ diagnostic ∈ added, diagnostic.isCounted = true) →
      (log.errors ++ log.warnings).Perm log.items) ∧
    ∀ (renderer : Renderer) (terminal : Bool) (capacity : Option Nat) (bodies : List Bytes),
      log.items.map (renderer.diagnostic? terminal) = bodies.map some →
      (∀ room, capacity = some room → bodies.length + 1 ≤ room) →
      Renderer.deliver capacity (renderer.pieces terminal log) =
        some (bodies.flatten ++
          (if ∃ diagnostic ∈ added, diagnostic.isCounted = true then
            Utf8.encode (Renderer.tallyLine (ofSeverity .error added).length
              (ofSeverity .warning added).length)
          else []), false) := by
  intro log
  have ⟨kept, dropped⟩ := of_addAll_empty limit added
  have divided := Diagnostic.perm_errors_warnings log.items
  refine ⟨kept, ?_, fun severity other => ?_, dropped, hasErrors_addAll_empty, divided, ?_,
    fun counted => ?_, ?_⟩
  · rw [← Diagnostic.ofSeverity_error_limited, ← kept]
    rfl
  · rw [kept, Diagnostic.ofSeverity_limited _ other]
  · intro diagnostic isError isWarning
    have error := of_decide_eq_true (List.mem_filter.mp isError).2
    have warning := of_decide_eq_true (List.mem_filter.mp isWarning).2
    cases error.symm.trans warning
  · have all : log.items.filter isCounted = log.items := by
      refine List.filter_eq_self.mpr fun diagnostic member => counted diagnostic ?_
      rw [kept] at member
      exact (Diagnostic.sublist_limited added limit).subset member
    exact all ▸ divided
  · intro renderer terminal capacity bodies rendered room
    rw [Renderer.pieces, rendered, Renderer.tally_addAll_empty]
    split
    · have delivered :=
        @Renderer.deliver_map_some capacity (bodies ++ [Utf8.encode (Renderer.tallyLine
        (ofSeverity .error added).length (ofSeverity .warning added).length)]) (by simpa using room)
      simpa using delivered
    · have delivered := @Renderer.deliver_map_some capacity bodies fun count same =>
        Nat.le_of_succ_le (room count same)
      simpa using delivered

/-- Two errors and a warning under a limit of one error. -/
def overLimit : List Diagnostic :=
  [.error .typeMismatch .empty "a", .error .typeMismatch .empty "b",
    .warning .unusedVariable .empty "c"]

theorem accounts_for_added_overLimit :
    let log := (empty 1).addAll overLimit
    log.items.map (·.message) = ["a", "c"] ∧ log.dropped = 1 ∧ log.hasErrors = true ∧
    (log.errors ++ log.warnings).Perm log.items ∧
    Renderer.deliver none (Renderer.pieces { sources := .empty } false log) =
      some (Utf8.encode "error[E0001]: a\nwarning[W0009]: c\n2 error(s), 1 warning(s)\n",
        false) := by
  have ⟨kept, errors, _, dropped, hasErrors, _, _, divided, written⟩ :=
    accounts_for_added 1 overLimit
  have rendered : ((empty 1).addAll overLimit).items.map
      (Renderer.diagnostic? { sources := .empty } false) =
        [Utf8.encode "error[E0001]: a\n", Utf8.encode "warning[W0009]: c\n"].map some := by
    decide +kernel
  refine ⟨by rw [kept]; rfl, ?_, hasErrors.mpr ⟨_, List.mem_cons_self, rfl⟩,
    divided (by decide), ?_⟩
  · rw [errors] at dropped
    exact Nat.add_right_cancel dropped
  · rw [written _ false none _ rendered nofun]
    decide +kernel

def neither : Diagnostic := { severity := .reserved 0, code := .typeMismatch, message := "m" }

def outside : Diagnostic := .error .typeMismatch { start := -1, file := "a" } "m"

/-- Something may be added and yet no line with numbers be written: for a diagnostic of another
severity, which is also neither among the errors nor among the warnings; to a writer that refuses a
diagnostic; and behind a diagnostic that cannot be rendered. -/
theorem tally_missing :
    ((empty 0).addAll [neither]).items = [neither] ∧
    ¬(((empty 0).addAll [neither]).errors ++ ((empty 0).addAll [neither]).warnings).Perm [neither] ∧
    Renderer.deliver none
    (Renderer.pieces { sources := .empty } false ((empty 0).addAll [neither])) =
      some (Utf8.encode "error[E0001]: m\n", false) ∧
    Renderer.deliver (some 1)
        (Renderer.pieces { sources := .empty } false ((empty 1).addAll overLimit)) =
      some (Utf8.encode "error[E0001]: a\n", true) ∧
    Renderer.deliver none (Renderer.pieces { sources := Table.empty.insert "a" [] } false
      ((empty 0).addAll [outside])) = none := by
  decide +kernel

end Log

end TraitCheck
