import TraitCheck.Diagnostic.Basic

/-!
# Logs of diagnostics

A log keeps diagnostics in the order in which they were added. With a positive limit it keeps that
many errors and only counts the others; warnings are always kept.
-/

namespace TraitCheck

/-- Diagnostics in order of arrival, with the counts of errors added and errors left out. -/
structure Log where
  limit : Int
  items : List Diagnostic := []
  errorCount : Nat := 0
  dropped : Nat := 0
  deriving DecidableEq, Repr, Inhabited

namespace Log

/-- The empty log that keeps at most `limit` errors, or all of them if the limit is not positive. -/
def empty (limit : Int) : Log := { limit }

/-- Adds a diagnostic. Errors beyond the limit are only counted. -/
def add (log : Log) (diagnostic : Diagnostic) : Log :=
  if diagnostic.severity = .error then
    let errorCount := log.errorCount + 1
    if 0 < log.limit ∧ log.limit < errorCount then
      { log with errorCount, dropped := log.dropped + 1 }
    else { log with errorCount, items := log.items ++ [diagnostic] }
  else { log with items := log.items ++ [diagnostic] }

def errors (log : Log) : List Diagnostic := log.items.filter (·.severity = .error)

def warnings (log : Log) : List Diagnostic := log.items.filter (·.severity = .warning)

/-- Whether an error was found. -/
def hasErrors (log : Log) : Bool := 0 < log.errorCount

def withCode (log : Log) (code : Code) : List Diagnostic := log.items.filter (·.code = code)

end Log

end TraitCheck
