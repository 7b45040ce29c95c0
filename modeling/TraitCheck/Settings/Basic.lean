import TraitCheck.Diagnostic.Render

/-!
# Settings

The options of a check and of the report that follows it.
-/

namespace TraitCheck

/-- What a check is told to report. -/
structure Settings where
  warnUnused : Bool := true
  /-- How many errors are kept; all of them if not positive. -/
  maxErrors : Int := 0
  trace : Bool := false
  color : ColorMode := .auto
  tabWidth : Int := 4
  deriving DecidableEq, Repr, Inhabited

def Settings.renderer (settings : Settings) (sources : Table String Bytes) : Renderer :=
  { sources, color := settings.color, tabWidth := settings.tabWidth }

end TraitCheck
