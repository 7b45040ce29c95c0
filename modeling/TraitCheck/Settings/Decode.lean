import TraitCheck.Settings.Load

/-!
# Settings from texts and files

Settings are read from a document, and those that were read have to make sense in themselves as
well.
-/

namespace TraitCheck

inductive InvalidSetting where
  | color (name : Bytes)
  | maxErrors (value : Int)
  | tabWidth (value : Int)
  deriving DecidableEq, Repr, Inhabited

def InvalidSetting.message : InvalidSetting → String
  | .color name => "invalid color mode " ++ Text.quotedBytes name
  | .maxErrors value => "max_errors must not be negative, got " ++ toString value
  | .tabWidth value => "tab_width must be positive, got " ++ toString value

def Settings.invalid? (settings : Settings) : Option InvalidSetting :=
  match settings.color with
  | .other name => some (.color name)
  | .auto | .always | .never =>
    if settings.maxErrors < 0 then some (.maxErrors settings.maxErrors)
    else if settings.tabWidth < 1 then some (.tabWidth settings.tabWidth)
    else none

inductive SettingsError where
  | malformed
  | incomparable
  | mistyped (problems : List Document.Problem)
  | invalid (cause : InvalidSetting)
  deriving DecidableEq, Repr

def SettingsError.message : SettingsError → String
  | .malformed => "yaml: malformed document"
  | .incomparable => "yaml: keys cannot be compared"
  | .mistyped problems =>
    "yaml: unmarshal errors:\n  " ++ "\n  ".intercalate (problems.map (·.message))
  | .invalid cause => cause.message

inductive LoadError where
  | missing (path : String)
  | unusable (path : String) (cause : SettingsError)
  deriving DecidableEq, Repr

def LoadError.message : LoadError → String
  | .missing path => "open " ++ path ++ ": no such file or directory"
  | .unusable path cause => path ++ ": " ++ cause.message

namespace Settings

def validated (settings : Settings) : Except SettingsError Settings :=
  match settings.invalid? with
  | none => .ok settings
  | some cause => .error (.invalid cause)

def parse (bytes : Bytes) : Except SettingsError Settings :=
  match Document.read? bytes with
  | none => .error .malformed
  | some none => validated {}
  | some (some tree) =>
    match Document.Progress.ofTree tree with
    | .error .malformed => .error .malformed
    | .error .incomparable => .error .incomparable
    | .ok progress =>
      if progress.problems.isEmpty then progress.settings.validated
      else .error (.mistyped progress.problems)

def load (path : String) (contents : Option Bytes) : Except LoadError Settings :=
  match contents with
  | none => .error (.missing path)
  | some bytes => (parse bytes).mapError (.unusable path)

end Settings

end TraitCheck
