import TraitCheck.Diagnostic.Log
import TraitCheck.Source
import TraitCheck.Table
import TraitCheck.Text.Width

/-!
# Rendered diagnostics

A renderer writes diagnostics for people to read. Where the source of a label's file is known, the
line of the label is quoted and markers are set below the text that the label is about: the markers
start in the display column where that text starts and are as many as its columns.

Labels that start before their source have no line, and no line can be quoted if tabs are wider than
any text, so rendering is partial.
-/

namespace TraitCheck

inductive ColorMode where
  | auto
  | always
  | never
  /-- A setting without meaning, which acts like `auto`. -/
  | other (name : Bytes)
  deriving DecidableEq, Repr, Inhabited

namespace ColorMode

def ofBytes (name : Bytes) : ColorMode :=
  if name = Utf8.encode "auto" then .auto
  else if name = Utf8.encode "always" then .always
  else if name = Utf8.encode "never" then .never
  else .other name

def ofText (text : String) : ColorMode := ofBytes (Utf8.encode text)

def text : ColorMode → String
  | .auto => "auto"
  | .always => "always"
  | .never => "never"
  | .other name => Utf8.text name

def isColored (mode : ColorMode) (terminal : Bool) : Bool :=
  match mode with
  | .always => true
  | .never => false
  | .auto | .other _ => terminal

end ColorMode

namespace Ansi

def reset : String := "\x1b[0m"
def bold : String := "\x1b[1m"
def red : String := "\x1b[31m"
def yellow : String := "\x1b[33m"
def blue : String := "\x1b[34m"

def paint (colored : Bool) (color text : String) : String :=
  if colored then color ++ text ++ reset else text

end Ansi

/-- How diagnostics are written. -/
structure Renderer where
  sources : Table String Bytes
  color : ColorMode := .auto
  tabWidth : Int := 4
  deriving Inhabited

namespace Renderer

def tabColumns (renderer : Renderer) : Nat :=
  if renderer.tabWidth ≤ 0 then 4 else renderer.tabWidth.toNat

/-- The columns of the widest tab with which lines can be quoted. -/
def maxTabColumns : Nat := Nat.pow 2 48

def repeated (count : Nat) (text : String) : String := String.join (List.replicate count text)

/-- A line with tabs written as spaces. -/
def expandTabs (renderer : Renderer) (line : Bytes) : Bytes :=
  line.flatMap fun byte => if byte = 9 then List.replicate renderer.tabColumns 32 else [byte]

def severityColor : Severity → String
  | .warning => Ansi.yellow
  | .error | .reserved _ => Ansi.red

def unquotedLabel (colored : Bool) (label : Label) : String :=
  if label.span.isEmpty then
    if label.message = "" then "" else "  " ++ label.message ++ "\n"
  else
    Ansi.paint colored Ansi.blue " --> " ++
      label.span.file ++ "@" ++ toString label.span.start ++ ".." ++ toString label.span.stop ++
      (if label.message = "" then "" else ": " ++ label.message) ++ "\n"

/-- Where the markers of a label stand: the columns before them and their number. -/
structure Markers where
  before : Nat
  count : Nat
  deriving DecidableEq, Repr, Inhabited

/-- The markers of a label on its line. They cover the part of the span on that line, and at least
one column. -/
def markers? (renderer : Renderer) (columns : Char → Nat) (source : Bytes) (line : Line)
    (span : Span) : Option Markers := do
  let before ← Bytes.slice? source line.start span.start
  let stop := max span.start (min span.stop line.stop)
  let covered ← Bytes.slice? source span.start stop
  let width := Width.ofBytes columns renderer.tabColumns covered
  some ⟨Width.ofBytes columns renderer.tabColumns before, if width = 0 then 1 else width⟩

def quotedLabel? (renderer : Renderer) (columns : Char → Nat) (colored : Bool)
    (severity : Severity) (source : Bytes) (label : Label) : Option Bytes := do
  guard (renderer.tabColumns ≤ maxTabColumns)
  let line ← Source.lineAt? source label.span.start
  let quoted ← Bytes.slice? source line.start line.stop
  let markers ← renderer.markers? columns source line label.span
  let number := toString line.number
  let gutter := repeated number.length " "
  let blue := Ansi.paint colored Ansi.blue
  let (marker, color) :=
    if label.primary then ("^", severityColor severity) else ("-", Ansi.blue)
  let underline := repeated markers.before " " ++ repeated markers.count marker ++
    (if label.message = "" then "" else " " ++ label.message)
  some <|
    Utf8.encode (gutter ++ blue "--> " ++ label.span.file ++ ":" ++ number ++ ":" ++
      toString (markers.before + 1) ++ "\n" ++ gutter ++ blue " |" ++ "\n" ++
      blue (number ++ " | ")) ++
    renderer.expandTabs quoted ++
    Utf8.encode ("\n" ++ gutter ++ blue " | " ++ Ansi.paint colored color underline ++ "\n")

/-- A label, quoted if its source is known and reaches as far as the label. -/
def label? (renderer : Renderer) (columns : Char → Nat) (colored : Bool) (severity : Severity)
    (label : Label) : Option Bytes :=
  match renderer.sources.find? label.span.file with
  | none => some (Utf8.encode (unquotedLabel colored label))
  | some source =>
    if label.span.start > source.length then some (Utf8.encode (unquotedLabel colored label))
    else renderer.quotedLabel? columns colored severity source label

/-- The text of a diagnostic. -/
def diagnostic? (renderer : Renderer) (terminal : Bool) (diagnostic : Diagnostic) :
    Option Bytes := do
  let colored := renderer.color.isColored terminal
  let blue := Ansi.paint colored Ansi.blue
  let labels ← diagnostic.labels.mapM (renderer.label? Width.columns colored diagnostic.severity)
  let header :=
    Ansi.paint colored (Ansi.bold ++ severityColor diagnostic.severity) diagnostic.header ++
      Ansi.paint colored Ansi.bold (": " ++ diagnostic.message) ++ "\n"
  let notes := diagnostic.notes.map fun note => blue "  = " ++ "note: " ++ note ++ "\n"
  let help :=
    if diagnostic.help = "" then "" else blue "  = " ++ "help: " ++ diagnostic.help ++ "\n"
  some (Utf8.encode header ++ labels.flatten ++ Utf8.encode (String.join notes ++ help))

/-- The line that counts errors and warnings. -/
def tally (log : Log) : List String :=
  let errors := log.errors.length + log.dropped
  let warnings := log.warnings.length
  if errors = 0 ∧ warnings = 0 then []
  else [toString errors ++ " error(s), " ++ toString warnings ++ " warning(s)\n"]

/-- The pieces of the output for a log, each written at once: its diagnostics, then the tally. -/
def pieces (renderer : Renderer) (terminal : Bool) (log : Log) : List (Option Bytes) :=
  log.items.map (renderer.diagnostic? terminal) ++
    (tally log).map fun line => some (Utf8.encode line)

/-- What a writer has taken when all pieces were offered to it one after the other, and whether it
refused one. The writer takes at most `capacity` pieces; a piece that cannot be rendered ends the
output without a result. -/
def deliver : (capacity : Option Nat) → List (Option Bytes) → Option (Bytes × Bool)
  | _, [] => some ([], false)
  | _, none :: _ => none
  | some 0, some _ :: _ => some ([], true)
  | some (room + 1), some piece :: rest =>
    (deliver (some room) rest).map fun taken => (piece ++ taken.1, taken.2)
  | none, some piece :: rest =>
    (deliver none rest).map fun taken => (piece ++ taken.1, taken.2)

end Renderer

end TraitCheck
