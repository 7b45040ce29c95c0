import TraitCheck.Syntax.Span
import TraitCheck.Text.Utf8

/-!
# Lines of a source file

A line ends before a newline byte, and a carriage return right before that newline is not part of
the line either. Cutting a piece out of a file is partial: `slice?` has a result only for bounds in
order and inside the file, so a definition built from it shows which positions it accepts.
-/

namespace TraitCheck

def Bytes.slice? (bytes : Bytes) (start stop : Int) : Option Bytes :=
  if 0 ≤ start ∧ start ≤ stop ∧ stop ≤ bytes.length then
    some ((bytes.take stop.toNat).drop start.toNat)
  else none

structure Line where
  number : Nat
  start : Nat
  stop : Nat
  deriving DecidableEq, Repr, Inhabited

namespace Source

def newline : UInt8 := 10

def carriageReturn : UInt8 := 13

def tailLength (bytes : Bytes) : Nat := (bytes.reverse.takeWhile (· ≠ newline)).length

def headLength (bytes : Bytes) : Nat := (bytes.takeWhile (· ≠ newline)).length

/-- The line that holds the byte at an offset. Offsets past the end count as the end; a negative
offset has no line. -/
def lineAt? (source : Bytes) (offset : Int) : Option Line := do
  let offset := min offset source.length
  let before ← Bytes.slice? source 0 offset
  let after ← Bytes.slice? source offset source.length
  let start := before.length - tailLength before
  let stop := before.length + headLength after
  let stop :=
    if start < stop ∧ source[stop - 1]? = some carriageReturn then stop - 1 else stop
  some ⟨before.count newline + 1, start, stop⟩

/-- The start of a span as file, line and column, both counted from one; columns count runes. -/
def location? (source : Bytes) (span : Span) : Option String := do
  let line ← lineAt? source span.start
  let before ← Bytes.slice? source line.start (min span.start source.length)
  some (span.file ++ ":" ++ toString line.number ++ ":" ++
    toString ((Utf8.runes before).length + 1))

end Source

end TraitCheck
