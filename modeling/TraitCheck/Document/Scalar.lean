import TraitCheck.Document.Cursor

/-!
# Scalars of a document

A scalar is a piece of text. It is written without quotes on lines that are indented far enough,
between quotes, or as an indented block below an indicator. Line breaks inside a scalar without
indicator are folded: a single one becomes a space, and of several the first is dropped.
-/

namespace TraitCheck.Document

inductive ScalarStyle where
  | plain
  | quoted
  | block
  deriving DecidableEq, Repr

/-- What a line break and the further breaks after it stand for. -/
def folded (first more : List Char) : List Char :=
  if first = ['\n'] then if more.isEmpty then [' '] else more else first ++ more

structure Gap where
  /-- The blanks, if no line was left; the latest first. -/
  blanks : List Char := []
  first : List Char := []
  /-- The line breaks after the first; the latest first. -/
  more : List Char := []
  broken : Bool := false
  deriving Repr, Inhabited

def Gap.text (gap : Gap) : List Char :=
  if gap.broken then folded gap.first gap.more.reverse else gap.blanks.reverse

namespace Scan

/-- Takes the blanks and line breaks before the next word. A tab must not stand in front of the
column `indent` of a new line. -/
def takeGap (indent : Int) : (limit : Nat) → Gap → Scan Gap
  | 0, gap => return gap
  | limit + 1, gap => do
    let char ← peek
    if isBlank char then
      if gap.broken && char = '\t' && (← get).column < indent then failure
      skip
      need 1
      takeGap indent limit (if gap.broken then gap else { gap with blanks := char :: gap.blanks })
    else if isBreak char then
      need 2
      let char ← takeBreak
      need 1
      takeGap indent limit
        (if gap.broken then { gap with more := char :: gap.more }
        else { gap with blanks := [], first := [char], broken := true })
    else return gap

def isBracketMark (char : Char) : Bool := ",?[]\x7b\x7d".toList.contains char

def takeWord (inFlow : Bool) : (limit : Nat) → (taken : List Char) → Scan (List Char)
  | 0, taken => return taken.reverse
  | limit + 1, taken => do
    let char ← peek
    if isGap char || (char = ':' && isGap (← peekAt 1)) || (inFlow && isBracketMark char) then
      return taken.reverse
    else
      skip
      need 2
      takeWord inFlow limit (char :: taken)

/-- Takes the words of a plain scalar after `text` and `gap`. Its lines have to be indented to the
column `indent` outside brackets. Tells also whether the last gap leaves a line. -/
def takePlain (inFlow : Bool) (indent : Int) :
    (limit : Nat) → (text : List Char) → Gap → Scan (List Char × Bool)
  | 0, _, _ => failure
  | limit + 1, text, gap => do
    need 4
    if (← atMark) || (← peek) = '#' then return (text, gap.broken)
    let word ← takeWord inFlow (← Scan.limit) []
    if word.isEmpty then return (text, gap.broken)
    let text := text ++ gap.text ++ word
    let char ← peek
    if !(isBlank char || isBreak char) then return (text, false)
    need 1
    let gap ← takeGap indent (← Scan.limit) {}
    if !inFlow && (← get).column < indent then return (text, gap.broken)
    takePlain inFlow indent limit text gap

def plainScalar (inFlow : Bool) (indent : Int) : Scan (String × Bool) := do
  let (text, broken) ← takePlain inFlow indent (← limit) [] {}
  return (.ofList text, broken)

def hexValue? (char : Char) : Option Nat :=
  if '0' ≤ char ∧ char ≤ '9' then some (char.toNat - 48)
  else if 'a' ≤ char ∧ char ≤ 'f' then some (char.toNat - 87)
  else if 'A' ≤ char ∧ char ≤ 'F' then some (char.toNat - 55)
  else none

def takeHex : (count : Nat) → (number : Nat) → Scan Nat
  | 0, number => return number
  | count + 1, number => do
    match hexValue? (← peek) with
    | none => failure
    | some digit =>
      skip
      takeHex count (number * 16 + digit)

def shortEscape? : Char → Option Char
  | '0' => some '\x00'
  | 'a' => some '\x07'
  | 'b' => some '\x08'
  | 't' | '\t' => some '\t'
  | 'n' => some '\n'
  | 'v' => some '\x0b'
  | 'f' => some '\x0c'
  | 'r' => some '\r'
  | 'e' => some '\x1b'
  | ' ' => some ' '
  | '"' => some '"'
  | '\'' => some '\''
  | '\\' => some '\\'
  | 'N' => some '\u0085'
  | '_' => some '\u00a0'
  | 'L' => some '\u2028'
  | 'P' => some '\u2029'
  | _ => none

def escapeDigits : Char → Nat
  | 'x' => 2
  | 'u' => 4
  | 'U' => 8
  | _ => 0

def takeEscape : Scan Char := do
  let char ← takeChar
  match shortEscape? char, escapeDigits char with
  | some char, _ => return char
  | none, 0 => failure
  | none, digits =>
    need digits
    let number ← takeHex digits 0
    if number.isValidChar then return Char.ofNat number else failure

/-- Takes a word between quotes, in front of `taken` reversed. Tells also whether the word ends with
an escaped line break. -/
def takeQuotedWord (quote : Char) :
    (limit : Nat) → (taken : List Char) → Scan (List Char × Bool)
  | 0, _ => failure
  | limit + 1, taken => do
    let char ← peek
    let next ← peekAt 1
    if isGap char then return (taken.reverse, false)
    else if char = '\'' && quote = '\'' && next = '\'' then
      skipMany 2
      need 2
      takeQuotedWord quote limit (char :: taken)
    else if char = quote then return (taken.reverse, false)
    else if char = '\\' && quote = '"' then
      if isBreak next then
        need 3
        skip
        skipBreak
        return (taken.reverse, true)
      else
        skip
        let char ← takeEscape
        need 2
        takeQuotedWord quote limit (char :: taken)
    else
      skip
      need 2
      takeQuotedWord quote limit (char :: taken)

def takeQuoted (quote : Char) : (limit : Nat) → (text : List Char) → Scan (List Char)
  | 0, _ => failure
  | limit + 1, text => do
    need 4
    if (← atMark) || (← peek) = endMark then failure
    let (word, broken) ← takeQuotedWord quote (← Scan.limit) []
    let text := text ++ word
    need 1
    if (← peek) = quote then return text
    let gap ← takeGap 0 (← Scan.limit) { broken }
    takeQuoted quote limit (text ++ gap.text)

def quotedScalar (quote : Char) : Scan String := do
  skip
  let text ← takeQuoted quote (← limit) []
  skip
  return .ofList text

inductive Chomping where
  | strip
  | clip
  | keep
  deriving DecidableEq, Repr

def takeChomping : Scan (Option Chomping) := do
  match ← peek with
  | '+' =>
    skip
    need 1
    return some .keep
  | '-' =>
    skip
    need 1
    return some .strip
  | _ => return none

/-- Takes an optional indentation indicator, which must not be zero. -/
def takeIncrement : Scan Nat := do
  let char ← peek
  if char.isDigit then
    if char = '0' then failure
    skip
    need 1
    return char.toNat - 48
  else return 0

def takeBlockHeader : Scan (Chomping × Nat) := do
  need 1
  match ← takeChomping with
  | some chomping => return (chomping, ← takeIncrement)
  | none =>
    let increment ← takeIncrement
    if increment = 0 then return (.clip, 0)
    else return ((← takeChomping).getD .clip, increment)

/-- Takes empty lines and the indentation of the next line. An indentation of zero is still to be
found; `widest` is the widest one so far. -/
def takeEmptyLines (indent : Int) :
    (limit : Nat) → (widest : Nat) → (taken : List Char) → Scan (Nat × List Char)
  | 0, _, _ => failure
  | limit + 1, widest, taken => do
    skipIndent (← Scan.limit)
    let column := (← get).column
    let widest := max widest column
    let char ← peek
    if inIndent column && char = '\t' then failure
    if isBreak char then
      need 2
      let char ← takeBreak
      takeEmptyLines indent limit widest (taken ++ [char])
    else return (widest, taken)
where
  inIndent (column : Nat) : Bool := indent = 0 || column < indent
  skipIndent : (limit : Nat) → Scan Unit
    | 0 => pure ()
    | limit + 1 => do
      need 1
      if inIndent (← get).column && (← peek) = ' ' then
        skip
        skipIndent limit

/-- Takes the lines of a block after `text`. `first` is the break before the next line and `more`
are the empty lines after it. -/
def takeBlockLines (literal : Bool) (indent : Int) :
    (limit : Nat) → (text first more : List Char) → (indented : Bool) →
      Scan (List Char × List Char × List Char)
  | 0, _, _, _, _ => failure
  | limit + 1, text, first, more, indented => do
    let char ← peek
    if (← get).column = indent && char ≠ endMark then
      let lead :=
        if !literal && !indented && !isBlank char && first = ['\n'] then
          if more.isEmpty then [' '] else []
        else first
      let line ← takeWhile fun char => !isBreakOrEnd char
      need 2
      let first ← if isBreak (← peek) then (do return [← takeBreak]) else pure []
      let text := text ++ lead ++ more ++ line
      let (_, more) ← takeEmptyLines indent (← Scan.limit) 0 []
      takeBlockLines literal indent limit text first more (isBlank char)
    else return (text, first, more)

def blockScalar (literal : Bool) (outer : Int) : Scan String := do
  skip
  let (chomping, increment) ← takeBlockHeader
  finishLine
  let given : Int := if increment = 0 then 0 else max outer 0 + increment
  let (widest, more) ← takeEmptyLines given (← limit) 0 []
  let indent : Int := if given = 0 then max (max widest (outer + 1)) 1 else given
  need 1
  let (text, first, more) ← takeBlockLines literal indent (← limit) [] [] more false
  return .ofList <|
    match chomping with
    | .strip => text
    | .clip => text ++ first
    | .keep => text ++ first ++ more

end Scan

end TraitCheck.Document
