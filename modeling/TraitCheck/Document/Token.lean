import TraitCheck.Document.Scalar

/-!
# Tokens of a document

The words of the notation: scalars, indicators, names of anchors and tags, and directives. Where a
mapping or a list is written by indentation, tokens without text of their own mark its start and
end.
-/

namespace TraitCheck.Document

inductive TokenKind where
  | streamEnd
  | version (major minor : Nat)
  /-- A handle and what it stands for in front of the names of tags. -/
  | tagHandle (handle stem : String)
  | documentStart
  | documentEnd
  | blockSequenceStart
  | blockMappingStart
  | blockEnd
  | flowSequenceStart
  | flowSequenceEnd
  | flowMappingStart
  | flowMappingEnd
  | blockEntry
  | flowEntry
  | key
  | value
  | alias (name : String)
  | anchor (name : String)
  | tag (handle suffix : String)
  | scalar (text : String) (style : ScalarStyle)
  deriving DecidableEq, Repr, Inhabited

structure Token where
  kind : TokenKind
  line : Nat
  deriving DecidableEq, Repr, Inhabited

namespace Scan

def endsName (char : Char) : Bool := isGap char || "?:,]\x7d%@`".toList.contains char

def anchorName : Scan String := do
  skip
  let name ← takeWhile isWordChar
  if name.isEmpty || !endsName (← peek) then failure
  return .ofList name

def tagHandle : Scan (List Char) := do
  need 1
  if (← peek) ≠ '!' then failure
  skip
  let word ← takeWhile isWordChar
  if (← peek) = '!' then
    skip
    return '!' :: word ++ ['!']
  else return '!' :: word

def isTagChar (char : Char) : Bool := isWordChar char || ";/?:@&=+$.,!~*'()[]%".toList.contains char

/-- The number of octets of an escaped character, by its first octet. -/
def octets? (octet : Nat) : Option Nat :=
  if octet < 0x80 then some 1
  else if octet < 0xC0 then none
  else if octet < 0xE0 then some 2
  else if octet < 0xF0 then some 3
  else if octet < 0xF8 then some 4
  else none

def takeOctet : Scan Nat := do
  need 3
  if (← peek) ≠ '%' then failure
  skip
  takeHex 2 0

def takeOctets : (count : Nat) → Scan Bytes
  | 0 => return []
  | count + 1 => do
    let octet ← takeOctet
    if octet < 0x80 || 0xC0 ≤ octet then failure
    return octet.toUInt8 :: (← takeOctets count)

def takeTagEscape : Scan (List Char) := do
  let first ← takeOctet
  match octets? first with
  | none => failure
  | some count =>
    let rest ← takeOctets (count - 1)
    return (Utf8.runes (first.toUInt8 :: rest)).map fun
      | .char char => char
      | .invalid _ => '\ufffd'

def takeTagName : (limit : Nat) → (taken : List Char) → Scan (List Char)
  | 0, taken => return taken
  | limit + 1, taken => do
    let char ← peek
    if char = '%' then
      let escaped ← takeTagEscape
      need 1
      takeTagName limit (taken ++ escaped)
    else if isTagChar char then
      skip
      need 1
      takeTagName limit (taken ++ [char])
    else return taken

def tagName : Scan (List Char) := do
  need 1
  let name ← takeTagName (← limit) []
  if name.isEmpty then failure
  return name

/-- Reads a tag as its handle and its name. A tag between angle brackets has no handle, and neither
has the exclamation mark alone. -/
def tagToken : Scan TokenKind := do
  need 2
  let token ← if (← peekAt 1) = '<' then bracketed else handled
  need 1
  if !isGap (← peek) then failure
  return token
where
  bracketed : Scan TokenKind := do
    skipMany 2
    let name ← tagName
    if (← peek) ≠ '>' then failure
    skip
    return .tag "" (.ofList name)
  handled : Scan TokenKind := do
    let handle ← tagHandle
    if 1 < handle.length && handle.getLast? = some '!' then
      return .tag (.ofList handle) (.ofList (← tagName))
    else
      need 1
      let name ← takeTagName (← limit) handle.tail
      if name.isEmpty then return .tag "" "!" else return .tag "!" (.ofList name)

def versionNumber : Scan Nat := do
  let digits ← takeWhile Char.isDigit
  if digits.isEmpty || 2 < digits.length then failure
  return digits.foldl (fun number digit => number * 10 + (digit.toNat - 48)) 0

def versionToken : Scan TokenKind := do
  skipWhile isBlank
  let major ← versionNumber
  if (← peek) ≠ '.' then failure
  skip
  let minor ← versionNumber
  return .version major minor

def tagHandleToken : Scan TokenKind := do
  skipWhile isBlank
  let handle ← tagHandle
  if handle ≠ ['!'] && (handle.length = 1 || handle.getLast? ≠ some '!') then failure
  need 1
  if !isBlank (← peek) then failure
  skipWhile isBlank
  let stem ← tagName
  need 1
  if !isGap (← peek) then failure
  return .tagHandle (.ofList handle) (.ofList stem)

def directiveToken : Scan TokenKind := do
  skip
  let name ← takeWhile isWordChar
  if name.isEmpty || !isGap (← peek) then failure
  let token ←
    if name = "YAML".toList then versionToken
    else if name = "TAG".toList then tagHandleToken
    else failure
  finishLine
  return token

end Scan

end TraitCheck.Document
