import TraitCheck.Document.Feed

/-!
# Places in a document

A cursor stands before a character of a document and knows its line and column. It looks ahead only
as far as it is asked to, so the end of a long document may never be read at all.

The characters at hand start where the cursor was when it waited for others. If they start with a
byte order mark, the first character of every line counts as one.

`Scan` is the monad of reading from a cursor. All its loops move the cursor on with each step; their
limit is the number of bytes of the document.
-/

namespace TraitCheck.Document

structure Cursor where
  /-- The characters from here on that have arrived. -/
  unread : List Char
  /-- How often the end was met: each time it counts as a character more. -/
  endings : Nat := 0
  feed : Feed
  /-- Whether the characters at hand start with a byte order mark. -/
  marked : Bool := false
  offset : Nat := 0
  line : Nat := 0
  column : Nat := 0
  /-- How many lines were left since the last character that is no blank. -/
  breaks : Nat := 0
  limit : Nat
  deriving Repr, Inhabited

/-- What stands after the last character of a document. No document holds this character. -/
def endMark : Char := '\x00'

def orderMark : Char := '\ufeff'

def isBreak (char : Char) : Bool :=
  char = '\n' || char = '\r' || char.toNat = 0x85 || char.toNat = 0x2028 || char.toNat = 0x2029

def isBlank (char : Char) : Bool := char = ' ' || char = '\t'

def isBreakOrEnd (char : Char) : Bool := isBreak char || char = endMark

def isGap (char : Char) : Bool := isBlank char || isBreakOrEnd char

def isWordChar (char : Char) : Bool := char.isAlphanum || char = '_' || char = '-'

namespace Cursor

def arrived (cursor : Cursor) : Cursor :=
  { cursor with
    endings := if cursor.feed.ended then cursor.endings + 1 else cursor.endings
    marked := cursor.unread.head? = some orderMark }

def start? (bytes : Bytes) : Option Cursor := do
  let (unread, feed) ← Feed.start? bytes
  some (arrived { unread, feed, limit := 4 * bytes.length + 16 })

def hasUnread (cursor : Cursor) (count : Nat) : Bool :=
  count ≤ cursor.endings || !(cursor.unread.drop (count - cursor.endings - 1)).isEmpty

def waitFor (count : Nat) : (portions : Nat) → Cursor → Option Cursor
  | 0, cursor => some cursor
  | portions + 1, cursor =>
    if cursor.feed.ended || cursor.hasUnread count then some cursor
    else do
      let (chars, feed) ← cursor.feed.next?
      waitFor count portions { cursor with unread := cursor.unread ++ chars, feed }

/-- Makes sure that so many characters have arrived, unless the document ends before. -/
def ahead? (cursor : Cursor) (count : Nat) : Option Cursor :=
  if cursor.hasUnread count then some cursor
  else (cursor.waitFor count (cursor.feed.coming.length + 2)).map arrived

def charAt (cursor : Cursor) (distance : Nat) : Char := cursor.unread[distance]?.getD endMark

def pass (cursor : Cursor) : Cursor :=
  { cursor with
    unread := cursor.unread.tail
    endings := if cursor.unread.isEmpty then cursor.endings - 1 else cursor.endings
    offset := cursor.offset + 1
    column := cursor.column + 1
    breaks := if isBlank (cursor.charAt 0) then cursor.breaks else 0 }

def passBreak (cursor : Cursor) : Cursor :=
  let width := if cursor.charAt 0 = '\r' && cursor.charAt 1 = '\n' then 2 else 1
  { cursor with
    unread := cursor.unread.drop width
    offset := cursor.offset + width
    line := cursor.line + 1
    column := 0
    breaks := cursor.breaks + 1 }

end Cursor

abbrev Scan := StateT Cursor Option

namespace Scan

def need (count : Nat) : Scan Unit :=
  fun cursor => (cursor.ahead? count).map fun cursor => ((), cursor)

def peekAt (distance : Nat) : Scan Char := return (← get).charAt distance

def peek : Scan Char := peekAt 0

def skip : Scan Unit := modify Cursor.pass

def skipMany : (count : Nat) → Scan Unit
  | 0 => pure ()
  | count + 1 => do
    skip
    skipMany count

def takeChar : Scan Char := do
  let char ← peek
  skip
  return char

def skipBreak : Scan Unit := modify Cursor.passBreak

/-- Takes a line break. All but the two separators of Unicode count as line feeds. -/
def takeBreak : Scan Char := do
  let char ← peek
  skipBreak
  return if char.toNat = 0x2028 || char.toNat = 0x2029 then char else '\n'

def limit : Scan Nat := return (← get).limit

/-- Takes the characters up to the first that is not accepted, in front of `taken` reversed. -/
def takeWhileFrom (accept : Char → Bool) : (limit : Nat) → (taken : List Char) → Scan (List Char)
  | 0, taken => return taken.reverse
  | limit + 1, taken => do
    if accept (← peek) then
      let char ← takeChar
      need 1
      takeWhileFrom accept limit (char :: taken)
    else return taken.reverse

def takeWhile (accept : Char → Bool) : Scan (List Char) := do
  need 1
  takeWhileFrom accept (← limit) []

def skipWhile (accept : Char → Bool) : Scan Unit := do
  let _ ← takeWhile accept

def atMark : Scan Bool := do
  let cursor ← get
  let triple (char : Char) : Bool :=
    cursor.charAt 0 = char && cursor.charAt 1 = char && cursor.charAt 2 = char
  return cursor.column = 0 && (triple '-' || triple '.') && isGap (cursor.charAt 3)

/-- Moves to the end of the first line that ends at or after an offset. -/
def skipLines (target : Nat) : (limit : Nat) → Scan Unit
  | 0 => pure ()
  | limit + 1 => do
    need 1
    if isBreakOrEnd (← peek) then
      if target ≤ (← get).offset then pure ()
      else
        need 2
        skipBreak
        skipLines target limit
    else
      skip
      skipLines target limit

def commentReach : Nat := 512

/-- The distance of the next character that is no blank, if it is close. -/
def blanksAhead : (reach : Nat) → (distance : Nat) → Scan (Option Nat)
  | 0, _ => return none
  | reach + 1, distance => do
    need (distance + 1)
    if isBlank (← peekAt distance) then blanksAhead reach (distance + 1) else return some distance

def skipLineComment : Scan Unit := do
  if (← get).breaks = 0 then
    match ← blanksAhead commentReach 0 with
    | none => pure ()
    | some distance =>
      if (← peekAt distance) = '#' then
        skipLines ((← get).offset + distance) (← limit)

/-- Moves over a comment and those on the lines below it, with blank lines between them. The next
comment is looked for from a distance on. -/
def skipCommentsFrom : (limit : Nat) → (distance : Nat) → Scan Unit
  | 0, _ => pure ()
  | limit + 1, distance => do
    if distance < commentReach then
      need (distance + 1)
      let char ← peekAt distance
      if isBlank char || char = '\n' || char = '\r' then
        skipCommentsFrom limit (distance + 1)
      else if isBreak char then need (distance + 2)
      else if char = '#' then
        skipLines ((← get).offset + distance) (← Scan.limit)
        need 2
        let char ← peek
        if char = '\n' || char = '\r' then skipCommentsFrom limit 1

def skipComments : Scan Unit := do
  skipCommentsFrom (← limit) 0

/-- Moves over blanks, comments and line breaks. A tab is a blank inside brackets and where no key
may start. Tells whether a key may start then: outside brackets it may on every new line. -/
def skipToTokenFrom (inFlow : Bool) : (limit : Nat) → (keyAllowed : Bool) → Scan Bool
  | 0, keyAllowed => return keyAllowed
  | limit + 1, keyAllowed => do
    need 1
    if (← get).column = 0 && (← get).marked then skip
    skipWhile fun char => char = ' ' || ((inFlow || !keyAllowed) && char = '\t')
    if (← peek) = '#' then skipComments
    if isBreak (← peek) then
      need 2
      skipBreak
      skipToTokenFrom inFlow limit (keyAllowed || !inFlow)
    else return keyAllowed

def skipToToken (inFlow keyAllowed : Bool) : Scan Bool := do
  skipToTokenFrom inFlow (← limit) keyAllowed

def finishLine : Scan Unit := do
  skipWhile isBlank
  if (← peek) = '#' then skipWhile fun char => !isBreakOrEnd char
  let char ← peek
  if isBreak char then
    need 2
    skipBreak
  else if char ≠ endMark then failure

end Scan

end TraitCheck.Document
