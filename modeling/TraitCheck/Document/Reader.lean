import TraitCheck.Document.Token

/-!
# Reading tokens

A mapping without braces shows only at the colon behind its first key. So a token that may be the
start of a key is remembered, and when a colon follows on the same line and not too far away, the
tokens that mark the key, and the start of the mapping, are put in front of it. What ends a block is
the indentation of the next token.
-/

namespace TraitCheck.Document

/-- A place where a key may start. There is one for each level of brackets. -/
structure KeySlot where
  possible : Bool := false
  /-- Whether anything but a key would be wrong here. -/
  required : Bool := false
  number : Nat := 0
  offset : Nat := 0
  line : Nat := 0
  column : Nat := 0
  deriving Repr, Inhabited

structure Reader where
  cursor : Cursor
  queue : List Token := []
  taken : Nat := 0
  indent : Int := -1
  outer : List Int := []
  keyAllowed : Bool := true
  level : Nat := 0
  /-- The places where a key may start, the innermost level of brackets first. -/
  slots : List KeySlot := [{}]
  /-- For the tokens that may start a key, the latest first: the level of brackets on which they
  do. -/
  starts : List (Nat × Nat) := []
  deriving Inhabited

abbrev ReadM := StateT Reader Option

namespace Reader

def maxDepth : Nat := 10000

def maxKeyLength : Nat := 1024

def inFlow (reader : Reader) : Bool := 0 < reader.level

def nextNumber (reader : Reader) : Nat := reader.taken + reader.queue.length

def slot (reader : Reader) : KeySlot := reader.slots.headD {}

def setSlot (reader : Reader) (level : Nat) (slot : KeySlot) : Reader :=
  { reader with slots := reader.slots.set (reader.level - level) slot }

def dropStart (reader : Reader) (number : Nat) : Reader :=
  { reader with starts := reader.starts.filter fun start => start.1 ≠ number }

/-- Puts a token before the token with a number, or at the end if that one was given out already or
no number is given. -/
def insert (reader : Reader) (number : Option Nat) (token : Token) : Reader :=
  let queue := match number with
    | none => reader.queue ++ [token]
    | some number =>
      if number < reader.taken then reader.queue ++ [token]
      else
        let position := number - reader.taken
        reader.queue.take position ++ token :: reader.queue.drop position
  { reader with queue }

end Reader

namespace ReadM

def scan {α : Type} (step : Scan α) : ReadM α := fun reader =>
  (step reader.cursor).map fun (result, cursor) => (result, { reader with cursor })

def push (kind : TokenKind) (line : Nat) : ReadM Unit :=
  modify fun reader => reader.insert none ⟨kind, line⟩

def line : ReadM Nat := return (← get).cursor.line

/-- Whether a key may still start at the place of a level: its colon has to be on the same line. -/
def keyIsOpen (level : Nat) : ReadM Bool := do
  let reader ← get
  match reader.slots[reader.level - level]? with
  | none => return false
  | some slot =>
    if level ≤ reader.level && slot.possible then
      if slot.line < reader.cursor.line ||
          slot.offset + Reader.maxKeyLength < reader.cursor.offset then
        if slot.required then failure
        set (reader.setSlot level { slot with possible := false })
        return false
      else return true
    else return false

def closeKey : ReadM Unit := do
  let reader ← get
  if reader.slot.possible then
    if reader.slot.required then failure
    set ((reader.setSlot reader.level { reader.slot with possible := false }).dropStart
      reader.slot.number)

def openKey : ReadM Unit := do
  let reader ← get
  if reader.keyAllowed then
    let cursor := reader.cursor
    let slot : KeySlot :=
      { possible := true
        required := !reader.inFlow && reader.indent = cursor.column
        number := reader.nextNumber
        offset := cursor.offset
        line := cursor.line
        column := cursor.column }
    closeKey
    modify fun reader =>
      { reader.setSlot reader.level slot with
        starts := (slot.number, reader.level) :: reader.starts }

/-- Opens a block whose column is further right than that of the block at hand, with a token before
the one with a number. -/
def openBlock (column : Nat) (number : Option Nat) (kind : TokenKind) (line : Nat) :
    ReadM Unit := do
  let reader ← get
  if !reader.inFlow && reader.indent < column then
    let outer := reader.indent :: reader.outer
    if Reader.maxDepth < outer.length then failure
    set ({ reader with indent := column, outer }.insert number ⟨kind, line⟩)

def closeBlocks (column : Int) : (limit : Nat) → ReadM Unit
  | 0 => pure ()
  | limit + 1 => do
    let reader ← get
    match reader.outer with
    | [] => pure ()
    | indent :: outer =>
      if !reader.inFlow && column < reader.indent then
        set ({ reader with indent, outer }.insert none ⟨.blockEnd, reader.cursor.line⟩)
        closeBlocks column limit

def closeBlocksTo (column : Int) : ReadM Unit := do
  closeBlocks column ((← get).outer.length + 1)

def allowKey (keyAllowed : Bool) : ReadM Unit := modify fun reader => { reader with keyAllowed }

/-- Leaves everything that was open, before a mark between documents. -/
def closeAll : ReadM Unit := do
  closeBlocksTo (-1)
  closeKey
  allowKey false

def indicator (kind : TokenKind) (width : Nat) : ReadM Unit := do
  let line ← line
  scan (Scan.skipMany width)
  push kind line

def fetchEnd : ReadM Unit := do
  modify fun reader =>
    let cursor := reader.cursor
    if cursor.column = 0 then reader
    else { reader with cursor := { cursor with column := 0, line := cursor.line + 1 } }
  closeAll
  push .streamEnd (← line)

def fetchDirective : ReadM Unit := do
  closeAll
  let line ← line
  push (← scan Scan.directiveToken) line

def fetchMark (kind : TokenKind) : ReadM Unit := do
  closeAll
  indicator kind 3

def fetchOpening (kind : TokenKind) : ReadM Unit := do
  openKey
  let reader ← get
  let cursor := reader.cursor
  let slot : KeySlot :=
    { number := reader.nextNumber, offset := cursor.offset, line := cursor.line,
      column := cursor.column }
  set { reader with slots := slot :: reader.slots, level := reader.level + 1 }
  if Reader.maxDepth < (← get).level then failure
  allowKey true
  indicator kind 1

def fetchClosing (kind : TokenKind) : ReadM Unit := do
  closeKey
  modify fun reader =>
    if reader.inFlow then
      { reader.dropStart reader.slot.number with
        slots := reader.slots.tail
        level := reader.level - 1 }
    else reader
  allowKey false
  indicator kind 1

def fetchComma : ReadM Unit := do
  closeKey
  allowKey true
  indicator .flowEntry 1

def fetchDash : ReadM Unit := do
  let reader ← get
  if !reader.inFlow then
    if !reader.keyAllowed then failure
    openBlock reader.cursor.column none .blockSequenceStart reader.cursor.line
  closeKey
  allowKey true
  indicator .blockEntry 1

def fetchQuestion : ReadM Unit := do
  let reader ← get
  if !reader.inFlow then
    if !reader.keyAllowed then failure
    openBlock reader.cursor.column none .blockMappingStart reader.cursor.line
  closeKey
  allowKey (!reader.inFlow)
  indicator .key 1

/-- Reads the colon of a value. If it ends a key that was remembered, the key is marked. -/
def fetchColon : ReadM Unit := do
  if ← keyIsOpen (← get).level then
    let slot := (← get).slot
    modify fun reader => reader.insert (some slot.number) ⟨.key, slot.line⟩
    openBlock slot.column (some slot.number) .blockMappingStart slot.line
    modify fun reader =>
      (reader.setSlot reader.level { slot with possible := false }).dropStart slot.number
    allowKey false
  else
    let reader ← get
    if !reader.inFlow then
      if !reader.keyAllowed then failure
      openBlock reader.cursor.column none .blockMappingStart reader.cursor.line
    allowKey (!reader.inFlow)
  indicator .value 1

def fetchContent (content : Scan TokenKind) : ReadM Unit := do
  openKey
  allowKey false
  let line ← line
  push (← scan content) line

/-- Reads a plain scalar. A key may start behind it if it ends with its line. -/
def fetchPlain : ReadM Unit := do
  openKey
  allowKey false
  let reader ← get
  let (text, broken) ← scan (Scan.plainScalar reader.inFlow (reader.indent + 1))
  if broken then allowKey true
  push (.scalar text .plain) reader.cursor.line

def fetchBlockScalar (literal : Bool) : ReadM Unit := do
  closeKey
  allowKey true
  let reader ← get
  let text ← scan (Scan.blockScalar literal reader.indent)
  push (.scalar text .block) reader.cursor.line

def isIndicator (char : Char) : Bool := "-?:,[]\x7b\x7d#&*!|>'\"%@`".toList.contains char

def fetchWord (char next : Char) : ReadM Unit := do
  let inFlow := (← get).inFlow
  let blankNext := isGap next
  match char with
  | '[' => fetchOpening .flowSequenceStart
  | '\x7b' => fetchOpening .flowMappingStart
  | ']' => fetchClosing .flowSequenceEnd
  | '\x7d' => fetchClosing .flowMappingEnd
  | ',' => fetchComma
  | '*' => fetchContent do return .alias (← Scan.anchorName)
  | '&' => fetchContent do return .anchor (← Scan.anchorName)
  | '!' => fetchContent Scan.tagToken
  | '\'' | '"' => fetchContent do return .scalar (← Scan.quotedScalar char) .quoted
  | _ =>
    if char = '-' && blankNext then fetchDash
    else if char = '?' && (inFlow || blankNext) then fetchQuestion
    else if char = ':' && (inFlow || blankNext) then fetchColon
    else if (char = '|' || char = '>') && !inFlow then fetchBlockScalar (char = '|')
    else if !(isGap char || isIndicator char) || (char = '-' && !isBlank next) ||
        (!inFlow && (char = '?' || char = ':') && !blankNext) then fetchPlain
    else failure

def endsWithDash : ReadM Bool :=
  return (← get).queue.getLast?.any fun token => token.kind = .blockEntry

def fetch : ReadM Unit := do
  scan (Scan.need 1)
  let reader ← get
  allowKey (← scan (Scan.skipToToken reader.inFlow reader.keyAllowed))
  closeBlocksTo (← get).cursor.column
  scan (Scan.need 4)
  let cursor := (← get).cursor
  let char := cursor.charAt 0
  if char = endMark then fetchEnd
  else if cursor.column = 0 && char = '%' then fetchDirective
  else if ← scan Scan.atMark then
    fetchMark (if char = '-' then .documentStart else .documentEnd)
  else
    fetchWord char (cursor.charAt 1)
    unless ← endsWithDash do scan Scan.skipLineComment

def wantsMore : ReadM Bool := do
  let reader ← get
  if reader.queue.length ≤ 2 then return true
  else
    match reader.starts.lookup reader.taken with
    | none => return false
    | some level => keyIsOpen level

def fill : (limit : Nat) → ReadM Unit
  | 0 => pure ()
  | limit + 1 => do
    if ← wantsMore then
      fetch
      fill limit

def peek : ReadM Token := do
  fill (← get).cursor.limit
  match (← get).queue with
  | token :: _ => return token
  | [] => failure

/-- Gives out the next token. It can start no key any more. -/
def advance : ReadM Unit :=
  modify fun reader =>
    { reader with
      queue := reader.queue.tail
      taken := reader.taken + 1
      starts := reader.starts.takeWhile fun start => reader.taken < start.1 }

end ReadM

end TraitCheck.Document
