import TraitCheck.Document.Reader
import TraitCheck.Document.Value

/-!
# The nodes of a document

A document is a tree of scalars, lists and mappings. A node may be given a name, its anchor, and an
alias stands for the node that had the name last. Anchored nodes are kept beside the tree under a
number, since a node may hold an alias of itself.

Only the first document of a text is read. What follows it is looked at only as far as the tokens go
that had to be read to find its end.
-/

namespace TraitCheck.Document

/-- A node with its tag and the line where it starts, counted from one. -/
inductive Node where
  | scalar (text tag : String) (line : Nat)
  | sequence (items : List Node) (tag : String) (line : Nat)
  | mapping (entries : List (Node × Node)) (tag : String) (line : Nat)
  /-- Another name for the node with the given number. Aliases are numbered, too. -/
  | alias (name : String) (anchor : Nat) (number : Nat) (line : Nat)
  deriving Repr, Inhabited

structure Builder where
  reader : Reader
  /-- What the handles of tags stand for. -/
  handles : List (String × String) := []
  /-- The numbers of the anchors, the latest first. -/
  anchors : List (String × Nat) := []
  anchorCount : Nat := 0
  aliasCount : Nat := 0
  anchored : List (Nat × Node) := []
  deriving Inhabited

abbrev BuildM := StateT Builder Option

structure Properties where
  anchor : Option Nat := none
  /-- The tag as written; the mark alone is none. -/
  tag : Option String := none
  written : Bool := false
  line : Nat
  deriving Repr

def shortTag (tag : String) : String :=
  let stem := "tag:yaml.org,2002:"
  if tag.startsWith stem then "!!" ++ (tag.drop stem.length).toString else tag

namespace BuildM

def peek : BuildM Token := fun builder =>
  (ReadM.peek builder.reader).map fun (token, reader) => (token, { builder with reader })

def advance : BuildM Unit := fun builder =>
  (ReadM.advance builder.reader).map fun (_, reader) => ((), { builder with reader })

def advanceAndPeek : BuildM Token := do
  advance
  peek

def newAnchor (name : String) : BuildM Nat :=
  modifyGet fun builder =>
    (builder.anchorCount,
      { builder with
        anchors := (name, builder.anchorCount) :: builder.anchors
        anchorCount := builder.anchorCount + 1 })

def keep (properties : Properties) (node : Node) : BuildM Node := do
  match properties.anchor with
  | none => pure ()
  | some number =>
    modify fun builder => { builder with anchored := (number, node) :: builder.anchored }
  return node

def aliasOf (name : String) (line : Nat) : BuildM Node := do
  let builder ← get
  match builder.anchors.lookup name with
  | none => failure
  | some anchor =>
    set { builder with aliasCount := builder.aliasCount + 1 }
    return .alias name anchor builder.aliasCount (line + 1)

def tagOf (handle suffix : String) : BuildM String := do
  if handle = "" then return suffix
  else
    match (← get).handles.lookup handle with
    | some stem => return stem ++ suffix
    | none => failure

def readProperties : BuildM Properties := do
  let token ← peek
  let start : Properties := { line := token.line }
  match token.kind with
  | .anchor name =>
    let next ← advanceAndPeek
    match next.kind with
    | .tag handle suffix =>
      let _ ← advanceAndPeek
      finish { start with written := true } (some name) (some (handle, suffix))
    | _ => finish { start with written := true } (some name) none
  | .tag handle suffix =>
    let next ← advanceAndPeek
    match next.kind with
    | .anchor name =>
      let _ ← advanceAndPeek
      finish { start with written := true } (some name) (some (handle, suffix))
    | _ => finish { start with written := true } none (some (handle, suffix))
  | _ => return start
where
  finish (start : Properties) (anchor : Option String) (tag : Option (String × String)) :
      BuildM Properties := do
    let tag ← match tag with
      | none => pure none
      | some (handle, suffix) => do
        let tag ← tagOf handle suffix
        pure (if tag = "!" then none else some (shortTag tag))
    let anchor ← match anchor with
      | none => pure none
      | some name => do pure (some (← newAnchor name))
    return { start with anchor, tag }

/-- The tag of a scalar: the one written, or else the one that its text suggests. -/
def scalarTag (written : Option String) (text : String) (style : ScalarStyle) : String :=
  written.getD <|
    if style ≠ .plain then textTag
    else if text = "<<" then mergeTag
    else (Value.ofText true text).tag

def emptyScalar (line : Nat) : Node := .scalar "" (Value.null).tag (line + 1)

mutual

/-- Reads a node. Where `block` holds it may be written by indentation, and where `indentless` holds
the items of a list may stand in the column of its parent. -/
def readNode : (limit : Nat) → (block indentless : Bool) → BuildM Node
  | 0, _, _ => failure
  | limit + 1, block, indentless => do
    let token ← peek
    match token.kind with
    | .alias name =>
      advance
      aliasOf name token.line
    | _ =>
      let properties ← readProperties
      let token ← peek
      let line := properties.line + 1
      let sequence (items : List Node) : BuildM Node :=
        keep properties (.sequence items (properties.tag.getD sequenceTag) line)
      let mapping (entries : List (Node × Node)) : BuildM Node :=
        keep properties (.mapping entries (properties.tag.getD mappingTag) line)
      match token.kind, block, indentless with
      | .blockEntry, _, true => sequence (← readIndentless limit [])
      | .scalar text style, _, _ =>
        advance
        keep properties (.scalar text (scalarTag properties.tag text style) line)
      | .flowSequenceStart, _, _ =>
        advance
        sequence (← readFlowItems limit true [])
      | .flowMappingStart, _, _ =>
        advance
        mapping (← readFlowEntries limit true [])
      | .blockSequenceStart, true, _ =>
        advance
        sequence (← readBlockItems limit [])
      | .blockMappingStart, true, _ =>
        advance
        mapping (← readBlockEntries limit [])
      | _, _, _ =>
        if properties.written then
          keep properties (.scalar "" (scalarTag properties.tag "" .plain) line)
        else failure

def readBlockItems : (limit : Nat) → (items : List Node) → BuildM (List Node)
  | 0, _ => failure
  | limit + 1, items => do
    let token ← peek
    match token.kind with
    | .blockEntry =>
      let next ← advanceAndPeek
      let item ← match next.kind with
        | .blockEntry | .blockEnd => pure (emptyScalar token.line)
        | _ => readNode limit true false
      readBlockItems limit (item :: items)
    | .blockEnd =>
      advance
      return items.reverse
    | _ => failure

def readIndentless : (limit : Nat) → (items : List Node) → BuildM (List Node)
  | 0, _ => failure
  | limit + 1, items => do
    let token ← peek
    match token.kind with
    | .blockEntry =>
      let next ← advanceAndPeek
      let item ← match next.kind with
        | .blockEntry | .key | .value | .blockEnd => pure (emptyScalar token.line)
        | _ => readNode limit true false
      readIndentless limit (item :: items)
    | _ => return items.reverse

def readBlockEntries :
    (limit : Nat) → (entries : List (Node × Node)) → BuildM (List (Node × Node))
  | 0, _ => failure
  | limit + 1, entries => do
    let token ← peek
    match token.kind with
    | .key =>
      let next ← advanceAndPeek
      let key ← match next.kind with
        | .key | .value | .blockEnd => pure (emptyScalar token.line)
        | _ => readNode limit true true
      let value ← readBlockValue limit
      readBlockEntries limit ((key, value) :: entries)
    | .blockEnd =>
      advance
      return entries.reverse
    | _ => failure

def readBlockValue : (limit : Nat) → BuildM Node
  | 0 => failure
  | limit + 1 => do
    let token ← peek
    match token.kind with
    | .value =>
      let next ← advanceAndPeek
      match next.kind with
      | .key | .value | .blockEnd => return emptyScalar token.line
      | _ => readNode limit true true
    | _ => return emptyScalar token.line

/-- Reads the items of a list in brackets. An item that is a key with a value is a mapping of its
own. -/
def readFlowItems : (limit : Nat) → (first : Bool) → (items : List Node) → BuildM (List Node)
  | 0, _, _ => failure
  | limit + 1, first, items => do
    let token ← peek
    if token.kind = .flowSequenceEnd then
      advance
      return items.reverse
    let token ←
      if first then pure token
      else if token.kind = .flowEntry then advanceAndPeek
      else failure
    match token.kind with
    | .flowSequenceEnd =>
      advance
      return items.reverse
    | .key =>
      advance
      let (key, value) ← readFlowPair limit
      readFlowItems limit false (.mapping [(key, value)] mappingTag (token.line + 1) :: items)
    | _ =>
      let item ← readNode limit false false
      readFlowItems limit false (item :: items)

def readFlowPair : (limit : Nat) → BuildM (Node × Node)
  | 0 => failure
  | limit + 1 => do
    let token ← peek
    let key ← match token.kind with
      | .value | .flowEntry | .flowSequenceEnd => do
        advance
        pure (emptyScalar token.line)
      | _ => readNode limit false false
    let token ← peek
    match token.kind with
    | .value =>
      let next ← advanceAndPeek
      match next.kind with
      | .flowEntry | .flowSequenceEnd => return (key, emptyScalar token.line)
      | _ =>
        let value ← readNode limit false false
        let _ ← peek
        return (key, value)
    | _ => return (key, emptyScalar token.line)

def readFlowEntries :
    (limit : Nat) → (first : Bool) → (entries : List (Node × Node)) → BuildM (List (Node × Node))
  | 0, _, _ => failure
  | limit + 1, first, entries => do
    let token ← peek
    if token.kind = .flowMappingEnd then
      advance
      return entries.reverse
    let token ←
      if first then pure token
      else if token.kind = .flowEntry then advanceAndPeek
      else failure
    match token.kind with
    | .flowMappingEnd =>
      advance
      return entries.reverse
    | .key =>
      let next ← advanceAndPeek
      let key ← match next.kind with
        | .value | .flowEntry | .flowMappingEnd => pure (emptyScalar next.line)
        | _ => readNode limit false false
      let value ← readFlowValue limit
      readFlowEntries limit false ((key, value) :: entries)
    | _ =>
      let key ← readNode limit false false
      let after ← peek
      readFlowEntries limit false ((key, emptyScalar after.line) :: entries)

def readFlowValue : (limit : Nat) → BuildM Node
  | 0 => failure
  | limit + 1 => do
    let token ← peek
    match token.kind with
    | .value =>
      let next ← advanceAndPeek
      match next.kind with
      | .flowEntry | .flowMappingEnd => return emptyScalar next.line
      | _ => readNode limit false false
    | _ => return emptyScalar token.line

end

def addHandle (handle stem : String) : BuildM Unit := do
  let builder ← get
  if (builder.handles.lookup handle).isSome then failure
  set { builder with handles := builder.handles ++ [(handle, stem)] }

def addDefaultHandles : BuildM Unit :=
  modify fun builder =>
    { builder with handles := builder.handles ++ [("!", "!"), ("!!", "tag:yaml.org,2002:")] }

def readDirectives : (limit : Nat) → (versioned : Bool) → BuildM Unit
  | 0, _ => failure
  | limit + 1, versioned => do
    match (← peek).kind with
    | .version major minor =>
      if versioned || major ≠ 1 || minor ≠ 1 then failure
      advance
      readDirectives limit true
    | .tagHandle handle stem =>
      addHandle handle stem
      advance
      readDirectives limit versioned
    | _ => pure ()

def readContent (limit : Nat) : BuildM Node := do
  let token ← peek
  match token.kind with
  | .version _ _ | .tagHandle _ _ | .documentStart | .documentEnd | .streamEnd =>
    return emptyScalar token.line
  | _ => readNode limit true false

def readDocument (limit : Nat) : BuildM (Option Node) := do
  match (← peek).kind with
  | .streamEnd => return none
  | .version _ _ | .tagHandle _ _ | .documentStart =>
    readDirectives limit false
    addDefaultHandles
    if (← peek).kind ≠ .documentStart then failure
    advance
    let node ← readContent limit
    let _ ← peek
    return some node
  | _ =>
    addDefaultHandles
    let node ← readNode limit true false
    let _ ← peek
    return some node

end BuildM

structure Tree where
  root : Node
  anchored : List (Nat × Node)
  deriving Repr, Inhabited

def Tree.target? (tree : Tree) (anchor : Nat) : Option Node := tree.anchored.lookup anchor

/-- Reads the first document of a text. There are texts without any, and there are texts that are
no documents. -/
def read? (bytes : Bytes) : Option (Option Tree) := do
  let cursor ← Cursor.start? bytes
  let (root, builder) ← BuildM.readDocument cursor.limit { reader := { cursor } }
  some (root.map fun root => ⟨root, builder.anchored⟩)

end TraitCheck.Document
