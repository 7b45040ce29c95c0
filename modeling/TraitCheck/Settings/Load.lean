import TraitCheck.Settings.Basic
import TraitCheck.Settings.Problem

/-!
# Settings from the nodes of a document

A settings document is a mapping from the names of settings to their values. Every key that is no
setting and every value of the wrong kind is a problem, and reading goes on; keys that repeat are
reported before anything else is looked at. `Load` keeps the settings and the problems, and it
counts the nodes, because a document that consists of repetitions is given up.
-/

namespace TraitCheck.Document

inductive Obstacle where
  /-- A node stands for nothing, or the document repeats itself. -/
  | malformed
  /-- A list or a mapping would have to be compared with the keys that are set already. -/
  | incomparable
  deriving DecidableEq, Repr

structure Progress where
  settings : Settings := {}
  problems : List Problem := []
  /-- While mappings are merged: the keys that are set already. -/
  merged : Option (List String) := none
  visits : Nat := 0
  /-- How many of them were read behind an alias. -/
  repeats : Nat := 0
  deriving Inhabited

/-- Whether almost everything was read behind aliases. Of 400000 nodes 99 in 100 may be, and the
share falls to one tenth for ten times as many. -/
def Progress.isRepetitive (progress : Progress) : Bool :=
  let excess := min (progress.visits - 400000) 3600000
  100 < progress.repeats && 1000 < progress.visits &&
    progress.visits * (99 * 3600000 - 89 * excess) < progress.repeats * 360000000

abbrev Load := StateT Progress (Except Obstacle)

namespace Load

def report (problems : List Problem) : Load Unit :=
  modify fun progress => { progress with problems := progress.problems ++ problems }

def visit (behind : List Nat) : Load Unit := do
  modify fun progress =>
    { progress with
      visits := progress.visits + 1
      repeats := if behind.isEmpty then progress.repeats else progress.repeats + 1 }
  if (← get).isRepetitive then throw .malformed

/-- Turns to a node, or to the one that it is an alias of, with the aliases that lead there. No node
may be reached through itself. -/
def follow (tree : Tree) (behind : List Nat) (node : Node) : Load (Node × List Nat) := do
  visit behind
  match node with
  | .alias _ anchor number _ =>
    if behind.contains number then throw .malformed
    match tree.target? anchor with
    | none => throw .malformed
    | some target =>
      visit (number :: behind)
      return (target, number :: behind)
  | node => return (node, behind)

def valueOf (text tag : String) : Load Value :=
  match Value.ofTagged? tag text with
  | some value => return value
  | none => throw .malformed

/-- Reads a scalar by its text and what it stands for. There is nothing to read if it stands for
nothing or cannot be read as the target. -/
def scalar {α : Type} (tree : Tree) (behind : List Nat) (target : Target)
    (read? : String → Value → Option α) (node : Node) : Load (Option α) := do
  let (node, _) ← follow tree behind node
  match node with
  | .scalar text tag _ =>
    match ← valueOf text tag with
    | .null => return none
    | value =>
      match read? text value with
      | some found => return some found
      | none =>
        report (mismatched node target)
        return none
  | node =>
    report (mismatched node target)
    return none

end Load

def flagOfWord? (word : String) : Option Bool :=
  if ["y", "Y", "yes", "on"].contains word then some true
  else if ["n", "N", "no", "off"].contains word then some false
  else none

def flag? : Value → Option Bool
  | .bool value => some value
  | .text word => flagOfWord? word
  | .binary bytes => flagOfWord? (Utf8.text bytes)
  | _ => none

def wholePart? (value : Float) : Option Int :=
  if value ≤ 9223372036854775808.0 then
    if value = 9223372036854775808.0 then some (-(Int.pow 2 63)) else some value.toInt64.toInt
  else none

def number? : Value → Option Int
  | .int value => if value < Int.pow 2 63 then some value else none
  | .float value => wholePart? value
  | _ => none

/-- The bytes of a scalar. All but those in base 64 are read as they are written. -/
def bytesOf (text : String) : Value → Bytes
  | .binary bytes => bytes
  | _ => Utf8.encode text

def Node.isMerge : Node → Bool
  | .scalar text tag _ => text = "<<" && tag = mergeTag
  | _ => false

def Node.mergeSources : Node → List Node
  | .sequence items _ _ => items
  | node => [node]

/-- Whether all scalars that belong to a node stand for something. The entries of a mapping with
repeated keys do not belong to it. -/
def Tree.isReadable (tree : Tree) : (limit : Nat) → (behind : List Nat) → Node → Bool
  | 0, _, _ => false
  | _ + 1, _, .scalar text tag _ => (Value.ofTagged? tag text).isSome
  | limit + 1, behind, .sequence items _ _ => items.all fun item =>
    tree.isReadable limit behind item
  | limit + 1, behind, .mapping entries _ _ =>
    !(repeatedKeys (entries.map Prod.fst)).isEmpty ||
      entries.all fun (key, value) =>
        tree.isReadable limit behind key && tree.isReadable limit behind value
  | limit + 1, behind, .alias _ anchor number _ =>
    !behind.contains number &&
      (tree.target? anchor).any fun target => tree.isReadable limit (number :: behind) target

mutual

def Node.size : Node → Nat
  | .scalar _ _ _ | .alias _ _ _ _ => 1
  | .sequence items _ _ => Node.sizeList items + 1
  | .mapping entries _ _ => Node.sizeEntries entries + 1

def Node.sizeList : List Node → Nat
  | [] => 0
  | node :: rest => node.size + Node.sizeList rest

def Node.sizeEntries : List (Node × Node) → Nat
  | [] => 0
  | (key, value) :: rest => key.size + value.size + Node.sizeEntries rest

end

/-- How deep the nodes of a document can nest: along a path each alias is followed at most once. -/
def Tree.limit (tree : Tree) : Nat :=
  Nat.pow (tree.anchored.foldr (fun node total => node.2.size + total) tree.root.size + 1) 2

namespace Load

def assign {α : Type} (read : Load (Option α)) (set : Settings → α → Settings) : Load Unit := do
  match ← read with
  | some value => modify fun progress => { progress with settings := set progress.settings value }
  | none => pure ()

def field? (tree : Tree) (behind : List Nat) (name : String) (value : Node) : Option (Load Unit) :=
  let flag := scalar tree behind .flag (fun _ => flag?) value
  let number := scalar tree behind .number (fun _ => number?) value
  match name with
  | "warn_unused" => some (assign flag fun settings warnUnused => { settings with warnUnused })
  | "max_errors" => some (assign number fun settings maxErrors => { settings with maxErrors })
  | "trace" => some (assign flag fun settings trace => { settings with trace })
  | "color" =>
    some (assign (scalar tree behind .color (fun text value => some (bytesOf text value)) value)
      fun settings name => { settings with color := .ofBytes name })
  | "tab_width" => some (assign number fun settings tabWidth => { settings with tabWidth })
  | _ => none

/-- Whether a key is set already while mappings are merged. From then on it is. -/
def isTaken (name : String) : Load Bool :=
  modifyGet fun progress =>
    match progress.merged with
    | none => (false, progress)
    | some merged =>
      if merged.contains name then (true, progress)
      else (false, { progress with merged := some (name :: merged) })

/-- Reads an entry of a mapping, given the settings that the mapping has named before, and gives
them with the one that the entry names. -/
def entry (tree : Tree) (behind : List Nat) (done : List String) (key value : Node) :
    Load (List String) := do
  let line := key.identity.2.2
  match ← scalar tree behind .key (fun text value => some (Utf8.text (bytesOf text value))) key with
  | none => return done
  | some name =>
    if ← isTaken name then return done
    match field? tree behind name value with
    | none =>
      report [.unknownField line name]
      return done
    | some read =>
      if done.contains name then
        report [.repeatedField line name]
        return done
      read
      return name :: done

/-- The texts among the keys of a mapping. Keys that are lists or mappings cannot be compared. -/
def keyTexts (tree : Tree) (behind : List Nat) : List Node → Load (List String)
  | [] => return []
  | key :: rest => do
    let (node, behindKey) ← follow tree behind key
    let here ← match node with
      | .scalar text tag _ => do
        match ← valueOf text tag with
        | .text text => pure [text]
        | .binary bytes => pure [Utf8.text bytes]
        | _ => pure []
      | node => do
        let repeated := match node with
          | .mapping entries _ _ => repeatedKeys (entries.map Prod.fst)
          | _ => []
        if repeated.isEmpty then
          throw (if tree.isReadable tree.limit behindKey node then .incomparable else .malformed)
        report repeated
        pure []
    return here ++ (← keyTexts tree behind rest)

/-- Reads other mappings of which only the keys count that are not set yet. -/
def merging (tree : Tree) (behind : List Nat) (keys : List Node) (read : Load Unit) :
    Load Unit := do
  match (← get).merged with
  | some _ => read
  | none =>
    let merged ← keyTexts tree behind keys
    modify fun progress => { progress with merged := some merged }
    read
    modify fun progress => { progress with merged := none }

/-- Reads settings from the entries of a mapping. The mappings that the merge key names come last,
and nothing but mappings can be merged. -/
def mapping (tree : Tree) : (limit : Nat) → (behind : List Nat) → List (Node × Node) → Load Unit
  | 0, _, _ => throw .malformed
  | limit + 1, behind, entries => do
    match repeatedKeys (entries.map Prod.fst) with
    | [] =>
      let (merges, others) := entries.partition fun entry => entry.1.isMerge
      let _ ← others.foldlM (fun done (key, value) => entry tree behind done key value) []
      match merges.getLast? with
      | none => pure ()
      | some (_, source) =>
        merging tree behind (entries.map Prod.fst) <|
          source.mergeSources.forM fun source => do
            let (target, behind) ← follow tree behind source
            match target with
            | .mapping entries _ _ => mapping tree limit behind entries
            | _ => throw .malformed
    | problems => report problems

def root (tree : Tree) : Load Unit := do
  visit []
  match tree.root with
  | .mapping entries _ _ =>
    visit []
    mapping tree tree.limit [] entries
  | node =>
    let _ ← scalar tree [] .settings (fun _ _ => (none : Option Unit)) node

end Load

def Progress.ofTree (tree : Tree) : Except Obstacle Progress :=
  (Load.root tree).run {} |>.map Prod.snd

end TraitCheck.Document
