import TraitCheck.Document.Node
import TraitCheck.Text.Quoted

/-!
# Problems with settings documents

What can be wrong with the nodes of a document that is well formed: keys that are no settings, keys
that repeat, and values of the wrong kind. Every problem names the line of its node.
-/

namespace TraitCheck.Document

inductive Target where
  | settings
  | flag
  | number
  | color
  | key
  deriving DecidableEq, Repr

def Target.text : Target → String
  | .settings => "polycheck.Config"
  | .flag => "bool"
  | .number => "int"
  | .color => "diag.ColorMode"
  | .key => "string"

inductive Problem where
  | unknownField (line : Nat) (name : String)
  | repeatedField (line : Nat) (name : String)
  | wrongKind (line : Nat) (tag text : String) (target : Target)
  | repeatedKey (line : Nat) (key : String) (firstLine : Nat)
  deriving DecidableEq, Repr

def shortened (text : String) : String :=
  if 10 < text.utf8ByteSize then Utf8.text ((Utf8.encode text).take 7) ++ "..." else text

/-- What a message says about a node: its tag and, unless that is the tag of a list or a mapping,
its text in quotes. -/
def described (tag text : String) : String :=
  if tag = sequenceTag ∨ tag = mappingTag then tag ++ text
  else tag ++ " `" ++ shortened text ++ "`"

def Problem.message : Problem → String
  | .unknownField line name =>
    "line " ++ toString line ++ ": field " ++ name ++ " not found in type " ++ Target.settings.text
  | .repeatedField line name =>
    "line " ++ toString line ++ ": field " ++ name ++ " already set in type " ++
      Target.settings.text
  | .wrongKind line tag text target =>
    "line " ++ toString line ++ ": cannot unmarshal " ++ described tag text ++
      " into " ++ target.text
  | .repeatedKey line key firstLine =>
    "line " ++ toString line ++ ": mapping key " ++ Text.quoted key ++
      " already defined at line " ++ toString firstLine

/-- The kind, the text and the line that tell whether a key repeats another. -/
def Node.identity : Node → Nat × String × Nat
  | .scalar text _ line => (0, text, line)
  | .sequence _ _ line => (1, "", line)
  | .mapping _ _ line => (2, "", line)
  | .alias name _ _ line => (3, name, line)

def repeatedKeys : List Node → List Problem
  | [] => []
  | key :: rest =>
    let (kind, text, firstLine) := key.identity
    let here := rest.filterMap fun later =>
      let (kind', text', line) := later.identity
      if kind = kind' ∧ text = text' then some (.repeatedKey line text firstLine) else none
    here ++ repeatedKeys rest

def mismatched (node : Node) (target : Target) : List Problem :=
  match node with
  | .scalar text tag line => [.wrongKind line tag text target]
  | .sequence _ tag line => [.wrongKind line tag "" target]
  | .mapping entries tag line =>
    match repeatedKeys (entries.map Prod.fst) with
    | [] => [.wrongKind line tag "" target]
    | problems => problems
  | .alias _ _ _ _ => []

end TraitCheck.Document
