/-!
# Types

The types of the checked language. Besides the usual type formers there are unification variables
(`var`), references to generic parameters (`param`), polymorphic schemes (`scheme`) and the
placeholder `unknown` for a type that is still to be inferred.

Syntax trees may be incomplete, so a type can be `absent` at any position. Giving absence a
constructor of its own keeps every traversal a single recursion over `Ty`. A type former that the
checker does not know is kept as `foreign` with its name only.
-/

namespace TraitCheck

/-- Identifies a declaration of a module. Negative numbers are reserved for built-in types. -/
structure DefId where
  number : Int
  deriving DecidableEq, Repr, Inhabited

/-- Identifies one binding occurrence: a parameter, a `let` name or a pattern variable. -/
structure LocalId where
  number : Int
  deriving DecidableEq, Repr, Inhabited

abbrev VarId := Int

def DefId.list : DefId := ⟨-1⟩

def DefId.text (id : DefId) : String :=
  if id = .list then "List" else "#" ++ toString id.number

def LocalId.text (id : LocalId) : String := "%" ++ toString id.number

/-- The primitive types. Codes past the six known ones stand for primitives without meaning. -/
inductive Prim where
  | int
  | float
  | bool
  | char
  | string
  | unit
  | reserved (offset : Nat)
  deriving DecidableEq, Repr

namespace Prim

def ofCode : Nat → Prim
  | 0 => .int
  | 1 => .float
  | 2 => .bool
  | 3 => .char
  | 4 => .string
  | 5 => .unit
  | offset + 6 => .reserved offset

def code : Prim → Nat
  | .int => 0
  | .float => 1
  | .bool => 2
  | .char => 3
  | .string => 4
  | .unit => 5
  | .reserved offset => offset + 6

def text : Prim → String
  | .int => "Int"
  | .float => "Float"
  | .bool => "Bool"
  | .char => "Char"
  | .string => "String"
  | .unit => "Unit"
  | .reserved _ => "Prim?"

def isNumeric : Prim → Bool
  | .int | .float => true
  | _ => false

@[simp]
theorem ofCode_code (prim : Prim) : ofCode prim.code = prim := by
  cases prim <;> rfl

@[simp]
theorem code_ofCode (code : Nat) : (ofCode code).code = code := by
  unfold ofCode
  split <;> rfl

end Prim

/-- Types. -/
inductive Ty where
  /-- No type was written here. -/
  | absent
  | prim (kind : Prim)
  | var (id : VarId)
  /-- A generic parameter of the enclosing signature or scheme; index `-1` is `Self`. -/
  | param (index : Int) (name : String)
  | named (decl : DefId) (args : List Ty)
  | fn (params : List Ty) (result : Ty)
  | tuple (elems : List Ty)
  /-- A record; its labels ascend strictly. -/
  | record (fields : List (String × Ty))
  /-- A type quantified over as many parameters as there are names. -/
  | scheme (names : List String) (body : Ty)
  | unknown
  | foreign (name : String)
  deriving Repr, Inhabited

namespace Ty

abbrev int : Ty := .prim .int

abbrev float : Ty := .prim .float

abbrev bool : Ty := .prim .bool

abbrev char : Ty := .prim .char

abbrev string : Ty := .prim .string

abbrev unit : Ty := .prim .unit

/-- The implementing type within the signatures of a trait. -/
def self : Ty := .param (-1) "Self"

def list (elem : Ty) : Ty := .named .list [elem]

def listElem? : Ty → Option Ty
  | .named decl [elem] => if decl = .list then some elem else none
  | _ => none

/-- The name of a type's outermost former. An absent type has none. -/
def formerName : Ty → String
  | .absent => ""
  | .prim _ => "Prim"
  | .var _ => "Var"
  | .param _ _ => "Param"
  | .named _ _ => "Named"
  | .fn _ _ => "Fn"
  | .tuple _ => "Tuple"
  | .record _ => "Record"
  | .scheme _ _ => "Forall"
  | .unknown => "Unknown"
  | .foreign name => name

def isAbsent : Ty → Bool
  | .absent => true
  | _ => false

/-- Whether a type is quantified. -/
def isScheme : Ty → Bool
  | .scheme _ _ => true
  | _ => false

end Ty

end TraitCheck
