import TraitCheck.Ty.Traverse

/-!
# Printed types

`Ty.render` writes a type in the surface notation of the checked language. Declared types are
shown by the name that the given lookup finds for them, and by their number otherwise.
-/

namespace TraitCheck.Ty

def varName (id : VarId) : String := "'_" ++ toString id

/-- The name given to the quantified variable at a position: `'a` to `'z`, then `'a1` and so on. -/
def genericName (position : Int) : String :=
  let letter := Char.ofNat (97 + position.tmod 26).toNat
  let round := if position ≥ 26 then toString (position.tdiv 26) else ""
  "'" ++ letter.toString ++ round

/-- The printed name of a declared type. An empty name counts as none. -/
def declName (nameOf : DefId → Option String) (decl : DefId) : String :=
  if decl = .list then "List"
  else
    match nameOf decl with
    | some name => if name = "" then decl.text else name
    | none => decl.text

def commaSeparated (texts : List String) : String := ", ".intercalate texts

mutual

/-- The text of a type, given the names of declarations. -/
def render (nameOf : DefId → Option String) : Ty → String
  | .absent => "<nil>"
  | .prim kind => kind.text
  | .unknown => "_"
  | .var id => varName id
  | .param index name => if name = "" then "'p" ++ toString index else name
  | .named decl args =>
    if args.isEmpty then declName nameOf decl
    else declName nameOf decl ++ "<" ++ commaSeparated (renderList nameOf args) ++ ">"
  | .fn params result =>
    "(" ++ commaSeparated (renderList nameOf params) ++ ") -> " ++ render nameOf result
  | .tuple elems =>
    "(" ++ commaSeparated (renderList nameOf elems) ++ (if elems.length = 1 then ",)" else ")")
  | .record fields =>
    if fields.isEmpty then "#\x7b\x7d"
    else "#\x7b " ++ commaSeparated (renderRow nameOf fields) ++ " \x7d"
  | .scheme names body =>
    "forall" ++ String.join (names.map (" " ++ ·)) ++ ". " ++ render nameOf body
  | .foreign name => "<" ++ name ++ ">"

def renderList (nameOf : DefId → Option String) : List Ty → List String
  | [] => []
  | ty :: rest => render nameOf ty :: renderList nameOf rest

def renderRow (nameOf : DefId → Option String) : List (String × Ty) → List String
  | [] => []
  | (label, ty) :: rest => (label ++ ": " ++ render nameOf ty) :: renderRow nameOf rest

end

def text (ty : Ty) : String := render (fun _ => none) ty

def render? (nameOf : DefId → Option String) (ty : Ty) : Option String :=
  ty.complete?.map (render nameOf)

def text? (ty : Ty) : Option String := ty.complete?.map text

end TraitCheck.Ty
