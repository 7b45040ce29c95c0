import TraitCheck.Checker.Coverage
import TraitCheck.Proofs.Schemes

/-!
# Values and the patterns that match them

Values are built from truth values, the unit, scalars, tuples, lists, records and variants of enums.
`Inhabits` says which values a type has, given the declared structs and enums and types for the
unsolved variables. Of types about which nothing is known, such as the type of a function, all
values are.
-/

namespace TraitCheck

/-- Values over a type of scalars. -/
inductive Value (Scalar : Type) where
  | bool (value : Bool)
  | unit
  | scalar (value : Scalar)
  | tuple (elems : List (Value Scalar))
  | list (elems : List (Value Scalar))
  /-- A record or a struct. -/
  | record (fields : List (String × Value Scalar))
  | variant (decl : DefId) (name : String) (args : List (Value Scalar))
  deriving Inhabited

/-- What literals stand for. -/
structure Reading (Scalar : Type) where
  bool : String → Bool
  scalar : LiteralKind → String → Scalar
  bool_true : bool "true" = true
  bool_false : bool "false" = false

section Accepting

variable {Scalar : Type} [DecidableEq Scalar]

/-- A literal pattern matches the value it stands for. -/
def Reading.accepts (reading : Reading Scalar) (literal : Literal) (value : Value Scalar) : Bool :=
  match literal.kind, value with
  | .bool, .bool value => reading.bool literal.value == value
  | .unit, .unit => true
  | .bool, _ | .unit, _ => false
  | kind, .scalar value => reading.scalar kind literal.value == value
  | _, _ => false

namespace Pattern

/-- The name of the variant that a constructor pattern matches: an unnamed pattern matches the first
variant of its arity. -/
def variantName? (enums : Table DefId EnumInfo) (decl : DefId) (variant : String) (arity : Nat) :
    Option String :=
  if variant = "" then
    (enums.find? decl).bind fun info => ((info.variantsOfArity arity).head?).map (·.name)
  else some variant

mutual

/-- Whether the pattern matches the value. -/
def accepts (enums : Table DefId EnumInfo) (reading : Reading Scalar) :
    Pattern → Value Scalar → Bool
  | .wildcard _, _ | .bind _ _ _, _ => true
  | .literal content, value => reading.accepts content value
  | .tuple elems _, .tuple values => allAccept enums reading elems values
  | .list elems _, .list values => allAccept enums reading elems values
  | .record fields _, .record values => fieldsAccept enums reading fields values
  | .ctor decl variant args _, .variant other name values =>
    decl == other && variantName? enums decl variant args.length == some name &&
      allAccept enums reading args values
  | _, _ => false

def allAccept (enums : Table DefId EnumInfo) (reading : Reading Scalar) :
    List Pattern → List (Value Scalar) → Bool
  | [], [] => true
  | pattern :: patterns, value :: values =>
    accepts enums reading pattern value && allAccept enums reading patterns values
  | _, _ => false

def fieldsAccept (enums : Table DefId EnumInfo) (reading : Reading Scalar) :
    List (Field Pattern) → List (String × Value Scalar) → Bool
  | [], _ => true
  | ⟨name, pattern, _⟩ :: fields, values =>
    (match values.lookup name with
      | some value => accepts enums reading pattern value
      | none => false) && fieldsAccept enums reading fields values

end

end Pattern

/-- The position of the arm that is taken for a value, given what the guards evaluate to. -/
def Arm.taken? (enums : Table DefId EnumInfo) (reading : Reading Scalar) (guards : Nat → Bool)
    (arms : List Arm) (value : Value Scalar) : Option Nat :=
  arms.zipIdx.findIdx? fun (arm, position) =>
    arm.pattern.accepts enums reading value && (arm.guard.isMissing || guards position)

end Accepting

/-- What types refer to: declarations, and types for unsolved variables. -/
structure World where
  structs : Table DefId StructInfo
  enums : Table DefId EnumInfo
  assignment : VarId → Ty

namespace World

/-- A declared type at given arguments. -/
def component (world : World) (args : List Ty) (ty : Ty) : Ty :=
  ty.bindLeaves world.assignment (Ty.argOr args)

theorem bindVars_substParams (world : World) (args : List Ty) (ty : Ty) :
    (ty.substParams args).bindVars world.assignment =
      world.component (args.map (Ty.bindVars world.assignment)) ty := by
  rw [component, Ty.substParams_eq_bindLeaves, Ty.bindVars_eq_bindLeaves, Ty.bindLeaves_bindLeaves]
  congr 1
  funext index name
  rw [← Ty.bindVars_eq_bindLeaves, Ty.argOr, Ty.argOr]
  split
  · rfl
  · rw [List.getD_eq_getElem?_getD, List.getD_eq_getElem?_getD, List.getElem?_map]
    cases args[index.toNat]? <;> rfl

/-- Nothing is known of the values of the type. -/
def isForeign (world : World) : Ty → Bool
  | .prim _ | .tuple _ | .record _ => false
  | .named decl _ =>
    decl ≠ .list && (world.structs.find? decl).isNone && (world.enums.find? decl).isNone
  | _ => true

end World

/-- The values of a type. -/
inductive Inhabits {Scalar : Type} (world : World) : Ty → Value Scalar → Prop
  | bool (value : Bool) : Inhabits world .bool (.bool value)
  | unit : Inhabits world .unit .unit
  | scalar {kind : Prim} (other : kind ≠ .bool ∧ kind ≠ .unit) (value : Scalar) :
      Inhabits world (.prim kind) (.scalar value)
  | tuple {types : List Ty} {values : List (Value Scalar)}
      (each : List.Forall₂ (Inhabits world) types values) :
      Inhabits world (.tuple types) (.tuple values)
  | list {elem : Ty} {values : List (Value Scalar)}
      (each : ∀ value ∈ values, Inhabits world elem value) :
      Inhabits world (.list elem) (.list values)
  | record {row : Row} {fields : List (String × Value Scalar)}
      (present : ∀ label ty, Row.find? label row = some ty → (fields.lookup label).isSome = true)
      (each : ∀ label ty value, Row.find? label row = some ty → fields.lookup label = some value →
        Inhabits world ty value) :
      Inhabits world (.record row) (.record fields)
  | struct {decl : DefId} {args : List Ty} {info : StructInfo}
      {fields : List (String × Value Scalar)} (declared : world.structs.find? decl = some info)
      (present : ∀ label ty, info.field? label = some ty → (fields.lookup label).isSome = true)
      (each : ∀ label ty value, info.field? label = some ty → fields.lookup label = some value →
        Inhabits world (world.component args ty) value) :
      Inhabits world (.named decl args) (.record fields)
  | variant {decl : DefId} {args : List Ty} {info : EnumInfo} {variant : Variant}
      {values : List (Value Scalar)} (declared : world.enums.find? decl = some info)
      (member : variant ∈ info.variants)
      (each : List.Forall₂ (Inhabits world) (variant.fields.map (world.component args)) values) :
      Inhabits world (.named decl args) (.variant decl variant.name values)
  | foreign {ty : Ty} (isForeign : world.isForeign ty = true) (value : Value Scalar) :
      Inhabits world ty value

/-- No declaration is both a struct and an enum, and lists are neither. -/
structure World.Separate (world : World) : Prop where
  apart : ∀ ⦃decl info⦄, world.structs.find? decl = some info → world.enums.find? decl = none
  listStruct : world.structs.find? .list = none
  listEnum : world.enums.find? .list = none

theorem World.separate_of_keys {world : World}
    (apart : ∀ decl ∈ world.structs.keys, decl ∉ world.enums.keys)
    (listStruct : .list ∉ world.structs.keys) (listEnum : .list ∉ world.enums.keys) :
    world.Separate where
  apart decl _ found := Table.find?_eq_none.mpr (apart decl (Table.mem_keys_of_find? found))
  listStruct := Table.find?_eq_none.mpr listStruct
  listEnum := Table.find?_eq_none.mpr listEnum

namespace Inhabits

variable {Scalar : Type} {world : World} {value : Value Scalar} {decl : DefId} {args : List Ty}

theorem of_tuple {types : List Ty} (inhabits : Inhabits world (.tuple types) value) :
    ∃ values, value = .tuple values ∧ List.Forall₂ (Inhabits world) types values := by
  cases inhabits with
  | tuple each => exact ⟨_, rfl, each⟩
  | foreign isForeign => cases isForeign

theorem of_record {row : Row} (inhabits : Inhabits world (.record row) value) :
    ∃ fields, value = .record fields ∧ ∀ label ty, Row.find? label row = some ty →
      ∃ held, fields.lookup label = some held ∧ Inhabits world ty held := by
  cases inhabits with
  | record present each =>
    refine ⟨_, rfl, fun label ty found => ?_⟩
    obtain ⟨held, has⟩ := Option.isSome_iff_exists.mp (present label ty found)
    exact ⟨held, has, each label ty held found has⟩
  | foreign isForeign => cases isForeign

theorem of_struct {info : StructInfo} (separate : world.Separate)
    (declared : world.structs.find? decl = some info)
    (inhabits : Inhabits world (.named decl args) value) :
    ∃ fields, value = .record fields ∧ ∀ label ty, info.field? label = some ty →
      ∃ held, fields.lookup label = some held ∧
        Inhabits world (world.component args ty) held := by
  cases inhabits with
  | struct declared' present each =>
    cases declared.symm.trans declared'
    refine ⟨_, rfl, fun label ty found => ?_⟩
    obtain ⟨held, has⟩ := Option.isSome_iff_exists.mp (present label ty found)
    exact ⟨held, has, each label ty held found has⟩
  | variant declared' => cases (separate.apart declared).symm.trans declared'
  | list => cases separate.listStruct.symm.trans declared
  | foreign isForeign => simp [World.isForeign, declared] at isForeign

theorem of_enum {info : EnumInfo} (separate : world.Separate)
    (declared : world.enums.find? decl = some info)
    (inhabits : Inhabits world (.named decl args) value) :
    ∃ variant ∈ info.variants, ∃ values, value = .variant decl variant.name values ∧
      List.Forall₂ (Inhabits world) (variant.fields.map (world.component args)) values := by
  cases inhabits with
  | variant declared' member each =>
    cases declared.symm.trans declared'
    exact ⟨_, member, _, rfl, each⟩
  | struct declared' => cases (separate.apart declared').symm.trans declared
  | list => cases separate.listEnum.symm.trans declared
  | foreign isForeign => simp [World.isForeign, declared] at isForeign

end Inhabits

end TraitCheck
