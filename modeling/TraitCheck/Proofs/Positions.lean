import TraitCheck.Proofs.Schemes
import TraitCheck.Proofs.Unification.Growth

/-!
# Positions in types

A position is a path from a type to one of its components, given by the numbers of the immediate
components on the way. `Ty.bindAt` replaces parameters by position, so that two occurrences of one
parameter can become different types; `Ty.bindParams` is the case in which the image depends on the
parameter only.
-/

namespace TraitCheck

variable {path : List Nat} {index : Int}

namespace Ty

variable {ty : Ty} {component : Ty} {name : String}

/-- The part of a type at a position. -/
def at? : Ty → List Nat → Option Ty
  | ty, [] => some ty
  | ty, number :: path => ty.parts[number]?.bind fun part => part.at? path

@[simp]
theorem at?_nil (ty : Ty) : ty.at? [] = some ty := rfl

theorem at?_cons (ty : Ty) (number : Nat) (path : List Nat) :
    ty.at? (number :: path) = ty.parts[number]?.bind fun part => part.at? path := rfl

theorem at?_cons_eq_some {number : Nat} : ty.at? (number :: path) = some component ↔
      ∃ part, ty.parts[number]? = some part ∧ part.at? path = some component := by
  rw [at?_cons, Option.bind_eq_some_iff]

theorem at?_param_eq_some :
    (param index name).at? path = some component ↔ path = [] ∧ component = param index name := by
  cases path with
  | nil => simp [eq_comm]
  | cons number path => simp [at?_cons, parts]

theorem param_or_not (ty : Ty) :
    (∃ index name, ty = param index name) ∨ ∀ index name, ty ≠ param index name := by
  cases ty <;> simp

theorem ne_param_of_part {part : Ty} (member : part ∈ ty.parts) (index : Int) (name : String) :
    ty ≠ param index name := by
  rintro rfl
  simp [parts] at member

mutual

/-- Replaces parameters according to their positions. -/
def bindAt : Ty → (List Nat → Ty) → Ty
  | .param _ _, image => image []
  | .named decl args, image => .named decl (bindListAt args 0 image)
  | .fn params result, image =>
    .fn (bindListAt params 0 image) (bindAt result fun path => image (params.length :: path))
  | .tuple elems, image => .tuple (bindListAt elems 0 image)
  | .record fields, image => .record (bindRowAt fields 0 image)
  | .scheme names body, image => .scheme names (bindAt body fun path => image (0 :: path))
  | .absent, _ => .absent
  | .prim kind, _ => .prim kind
  | .var id, _ => .var id
  | .unknown, _ => .unknown
  | .foreign name, _ => .foreign name

def bindListAt : List Ty → Nat → (List Nat → Ty) → List Ty
  | [], _, _ => []
  | ty :: rest, number, image =>
    bindAt ty (fun path => image (number :: path)) :: bindListAt rest (number + 1) image

def bindRowAt : List (String × Ty) → Nat → (List Nat → Ty) → List (String × Ty)
  | [], _, _ => []
  | (label, ty) :: rest, number, image =>
    (label, bindAt ty fun path => image (number :: path)) :: bindRowAt rest (number + 1) image

end

section BindAt

variable {image : List Nat → Ty}

theorem bindListAt_eq (types : List Ty) (number : Nat) (image : List Nat → Ty) :
    bindListAt types number image =
      types.mapIdx fun offset ty => ty.bindAt fun path => image ((number + offset) :: path) := by
  induction types generalizing number with
  | nil => rfl
  | cons ty rest ih =>
    simp [bindListAt, ih, List.mapIdx_cons, Nat.add_comm, Nat.add_left_comm]

theorem types_bindRowAt (fields : List (String × Ty)) (number : Nat) (image : List Nat → Ty) :
    (bindRowAt fields number image).map Prod.snd =
      bindListAt (fields.map Prod.snd) number image := by
  induction fields generalizing number with
  | nil => rfl
  | cons field rest ih => simp [bindRowAt, bindListAt, ih]

theorem labels_bindRowAt (fields : List (String × Ty)) (number : Nat) (image : List Nat → Ty) :
    Row.labels (bindRowAt fields number image) = Row.labels fields := by
  induction fields generalizing number with
  | nil => rfl
  | cons field rest ih => simpa [bindRowAt, Row.labels] using ih (number + 1)

theorem parts_bindAt (noParam : ∀ index name, ty ≠ param index name) :
    (ty.bindAt image).parts =
      ty.parts.mapIdx fun number part => part.bindAt fun path => image (number :: path) := by
  cases ty with
  | param index name => exact absurd rfl (noParam index name)
  | fn params result => simp [bindAt, parts, bindListAt_eq, List.mapIdx_append]
  | record fields => simp [bindAt, parts, types_bindRowAt, bindListAt_eq]
  | _ => simp [bindAt, parts, bindListAt_eq]

theorem sameFormer_bindAt (noParam : ∀ index name, ty ≠ param index name) :
    ty.sameFormer (ty.bindAt image) = true := by
  cases ty with
  | param index name => exact absurd rfl (noParam index name)
  | _ => simp [bindAt, sameFormer, bindListAt_eq, labels_bindRowAt]

theorem at?_bindAt (stands : ty.at? path = some (param index name)) :
    (ty.bindAt image).at? path = some (image path) := by
  induction path generalizing ty image with
  | nil =>
    cases stands
    rfl
  | cons number path ih =>
    rcases at?_cons_eq_some.mp stands with ⟨part, isPart, inPart⟩
    have noParam := ne_param_of_part (List.mem_of_getElem? isPart)
    rw [at?_cons, parts_bindAt noParam, List.getElem?_mapIdx, isPart]
    exact ih inPart

theorem sameFormer_bindParams {image : Int → String → Ty}
    (noParam : ∀ index name, ty ≠ param index name) :
    ty.sameFormer (ty.bindParams image) = true := by
  rw [bindParams_eq_bindLeaves]
  cases ty with
  | param index name => exact absurd rfl (noParam index name)
  | _ => simp [sameFormer]

theorem bindAt_eq_bindParams {onParam : Int → String → Ty}
    (agree : ∀ path index name, ty.at? path = some (param index name) →
      image path = onParam index name) :
    ty.bindAt image = ty.bindParams onParam := by
  induction ty generalizing image with
  | step ty ih =>
    rcases ty.param_or_not with ⟨index, name, rfl⟩ | noParam
    · exact agree [] index name rfl
    · apply eq_of_sameFormer
      · exact sameFormer_of_common (sameFormer_bindAt noParam) (sameFormer_bindParams noParam)
      · rw [parts_bindAt noParam, parts_bindParams noParam]
        apply List.ext_getElem
        · simp
        · intro number inside _
          have inParts : number < ty.parts.length := by simpa using inside
          simp only [List.getElem_mapIdx, List.getElem_map]
          apply ih _ (List.getElem_mem inParts)
          intro path index name stands
          apply agree (number :: path) index name
          exact at?_cons_eq_some.mpr ⟨_, List.getElem?_eq_getElem inParts, stands⟩

end BindAt

/-- The index of a parameter. -/
def param? : Ty → Option Int
  | .param index _ => some index
  | _ => none

/-- The indexes of the parameters in a type. -/
def paramIndexes (ty : Ty) : List Int := ty.collect param? []

theorem paramIndexes_eq (noParam : ∀ index name, ty ≠ param index name) :
    ty.paramIndexes = ty.parts.flatMap paramIndexes := by
  rcases eq_or_ne ty absent with rfl | present
  · rfl
  · have noIndex : ty.param? = none := by
      cases ty <;> simp [param?] at noParam ⊢
    rw [paramIndexes, collect_eq param? present, noIndex]
    rfl

theorem mem_paramIndexes :
    index ∈ ty.paramIndexes ↔ ∃ path name, ty.at? path = some (param index name) := by
  induction ty with
  | step ty ih =>
    rcases ty.param_or_not with ⟨own, name, rfl⟩ | noParam
    · simp [paramIndexes, collect, param?, at?_param_eq_some]
    · rw [paramIndexes_eq noParam, List.mem_flatMap]
      constructor
      · rintro ⟨part, member, inPart⟩
        rcases (ih part member).mp inPart with ⟨path, name, stands⟩
        rcases List.mem_iff_getElem?.mp member with ⟨number, isPart⟩
        exact ⟨number :: path, name, at?_cons_eq_some.mpr ⟨part, isPart, stands⟩⟩
      · rintro ⟨path, name, stands⟩
        cases path with
        | nil => exact absurd (Option.some.inj stands) (noParam index name)
        | cons number path =>
          rcases at?_cons_eq_some.mp stands with ⟨part, isPart, inPart⟩
          have member := List.mem_of_getElem? isPart
          exact ⟨part, member, (ih part member).mpr ⟨path, name, inPart⟩⟩

theorem path_unique (distinct : ty.paramIndexes.Nodup) {name name' : String} {path' : List Nat}
    (stands : ty.at? path = some (param index name))
    (stands' : ty.at? path' = some (param index name')) : path = path' := by
  induction path generalizing ty path' with
  | nil =>
    cases stands
    exact (at?_param_eq_some.mp stands').1.symm
  | cons number path ih =>
    rcases at?_cons_eq_some.mp stands with ⟨part, isPart, inPart⟩
    have noParam := ne_param_of_part (List.mem_of_getElem? isPart)
    cases path' with
    | nil => exact absurd (Option.some.inj stands') (noParam index name')
    | cons number' path' =>
      rcases at?_cons_eq_some.mp stands' with ⟨part', isPart', inPart'⟩
      rw [paramIndexes_eq noParam, List.nodup_flatMap] at distinct
      rcases distinct with ⟨inner, apart⟩
      have occurs := mem_paramIndexes.mpr ⟨path, name, inPart⟩
      have occurs' := mem_paramIndexes.mpr ⟨path', name', inPart'⟩
      rcases List.getElem?_eq_some_iff.mp isPart with ⟨inside, rfl⟩
      rcases List.getElem?_eq_some_iff.mp isPart' with ⟨inside', rfl⟩
      rw [List.pairwise_iff_getElem] at apart
      rcases lt_trichotomy number number' with before | rfl | after
      · exact absurd occurs' (apart _ _ inside inside' before occurs)
      · rw [ih (inner _ (List.getElem_mem inside)) inPart inPart']
      · exact absurd occurs (apart _ _ inside' inside after occurs')

end Ty

end TraitCheck
