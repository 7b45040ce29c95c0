import TraitCheck.Proofs.Trait.Instances
import TraitCheck.Proofs.Trait.Scans

/-!
# Associated types

The associated type of a trait for a self type comes from the first impl of the trait that matches:
from what the impl binds, or else from the default of the trait. It is written in terms of the
parameters of the impl and of `Self`, and both have to be replaced by the types that they stand for.
Which these are is recorded while the self type is matched. A pattern without repeated parameters
has only one instantiation that gives the self type, and the record is that one.
-/

namespace TraitCheck

variable {image : Int → Ty} {source : Ty}

namespace Ty

variable {pattern self ty : Ty} {found : ParamMatch} {path : List Nat}

/-- A pattern of an impl in which nothing is left open and no parameter is repeated. -/
structure Linear (pattern : Ty) : Prop where
  firm : pattern.isFirm = true
  noSelf : -1 ∉ pattern.paramIndexes
  distinct : pattern.paramIndexes.Nodup

/-- The types of the parameters that turn a pattern into a type. They are the components at the
positions of the parameters, and there are no others. -/
structure Instantiates (pattern ty : Ty) (image : Int → Ty) : Prop where
  becomes : pattern.bindParams (fun index _ => image index) = ty
  component : ∀ {path index name}, pattern.at? path = some (param index name) →
    ty.at? path = some (image index)
  unique : ∀ {other : Int → Ty}, pattern.bindParams (fun index _ => other index) = ty →
    ∀ index ∈ pattern.paramIndexes, other index = image index

theorem at?_bindParams {index : Int} {name : String}
    (stands : pattern.at? path = some (param index name)) :
    (pattern.bindParams fun index _ => image index).at? path = some (image index) := by
  rcases exists_bindAt_eq pattern image with ⟨placed, same, agree⟩
  rw [← same, at?_bindAt stands, agree path index name stands]

theorem instantiates_of_bindParams
    (becomes : pattern.bindParams (fun index _ => image index) = ty) :
    pattern.Instantiates ty image := by
  refine ⟨becomes, fun stands => becomes ▸ at?_bindParams stands, ?_⟩
  intro other same index occurs
  rcases mem_paramIndexes.mp occurs with ⟨path, name, stands⟩
  have here : ty.at? path = some (image index) := becomes ▸ at?_bindParams stands
  have there : ty.at? path = some (other index) := same ▸ at?_bindParams stands
  exact Option.some.inj (there.symm.trans here)

theorem all_at? {accept : Ty → Bool} (holds : ty.all accept = true) {part : Ty}
    (stands : ty.at? path = some part) : part.all accept = true := by
  induction path generalizing ty with
  | nil =>
    cases stands
    exact holds
  | cons number path ih =>
    rcases at?_cons_eq_some.mp stands with ⟨inner, isPart, inInner⟩
    exact ih (all_of_part holds (List.mem_of_getElem? isPart)) inInner

theorem bindParams_of_isGround (ground : ty.isGround = true) (image : Int → String → Ty) :
    ty.bindParams image = ty := by
  have noParams : ty.paramsWithin (fun _ => false) = true := by
    apply all_of_imp ground
    intro ty former
    cases ty with
    | param index name => exact former
    | _ => rfl
  calc ty.bindParams image
      = ty.bindLeaves var image := bindParams_eq_bindLeaves image ty
    _ = ty.bindLeaves var param := bindLeaves_congr noParams (fun _ _ => rfl) nofun
    _ = ty := by rw [← bindVars_eq_bindLeaves, bindVars_self]

theorem whole_of_isGround (ground : ty.isGround = true) : ty.Whole := by
  have present := isPresent_of_isShape ground
  exact ⟨isComplete_of_isPresent present, Present.isAbsent present⟩

theorem find?_matchWith (linear : pattern.Linear) (ground : self.isGround = true)
    (matched : pattern.matchWith self = .ok found)
    (instantiates : pattern.Instantiates self image) (index : Int) :
    found.find? index = if index ∈ pattern.paramIndexes then some (image index) else none := by
  have records := records_matchInto linear.firm ground matched
  have recorded : ∀ bound, found.find? index = some bound →
      index ∈ pattern.paramIndexes ∧ bound = image index := by
    intro bound isFound
    rcases records.origin isFound with early | ⟨path, name, stands, here⟩
    · cases early
    · rw [instantiates.component stands] at here
      exact ⟨mem_paramIndexes.mpr ⟨path, name, stands⟩, (Option.some.inj here).symm⟩
  split
  · next occurs =>
      rcases mem_paramIndexes.mp occurs with ⟨path, name, stands⟩
      have proper : index ≠ -1 := by
        rintro rfl
        exact linear.noSelf occurs
      rcases records.records stands proper with ⟨bound, isFound⟩
      rw [isFound, (recorded bound isFound).2]
  · next missing =>
      rw [Option.eq_none_iff_forall_ne_some]
      intro bound isFound
      exact missing (recorded bound isFound).1

/-- What a parameter of an associated type stands for. -/
def assocImage (pattern self : Ty) (image : Int → Ty) (index : Int) (name : String) : Ty :=
  if index = -1 then self
  else if index ∈ pattern.paramIndexes then image index
  else param index name

section Substitution

variable (linear : pattern.Linear) (ground : self.isGround = true)
  (matched : pattern.matchWith self = .ok found) {image : Int → Ty}
  (instantiates : pattern.Instantiates self image)

include linear ground matched instantiates

/-- Putting in what was recorded and then the self type is one replacement of parameters. -/
theorem substSelf_substMatch (source : Ty) :
    (source.substMatch found).substSelf self =
      source.bindParams (assocImage pattern self image) := by
  rw [substSelf, substMatch, bindParams_eq_bindLeaves, bindParams_eq_bindLeaves,
    bindParams_eq_bindLeaves, bindLeaves_bindLeaves]
  congr 1
  funext index name
  rw [← bindParams_eq_bindLeaves, find?_matchWith linear ground matched instantiates]
  unfold assocImage
  -- What was put in for a parameter of the pattern is ground, so `Self` is not replaced within it.
  split
  · next isSelf => simp [bindParams_eq_bindLeaves, isSelf]
  · next proper =>
      split
      · next occurs =>
          rcases mem_paramIndexes.mp occurs with ⟨path, name, stands⟩
          exact bindParams_of_isGround (all_at? ground (instantiates.component stands)) _
      · simp [bindParams_eq_bindLeaves, proper]

theorem isComplete_substMatch :
    (source.substMatch found).isComplete = source.isComplete := by
  rw [substMatch, bindParams_eq_bindLeaves, Bool.eq_iff_iff]
  refine ⟨isComplete_of_bindLeaves, fun complete => ?_⟩
  apply isComplete_bindLeaves complete (fun id _ => whole_var id)
  intro index name
  rw [find?_matchWith linear ground matched instantiates]
  split
  · exact whole_param index name
  · split
    · next occurs =>
        rcases mem_paramIndexes.mp occurs with ⟨path, name, stands⟩
        exact whole_of_isGround (all_at? ground (instantiates.component stands))
    · exact whole_param index name

end Substitution

end Ty

namespace Ledger

/-- Where an associated type comes from: the impl binds the name, or else the trait declares it with
a default. Of several bindings or declarations of a name the first one counts. -/
inductive AssocSource (ledger : Ledger) (impl : Impl) (trait : Nat) (name : String) : Ty → Prop
  | bound {binding : Field Ty} (binds : impl.assocTypes.find? (·.name = name) = some binding) :
      AssocSource ledger impl trait name binding.content
  | default {registered : Trait} {decl : AssocDecl}
      (unbound : ∀ binding ∈ impl.assocTypes, binding.name ≠ name)
      (member : registered ∈ ledger.traits) (number : registered.id = trait)
      (declares : registered.assocTypes.find? (·.name = name) = some decl)
      (present : decl.default ≠ .absent) : AssocSource ledger impl trait name decl.default

/-- A search for an associated type has no answer: it comes to an impl that leaves open whether it
matches, or the type that it finds holds a record without the type of a field. -/
def AssocUnsettled (ledger : Ledger) (self : Ty) (trait : Nat) (name : String) : Prop :=
  Stalls self (ledger.impls.filter (·.isOf trait)) ∨
    ∃ impl source, ledger.firstImpl? self trait = some impl ∧
      ledger.AssocSource impl trait name source ∧ source.isComplete = false

end Ledger

namespace Registry

variable {registry : Registry} {self : Ty} {trait : Nat} {name : String} {impl : Impl}

theorem Indexed.id_of_getElem? (indexed : registry.Indexed) {registered : Trait}
    (isAt : registry.traits[trait]? = some registered) : registered.id = trait := by
  have ids := congrArg (·[trait]?) indexed.traitIds
  rcases List.getElem?_eq_some_iff.mp isAt with ⟨inside, rfl⟩
  simpa [inside] using ids

theorem Indexed.assocSource?_eq_some (indexed : registry.Indexed) :
    registry.assocSource? impl trait name = some source ↔
      registry.ledger.AssocSource impl trait name source := by
  unfold assocSource?
  rcases binds : impl.assocType? name with _ | binding
  · simp only [Option.bind_eq_bind, Option.bind_eq_some_iff]
    constructor
    · rintro ⟨registered, isAt, decl, declares, given⟩
      split at given
      · cases given
      · next present =>
          cases given
          refine .default ?_ (List.mem_of_getElem? isAt) (indexed.id_of_getElem? isAt) declares ?_
          · simpa [Impl.assocType?] using binds
          · intro isAbsent
            exact present (by rw [isAbsent]; rfl)
    · intro comes
      cases comes with
      | bound bound => cases binds.symm.trans bound
      | @default registered decl unbound member number declares present =>
        refine ⟨registered, number ▸ indexed.trait_at member, decl, declares, if_neg ?_⟩
        intro isAbsent
        cases given : decl.default <;> simp_all [Ty.isAbsent]
  · constructor
    · rintro ⟨⟩
      exact .bound binds
    · intro comes
      cases comes with
      | bound bound =>
        cases binds.symm.trans bound
        rfl
      | default unbound =>
        have named := List.find?_some binds
        exact absurd (of_decide_eq_true named) (unbound _ (List.mem_of_find?_eq_some binds))

theorem resolveAssocType?_of_findImpl? (first : registry.findImpl? self trait = some (some impl))
    (matched : impl.matches? self = some true) (linear : impl.implementer.Linear)
    (ground : self.isGround = true) (instantiates : impl.implementer.Instantiates self image)
    (comes : registry.assocSource? impl trait name = some source) :
    registry.resolveAssocType? self trait name =
      if source.isComplete then
        some (some (source.bindParams (Ty.assocImage impl.implementer self image)))
      else none := by
  rcases Ty.isMatch?_eq_true.mp matched with ⟨found, recorded⟩
  have resolves : registry.resolveAssocType? self trait name =
      ((source.substMatch found).substSelf? self).map some := by
    simp only [resolveAssocType?, first, comes, Ty.matchWith, recorded]
  rw [resolves, Ty.substSelf?, Ty.complete?,
    Ty.isComplete_substMatch linear ground recorded instantiates]
  split
  · rw [Option.map_some, Option.map_some,
      Ty.substSelf_substMatch linear ground recorded instantiates]
  · rfl

theorem Indexed.resolveAssocType?_cases (indexed : registry.Indexed) (ground : self.isGround = true)
    (linear : ∀ impl, registry.ledger.firstImpl? self trait = some impl → impl.implementer.Linear) :
    (registry.resolveAssocType? self trait name = some none ∧
      ¬registry.ledger.AssocUnsettled self trait name ∧
      ∀ impl source, registry.ledger.firstImpl? self trait = some impl →
        ¬registry.ledger.AssocSource impl trait name source) ∨
    (∃ impl source image, registry.ledger.firstImpl? self trait = some impl ∧
      registry.ledger.AssocSource impl trait name source ∧
      impl.implementer.Instantiates self image ∧
      ¬registry.ledger.AssocUnsettled self trait name ∧
      registry.resolveAssocType? self trait name =
        some (some (source.bindParams (Ty.assocImage impl.implementer self image)))) ∨
    registry.resolveAssocType? self trait name = none ∧
      registry.ledger.AssocUnsettled self trait name := by
  rcases indexed.findImpl?_cases self trait with ⟨found, moves⟩ | ⟨stopped, stalls⟩
  · have sourced : registry.ledger.AssocUnsettled self trait name ↔ _ := or_iff_right moves
    rw [sourced]
    rcases first : registry.ledger.firstImpl? self trait with _ | impl
    · rw [first] at found
      left
      exact ⟨by simp only [resolveAssocType?, found], nofun, nofun⟩
    · rw [first] at found
      have matched : impl.matches? self = some true := by
        have accepted := List.find?_some first
        simp only [Bool.and_eq_true, decide_eq_true_eq] at accepted
        exact accepted.2
      have isLinear := linear impl first
      rcases comes : registry.assocSource? impl trait name with _ | source
      · left
        have nowhere : ∀ source, ¬registry.ledger.AssocSource impl trait name source := by
          intro source isSource
          rw [indexed.assocSource?_eq_some.mpr isSource] at comes
          cases comes
        refine ⟨by simp only [resolveAssocType?, found, comes], ?_, ?_⟩
        · rintro ⟨_, source, ⟨⟩, isSource, _⟩
          exact nowhere source isSource
        · rintro _ source ⟨⟩
          exact nowhere source
      · have isSource := indexed.assocSource?_eq_some.mp comes
        have consistent : impl.implementer.Consistent self :=
          Ty.consistent_of_nodup isLinear.distinct
        rcases (Ty.exists_bindParams_iff isLinear.firm ground).mpr ⟨matched, consistent⟩ with
          ⟨image, becomes⟩
        have instantiates := Ty.instantiates_of_bindParams becomes
        rw [resolveAssocType?_of_findImpl? found matched isLinear ground instantiates comes]
        right
        rcases whole : source.isComplete with _ | _
        · right
          exact ⟨rfl, impl, source, rfl, isSource, whole⟩
        · left
          refine ⟨impl, source, image, rfl, isSource, instantiates, ?_, rfl⟩
          rintro ⟨_, other, ⟨⟩, isOther, incomplete⟩
          rw [indexed.assocSource?_eq_some.mpr isOther] at comes
          cases comes
          cases whole.symm.trans incomplete
  · right
    right
    exact ⟨by simp only [resolveAssocType?, stopped], .inl stalls⟩

/-- The associated type of a trait for a ground self type. If the pattern of the first impl that
matches is linear, there is an associated type if and only if that impl binds the name or the trait
has a default for it. It is what is written there, with the parameters of the impl replaced by the
components of the self type in their places, `Self` by the self type and nothing else changed. A
search has no answer just if it comes to a record without the type of a field. -/
theorem resolveAssocType_instantiates (requests : List Registration) (ground : self.isGround = true)
    (linear : ∀ impl, (Ledger.ofAll requests).firstImpl? self trait = some impl →
      impl.implementer.Linear) (name : String) :
    let registry := ofAll requests
    let ledger := Ledger.ofAll requests
    (∀ answer, registry.resolveAssocType? self trait name = some answer →
      (answer.isSome = true ↔ ∃ impl source, ledger.firstImpl? self trait = some impl ∧
        ledger.AssocSource impl trait name source) ∧
      ∀ result, answer = some result → ∃ impl source image,
        ledger.firstImpl? self trait = some impl ∧ ledger.AssocSource impl trait name source ∧
        impl.implementer.Instantiates self image ∧
        result = source.bindParams (Ty.assocImage impl.implementer self image)) ∧
    (registry.resolveAssocType? self trait name = none ↔
      ledger.AssocUnsettled self trait name) := by
  rcases indexed_ofAll requests with ⟨indexed, same⟩
  dsimp only
  rw [← same] at linear ⊢
  rcases indexed.resolveAssocType?_cases ground linear with
    ⟨resolved, settled, nowhere⟩ |
      ⟨impl, source, image, first, isSource, instantiates, settled, resolved⟩ | ⟨stuck, unsettled⟩
  · rw [resolved]
    refine ⟨?_, by simp [settled]⟩
    rintro _ ⟨⟩
    refine ⟨⟨nofun, ?_⟩, nofun⟩
    rintro ⟨impl, source, first, isSource⟩
    exact absurd isSource (nowhere impl source first)
  · rw [resolved]
    refine ⟨?_, by simp [settled]⟩
    rintro _ ⟨⟩
    refine ⟨⟨fun _ => ⟨impl, source, first, isSource⟩, fun _ => rfl⟩, ?_⟩
    rintro _ ⟨⟩
    exact ⟨impl, source, image, first, isSource, instantiates, rfl⟩
  · rw [stuck]
    exact ⟨nofun, by simp [unsettled]⟩

/-- A trait with an impl for integers and a generic one for functions that return lists. -/
def containers : List Registration :=
  [.trait ⟨1⟩ "Container" [] [],
    .impl ⟨⟨2⟩, some ⟨1⟩, .int, [], [⟨"Item", .bool, .empty⟩], .empty⟩,
    .impl ⟨⟨3⟩, some ⟨1⟩, .fn [.param 0 "K"] (.list (.param 1 "V")), [],
      [⟨"Item", .tuple [.param 1 "V", .param (-1) "Self", .param 7 "X"], .empty⟩], .empty⟩]

theorem resolveAssocType_instantiates_containers :
    (Ty.fn [.bool] (.list .int)).isGround = true ∧
    (∀ impl, (Ledger.ofAll containers).firstImpl? (.fn [.bool] (.list .int)) 0 = some impl →
      impl.decl = ⟨3⟩ ∧ impl.implementer.Linear) ∧
    (ofAll containers).resolveAssocType? (.fn [.bool] (.list .int)) 0 "Item" =
      some (some (.tuple [.int, .fn [.bool] (.list .int), .param 7 "X"])) ∧
    ∃ impl source image,
      (Ledger.ofAll containers).firstImpl? (.fn [.bool] (.list .int)) 0 = some impl ∧
      (Ledger.ofAll containers).AssocSource impl 0 "Item" source ∧
      impl.implementer.Instantiates (.fn [.bool] (.list .int)) image ∧
      Ty.tuple [.int, .fn [.bool] (.list .int), .param 7 "X"] =
        source.bindParams (Ty.assocImage impl.implementer (.fn [.bool] (.list .int)) image) := by
  have ground : (Ty.fn [.bool] (.list .int)).isGround = true := by decide
  have linear : ∀ impl,
      (Ledger.ofAll containers).firstImpl? (.fn [.bool] (.list .int)) 0 = some impl →
      impl.decl = ⟨3⟩ ∧ impl.implementer.Linear := by
    rintro impl ⟨⟩
    exact ⟨rfl, by decide, by decide, by decide⟩
  have resolved : (ofAll containers).resolveAssocType? (.fn [.bool] (.list .int)) 0 "Item" =
      some (some (.tuple [.int, .fn [.bool] (.list .int), .param 7 "X"])) := rfl
  have instantiates := resolveAssocType_instantiates containers ground
    (fun impl first => (linear impl first).2) "Item"
  exact ⟨ground, linear, resolved, (instantiates.1 _ resolved).2 _ rfl⟩

/-- An impl for integers that binds a record without the type of its field. -/
def unfinished : List Registration :=
  [.trait ⟨1⟩ "Container" [] [],
    .impl ⟨⟨2⟩, some ⟨1⟩, .int, [], [⟨"Item", .record [("a", .absent)], .empty⟩], .empty⟩]

/-- The impl matches and binds the name, but replacing parameters in what it binds has no result. -/
theorem resolveAssocType_openBinding :
    Ty.int.isGround = true ∧
    (∃ impl source, (Ledger.ofAll unfinished).firstImpl? .int 0 = some impl ∧
      impl.implementer.Linear ∧ (Ledger.ofAll unfinished).AssocSource impl 0 "Item" source) ∧
    (ofAll unfinished).resolveAssocType? .int 0 "Item" = none :=
  ⟨rfl, ⟨_, _, rfl, ⟨by decide, by decide, by decide⟩, .bound rfl⟩, rfl⟩

end Registry

end TraitCheck
