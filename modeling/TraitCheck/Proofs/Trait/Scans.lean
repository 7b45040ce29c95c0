import TraitCheck.Proofs.Trait.Indexes

/-!
# Lookups agree with plain scans

A `Ledger` is what a registry is without its indexes: the registered traits and impls in order. The
rules for looking up methods are stated on ledgers, as filters and searches over the whole lists,
and the lookups of a registry give the same answers for every sequence of registrations. They give
none only if an impl leaves open whether it matches.
-/

namespace TraitCheck

/-- A request to register a trait or an impl. -/
inductive Registration where
  | trait (decl : DefId) (name : String) (methods : List MethodDecl) (assocTypes : List AssocDecl)
  | impl (decl : Registry.ImplDecl)

/-- Whether the self type of an impl matches a type, unless records without the type of a field
leave that open. -/
def Impl.matches? (impl : Impl) (self : Ty) : Option Bool := impl.implementer.isMatch? self

/-- How an impl of a trait has a method that the trait declares under a name. -/
def Impl.select (impl : Impl) (name : String) (trait : Trait) (decl : MethodDecl) : Resolution :=
  match impl.method? name with
  | some method => .provided impl method trait decl
  | none => .declared impl trait decl

/-- A search through impls comes to one that leaves open whether it matches before it comes to one
that does. -/
def Stalls (self : Ty) (impls : List Impl) : Prop :=
  ∃ impl, impls.find? (fun impl => impl.matches? self ≠ some false) = some impl ∧
    impl.matches? self = none

theorem Stalls.exists_open {self : Ty} {impls : List Impl} (stalls : Stalls self impls) :
    ∃ impl ∈ impls, impl.matches? self = none := by
  obtain ⟨impl, first, isOpen⟩ := stalls
  exact ⟨impl, List.mem_of_find?_eq_some first, isOpen⟩

namespace Registry

/-- The registry after a request. -/
def follow (registry : Registry) : Registration → Registry
  | .trait decl name methods assocTypes => registry.addTrait decl name methods assocTypes
  | .impl decl => (registry.registerImpl decl).2

/-- The registry after all requests. -/
def ofAll (requests : List Registration) : Registry := requests.foldl follow .empty

end Registry

/-- Registered traits and impls, in order and without indexes. -/
structure Ledger where
  traits : List Trait := []
  impls : List Impl := []

namespace Ledger

/-- The trait that was registered last for a declaration. -/
def traitByDecl? (ledger : Ledger) (decl : DefId) : Option Trait :=
  ledger.traits.reverse.find? (·.decl = decl)

def enter (ledger : Ledger) (decl : Registry.ImplDecl) (trait? : Option Trait) : Ledger :=
  { ledger with impls := ledger.impls ++ [decl.impl ledger.impls.length trait?] }

/-- The ledger after a request. -/
def follow (ledger : Ledger) : Registration → Ledger
  | .trait decl name methods assocTypes =>
    { ledger with
      traits := ledger.traits ++ [⟨ledger.traits.length, decl, name, methods, assocTypes⟩] }
  | .impl decl =>
    match decl.trait? with
    | none => ledger.enter decl none
    | some trait =>
      match ledger.traitByDecl? trait with
      | some found => ledger.enter decl (some found)
      | none => ledger

/-- The ledger after all requests. -/
def ofAll (requests : List Registration) : Ledger := requests.foldl follow {}

/-- The inherent impls that match a type. -/
def inherentImpls (ledger : Ledger) (self : Ty) : List Impl :=
  ledger.impls.filter fun impl => impl.isInherent && impl.matches? self = some true

/-- The first impl of a trait that matches a type. -/
def firstImpl? (ledger : Ledger) (self : Ty) (trait : Nat) : Option Impl :=
  ledger.impls.find? fun impl => impl.isOf trait && impl.matches? self = some true

/-- The method of a name in the first matching inherent impl that provides it. -/
def resolveInherent? (ledger : Ledger) (self : Ty) (name : String) : Option Resolution :=
  (ledger.inherentImpls self).findSome? fun impl => (impl.method? name).map (.inherent impl)

/-- The method of a name in the first matching impl of a trait, if the trait declares the name and
has such an impl. -/
def resolveOf? (ledger : Ledger) (self : Ty) (name : String) (trait : Trait) :
    Option Resolution := do
  let decl ← trait.method? name
  let impl ← ledger.firstImpl? self trait.id
  return impl.select name trait decl

/-- Inherent impls come first, and then the traits in order. -/
def resolveMethod? (ledger : Ledger) (self : Ty) (name : String) : Option Resolution :=
  match ledger.resolveInherent? self name with
  | some resolution => some resolution
  | none => ledger.traits.findSome? (ledger.resolveOf? self name)

/-- What a search for a method goes through in a trait: its impls, if it declares the name. -/
def offersOf (ledger : Ledger) (name : String) (trait : Trait) : List Impl :=
  if (trait.method? name).isSome then ledger.impls.filter (·.isOf trait.id) else []

/-- The impls that a search for a method goes through after the inherent ones, trait by trait. -/
def offers (ledger : Ledger) (name : String) : List Impl :=
  ledger.traits.flatMap (ledger.offersOf name)

/-- A search for a method has no answer. It compares all inherent impls, and then the impls of the
traits that declare the name until one matches. -/
def Unsettled (ledger : Ledger) (self : Ty) (name : String) : Prop :=
  (∃ impl ∈ ledger.impls, impl.isInherent = true ∧ impl.matches? self = none) ∨
    ledger.resolveInherent? self name = none ∧ Stalls self (ledger.offers name)

theorem Unsettled.exists_open {ledger : Ledger} {self : Ty} {name : String}
    (unsettled : ledger.Unsettled self name) :
    ∃ impl ∈ ledger.impls, impl.matches? self = none := by
  rcases unsettled with ⟨impl, member, _, isOpen⟩ | ⟨_, stalls⟩
  · exact ⟨impl, member, isOpen⟩
  · obtain ⟨impl, offered, isOpen⟩ := stalls.exists_open
    obtain ⟨trait, _, inTrait⟩ := List.mem_flatMap.mp offered
    rw [offersOf] at inTrait
    split at inTrait
    · exact ⟨impl, (List.mem_filter.mp inTrait).1, isOpen⟩
    · cases inTrait

end Ledger

/-- What the indexes of a registry are about. -/
def Registry.ledger (registry : Registry) : Ledger := ⟨registry.traits, registry.impls⟩

theorem Ty.isMatch?_of_head {pattern self : Ty} {head other : Head}
    (patternHead : pattern.head? = some head) (selfHead : self.head? = some other)
    (differ : head ≠ other) : pattern.isMatch? self = some false := by
  cases pattern <;> cases patternHead <;> cases self <;> cases selfHead <;>
    simp_all [isMatch?, matchWith, matchInto, isOpen]

namespace Registry

variable {registry : Registry} {self : Ty} {name : String} {impls : List Impl} {trait : Trait}

theorem allMatching_eq (self : Ty) (impls : List Impl) :
    allMatching self impls =
      if impls.any fun impl => (impl.matches? self).isNone then none
      else some (impls.filter fun impl => impl.matches? self = some true) := by
  induction impls with
  | nil => rfl
  | cons impl rest ih =>
    rcases answer : impl.implementer.isMatch? self with _ | _ | _
    · simp [allMatching, Impl.matches?, answer]
    · simp [allMatching, Impl.matches?, answer, ih]
    · simp only [allMatching, answer, ih, apply_ite, Option.map_none, Option.map_some]
      simp [Impl.matches?, answer]

theorem allMatching_filter {keep : Impl → Bool}
    (others : ∀ impl ∈ impls, keep impl = false → impl.matches? self = some false) :
    allMatching self (impls.filter keep) = allMatching self impls := by
  induction impls with
  | nil => rfl
  | cons impl rest ih =>
    have searched := ih fun other member => others other (List.mem_cons_of_mem _ member)
    cases kept : keep impl with
    | true => rw [List.filter_cons_of_pos kept, allMatching, allMatching, searched]
    | false =>
      have differs : impl.implementer.isMatch? self = some false :=
        others impl List.mem_cons_self kept
      rw [List.filter_cons_of_neg (by simp [kept]), allMatching, differs, searched]

theorem stalls_cons {impl : Impl} : Stalls self (impl :: impls) ↔
    impl.matches? self = none ∨ impl.matches? self = some false ∧ Stalls self impls := by
  rcases answer : impl.matches? self with _ | _ | _ <;> simp [Stalls, answer]

theorem stalls_append {others : List Impl} : Stalls self (impls ++ others) ↔
    Stalls self impls ∨ (∀ impl ∈ impls, impl.matches? self = some false) ∧ Stalls self others := by
  induction impls with
  | nil => simp [Stalls]
  | cons impl rest ih =>
    rw [List.cons_append, stalls_cons, stalls_cons, ih, List.forall_mem_cons]
    tauto

/-- The first matching impl is found, unless the search stalls. -/
theorem firstMatching_cases (self : Ty) (impls : List Impl) :
    (firstMatching self impls = some (impls.find? fun impl => impl.matches? self = some true) ∧
      ¬Stalls self impls) ∨ firstMatching self impls = none ∧ Stalls self impls := by
  induction impls with
  | nil => exact .inl ⟨rfl, by simp [Stalls]⟩
  | cons impl rest ih =>
    rw [stalls_cons]
    rcases answer : impl.matches? self with _ | _ | _
    · exact .inr ⟨by rw [firstMatching, ← Impl.matches?, answer], .inl rfl⟩
    · rw [firstMatching, ← Impl.matches?, answer, List.find?_cons_of_neg (by simp [answer])]
      simpa using ih
    · refine .inl ⟨?_, by simp⟩
      rw [firstMatching, ← Impl.matches?, answer, List.find?_cons_of_pos (by simp [answer])]

theorem ruledOut_of_firstMatching (searched : firstMatching self impls = some none) :
    ∀ impl ∈ impls, impl.matches? self = some false := by
  induction impls with
  | nil => nofun
  | cons impl rest ih =>
    rw [firstMatching, ← Impl.matches?] at searched
    rcases answer : impl.matches? self with _ | _ | _ <;> rw [answer] at searched
    · cases searched
    · exact List.forall_mem_cons.mpr ⟨answer, ih searched⟩
    · cases searched

theorem Indexed.inherentImpls?_eq (indexed : registry.Indexed) (self : Ty) :
    registry.inherentImpls? self = allMatching self (registry.impls.filter (·.isInherent)) := by
  unfold inherentImpls? inherentCandidates
  rcases selfHead : self.head? with _ | head
  · rw [indexed.inherentAll, indexed.implsAt_numbersOf]
  · dsimp only
    have merged : mergeAscending ((registry.inherentOfHead.find? head).getD [])
        registry.inherentOpen = registry.numbersOf fun impl =>
          impl.isInherentAt (some head) || impl.isInherentAt none := by
      rw [indexed.inherentOfHead, indexed.inherentOpen]
      refine mergeAscending_filter indexed.ascending fun impl _ isFirst => ?_
      simp_all [Impl.isInherentAt]
    have inherent : (registry.impls.filter fun impl =>
        impl.isInherentAt (some head) || impl.isInherentAt none) =
        (registry.impls.filter (·.isInherent)).filter fun impl =>
          impl.implementer.head? = some head ∨ impl.implementer.head? = none := by
      rw [List.filter_filter]
      refine List.filter_congr fun impl _ => ?_
      simp only [Impl.isInherentAt, Bool.decide_or, ← Bool.and_or_distrib_left, Bool.and_comm]
    rw [merged, indexed.implsAt_numbersOf, inherent]
    refine allMatching_filter fun impl _ other => ?_
    rcases implHead : impl.implementer.head? with _ | own
    · simp [implHead] at other
    · simp only [implHead, Option.some.injEq, reduceCtorEq, or_false,
        decide_eq_false_iff_not] at other
      exact Ty.isMatch?_of_head implHead selfHead other

theorem Indexed.findImpl?_eq (indexed : registry.Indexed) (self : Ty) (trait : Nat) :
    registry.findImpl? self trait = firstMatching self (registry.impls.filter (·.isOf trait)) := by
  rw [findImpl?, indexed.implsOfTrait, indexed.implsAt_numbersOf]

theorem method?_eq_none_iff :
    trait.method? name = none ↔ trait.methods.countP (·.name = name) = 0 := by
  rw [Trait.method?, List.find?_eq_none, List.countP_eq_zero]

theorem resolveIn?_replicate {trait : Nat} (noImpl : registry.findImpl? self trait = some none)
    (count : Nat) (rest : List Nat) :
    registry.resolveIn? self name (List.replicate count trait ++ rest) =
      registry.resolveIn? self name rest := by
  induction count with
  | zero => rfl
  | succ count ih =>
    rw [List.replicate_succ, List.cons_append, resolveIn?, noImpl]
    exact ih

section Indexed

variable (indexed : registry.Indexed)
include indexed

theorem Indexed.resolution?_eq {decl : MethodDecl}
    (registered : trait ∈ registry.traits) (declares : trait.method? name = some decl)
    (impl : Impl) :
    registry.resolution? name trait.id impl = some (impl.select name trait decl) := by
  simp only [resolution?, indexed.trait_at registered, declares, Option.bind_eq_bind,
    Option.bind_some, Impl.select]
  cases impl.method? name <;> rfl

theorem Indexed.findImpl?_cases (self : Ty) (trait : Nat) :
    (registry.findImpl? self trait = some (registry.ledger.firstImpl? self trait) ∧
      ¬Stalls self (registry.impls.filter (·.isOf trait))) ∨
    registry.findImpl? self trait = none ∧ Stalls self (registry.impls.filter (·.isOf trait)) := by
  have searched := firstMatching_cases self (registry.impls.filter (·.isOf trait))
  rw [← indexed.findImpl?_eq, List.find?_filter] at searched
  simpa only [Ledger.firstImpl?, ledger, Bool.decide_and, Bool.decide_eq_true] using searched

theorem Indexed.resolveIn?_cases (self : Ty) (name : String)
    {traits : List Trait} (registered : ∀ trait ∈ traits, trait ∈ registry.traits) :
    let numbers := traits.flatMap fun trait =>
      List.replicate (trait.methods.countP (·.name = name)) trait.id
    let offers := traits.flatMap (registry.ledger.offersOf name)
    (registry.resolveIn? self name numbers =
        some (traits.findSome? (registry.ledger.resolveOf? self name)) ∧ ¬Stalls self offers) ∨
      registry.resolveIn? self name numbers = none ∧ Stalls self offers := by
  induction traits with
  | nil => exact .inl ⟨rfl, by simp [Stalls]⟩
  | cons trait rest ih =>
    obtain ⟨here, registeredRest⟩ := List.forall_mem_cons.mp registered
    replace ih := ih registeredRest
    dsimp only at ih ⊢
    rw [List.flatMap_cons, List.flatMap_cons, List.findSome?_cons]
    rcases declares : trait.method? name with _ | decl
    · rw [method?_eq_none_iff.mp declares, List.replicate_zero, List.nil_append]
      simpa only [Ledger.resolveOf?, Ledger.offersOf, declares, Option.bind_eq_bind,
        Option.bind_none, Option.isSome_none, Bool.false_eq_true, if_false,
        List.nil_append] using ih
    · obtain ⟨count, counted⟩ : ∃ count, trait.methods.countP (·.name = name) = count + 1 := by
        refine Nat.exists_eq_succ_of_ne_zero fun none => ?_
        rw [method?_eq_none_iff.mpr none] at declares
        cases declares
      have offered : registry.ledger.offersOf name trait =
          registry.impls.filter (·.isOf trait.id) := by
        rw [Ledger.offersOf, declares]
        rfl
      rw [offered, stalls_append]
      rcases indexed.findImpl?_cases self trait.id with ⟨found, moves⟩ | ⟨stopped, stalls⟩
      · rcases first : registry.ledger.firstImpl? self trait.id with _ | impl
        · rw [first] at found
          have ruledOut := ruledOut_of_firstMatching (indexed.findImpl?_eq self trait.id ▸ found)
          rw [resolveIn?_replicate found]
          simpa only [Ledger.resolveOf?, declares, first, Option.bind_eq_bind, Option.bind_some,
            Option.bind_none, moves, false_or, and_iff_right ruledOut] using ih
        · rw [first] at found
          refine .inl ⟨?_, ?_⟩
          · rw [counted, List.replicate_succ, List.cons_append, resolveIn?, found]
            simp [indexed.resolution?_eq here declares, Ledger.resolveOf?, declares, first]
          · rintro (stalls | ⟨ruledOut, _⟩)
            · exact moves stalls
            · have accepted := List.find?_some first
              rw [Bool.and_eq_true, decide_eq_true_eq] at accepted
              have listed := List.mem_of_find?_eq_some first
              have answered := ruledOut impl (List.mem_filter.mpr ⟨listed, accepted.1⟩)
              cases answered.symm.trans accepted.2
      · refine .inr ⟨?_, .inl stalls⟩
        rw [counted, List.replicate_succ, List.cons_append, resolveIn?, stopped]

theorem Indexed.inherentImpls?_eq_ite (self : Ty) : registry.inherentImpls? self =
      if registry.impls.any fun impl => impl.isInherent && (impl.matches? self).isNone then none
      else some (registry.ledger.inherentImpls self) := by
  rw [indexed.inherentImpls?_eq, allMatching_eq, List.any_filter, List.filter_filter]
  simp only [Bool.and_comm, Ledger.inherentImpls, ledger]

theorem Indexed.resolveInherent?_cases (self : Ty) (name : String) :
    (registry.resolveInherent? self name = some (registry.ledger.resolveInherent? self name) ∧
      ¬∃ impl ∈ registry.impls, impl.isInherent = true ∧ impl.matches? self = none) ∨
    registry.resolveInherent? self name = none ∧
      ∃ impl ∈ registry.impls, impl.isInherent = true ∧ impl.matches? self = none := by
  rw [resolveInherent?, indexed.inherentImpls?_eq_ite]
  simp only [List.any_eq_true, Bool.and_eq_true, Option.isNone_iff_eq_none]
  split
  · next isOpen => exact .inr ⟨rfl, isOpen⟩
  · next moves => exact .inl ⟨rfl, moves⟩

theorem Indexed.resolveMethod?_cases (self : Ty) (name : String) :
    (registry.resolveMethod? self name = some (registry.ledger.resolveMethod? self name) ∧
      ¬registry.ledger.Unsettled self name) ∨
    registry.resolveMethod? self name = none ∧ registry.ledger.Unsettled self name := by
  rw [resolveMethod?, Ledger.resolveMethod?]
  rcases indexed.resolveInherent?_cases self name with ⟨found, moves⟩ | ⟨stopped, isOpen⟩
  · rw [found]
    cases inherent : registry.ledger.resolveInherent? self name with
    | none =>
      dsimp only
      rw [indexed.traitsOfMethod]
      have unsettled : registry.ledger.Unsettled self name ↔
          Stalls self (registry.ledger.offers name) :=
        (or_iff_right moves).trans (and_iff_right inherent)
      rw [unsettled]
      exact indexed.resolveIn?_cases self name fun _ member => member
    | some resolution =>
      refine .inl ⟨rfl, ?_⟩
      rintro (isOpen | ⟨none, _⟩)
      · exact moves isOpen
      · cases inherent.symm.trans none
  · rw [stopped]
    exact .inr ⟨rfl, .inl isOpen⟩

theorem Indexed.traitByDecl?_ledger (decl : DefId) :
    registry.traitByDecl? decl = registry.ledger.traitByDecl? decl :=
  indexed.traitByDecl?_eq decl

theorem Indexed.registerImpl_eq_error_iff {decl : ImplDecl}
    {trait : DefId} : (registry.registerImpl decl).1 = .error trait ↔
      decl.trait? = some trait ∧ ∀ other ∈ registry.ledger.traits, other.decl ≠ trait := by
  have unknown : registry.traitByDecl? trait = none ↔
      ∀ other ∈ registry.ledger.traits, other.decl ≠ trait := by
    rw [indexed.traitByDecl?_eq, List.find?_eq_none]
    simp [ledger]
  rw [← unknown, registerImpl, implOf?]
  rcases decl.trait? with _ | named
  · simp
  · rcases found : registry.traitByDecl? named with _ | known
    · simp only [found, Option.map_none, Option.getD_some, Except.error.injEq, Option.some.injEq]
      refine ⟨?_, And.left⟩
      rintro rfl
      exact ⟨rfl, found⟩
    · simp only [found, Option.map_some, reduceCtorEq, Option.some.injEq, false_iff, not_and]
      rintro rfl
      simp [found]

theorem Indexed.registerImpl_cases (decl : ImplDecl) :
    (∃ trait, registry.registerImpl decl = (.error trait, registry) ∧
        registry.ledger.follow (.impl decl) = registry.ledger) ∨
      ∃ trait?, (∀ trait, trait? = some trait → trait ∈ registry.traits) ∧
        registry.registerImpl decl = (.ok registry.impls.length,
          registry.addImpl (decl.impl registry.impls.length trait?)) ∧
        registry.ledger.follow (.impl decl) = registry.ledger.enter decl trait? := by
  rcases named : decl.trait? with _ | trait
  · refine .inr ⟨none, nofun, ?_, ?_⟩
    · simp only [registerImpl, implOf?, named]
      rfl
    · simp only [Ledger.follow, named]
  · rcases found : registry.ledger.traitByDecl? trait with _ | known
    · refine .inl ⟨trait, ?_, ?_⟩
      · simp only [registerImpl, implOf?, named, indexed.traitByDecl?_ledger, found,
          Option.map_none, Option.getD_some]
      · simp only [Ledger.follow, named, found]
    · refine .inr ⟨some known, ?_, ?_, ?_⟩
      · rintro _ ⟨⟩
        exact List.mem_reverse.mp (List.mem_of_find?_eq_some found)
      · simp only [registerImpl, implOf?, named, indexed.traitByDecl?_ledger, found,
          Option.map_some]
        rfl
      · simp only [Ledger.follow, named, found]

end Indexed

theorem ledger_addImpl (registry : Registry) (decl : ImplDecl) (trait? : Option Trait) :
    (registry.addImpl (decl.impl registry.impls.length trait?)).ledger =
      registry.ledger.enter decl trait? := by
  rw [ledger, traits_addImpl, impls_addImpl]
  rfl

theorem Indexed.follow (indexed : registry.Indexed) (request : Registration) :
    (registry.follow request).Indexed ∧
      (registry.follow request).ledger = registry.ledger.follow request := by
  cases request with
  | trait decl name methods assocTypes =>
    exact ⟨indexed.addTrait decl name methods assocTypes, rfl⟩
  | impl decl =>
    rcases indexed.registerImpl_cases decl with
      ⟨trait, failed, unchanged⟩ | ⟨trait?, linked, registered, entered⟩
    · rw [Registry.follow, failed]
      exact ⟨indexed, unchanged.symm⟩
    · rw [Registry.follow, registered]
      exact ⟨indexed.addImpl rfl linked, (registry.ledger_addImpl decl trait?).trans entered.symm⟩

theorem ofAll_append (requests : List Registration) (request : Registration) :
    ofAll (requests ++ [request]) = (ofAll requests).follow request := by
  simp only [ofAll, List.foldl_append, List.foldl_cons, List.foldl_nil]

theorem indexed_ofAll (requests : List Registration) :
    (ofAll requests).Indexed ∧ (ofAll requests).ledger = Ledger.ofAll requests := by
  induction requests using List.reverseRecOn with
  | nil => exact ⟨indexed_empty, rfl⟩
  | append_singleton requests request ih =>
    obtain ⟨indexed, same⟩ := ih
    have entered :
        Ledger.ofAll (requests ++ [request]) = (Ledger.ofAll requests).follow request := by
      simp only [Ledger.ofAll, List.foldl_append, List.foldl_cons, List.foldl_nil]
    rw [ofAll_append, entered, ← same]
    exact indexed.follow request

/-- After every sequence of requests, the indexes give the inherent impls and the methods that scans
of the ledger give. A search has no answer just if an impl that it comes to leaves open whether it
matches. An impl is refused just if its trait is not registered, and then nothing changes. -/
theorem lookups_agree_with_scans (requests : List Registration) :
    let registry := ofAll requests
    let ledger := Ledger.ofAll requests
    (∀ self,
      registry.inherentImpls? self =
        (if ledger.impls.any fun impl => impl.isInherent && (impl.matches? self).isNone then none
        else some (ledger.inherentImpls self)) ∧
      (ledger.inherentImpls self).Pairwise fun first second => first.id < second.id) ∧
    (∀ self name,
      (∀ found, registry.resolveMethod? self name = some found →
        found = ledger.resolveMethod? self name) ∧
      (registry.resolveMethod? self name = none ↔ ledger.Unsettled self name)) ∧
    ∀ decl trait,
      ((registry.registerImpl decl).1 = .error trait ↔
        decl.trait? = some trait ∧ ∀ other ∈ ledger.traits, other.decl ≠ trait) ∧
      ((registry.registerImpl decl).1 = .error trait →
        (registry.registerImpl decl).2 = registry) := by
  obtain ⟨indexed, same⟩ := indexed_ofAll requests
  dsimp only
  rw [← same]
  refine ⟨fun self => ⟨indexed.inherentImpls?_eq_ite self, ?_⟩, fun self name => ?_,
    fun decl trait => ⟨?_, fun failed => ?_⟩⟩
  · exact indexed.ascending.filter _
  · rcases indexed.resolveMethod?_cases self name with ⟨found, settled⟩ | ⟨stopped, unsettled⟩
    · refine ⟨fun _ given => Option.some.inj (given.symm.trans found), ?_⟩
      simp [found, settled]
    · simp [stopped, unsettled]
  · exact indexed.registerImpl_eq_error_iff
  · rcases (ofAll requests).registerImpl_cases decl with ⟨_, refused⟩ | ⟨_, _, registered⟩
    · rw [refused]
    · rw [registered] at failed
      cases failed

/-- A method of every type, and an impl for tuples of a record that lacks the type of its field. -/
def catchAll : List Registration :=
  [.impl ⟨⟨1⟩, none, .param 0 "T", [⟨"m", ⟨2⟩, .fn [] .unit, .empty⟩], [], .empty⟩,
    .impl ⟨⟨3⟩, none, .tuple [.record [("a", .absent)]], [], [], .empty⟩]

/-- The first impl matches and provides the method. The second one is compared all the same, and the
search has no answer. -/
theorem resolveMethod_openSibling :
    let self : Ty := .tuple [.record [("a", .int)]]
    ((Ledger.ofAll catchAll).inherentImpls self).map (·.id) = [0] ∧
    ((ofAll catchAll).inherentImpls? self).isNone = true ∧
    ((Ledger.ofAll catchAll).resolveMethod? self "m").map (·.impl.id) = some 0 ∧
    ((ofAll catchAll).resolveMethod? self "m").isNone = true := by
  dsimp only
  rw [resolveMethod?, resolveInherent?, (indexed_ofAll catchAll).1.inherentImpls?_eq]
  exact ⟨rfl, rfl, rfl, rfl⟩

end Registry

end TraitCheck
