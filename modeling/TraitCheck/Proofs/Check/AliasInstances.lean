import TraitCheck.Proofs.Check.Collecting
import TraitCheck.Proofs.Check.TotalExpansion

/-!
# Expansion of instances

Expansion commutes with replacing parameters. Where no alias is cyclic, expansion is a relation
between types without a supply, `Flattens`, and the theorem goes by induction on it. At a reference
the target is filled with the expanded arguments and expanded once more, and replacing parameters in
the filled target is replacing them in the arguments, since the target has no others.
-/

namespace TraitCheck

namespace Ty

theorem substParams_eq (args : List Ty) : substParams args = bindLeaves var (argOr args) :=
  funext (substParams_eq_bindLeaves args)

theorem substParams_named (decl : DefId) (inner args : List Ty) :
    (named decl inner).substParams args = named decl (inner.map (substParams args)) := by
  rw [substParams_eq, bindLeaves_named]

section Params

variable {ty ty' : Ty} (noParam : ∀ index name, ty ≠ param index name) (args args' : List Ty)

include noParam

theorem sameFormer_substParams (same : ty.sameFormer ty' = true) :
    (ty.substParams args).sameFormer (ty'.substParams args') = true := by
  rw [substParams_eq_bindLeaves, substParams_eq_bindLeaves]
  cases ty <;> cases ty' <;> simp [sameFormer] at same noParam ⊢ <;> simp_all

theorem parts_substParams : (ty.substParams args).parts = ty.parts.map (substParams args) :=
  parts_bindParams noParam

end Params

end Ty

namespace Alias

open Ty (named param)

variable {aliases : Table DefId AliasInfo} {ty ty' : Ty} {met : List VarId}

/-- Expansion where no alias is cyclic. -/
inductive Flattens (aliases : Table DefId AliasInfo) : Ty → Ty → Prop
  | former {ty ty' : Ty} (plain : ∀ decl args, ty = named decl args → aliases.find? decl = none)
      (same : ty.sameFormer ty' = true)
      (parts : ∀ pair ∈ ty.parts.zip ty'.parts, Flattens aliases pair.1 pair.2) :
      Flattens aliases ty ty'
  | unfolded {decl : DefId} {args args' : List Ty} {info : AliasInfo} {ty' : Ty}
      (found : aliases.find? decl = some info) (count : args.length = args'.length)
      (inside : ∀ pair ∈ args.zip args', Flattens aliases pair.1 pair.2)
      (further : Flattens aliases (info.target.substParams args') ty') :
      Flattens aliases (named decl args) ty'

theorem Expands.flattens
    (unmarked : ∀ {decl info}, aliases.find? decl = some info → info.cyclic = false)
    (expands : Expands aliases ty met (some ty')) : Flattens aliases ty ty' := by
  refine Expands.result_induction (motive := Flattens aliases) ?_ ?_ ?_ expands
  · intro ty ty' plain same parts
    rcases List.forall₂_iff_zip.mp parts with ⟨_, each⟩
    exact .former plain same fun pair member => each member
  · intro decl args info id found marked
    rw [unmarked found] at marked
    cases marked
  · intro decl args args' info ty' inside found _ further
    rcases List.forall₂_iff_zip.mp inside with ⟨count, each⟩
    exact .unfolded found count (fun pair member => each member) further

theorem flattens_self (free : Free aliases ty) : Flattens aliases ty ty := by
  induction ty with
  | step ty ih =>
    refine .former ?_ (Ty.sameFormer_refl ty) ?_
    · rintro decl args rfl
      exact free decl (.named args)
    · intro pair member
      rw [List.zip, List.zipWith_self] at member
      rcases List.mem_map.mp member with ⟨part, isPart, rfl⟩
      exact ih part isPart (free.of_part isPart)

theorem eq_of_determined {α β : Type} {related : α → β → Prop} {sources : List α}
    {first second : List β} (count : sources.length = first.length)
    (count' : sources.length = second.length)
    (unique : ∀ pair ∈ sources.zip first, ∀ value, related pair.1 value → pair.2 = value)
    (holds : ∀ pair ∈ sources.zip second, related pair.1 pair.2) : first = second := by
  induction sources generalizing first second with
  | nil =>
    rw [List.length_eq_zero_iff.mp count.symm, List.length_eq_zero_iff.mp count'.symm]
  | cons source sources ih =>
    rcases first with _ | ⟨value, first⟩
    · cases count
    · rcases second with _ | ⟨value', second⟩
      · cases count'
      · rw [List.zip_cons_cons, List.forall_mem_cons] at unique holds
        have heads : value = value' := unique.1 value' holds.1
        rw [heads, ih (Nat.succ.inj count) (Nat.succ.inj count') unique.2 holds.2]

theorem Flattens.unique {other : Ty} (flattens : Flattens aliases ty ty')
    (flattens' : Flattens aliases ty other) : ty' = other := by
  induction flattens generalizing other with
  | former plain same parts ih =>
    cases flattens' with
    | former _ same' parts' =>
      refine Ty.eq_of_sameFormer (Ty.sameFormer_of_common same same') ?_
      exact eq_of_determined (Ty.length_parts_of_sameFormer same)
        (Ty.length_parts_of_sameFormer same') (fun pair member value => ih pair member) parts'
    | unfolded found =>
      rw [plain _ _ rfl] at found
      cases found
  | unfolded found count inside further ihArgs ih =>
    cases flattens' with
    | former plain =>
      rw [plain _ _ rfl] at found
      cases found
    | unfolded found' count' inside' further' =>
      rw [found] at found'
      cases found'
      have same := eq_of_determined count count' (fun pair member value => ihArgs pair member)
        inside'
      rw [← same] at further'
      exact ih further'

theorem Flattens.free (flattens : Flattens aliases ty ty') : Free aliases ty' := by
  induction flattens with
  | @former ty ty' plain same parts ih =>
    have pairs : List.Forall₂ (fun _ part => Free aliases part) ty.parts ty'.parts :=
      List.forall₂_iff_zip.mpr ⟨Ty.length_parts_of_sameFormer same, fun member => ih _ member⟩
    refine free_of_former plain same fun part member => ?_
    rcases exists_partner pairs member with ⟨_, _, free⟩
    exact free
  | unfolded _ _ _ _ _ ih => exact ih

/-- Every alias is given enough arguments. -/
def saturated (aliases : Table DefId AliasInfo) (generics : DefId → Nat) (ty : Ty) : Bool :=
  ty.all fun
    | .named decl args => (aliases.find? decl).isNone || generics decl ≤ args.length
    | _ => true

/-- Aliases without cycles whose targets have no parameters but their own. -/
structure Generic (aliases : Table DefId AliasInfo) (generics : DefId → Nat) : Prop where
  acyclic : ∀ decl, ¬Relation.TransGen (Uses aliases) decl decl
  unmarked : ∀ {decl info}, aliases.find? decl = some info → info.cyclic = false
  params : ∀ {decl info}, aliases.find? decl = some info →
    info.target.paramsWithin (· < generics decl) = true
  references : ∀ {decl info}, aliases.find? decl = some info →
    saturated aliases generics info.target = true

variable {generics : DefId → Nat} {args args' : List Ty}

theorem saturated_of_free (free : Free aliases ty) : saturated aliases generics ty = true := by
  induction ty with
  | step ty ih =>
    refine Ty.all_iff.mpr ⟨?_, fun part isPart => ih part isPart (free.of_part isPart)⟩
    cases ty with
    | named decl args => simp [free decl (.named args)]
    | _ => rfl

theorem saturated_substParams (whole : saturated aliases generics ty = true)
    (free : ∀ arg ∈ args, Free aliases arg) :
    saturated aliases generics (ty.substParams args) = true := by
  rw [Ty.substParams_eq_bindLeaves]
  refine Ty.all_bindLeaves ?_ whole (fun _ _ => rfl) fun index name _ => ?_
  · intro ty noVar noParam holds
    cases ty with
    | var id => exact absurd rfl (noVar id)
    | param index name => exact absurd rfl (noParam index name)
    | named decl inner => simpa using holds
    | _ => rfl
  · rcases Ty.argOr_cases args index name with same | given
    · rw [same]
      rfl
    · exact saturated_of_free (free _ given)

theorem free_of_pairs (pairs : List.Forall₂ (Flattens aliases) args args') :
    ∀ arg ∈ args', Free aliases arg := by
  intro arg member
  rcases exists_partner pairs member with ⟨_, _, flattens⟩
  exact flattens.free

theorem flattens_argOr (pairs : List.Forall₂ (Flattens aliases) args args') (index : Int)
    (name : String) :
    Flattens aliases (Ty.argOr args index name) (Ty.argOr args' index name) := by
  have kept : Flattens aliases (param index name) (param index name) := by
    apply flattens_self
    intro decl mentions
    cases mentions
  rcases lt_or_ge index 0 with negative | positive
  · rwa [Ty.argOr_of_neg negative, Ty.argOr_of_neg negative]
  · rcases Int.eq_ofNat_of_zero_le positive with ⟨position, rfl⟩
    by_cases inside : position < args.length
    · have inside' : position < args'.length := pairs.length_eq ▸ inside
      rw [Ty.argOr_position name inside, Ty.argOr_position name inside']
      exact pairs.get inside inside'
    · have outside' : ¬position < args'.length := pairs.length_eq ▸ inside
      simpa [Ty.argOr, inside, outside'] using kept

/-- Expanding a type with parameters replaced is replacing them by the expanded arguments in the
expanded type. -/
theorem Flattens.substParams (generic : Generic aliases generics)
    (flattens : Flattens aliases ty ty') (whole : saturated aliases generics ty = true)
    (pairs : List.Forall₂ (Flattens aliases) args args') :
    Flattens aliases (ty.substParams args) (ty'.substParams args') := by
  induction flattens generalizing args args' with
  | @former ty ty' plain same parts ih =>
    by_cases isParam : ∃ index name, ty = param index name
    · rcases isParam with ⟨index, name, rfl⟩
      cases ty' <;> simp [Ty.sameFormer] at same
      rcases same with ⟨rfl, rfl⟩
      exact flattens_argOr pairs index name
    · have noParam : ∀ index name, ty ≠ param index name :=
        fun index name same => isParam ⟨index, name, same⟩
      have noParam' : ∀ index name, ty' ≠ param index name := by
        rintro index name rfl
        cases ty <;> simp [Ty.sameFormer] at same noParam
      refine .former ?_ (Ty.sameFormer_substParams noParam args args' same) ?_
      · intro decl images isNamed
        rw [Ty.substParams_eq_bindLeaves] at isNamed
        cases ty <;> simp at isNamed noParam
        exact plain _ _ (by rw [isNamed.1])
      · rw [Ty.parts_substParams noParam, Ty.parts_substParams noParam', List.zip_map]
        intro pair member
        rcases List.mem_map.mp member with ⟨source, inParts, rfl⟩
        exact ih source inParts (Ty.all_of_part whole (List.of_mem_zip inParts).1) pairs
  | @unfolded decl inner inner' info ty' found count inside further ihArgs ih =>
    have ⟨enough, wholeArgs⟩ := Ty.all_iff.mp whole
    have innerPairs : List.Forall₂ (Flattens aliases) inner inner' :=
      List.forall₂_iff_zip.mpr ⟨count, fun member => inside _ member⟩
    have closed : List.Forall₂ (Flattens aliases) args' args' :=
      List.forall₂_same.mpr fun arg member => flattens_self (free_of_pairs pairs arg member)
    have filled : info.target.paramsWithin (· < inner'.length) = true := by
      refine Ty.paramsWithin_of_imp (generic.params found) fun index below => ?_
      have enough : generics decl ≤ inner.length := by simpa [found] using enough
      have below : index < generics decl := of_decide_eq_true below
      exact decide_eq_true (by omega)
    have again := ih (saturated_substParams (generic.references found) (free_of_pairs innerPairs))
      closed
    rw [Ty.substParams_substParams filled] at again
    rw [Ty.substParams_named]
    refine .unfolded found (by simpa using count) ?_ again
    rw [List.zip_map]
    intro pair member
    rcases List.mem_map.mp member with ⟨source, inArgs, rfl⟩
    exact ihArgs source inArgs (wholeArgs _ (List.of_mem_zip inArgs).1) pairs

theorem Expands.met_eq_nil {result : Option Ty}
    (unmarked : ∀ {decl info}, aliases.find? decl = some info → info.cyclic = false)
    (expands : Expands aliases ty met result) : met = [] := by
  refine @Expands.rec aliases (fun _ met _ _ => met = []) (fun _ _ met _ _ => met = [])
    ?_ ?_ ?_ ?_ ?_ ?_ ?_ ?_ ?_ ty met result expands
  · exact fun _ _ _ parts => parts
  · exact fun _ parts => parts
  · intro decl args args' met info id _ found marked _
    rw [unmarked found] at marked
    cases marked
  · rintro _ _ _ _ _ _ _ _ _ _ _ _ _ rfl rfl
    rfl
  · exact fun _ _ _ _ inside => inside
  · intro _
    rfl
  · rintro _ _ _ _ _ _ _ _ _ _ rfl rfl
    rfl
  · exact fun _ _ head => head
  · intro _
    rfl

theorem Generic.of_expand (generic : Generic aliases generics) {supply after : Supply}
    (expanded : expand aliases ty supply = (some ty', after)) :
    Flattens aliases ty ty' ∧ after = supply := by
  by_cases empty : aliases.size = 0
  · rw [expand, if_pos empty] at expanded
    cases expanded
    exact ⟨flattens_self (free_of_size_eq_zero empty ty), rfl⟩
  · rcases draws_expand generic.acyclic (.inl empty) supply with ⟨count, expands, drawn⟩
    rw [expanded] at expands drawn
    have none : count = 0 := by
      simpa [Subst.consecutive] using expands.met_eq_nil generic.unmarked
    refine ⟨expands.flattens generic.unmarked, ?_⟩
    rw [none] at drawn
    exact drawn

end Alias

namespace Checker

open Alias (Flattens Generic)

variable {checker : Checker} {generics : DefId → Nat} {ty : Ty} {args : List Ty}

/-- Replaces parameters in a type and expands the result. -/
def expandInstance (ty : Ty) (args : List Ty) : CheckM Ty := do
  expandAliases (← ofComplete (ty.substParams? args))

/-- Expands a type and arguments and replaces parameters in the result. -/
def instantiateExpansion (ty : Ty) (args : List Ty) : CheckM Ty := do
  let expanded ← expandAliases ty
  let args ← args.mapM expandAliases
  ofComplete (expanded.substParams? args)

section Generic

variable (generic : Generic checker.aliases generics) {after : Checker}

include generic

theorem of_expandAliases {value : Ty} (ran : expandAliases ty checker = .ok value after) :
    Flattens checker.aliases ty value ∧ after = checker := by
  rw [expandAliases_eq] at ran
  rcases of_ofComplete ran with ⟨isResult, rfl⟩
  rcases generic.of_expand (Prod.ext isResult rfl) with ⟨flattens, unchanged⟩
  exact ⟨flattens, congrArg (fun supply => { checker with supply }) unchanged⟩

theorem of_mapM_expandAliases {values : List Ty}
    (ran : args.mapM expandAliases checker = .ok values after) :
    List.Forall₂ (Flattens checker.aliases) args values ∧ after = checker := by
  induction args generalizing values after with
  | nil =>
    cases ran
    exact ⟨.nil, rfl⟩
  | cons arg rest ih =>
    rw [List.mapM_cons] at ran
    rcases bind_eq_ok.mp ran with ⟨value, _, ranHead, ranTail⟩
    rcases of_expandAliases generic ranHead with ⟨flattens, rfl⟩
    rcases bind_eq_ok.mp ranTail with ⟨others, _, ranRest, ranPure⟩
    rcases ih ranRest with ⟨pairs, rfl⟩
    cases ranPure
    exact ⟨.cons flattens pairs, rfl⟩

/-- Whatever the types are, both orders lead to the same type if they lead to one. -/
theorem eq_of_instances (whole : Alias.saturated checker.aliases generics ty = true)
    {first second : Ty} {after after' : Checker}
    (ran : expandInstance ty args checker = .ok first after)
    (ran' : instantiateExpansion ty args checker = .ok second after') :
    first = second ∧ after = checker ∧ after' = checker := by
  rcases bind_eq_ok.mp ran with ⟨_, _, ranReplace, ranExpand⟩
  rcases of_ofComplete ranReplace with ⟨replaced, rfl⟩
  cases Ty.substParams?_eq_some replaced
  rcases of_expandAliases generic ranExpand with ⟨flattens, rfl⟩
  rcases bind_eq_ok.mp ran' with ⟨expanded, _, ranType, ranRest⟩
  rcases of_expandAliases generic ranType with ⟨flattensType, rfl⟩
  rcases bind_eq_ok.mp ranRest with ⟨args', _, ranArgs, ranReplace'⟩
  rcases of_mapM_expandAliases generic ranArgs with ⟨pairs, rfl⟩
  rcases of_ofComplete ranReplace' with ⟨replaced', rfl⟩
  cases Ty.substParams?_eq_some replaced'
  exact ⟨flattens.unique (flattensType.substParams generic whole pairs), rfl, rfl⟩

section Present

variable (targets : ∀ info ∈ checker.aliases.values, info.target.Present)

include targets

theorem exists_expandAliases (present : ty.Present) :
    ∃ value, expandAliases ty checker = .ok value checker ∧ value.Present := by
  rcases Supply.yields_expand targets present with ⟨value, after, expanded, presentValue⟩
  have ran : expandAliases ty checker = .ok value { checker with supply := after } := by
    rw [expandAliases_eq, expanded]
    rfl
  rw [(of_expandAliases generic ran).2] at ran
  exact ⟨value, ran, presentValue⟩

theorem exists_mapM_expandAliases (presents : ∀ arg ∈ args, arg.Present) :
    ∃ values, args.mapM expandAliases checker = .ok values checker := by
  induction args with
  | nil => exact ⟨[], rfl⟩
  | cons arg rest ih =>
    rw [List.forall_mem_cons] at presents
    rcases exists_expandAliases generic targets presents.1 with ⟨value, ran, _⟩
    rcases ih presents.2 with ⟨values, ranRest⟩
    refine ⟨value :: values, ?_⟩
    rw [List.mapM_cons]
    exact bind_eq_ok.mpr ⟨value, checker, ran,
      bind_eq_ok.mpr ⟨values, checker, ranRest, rfl⟩⟩

end Present

end Generic

/-- Expansion commutes with replacing parameters, for every type whose references to aliases give
enough arguments and for all arguments. Both orders leave the state as it is and lead to the same
type if they lead to one, and they do so unless a type is absent somewhere. -/
theorem expandAliases_substParams (generic : Generic checker.aliases generics)
    (whole : Alias.saturated checker.aliases generics ty = true) (args : List Ty) :
    (∀ first after second after', expandInstance ty args checker = .ok first after →
      instantiateExpansion ty args checker = .ok second after' →
      first = second ∧ after = checker ∧ after' = checker) ∧
    ((∀ info ∈ checker.aliases.values, info.target.Present) → ty.Present →
      (∀ arg ∈ args, arg.Present) →
      ∃ result, expandInstance ty args checker = .ok result checker ∧
        instantiateExpansion ty args checker = .ok result checker) := by
  refine ⟨fun _ _ _ _ ran ran' => eq_of_instances generic whole ran ran', ?_⟩
  intro targets present presents
  rcases exists_expandAliases generic targets (present.substParams presents) with ⟨first, ran, _⟩
  rcases exists_expandAliases generic targets present with ⟨expanded, ranType, presentType⟩
  rcases exists_mapM_expandAliases generic targets presents with ⟨args', ranArgs⟩
  have ranFirst : expandInstance ty args checker = .ok first checker := by
    refine bind_eq_ok.mpr ⟨ty.substParams args, checker, ?_, ran⟩
    rw [present.substParams?]
    rfl
  have ranSecond : instantiateExpansion ty args checker =
      .ok (expanded.substParams args') checker := by
    refine bind_eq_ok.mpr ⟨expanded, checker, ranType, bind_eq_ok.mpr ⟨args', checker, ranArgs, ?_⟩⟩
    rw [presentType.substParams?]
    rfl
  rw [(eq_of_instances generic whole ranFirst ranSecond).1] at ranFirst
  exact ⟨_, ranFirst, ranSecond⟩

/-- Two generic aliases, the second with the first in its target, nested and with exchanged
parameters. -/
def nestedEntries : List (DefId × AliasInfo) :=
  [(⟨1⟩, { target := .tuple [.param 0 "T", .param 0 "T"] }),
    (⟨2⟩, { target := .fn [.named ⟨1⟩ [.param 1 "B"]] (.named ⟨1⟩ [.named ⟨1⟩ [.param 0 "A"]]) })]

def nested : Checker := { initial {} with aliases := Table.empty.insertAll nestedEntries }

theorem generic_nested : Generic nested.aliases fun decl => decl.number.toNat := by
  have entry : ∀ {decl info}, nested.aliases.find? decl = some info →
      (decl, info) ∈ nestedEntries := by
    intro decl info found
    rcases Table.mem_of_find?_insertAll found with member | before
    · exact member
    · cases before
  have falls : ∀ entry ∈ nestedEntries, ∀ target ∈ entry.2.target.references,
      target.number < entry.1.number := by
    decide
  have each : ∀ entry ∈ nestedEntries, entry.2.cyclic = false ∧
      entry.2.target.paramsWithin (· < (entry.1.number.toNat : Int)) = true ∧
      Alias.saturated nested.aliases (·.number.toNat) entry.2.target = true := by
    decide
  exact {
    acyclic := by
      refine not_transGen_of_falls (·.number) ?_
      rintro source target ⟨info, found, _, mentions, _⟩
      exact falls _ (entry found) _ (Ty.mem_references.mpr mentions)
    unmarked := fun found => (each _ (entry found)).1
    params := fun found => (each _ (entry found)).2.1
    references := fun found => (each _ (entry found)).2.2 }

/-- A reference with exchanged parameters, at arguments of which one refers to an alias itself. -/
theorem expandAliases_substParams_nested :
    Generic nested.aliases (fun decl => decl.number.toNat) ∧
    ∃ result,
      expandInstance (.named ⟨2⟩ [.param 1 "Y", .list (.param 0 "X")]) [.named ⟨1⟩ [.int], .bool]
        nested = .ok result nested ∧
      instantiateExpansion (.named ⟨2⟩ [.param 1 "Y", .list (.param 0 "X")])
        [.named ⟨1⟩ [.int], .bool] nested = .ok result nested ∧
      result = .fn [.tuple [.list (.tuple [.int, .int]), .list (.tuple [.int, .int])]]
        (.tuple [.tuple [.bool, .bool], .tuple [.bool, .bool]]) := by
  have whole : Alias.saturated nested.aliases (fun decl => decl.number.toNat)
      (.named ⟨2⟩ [.param 1 "Y", .list (.param 0 "X")]) = true := by
    decide
  have commutes := (expandAliases_substParams generic_nested whole [.named ⟨1⟩ [.int], .bool]).2
    (by decide) (by decide) (by decide)
  rcases commutes with ⟨result, ran, ran'⟩
  refine ⟨generic_nested, result, ran, ran', ?_⟩
  have computed : expandInstance (.named ⟨2⟩ [.param 1 "Y", .list (.param 0 "X")])
      [.named ⟨1⟩ [.int], .bool] nested =
      .ok (.fn [.tuple [.list (.tuple [.int, .int]), .list (.tuple [.int, .int])]]
        (.tuple [.tuple [.bool, .bool], .tuple [.bool, .bool]])) nested := by
    rfl
  rw [computed] at ran
  cases ran
  rfl

/-- A record that gets no type for its field is part of the type that is expanded in the one order,
and not in the other. -/
theorem expandAliases_substParams_absentArg :
    Generic nested.aliases (fun decl => decl.number.toNat) ∧
    Alias.saturated nested.aliases (fun decl => decl.number.toNat)
      (.named ⟨1⟩ [.int, .record [("a", .param 0 "T")]]) = true ∧
    expandInstance (.named ⟨1⟩ [.int, .record [("a", .param 0 "T")]]) [.absent] nested =
      .error .incompleteType nested ∧
    instantiateExpansion (.named ⟨1⟩ [.int, .record [("a", .param 0 "T")]]) [.absent] nested =
      .ok (.tuple [.int, .int]) nested :=
  ⟨generic_nested, by decide, rfl, rfl⟩

end Checker

end TraitCheck
