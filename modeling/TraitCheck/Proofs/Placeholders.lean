import TraitCheck.Proofs.Positions
import TraitCheck.Proofs.Presence

/-!
# Filling placeholders

The positions of the placeholders of a type, in lexicographic order, are the placeholders from left
to right. `Ty.Fills` says that the type at the place number `k` of this list has become the variable
`next + k`, and that at all other positions the type former has stayed. A rebuild goes through the
parts of a type from left to right, so the statement is proved for a list of types that grows at its
end.
-/

namespace TraitCheck

namespace Ty

variable {ty ty' : Ty} {types types' done done' : List Ty} {next : Nat}
  {paths more : List (List Nat)} {found filled : List Nat → Option Ty} {first second : Ty}
  {number : Nat} {part : Ty} {path : List Nat}

/-- The component at a position whose first number counts the given types. -/
def partAt? (types : List Ty) : List Nat → Option Ty
  | [] => none
  | number :: path => types[number]?.bind fun ty => ty.at? path

/-- At the given positions, from left to right, placeholders were replaced by consecutive variables,
and nothing else was changed. The functions say what stood at each position before and what stands
there now. -/
structure Fills (found filled : List Nat → Option Ty) (next : Nat) (paths : List (List Nat)) :
    Prop where
  ascending : paths.Pairwise (· < ·)
  complete : ∀ path, path ∈ paths ↔ found path = some unknown
  replaced : ∀ rank path, paths[rank]? = some path → filled path = some (var ↑(next + rank))
  kept : ∀ path part, found path = some part → part ≠ unknown →
    ∃ part', filled path = some part' ∧ part.sameFormer part' = true

theorem fills_nil : Fills (partAt? []) (partAt? []) next [] := by
  refine ⟨.nil, fun path => ?_, nofun, fun path part stands => ?_⟩
  · cases path <;> simp [partAt?]
  · cases path <;> simp [partAt?] at stands

theorem fills_unknown : Fills unknown.at? (var next).at? next [[]] := by
  refine ⟨List.pairwise_singleton _ _, fun path => ?_, fun rank path stands => ?_, ?_⟩
  · cases path <;> simp [at?_cons, parts]
  · obtain ⟨rfl, rfl⟩ : rank = 0 ∧ path = [] := by
      rw [List.getElem?_eq_some_iff] at stands
      obtain ⟨inside, rfl⟩ := stands
      simpa using inside
    simp
  · rintro (_ | ⟨number, path⟩) part stands other
    · exact absurd (Option.some.inj stands).symm other
    · simp [at?_cons, parts] at stands

theorem Fills.of_parts (inside : Fills (partAt? ty.parts) (partAt? ty'.parts) next paths)
    (same : ty.sameFormer ty' = true) (other : ty ≠ unknown) :
    Fills ty.at? ty'.at? next paths := by
  refine ⟨inside.ascending, fun path => ?_, fun rank path stands => ?_, ?_⟩
  · rw [inside.complete]
    cases path with
    | nil => simpa [partAt?] using other
    | cons number path => rfl
  · have filled := inside.replaced rank path stands
    cases path with
    | nil => cases filled
    | cons number path => exact filled
  · rintro (_ | ⟨number, path⟩) part stands notUnknown
    · cases stands
      exact ⟨ty', rfl, same⟩
    · exact inside.kept (number :: path) part stands notUnknown

theorem partAt?_append_of_lt (early : number < done.length) :
    partAt? (done ++ types) (number :: path) = partAt? done (number :: path) := by
  rw [partAt?, partAt?, List.getElem?_append_left early]

theorem lt_length_of_partAt?
    (stands : partAt? done (number :: path) = some part) : number < done.length := by
  obtain ⟨ty, isPart, _⟩ := Option.bind_eq_some_iff.mp stands
  exact (List.getElem?_eq_some_iff.mp isPart).1

theorem partAt?_concat : partAt? (done ++ [ty]) (number :: path) = some part ↔
      partAt? done (number :: path) = some part ∨ number = done.length ∧
        ty.at? path = some part := by
  rcases lt_trichotomy number done.length with early | rfl | late
  · rw [partAt?_append_of_lt early]
    simp [early.ne]
  · simp [partAt?]
  · have outside : done.length + 1 ≤ number := late
    simp [partAt?, late.ne', late.le, List.getElem?_eq_none, outside]

theorem Fills.concat (sofar : Fills (partAt? done) (partAt? done') next paths)
    (sameLength : done.length = done'.length)
    (last : Fills ty.at? ty'.at? (next + paths.length) more) :
    Fills (partAt? (done ++ [ty])) (partAt? (done' ++ [ty'])) next
      (paths ++ more.map (done.length :: ·)) := by
  have early : ∀ path ∈ paths, ∃ number rest, path = number :: rest ∧ number < done.length := by
    intro path member
    have stands := (sofar.complete path).mp member
    cases path with
    | nil => cases stands
    | cons number rest => exact ⟨number, rest, rfl, lt_length_of_partAt? stands⟩
  refine ⟨?_, ?_, ?_, ?_⟩
  · rw [List.pairwise_append]
    refine ⟨sofar.ascending, List.pairwise_map.mpr (last.ascending.imp ?_), ?_⟩
    · intro first second before
      exact List.cons_lt_cons_iff.mpr (.inr ⟨rfl, before⟩)
    · intro first inPaths second inMore
      obtain ⟨number, rest, rfl, before⟩ := early first inPaths
      obtain ⟨path, _, rfl⟩ := List.mem_map.mp inMore
      exact List.cons_lt_cons_iff.mpr (.inl before)
  · intro path
    rw [List.mem_append, sofar.complete]
    cases path with
    | nil => simp [partAt?]
    | cons number path =>
      rw [partAt?_concat, ← last.complete]
      refine or_congr_right ⟨fun member => ?_, ?_⟩
      · obtain ⟨_, inMore, ⟨⟩⟩ := List.mem_map.mp member
        exact ⟨rfl, inMore⟩
      · rintro ⟨rfl, inMore⟩
        exact List.mem_map_of_mem inMore
  · intro rank path stands
    rcases lt_or_ge rank paths.length with inPaths | inMore
    · rw [List.getElem?_append_left inPaths] at stands
      obtain ⟨number, rest, rfl, before⟩ := early path (List.mem_of_getElem? stands)
      rw [partAt?_append_of_lt (sameLength ▸ before)]
      exact sofar.replaced rank _ stands
    · rw [List.getElem?_append_right inMore, List.getElem?_map] at stands
      obtain ⟨inner, standsInner, rfl⟩ := Option.map_eq_some_iff.mp stands
      refine partAt?_concat.mpr (.inr ⟨sameLength, ?_⟩)
      rw [last.replaced _ inner standsInner, Nat.add_assoc, Nat.add_sub_cancel' inMore]
  · rintro (_ | ⟨number, path⟩) part stands notUnknown
    · cases stands
    · rcases partAt?_concat.mp stands with old | ⟨rfl, inLast⟩
      · obtain ⟨part', now, same⟩ := sofar.kept _ part old notUnknown
        exact ⟨part', partAt?_concat.mpr (.inl now), same⟩
      · obtain ⟨part', now, same⟩ := last.kept path part inLast notUnknown
        exact ⟨part', partAt?_concat.mpr (.inr ⟨sameLength, now⟩), same⟩

theorem fills_of_isKnown (known : ty.isKnown = true) : Fills ty.at? ty.at? next [] := by
  have noUnknown : ∀ path, ty.at? path ≠ some unknown := by
    intro path
    rw [isKnown_iff] at known
    induction path generalizing ty with
    | nil =>
      intro stands
      cases stands
      cases known
    | cons number path ih =>
      intro stands
      obtain ⟨part, isPart, inPart⟩ := at?_cons_eq_some.mp stands
      exact ih (all_of_part known (List.mem_of_getElem? isPart)) inPart
  refine ⟨.nil, fun path => ?_, nofun, fun path part stands _ => ⟨part, stands, sameFormer_refl _⟩⟩
  simpa using noUnknown path

theorem Fills.rank_of_unknown {id : VarId} (fills : Fills found filled next paths)
    (hole : found path = some unknown) (now : filled path = some (var id)) :
    ∃ rank, paths[rank]? = some path ∧ id = ↑(next + rank) := by
  obtain ⟨rank, ranked⟩ := List.mem_iff_getElem?.mp ((fills.complete path).mpr hole)
  have given := fills.replaced rank path ranked
  rw [now] at given
  cases given
  exact ⟨rank, ranked, rfl⟩

theorem eq_of_agree (agree : ∀ path, ty.at? path = some unknown → first.at? path = second.at? path)
    (kept : ∀ path part, ty.at? path = some part → part ≠ unknown →
      ∃ part', first.at? path = some part' ∧ part.sameFormer part' = true)
    (kept' : ∀ path part, ty.at? path = some part → part ≠ unknown →
      ∃ part', second.at? path = some part' ∧ part.sameFormer part' = true) : first = second := by
  induction ty generalizing first second with
  | step ty ih =>
    by_cases hole : ty = unknown
    · exact Option.some.inj (agree [] (congrArg some hole))
    · obtain ⟨_, ⟨⟩, same⟩ := kept [] ty rfl hole
      obtain ⟨_, ⟨⟩, same'⟩ := kept' [] ty rfl hole
      refine eq_of_sameFormer (sameFormer_of_common same same') ?_
      have lengths := length_parts_of_sameFormer same
      have lengths' := length_parts_of_sameFormer same'
      refine List.ext_getElem (lengths.symm.trans lengths') fun number inside inside' => ?_
      have inParts : number < ty.parts.length := lengths ▸ inside
      -- Positions in a part are positions in the whole that start with the number of the part.
      have below {whole : Ty} (within : number < whole.parts.length) (path : List Nat) :
          whole.at? (number :: path) = whole.parts[number].at? path := by
        rw [at?_cons, List.getElem?_eq_getElem within, Option.bind_some]
      refine ih _ (List.getElem_mem inParts) (fun path stands => ?_) (fun path part stands => ?_)
        fun path part stands => ?_
      · rw [← below inside, ← below inside']
        exact agree (number :: path) ((below inParts path).trans stands)
      · rw [← below inside]
        exact kept (number :: path) part ((below inParts path).trans stands)
      · rw [← below inside']
        exact kept' (number :: path) part ((below inParts path).trans stands)

theorem Fills.unique (fills : Fills ty.at? first.at? next paths)
    (fills' : Fills ty.at? second.at? next paths) : second = first := by
  refine eq_of_agree (fun path hole => ?_) fills'.kept fills.kept
  obtain ⟨rank, ranked⟩ := List.mem_iff_getElem?.mp ((fills.complete path).mpr hole)
  rw [fills.replaced rank path ranked, fills'.replaced rank path ranked]

end Ty

namespace Supply

open Ty

variable {supply : Supply} {ty : Ty}

/-- A walk fills all placeholders of a present type from a supply. -/
abbrev FillsAll (ty : Ty) (supply : Supply) (made : Option Ty) (after : Supply) : Prop :=
  ty.Present → ∃ ty' paths, made = some ty' ∧ after = ⟨supply.next + paths.length⟩ ∧
    ty'.isKnown = true ∧ Fills ty.at? ty'.at? supply.next paths

/-- The types that are still to come follow those that are filled already. -/
theorem fills_of_threads {fields : Bool} {types : List Ty} (done done' : List Ty) {after : Supply}
    {result : Option (List Ty)} {start : Nat} {paths : List (List Nat)}
    (threads : Threads FillsAll fields types supply result after)
    (presents : ∀ ty ∈ types, ty.Present) (sameLength : done.length = done'.length)
    (reached : supply = ⟨start + paths.length⟩)
    (sofar : Fills (partAt? done) (partAt? done') start paths) :
    ∃ types' paths', result = some types' ∧ after = ⟨start + paths'.length⟩ ∧
      (∀ ty ∈ types', ty.isKnown = true) ∧
      Fills (partAt? (done ++ types)) (partAt? (done' ++ types')) start paths' := by
  induction threads generalizing done done' paths with
  | nil => exact ⟨[], paths, rfl, reached, nofun, by simpa using sofar⟩
  | cons _ head _ ih =>
    rw [List.forall_mem_cons] at presents
    obtain ⟨_, more, ⟨⟩, rfl, known, last⟩ := head presents.1
    subst reached
    have longer := sofar.concat sameLength last
    obtain ⟨rest', all, rfl, isAfter, knownRest, fills⟩ :=
      ih _ _ presents.2 (by simpa using sameLength) (by simp [Nat.add_assoc]) longer
    refine ⟨_ :: rest', all, rfl, isAfter, List.forall_mem_cons.mpr ⟨known, knownRest⟩, ?_⟩
    simpa using fills
  | stopped _ head => obtain ⟨_, _, ⟨⟩, _⟩ := head (presents _ List.mem_cons_self)
  | missing => cases presents _ List.mem_cons_self

theorem fillsAll_fillUnknowns (ty : Ty) (supply : Supply) :
    FillsAll ty supply (supply.fillUnknowns ty).1 (supply.fillUnknowns ty).2 := by
  refine rebuildWith_induction (motive := FillsAll) ?_ ?_ rfl
  · intro ty ty' supply middle made after same inside imaged present
    obtain ⟨_, paths, ⟨⟩, rfl, known, fills⟩ := fills_of_threads [] [] inside
      (fun part member => present.part member) rfl rfl fills_nil
    rw [List.nil_append, List.nil_append] at fills
    by_cases hole : ty = unknown
    · subst hole
      cases ty' <;> simp [sameFormer] at same
      obtain rfl : paths = [] := by
        refine List.eq_nil_iff_forall_not_mem.mpr fun path member => ?_
        have stands := (fills.complete path).mp member
        cases path <;> simp [partAt?, parts] at stands
      cases imaged
      exact ⟨_, [[]], rfl, rfl, rfl, fills_unknown⟩
    · have other : ty' ≠ unknown := by
        rintro rfl
        cases ty <;> simp [sameFormer] at same
        exact hole rfl
      have unchanged : (made, after) = (some ty', ⟨supply.next + paths.length⟩) := by
        rw [← imaged]
        cases ty' with
        | unknown => exact absurd rfl other
        | _ => rfl
      cases unchanged
      refine ⟨ty', paths, rfl, rfl, ?_, fills.of_parts same hole⟩
      refine isKnown_iff.mpr
        (all_iff.mpr ⟨?_, fun part member => isKnown_iff.mp (known part member)⟩)
      cases ty' with
      | unknown => exact absurd rfl other
      | _ => rfl
  · intro ty supply middle inside present
    obtain ⟨_, _, ⟨⟩, _⟩ :=
      fills_of_threads [] [] inside (fun part member => present.part member) rfl rfl fills_nil

theorem fillsAll_resolve (ty : Ty) (supply : Supply) :
    FillsAll ty supply (supply.resolve ty).1 (supply.resolve ty).2 := by
  intro present
  unfold resolve
  split
  · cases present
  · rw [Ty.isKnown?, present.search?]
    dsimp only [Option.map]
    split
    · next missing => cases missing
    · next known =>
        have known : ty.isKnown = true := Option.some.inj known
        exact ⟨ty, [], rfl, rfl, known, fills_of_isKnown known⟩
    · exact fillsAll_fillUnknowns ty supply present

/-- Resolving a present type has a result without placeholders. It is the one type in which the
placeholders, from left to right, have become the variables from the next unused one on and all else
is as before, and these variables are used up. So different placeholders become different variables,
and none that the type had before, as long as its variables are used ones. -/
theorem resolve_fills (supply : Supply) (present : ty.Present) :
    ∃ ty' paths, supply.resolve ty = (some ty', ⟨supply.next + paths.length⟩) ∧
      ty'.isKnown = true ∧ Fills ty.at? ty'.at? supply.next paths ∧
      (∀ other : Ty, Fills ty.at? other.at? supply.next paths → other = ty') ∧
      (∀ path path' id, ty.at? path = some unknown → ty.at? path' = some unknown →
        ty'.at? path = some (var id) → ty'.at? path' = some (var id) → path = path') ∧
      ((∀ id ∈ ty.vars, id < supply.next) → ∀ path id, ty.at? path = some unknown →
        ty'.at? path = some (var id) → id ∉ ty.vars) := by
  obtain ⟨ty', paths, made, isAfter, known, fills⟩ := fillsAll_resolve ty supply present
  refine ⟨ty', paths, Prod.ext made isAfter, known, fills, fun other => fills.unique, ?_, ?_⟩
  · intro path path' id hole hole' filled filled'
    obtain ⟨rank, ranked, same⟩ := fills.rank_of_unknown hole filled
    obtain ⟨rank', ranked', same'⟩ := fills.rank_of_unknown hole' filled'
    obtain rfl : rank = rank' := Nat.add_left_cancel (Int.ofNat_inj.mp (same.symm.trans same'))
    exact Option.some.inj (ranked.symm.trans ranked')
  · intro used path id hole filled member
    obtain ⟨rank, _, rfl⟩ := fills.rank_of_unknown hole filled
    exact absurd (Int.ofNat_lt.mp (used _ member)) (Nat.not_lt.mpr (Nat.le_add_right _ _))

/-- A record with a function from a placeholder to a placeholder, and a variable that was there. -/
theorem resolve_fills_record :
    let ty : Ty := .record [("f", .fn [.unknown, .var 1] .unknown), ("g", .list .unknown)]
    ty.Present ∧ (∀ id ∈ ty.vars, id < ((⟨3⟩ : Supply).next : Int)) ∧
      ∃ ty' paths, (⟨3⟩ : Supply).resolve ty = (some ty', ⟨3 + paths.length⟩) ∧
        ty'.isKnown = true ∧ Fills ty.at? ty'.at? 3 paths ∧
        (∀ other : Ty, Fills ty.at? other.at? 3 paths → other = ty') ∧
        (∀ path path' id, ty.at? path = some unknown → ty.at? path' = some unknown →
          ty'.at? path = some (var id) → ty'.at? path' = some (var id) → path = path') ∧
        ∀ path id, ty.at? path = some unknown → ty'.at? path = some (var id) → id ∉ ty.vars := by
  intro ty
  have used : ∀ id ∈ ty.vars, id < ((⟨3⟩ : Supply).next : Int) := by decide
  refine ⟨rfl, used, ?_⟩
  obtain ⟨ty', paths, resolved, known, fills, unique, distinct, apart⟩ :=
    resolve_fills ⟨3⟩ (rfl : ty.Present)
  exact ⟨ty', paths, resolved, known, fills, unique, distinct, apart used⟩

end Supply

end TraitCheck
