import TraitCheck.Proofs.AliasCycles
import TraitCheck.Proofs.Presence

/-!
# Expanding aliases

`Expands` says without a limit what an expansion does: the components of a type come first, then a
reference to an alias is replaced by the expansion of its target, and one to a cyclic alias by a
variable. Arguments are expanded before they are put into a target, so all aliases in the resulting
type come from the target, and the limit is never reached if references from target to target never
come back to an alias that is not marked.
-/

namespace TraitCheck

variable {ty ty' : Ty} {fields : Bool} {types' : List Ty}
variable {met : List VarId} {types : List Ty} {args : List Ty} {part : Ty}

namespace Ty

variable {decl : DefId} {ty : Ty}

theorem Mentions.of_part (mentions : part.Mentions decl) (member : part ∈ ty.parts) :
    ty.Mentions decl :=
  mentions_iff.mpr (.inr ⟨part, member, mentions⟩)

theorem Mentions.of_substParams (mentions : (ty.substParams args).Mentions decl) :
    ty.Mentions decl ∨ ∃ arg ∈ args, arg.Mentions decl := by
  rw [substParams_eq_bindLeaves] at mentions
  induction ty with
  | step ty ih =>
    rcases leaf_or_not ty with ⟨id, rfl⟩ | ⟨index, name, rfl⟩ | ⟨noVar, noParam⟩
    · cases mentions
    · rw [bindLeaves_param] at mentions
      rcases argOr_cases args index name with same | given
      · rw [same] at mentions
        cases mentions
      · exact .inr ⟨_, given, mentions⟩
    · rcases mentions_iff.mp mentions with ⟨images, isNamed⟩ | ⟨image, member, inside⟩
      · refine .inl (mentions_iff.mpr (.inl ?_))
        cases ty <;> simp at noVar noParam isNamed
        exact ⟨_, by rw [isNamed.1]⟩
      · rw [parts_bindLeaves noVar noParam] at member
        rcases List.mem_map.mp member with ⟨part, isPart, rfl⟩
        exact (ih part isPart inside).imp_left fun mentions => mentions.of_part isPart

end Ty

namespace Alias

open Ty (named var absent)

variable {aliases : Table DefId AliasInfo}

/-- The type mentions no alias. -/
def Free (aliases : Table DefId AliasInfo) (ty : Ty) : Prop :=
  ∀ decl, ty.Mentions decl → aliases.find? decl = none

theorem Free.of_part (free : Free aliases ty) (member : part ∈ ty.parts) : Free aliases part :=
  fun decl mentions => free decl (mentions.of_part member)

theorem free_of_former (plain : ∀ decl args, ty = named decl args → aliases.find? decl = none)
    (same : ty.sameFormer ty' = true) (parts : ∀ part ∈ ty'.parts, Free aliases part) :
    Free aliases ty' := by
  intro decl mentions
  rcases Ty.mentions_iff.mp mentions with ⟨args', rfl⟩ | ⟨part, member, inside⟩
  · cases ty <;> simp [Ty.sameFormer] at same
    exact plain _ _ (by rw [same.1])
  · exact parts part member decl inside

/-- An alias that is not marked as cyclic has another alias in its target. -/
def Uses (aliases : Table DefId AliasInfo) (source target : DefId) : Prop :=
  ∃ info, aliases.find? source = some info ∧ info.cyclic = false ∧ info.target.Mentions target ∧
    aliases.find? target ≠ none

mutual

/-- A type is expanded, with the variables that references to cyclic aliases were replaced by, in
order. There is no result if the expansion stops at a record that lacks a field type. -/
inductive Expands (aliases : Table DefId AliasInfo) : Ty → List VarId → Option Ty → Prop
  | former {ty ty' : Ty} {met : List VarId}
      (plain : ∀ decl args, ty = named decl args → aliases.find? decl = none)
      (same : ty.sameFormer ty' = true)
      (parts : ExpandsAll aliases ty.isRecord ty.parts met (some ty'.parts)) :
      Expands aliases ty met (some ty')
  | stopped {ty : Ty} {met : List VarId}
      (parts : ExpandsAll aliases ty.isRecord ty.parts met none) :
      Expands aliases ty met none
  | cyclic {decl : DefId} {args args' : List Ty} {met : List VarId} {info : AliasInfo}
      (id : VarId) (inside : ExpandsAll aliases false args met (some args'))
      (found : aliases.find? decl = some info) (marked : info.cyclic = true) :
      Expands aliases (named decl args) (met ++ [id]) (some (var id))
  | unfolded {decl : DefId} {args args' : List Ty} {met more : List VarId}
      {info : AliasInfo} {ty : Ty}
      {result : Option Ty} (inside : ExpandsAll aliases false args met (some args'))
      (found : aliases.find? decl = some info) (unmarked : info.cyclic = false)
      (target : info.target.substParams? args' = some ty)
      (further : Expands aliases ty more result) :
      Expands aliases (named decl args) (met ++ more) result
  | incomplete {decl : DefId} {args args' : List Ty} {met : List VarId} {info : AliasInfo}
      (inside : ExpandsAll aliases false args met (some args'))
      (found : aliases.find? decl = some info) (unmarked : info.cyclic = false)
      (target : info.target.substParams? args' = none) :
      Expands aliases (named decl args) met none

/-- Types are expanded from left to right. Where they are the fields of a record, none of them may
be absent. -/
inductive ExpandsAll (aliases : Table DefId AliasInfo) :
    Bool → List Ty → List VarId → Option (List Ty) → Prop
  | nil {fields : Bool} : ExpandsAll aliases fields [] [] (some [])
  | cons {fields : Bool} {ty ty' : Ty} {rest : List Ty} {met more : List VarId}
      {result : Option (List Ty)} (present : (fields && ty.isAbsent) = false)
      (head : Expands aliases ty met (some ty'))
      (tail : ExpandsAll aliases fields rest more result) :
      ExpandsAll aliases fields (ty :: rest) (met ++ more) (result.map (ty' :: ·))
  | stopped {fields : Bool} {ty : Ty} {rest : List Ty} {met : List VarId}
      (present : (fields && ty.isAbsent) = false) (head : Expands aliases ty met none) :
      ExpandsAll aliases fields (ty :: rest) met none
  | missing {rest : List Ty} : ExpandsAll aliases true (absent :: rest) [] none

end

section Results

theorem Expands.result_induction {motive : Ty → Ty → Prop}
    (former : ∀ {ty ty' : Ty}, (∀ decl args, ty = named decl args → aliases.find? decl = none) →
      ty.sameFormer ty' = true → List.Forall₂ motive ty.parts ty'.parts → motive ty ty')
    (cyclic : ∀ {decl : DefId} {args : List Ty} {info : AliasInfo} (id : VarId),
      aliases.find? decl = some info → info.cyclic = true → motive (named decl args) (var id))
    (unfolded : ∀ {decl : DefId} {args args' : List Ty} {info : AliasInfo} {ty' : Ty},
      List.Forall₂ motive args args' → aliases.find? decl = some info → info.cyclic = false →
      motive (info.target.substParams args') ty' → motive (named decl args) ty')
    (expands : Expands aliases ty met (some ty')) : motive ty ty' := by
  refine @Expands.rec aliases (fun ty _ result _ => ∀ ty', result = some ty' → motive ty ty')
    (fun _ types _ result _ => ∀ types', result = some types' → List.Forall₂ motive types types')
    ?_ ?_ ?_ ?_ ?_ ?_ ?_ ?_ ?_ ty met _ expands ty' rfl
  · rintro ty ty' met plain same _ ih _ ⟨⟩
    exact former plain same (ih _ rfl)
  · nofun
  · rintro decl args args' met info id _ found marked _ _ ⟨⟩
    exact cyclic id found marked
  · rintro decl args args' met more info ty result _ found unmarked target _ ih ihTarget ty' rfl
    cases Ty.substParams?_eq_some target
    exact unfolded (ih _ rfl) found unmarked (ihTarget _ rfl)
  · nofun
  · rintro _ _ ⟨⟩
    exact .nil
  · rintro _ ty ty' rest met more result _ _ _ ih ihRest types' mapped
    rcases Option.map_eq_some_iff.mp mapped with ⟨rest', rfl, rfl⟩
    exact .cons (ih _ rfl) (ihRest _ rfl)
  · nofun
  · nofun

theorem ExpandsAll.forall₂ (expands : ExpandsAll aliases fields types met (some types')) :
    List.Forall₂ (fun ty ty' => ∃ met, Expands aliases ty met (some ty')) types types' := by
  induction types generalizing types' met with
  | nil =>
    cases expands
    exact .nil
  | cons ty rest ih =>
    generalize reached : some types' = result at expands
    cases expands with
    | cons _ head tail =>
      rcases Option.map_eq_some_iff.mp reached.symm with ⟨rest', rfl, rfl⟩
      exact .cons ⟨_, head⟩ (ih tail)
    | _ => cases reached

theorem Expands.free (expands : Expands aliases ty met (some ty')) : Free aliases ty' := by
  refine Expands.result_induction (motive := fun _ ty' => Free aliases ty') ?_ ?_ ?_ expands
  · intro ty ty' plain same parts
    refine free_of_former plain same fun part member => ?_
    rcases exists_partner parts member with ⟨_, _, free⟩
    exact free
  · intro decl args info id found marked other mentions
    cases mentions
  · intro decl args args' info ty' _ _ _ free
    exact free

theorem ExpandsAll.free (expands : ExpandsAll aliases fields types met (some types')) :
    ∀ ty ∈ types', Free aliases ty := by
  intro ty member
  rcases exists_partner expands.forall₂ member with ⟨_, _, _, expanded⟩
  exact expanded.free

end Results

/-- An expansion that takes its variables from the supply, one after the other. -/
def Draws {α : Type} (expands : List VarId → Option α → Prop) (supply : Supply)
    (outcome : Option α × Supply) : Prop :=
  ∃ count, expands (Subst.consecutive supply.next count) outcome.1 ∧
    outcome.2 = ⟨supply.next + count⟩

section Draws

variable {α β γ : Type} {supply middle after : Supply} {first : List VarId → Option α → Prop}
  {second : List VarId → Option β → Prop} {whole : List VarId → Option γ → Prop} {value : α}

theorem Draws.imp {result : Option α} {image : Option γ}
    (drawn : Draws first supply (result, after))
    (step : ∀ met, first met result → whole met image) : Draws whole supply (image, after) := by
  rcases drawn with ⟨count, expands, rfl⟩
  exact ⟨count, step _ expands, rfl⟩

theorem Draws.append {result : Option β} {image : Option γ}
    (early : Draws first supply (some value, middle)) (late : Draws second middle (result, after))
    (step : ∀ met more, first met (some value) → second more result → whole (met ++ more) image) :
    Draws whole supply (image, after) := by
  rcases early with ⟨count, expands, rfl⟩
  rcases late with ⟨more, further, rfl⟩
  refine ⟨count + more, ?_, by rw [Nat.add_assoc]⟩
  rw [← Subst.consecutive_append]
  exact step _ _ expands (by simpa using further)

theorem Draws.fresh {image : Option γ} (early : Draws first supply (some value, middle))
    (step : ∀ met, first met (some value) → whole (met ++ [(middle.next : VarId)]) image) :
    Draws whole supply (image, ⟨middle.next + 1⟩) := by
  have drawn : Draws (fun met (_ : Option Unit) => met = [(middle.next : VarId)]) middle
      (none, ⟨middle.next + 1⟩) :=
    ⟨1, by simp [Subst.consecutive], rfl⟩
  refine early.append drawn ?_
  rintro met _ expands rfl
  exact step met expands

end Draws

section Walk

variable {image : Ty → Supply → Option Ty × Supply}

theorem Draws.of_threads {expandable : Ty → Prop} {supply after : Supply}
    {result : Option (List Ty)}
    (threads : Ty.Threads (fun ty supply made after => expandable ty →
      Draws (Expands aliases ty) supply (made, after)) fields types supply result after)
    (each : ∀ ty ∈ types, expandable ty) :
    Draws (ExpandsAll aliases fields types) supply (result, after) := by
  induction threads with
  | nil => exact ⟨0, .nil, rfl⟩
  | cons present head _ ih =>
    rw [List.forall_mem_cons] at each
    exact (head each.1).append (ih each.2) fun _ _ first further => .cons present first further
  | stopped present head =>
    exact (head (each _ List.mem_cons_self)).imp fun _ stopped => .stopped present stopped
  | missing record =>
    subst record
    exact ⟨0, .missing, rfl⟩

theorem draws_rebuildWith (others : ∀ node supply, (∀ decl args, node ≠ named decl args) →
      image node supply = (some node, supply))
    (names : ∀ decl, ty.Mentions decl → ∀ args args' supply middle,
      Draws (ExpandsAll aliases false args) supply (some args', middle) →
      Draws (Expands aliases (named decl args)) supply (image (named decl args') middle))
    (supply : Supply) : Draws (Expands aliases ty) supply (ty.rebuildWith image supply) := by
  refine Ty.rebuildWith_induction (motive := fun ty supply made after =>
    (∀ decl, ty.Mentions decl → ∀ args args' supply middle,
      Draws (ExpandsAll aliases false args) supply (some args', middle) →
      Draws (Expands aliases (named decl args)) supply (image (named decl args') middle)) →
    Draws (Expands aliases ty) supply (made, after)) ?_ ?_ rfl names
  · intro ty ty' supply middle made after same inside imaged names
    have drawn := Draws.of_threads inside fun part member decl mentions =>
      names decl (mentions.of_part member)
    cases ty' with
    | named decl args' =>
      cases ty <;> simp [Ty.sameFormer] at same
      obtain ⟨rfl, _⟩ := same
      exact imaged ▸ names _ (.named _) _ args' supply middle drawn
    | _ =>
      rw [others] at imaged
      · cases imaged
        refine drawn.imp fun met expands => .former ?_ same expands
        rintro _ _ rfl
        cases same
      · nofun
  · intro ty supply middle inside names
    refine Draws.imp (Draws.of_threads inside ?_) fun _ stopped => .stopped stopped
    exact fun part member decl mentions => names decl (mentions.of_part member)

end Walk

theorem rank_lt_of_target (rank : aliases.Rank (Uses aliases)) {decl other : DefId}
    {info : AliasInfo} (found : aliases.find? decl = some info)
    (unmarked : info.cyclic = false) (free : ∀ arg ∈ args, Free aliases arg)
    (mentions : (info.target.substParams args).Mentions other)
    (isAlias : aliases.find? other ≠ none) :
    rank.of other < rank.of decl := by
  rcases mentions.of_substParams with inTarget | ⟨arg, isArg, inArg⟩
  · exact rank.falls ⟨info, found, unmarked, inTarget, isAlias⟩
  · exact absurd (free arg isArg other inArg) isAlias

theorem draws_expandWithin (rank : aliases.Rank (Uses aliases)) {limit : Nat}
    (positive : 0 < limit)
    (low : ∀ decl, ty.Mentions decl → aliases.find? decl ≠ none → rank.of decl < limit)
    (supply : Supply) :
    Draws (Expands aliases ty) supply (expandWithin aliases limit ty supply) := by
  induction limit generalizing ty supply with
  | zero => exact absurd positive (Nat.lt_irrefl 0)
  | succ limit ih =>
    rw [expandWithin]
    apply draws_rebuildWith
    · intro node supply other
      cases node with
      | named decl args => exact absurd rfl (other decl args)
      | _ => rfl
    · intro decl mentions args args' supply middle inside
      dsimp only
      rcases found : aliases.find? decl with _ | info
      · refine inside.imp fun met expands => .former ?_ ?_ expands
        · rintro _ _ ⟨⟩
          exact found
        · simpa [Ty.sameFormer] using expands.forall₂.length_eq
      · have below := low decl mentions (by simp [found])
        dsimp only
        split
        · next marked => exact inside.fresh fun met expands => .cyclic _ expands found marked
        · next unmarked =>
            have unmarked : info.cyclic = false := by simpa using unmarked
            split
            · next ty' target =>
                have free : ∀ arg ∈ args', Free aliases arg := by
                  rcases inside with ⟨_, expands, _⟩
                  exact expands.free
                refine inside.append (ih ?_ ?_ middle) fun met more expands further =>
                  .unfolded expands found unmarked target further
                · have := rank.positive (Table.mem_keys_of_find? found)
                  omega
                · rw [Ty.substParams?_eq_some target]
                  intro other inTarget isOther
                  have := rank_lt_of_target rank found unmarked free inTarget isOther
                  omega
            · next target =>
                exact inside.imp fun met expands => .incomplete expands found unmarked target

theorem expandsAll_self (each : ∀ ty ∈ types, Expands aliases ty [] (some ty))
    (present : ∀ ty ∈ types, ty.Present) : ExpandsAll aliases fields types [] (some types) := by
  induction types with
  | nil => exact .nil
  | cons ty rest ih =>
    rw [List.forall_mem_cons] at each present
    exact .cons (by simp [present.1.isAbsent]) each.1 (ih each.2 present.2)

theorem expands_self (free : Free aliases ty) (present : ty.Present) :
    Expands aliases ty [] (some ty) := by
  induction ty with
  | step ty ih =>
    refine .former ?_ (Ty.sameFormer_refl ty) (expandsAll_self ?_ fun part => present.part)
    · rintro decl args rfl
      exact free decl (.named args)
    · intro part member
      exact ih part member (free.of_part member) (present.part member)

theorem free_of_size_eq_zero (empty : aliases.size = 0) (ty : Ty) : Free aliases ty := by
  intro decl _
  rw [Table.size, List.length_eq_zero_iff] at empty
  rw [Table.find?, empty]
  rfl

/-- If no unmarked alias leads back to itself, every expansion comes to its end. Without aliases a
type is not looked into, so it has to be present then. -/
theorem draws_expand (acyclic : ∀ decl, ¬Relation.TransGen (Uses aliases) decl decl)
    (looked : aliases.size ≠ 0 ∨ ty.Present) (supply : Supply) :
    Draws (Expands aliases ty) supply (expand aliases ty supply) := by
  rw [expand]
  split
  · next empty =>
      have present := looked.resolve_left fun some => some empty
      exact ⟨0, expands_self (free_of_size_eq_zero empty ty) present, rfl⟩
  · have fromKeys : ∀ {source target}, Uses aliases source target → source ∈ aliases.keys := by
      rintro source target ⟨info, found, _⟩
      exact Table.mem_keys_of_find? found
    rcases Table.exists_rank fromKeys acyclic with ⟨rank⟩
    refine draws_expandWithin rank (Nat.succ_pos _) (fun decl _ _ => ?_) supply
    exact Nat.lt_succ_of_le (rank.bounded decl)

end Alias

end TraitCheck
