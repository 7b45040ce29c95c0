import TraitCheck.Proofs.Check.Emissions

/-!
# The order of the items of a module

All items are declared before any of them is looked into, so a module may interleave items of
different kinds as it likes. Declaring the items fills tables. Those of structs, enums and aliases
depend on the order of items of their own kind only, and those of names and spans on no order at
all, as long as the numbers of the items differ. From there on the check goes through the items kind
by kind, and does the same.
-/

namespace TraitCheck

namespace Item

/-- The kinds of items that are told apart. Structs and enums are of one kind. -/
inductive Kind where
  | missing
  | function
  | nominal
  | alias
  | trait
  | impl
  | foreign
  deriving DecidableEq, Repr

/-- The kind of an item. -/
def kind : Item → Kind
  | .missing => .missing
  | .function _ => .function
  | .struct _ | .enum _ => .nominal
  | .alias _ => .alias
  | .trait _ => .trait
  | .impl _ => .impl
  | .foreign _ _ _ => .foreign

/-- The same items in another order, in which items of one kind keep their order. -/
structure Reorders (items items' : List Item) : Prop where
  permuted : items'.Perm items
  inOrder : ∀ kind : Kind, items'.filter (·.kind = kind) = items.filter (·.kind = kind)

variable {items items' : List Item} {α : Type}

section Reorders

variable (reorders : Reorders items items')
include reorders

theorem Reorders.filterMap_eq {pick : Item → Option α} (kind : Kind)
    (only : ∀ item, item.kind ≠ kind → pick item = none) :
    items'.filterMap pick = items.filterMap pick := by
  have restrict : ∀ list : List Item,
      list.filterMap pick = (list.filter (·.kind = kind)).filterMap pick := by
    intro list
    rw [List.filterMap_filter]
    refine List.filterMap_congr fun item _ => ?_
    by_cases same : item.kind = kind
    · simp [same]
    · simp [same, only item same]
  rw [restrict items', restrict items, reorders.inOrder]

theorem Reorders.functions : Item.functions items' = Item.functions items := by
  refine reorders.filterMap_eq .function fun item other => ?_
  cases item with
  | function item => exact absurd rfl other
  | _ => rfl

theorem Reorders.aliases : Item.aliases items' = Item.aliases items := by
  refine reorders.filterMap_eq .alias fun item other => ?_
  cases item with
  | «alias» item => exact absurd rfl other
  | _ => rfl

theorem Reorders.traits : Item.traits items' = Item.traits items := by
  refine reorders.filterMap_eq .trait fun item other => ?_
  cases item with
  | trait item => exact absurd rfl other
  | _ => rfl

theorem Reorders.impls : Item.impls items' = Item.impls items := by
  refine reorders.filterMap_eq .impl fun item other => ?_
  cases item with
  | impl item => exact absurd rfl other
  | _ => rfl

end Reorders

end Item

namespace Checker

variable {items items' : List Item} {settings : Settings}

/-- Declaring the items in another order leads to a state that differs in its surface only. -/
theorem alike_withItems (settings : Settings) (distinct : (items.filterMap Item.id?).Nodup)
    (reorders : Item.Reorders items items') :
    Alike settings settings ((initial settings).withItems items)
        ((initial settings).withItems items') ∧
      ((initial settings).withItems items').log = ((initial settings).withItems items).log := by
  have structs : items'.filterMap Item.structEntry? = items.filterMap Item.structEntry? :=
    reorders.filterMap_eq .nominal fun item other => by
      cases item with
      | struct item => exact absurd rfl other
      | _ => rfl
  have enums : items'.filterMap Item.enumEntry? = items.filterMap Item.enumEntry? :=
    reorders.filterMap_eq .nominal fun item other => by
      cases item with
      | enum item => exact absurd rfl other
      | _ => rfl
  have aliases : items'.filterMap Item.aliasEntry? = items.filterMap Item.aliasEntry? :=
    reorders.filterMap_eq .alias fun item other => by
      cases item with
      | «alias» item => exact absurd rfl other
      | _ => rfl
  have reports : items'.filterMap Item.foreignReport? = items.filterMap Item.foreignReport? :=
    reorders.filterMap_eq .foreign fun item other => by
      cases item with
      | foreign name decl span => exact absurd rfl other
      | _ => rfl
  have distinct' : (items'.filterMap Item.id?).Nodup :=
    (reorders.permuted.filterMap Item.id?).nodup_iff.mpr distinct
  refine ⟨?_, ?_⟩
  · have same : (initial settings).withItems items' = ((initial settings).withItems items).under
        ((initial settings).withItems items').surface := by
      simp only [withItems, structs, enums, aliases, under, surface]
    rw [same]
    refine .intro _ _ rfl rfl ?_ ?_
    · exact Table.find?_insertAll_perm (reorders.permuted.filterMap _)
        (Item.nodup_keys distinct' fun item _ named => by cases item <;> cases named <;> rfl) _
    · exact Table.find?_insertAll_perm (reorders.permuted.filterMap _)
        (Item.nodup_keys distinct' fun item _ placed => by cases item <;> cases placed <;> rfl) _
  · rw [withItems, withItems, reports]

theorem forM_collectMembers (items : List Item) :
    items.forM collectMembers = (items.filter (·.kind = .nominal)).forM collectMembers := by
  induction items with
  | nil => rfl
  | cons item rest ih =>
    change collectMembers item >>= (fun _ => rest.forM collectMembers) = _
    rw [ih]
    cases item <;> rfl

theorem settle_reordered (reorders : Item.Reorders items items') :
    settle items' = settle items := by
  rw [settle, settle, collectContents, collectContents, forM_collectMembers items',
    forM_collectMembers items, reorders.inOrder, reorders.functions, reorders.traits,
      reorders.impls]

/-- The answers to questions for the expansions of aliases, one after the other. -/
def aliasAnswers (checker : Checker) : List (DefId × List Ty) → List (Option (Option Ty))
  | [] => []
  | (decl, args) :: rest =>
    (checker.resolveAlias decl args).1 :: aliasAnswers (checker.resolveAlias decl args).2 rest

/-- Two checks have the same diagnostics, and their states answer all questions alike. -/
structure SameAnswers (first second : Checker) : Prop where
  log : second.log = first.log
  functionTypes : ∀ decl, second.functionType? decl = first.functionType? decl
  fieldTypes : ∀ decl field, second.structFieldType? decl field = first.structFieldType? decl field
  fields : ∀ decl, second.structFields? decl = first.structFields? decl
  variantTypes : ∀ decl name, second.enumVariantTypes? decl name = first.enumVariantTypes? decl name
  variants : ∀ decl, second.enumVariants? decl = first.enumVariants? decl
  aliases : ∀ questions, second.aliasAnswers questions = first.aliasAnswers questions
  spans : ∀ decl, second.spans.find? decl = first.spans.find? decl
  names : ∀ decl, second.nameOf decl = first.nameOf decl
  registry : second.registry = first.registry

theorem resolveAlias_under (checker : Checker) (surface : Surface) (decl : DefId) (args : List Ty) :
    (checker.under surface).resolveAlias decl args =
      ((checker.resolveAlias decl args).1, (checker.resolveAlias decl args).2.under surface) := by
  have same : (checker.under surface).aliases.find? decl = checker.aliases.find? decl := rfl
  unfold resolveAlias
  rw [same]
  rcases checker.aliases.find? decl with _ | info
  · rfl
  · dsimp only
    split <;> rfl

theorem aliasAnswers_under (checker : Checker) (surface : Surface)
    (questions : List (DefId × List Ty)) :
    (checker.under surface).aliasAnswers questions = checker.aliasAnswers questions := by
  induction questions generalizing checker with
  | nil => rfl
  | cons question rest ih => rw [aliasAnswers, aliasAnswers, resolveAlias_under, ih]

theorem Alike.sameAnswers {first second : Checker} (alike : Alike settings settings first second)
    (sameLog : second.log = first.log) : SameAnswers first second := by
  cases alike with
  | intro surface ofLeft ofRight names spans =>
    exact {
      log := sameLog
      functionTypes := fun _ => rfl
      fieldTypes := fun _ _ => rfl
      fields := fun _ => rfl
      variantTypes := fun _ _ => rfl
      variants := fun _ => rfl
      aliases := aliasAnswers_under first surface
      spans := spans
      names := names
      registry := rfl }

/-- How items of different kinds are interleaved does not matter: a module with items in another
order, in which the order among items of each kind is kept, has the same diagnostics in the same
order and the same types, declarations and traits. -/
theorem check_reordered (settings : Settings) (present : Item.missing ∉ items)
    (distinct : (items.filterMap Item.id?).Nodup) (reorders : Item.Reorders items items') :
    SameAnswers (check settings (some items)) (check settings (some items')) := by
  have present' : Item.missing ∉ items' := fun member => present (reorders.permuted.subset member)
  have rest : Agrees settings settings .any
      (checkAliasCycles (Item.aliases items) >>= fun _ => settle items) fun _ => True :=
    agrees_bind (agrees_checkAliasCycles _) fun _ _ =>
      (agrees_settle items).mono (Effects.within_any _) fun _ _ => trivial
  have ran : ∀ {list : List Item}, Item.missing ∉ list → checkItems list (initial settings) =
      (checkAliasCycles (Item.aliases list) >>= fun _ => settle list)
        ((initial settings).withItems list) := by
    intro list present
    rw [checkItems_eq]
    change EStateM.bind (list.forM declareItem) _ _ = _
    rw [EStateM.bind, forM_declareItem present]
  obtain ⟨alike, sameLog⟩ := alike_withItems settings distinct reorders
  have together := (rest alike).conclude (fun _ _ => trivial) fun apart => absurd rfl apart
  rw [check_eq_conclude, check_eq_conclude, ran present, ran present', settle_reordered reorders,
    reorders.aliases]
  obtain ⟨alike, _, emitted, _, logs, logs'⟩ := together
  refine alike.sameAnswers ?_
  rw [logs', logs, sameLog]

/-- A function whose result is written as an alias that comes later. -/
def originItems : List Item :=
  [.function
      { id := ⟨1⟩, name := "origin", span := .empty, generics := [], params := []
        result := .named ⟨2⟩ []
        body := .structLit ⟨3⟩ [⟨"x", .literal ⟨.int, "0", .empty⟩, .empty⟩] .empty },
    .alias ⟨⟨2⟩, "Position", .empty, [], .named ⟨3⟩ []⟩]

/-- The struct behind the alias, and an item outside the language. -/
def pointItems : List Item :=
  [.struct ⟨⟨3⟩, "Point", .empty, [], [⟨"x", .int, .empty⟩]⟩, .foreign "Macro" ⟨4⟩ .empty]

theorem check_reordered_pointFirst :
    Item.missing ∉ originItems ++ pointItems ∧
      ((originItems ++ pointItems).filterMap Item.id?).Nodup ∧
      Item.Reorders (originItems ++ pointItems) (pointItems ++ originItems) ∧
      SameAnswers (check {} (some (originItems ++ pointItems)))
        (check {} (some (pointItems ++ originItems))) := by
  have present : Item.missing ∉ originItems ++ pointItems := by simp [originItems, pointItems]
  have distinct : ((originItems ++ pointItems).filterMap Item.id?).Nodup := by decide
  have reorders : Item.Reorders (originItems ++ pointItems) (pointItems ++ originItems) :=
    ⟨List.perm_append_comm, fun kind => by cases kind <;> rfl⟩
  exact ⟨present, distinct, reorders, check_reordered {} present distinct reorders⟩

end Checker

end TraitCheck
