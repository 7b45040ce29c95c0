import TraitCheck.Proofs.Check.Calls
import TraitCheck.Proofs.Check.Policies

/-!
# What a check does to its state

`Change` lists what can happen to a state in one go, and every procedure of the checker only makes
such changes one after the other. So whatever a single change preserves is preserved by the whole
check: the policy, the bindings made so far, the count of errors, and the declarations once they are
collected. `Keeps` is the statement about a step from which all of this is read off.
-/

namespace TraitCheck

variable {ty expected : Ty} {decl : DefId} {diagnostic : Diagnostic}

def Signature.types (signature : Signature) : List Ty := signature.params ++ [signature.result]

def StructInfo.types (info : StructInfo) : List Ty := info.fields.map Prod.snd

def EnumInfo.types (info : EnumInfo) : List Ty := info.variants.flatMap (·.fields)

def MethodDecl.types (decl : MethodDecl) : List Ty := decl.params ++ [decl.result]

def AssocDecl.types (decl : AssocDecl) : List Ty :=
  if decl.default.isAbsent then [] else [decl.default]

def Trait.types (trait : Trait) : List Ty :=
  trait.methods.flatMap MethodDecl.types ++ trait.assocTypes.flatMap AssocDecl.types

def Impl.types (impl : Impl) : List Ty :=
  impl.implementer :: (impl.methods.map (·.ty) ++ impl.assocTypes.map (·.content))

/-- The type may be held by the state. -/
abbrev Policy.FitsIn (policy : Policy) (checker : Checker) (ty : Ty) : Prop :=
  policy.Fits checker.supply.next ty

theorem Log.errorCount_le_add (log : Log) (diagnostic : Diagnostic) :
    log.errorCount ≤ (log.add diagnostic).errorCount := by
  unfold Log.add
  split
  · dsimp only
    split <;> exact Nat.le_succ _
  · exact le_rfl

theorem Log.errorCount_add (log : Log) (isError : diagnostic.severity = .error) :
    (log.add diagnostic).errorCount = log.errorCount + 1 := by
  unfold Log.add
  rw [if_pos isError]
  dsimp only
  split <;> rfl

theorem Log.errorCount_add_pos (log : Log) (isError : diagnostic.severity = .error) :
    0 < (log.add diagnostic).errorCount := by
  rw [log.errorCount_add isError]
  exact Nat.succ_pos _

namespace Checker

/-- The types of the members of structs, enums and traits. -/
def memberTypes (checker : Checker) : List Ty :=
  checker.structs.values.flatMap StructInfo.types ++ checker.enums.values.flatMap EnumInfo.types ++
    checker.registry.traits.flatMap Trait.types

/-- The types of all declarations. -/
def declaredTypes (checker : Checker) : List Ty :=
  checker.globals.values ++ checker.signatures.values.flatMap Signature.types ++
    checker.memberTypes ++ checker.registry.impls.flatMap Impl.types

variable {checker : Checker}

theorem mem_declaredTypes :
    ty ∈ checker.declaredTypes ↔
      ty ∈ checker.globals.values ∨ ty ∈ checker.signatures.values.flatMap Signature.types ∨
      ty ∈ checker.structs.values.flatMap StructInfo.types ∨
      ty ∈ checker.enums.values.flatMap EnumInfo.types ∨
      ty ∈ checker.registry.traits.flatMap Trait.types ∨
      ty ∈ checker.registry.impls.flatMap Impl.types := by
  simp only [declaredTypes, memberTypes, List.mem_append, or_assoc]

/-- The bindings are acyclic, and the types of a state fit a policy. -/
structure Obeys (policy : Policy) (checker : Checker) : Prop where
  started : policy.base ≤ checker.supply.next
  acyclic : checker.subst.Acyclic
  bound : ∀ ⦃id ty⦄, checker.subst.lookup id = some ty → policy.exempt id = false →
    policy.FitsIn checker (.var id) ∧ policy.FitsIn checker ty
  params : ∀ ty ∈ checker.subst.params.values, policy.FitsIn checker ty
  locals : ∀ info ∈ checker.locals.values, policy.FitsIn checker info.ty
  declared : ∀ ty ∈ checker.declaredTypes, policy.FitsIn checker ty
  aliases : ∀ info ∈ checker.aliases.values, policy.Writes 0 info.target

variable {policy : Policy} {declaring : Bool}

section Obeys

variable (obeys : checker.Obeys policy)
include obeys

theorem Obeys.closed : checker.subst.Closed (policy.Fits checker.supply.next) :=
  fun _ _ bound fits => (obeys.bound bound (policy.apart fits.allowed)).2

theorem Obeys.global (found : checker.globals.find? decl = some ty) : policy.FitsIn checker ty :=
  obeys.declared ty (mem_declaredTypes.mpr (.inl (Table.mem_values_of_find? found)))

theorem Obeys.signature {signature : Signature}
    (found : checker.signatures.find? decl = some signature) :
    ∀ ty ∈ signature.types, policy.FitsIn checker ty := by
  intro ty member
  have := List.mem_flatMap_of_mem (Table.mem_values_of_find? found) member
  exact obeys.declared ty (mem_declaredTypes.mpr (by tauto))

theorem Obeys.struct {info : StructInfo} (found : checker.structs.find? decl = some info) :
    ∀ ty ∈ info.types, policy.FitsIn checker ty := by
  intro ty member
  have := List.mem_flatMap_of_mem (Table.mem_values_of_find? found) member
  exact obeys.declared ty (mem_declaredTypes.mpr (by tauto))

theorem Obeys.enum {info : EnumInfo} (found : checker.enums.find? decl = some info) :
    ∀ ty ∈ info.types, policy.FitsIn checker ty := by
  intro ty member
  have := List.mem_flatMap_of_mem (Table.mem_values_of_find? found) member
  exact obeys.declared ty (mem_declaredTypes.mpr (by tauto))

theorem Obeys.trait {trait : Trait} (registered : trait ∈ checker.registry.traits) :
    ∀ ty ∈ trait.types, policy.FitsIn checker ty := by
  intro ty member
  have := List.mem_flatMap_of_mem registered member
  exact obeys.declared ty (mem_declaredTypes.mpr (by tauto))

theorem Obeys.impl {impl : Impl} (registered : impl ∈ checker.registry.impls) :
    ∀ ty ∈ impl.types, policy.FitsIn checker ty := by
  intro ty member
  have := List.mem_flatMap_of_mem registered member
  exact obeys.declared ty (mem_declaredTypes.mpr (by tauto))

end Obeys

/-- The type of each function with a signature is made from the signature. -/
def Linked (checker : Checker) : Prop :=
  ∀ ⦃decl signature⦄, checker.signatures.find? decl = some signature →
    ∃ item : FunctionItem,
      checker.globals.find? decl = some (item.scheme signature.params signature.result)

/-- Functions stay declared and linked to their types. -/
structure KeepsFunctions (before after : Checker) : Prop where
  declared : ∀ decl, (before.signatures.find? decl).isSome = true →
    (after.signatures.find? decl).isSome = true
  linked : before.Linked → after.Linked

theorem KeepsFunctions.of_same {before after : Checker}
    (signatures : after.signatures = before.signatures) (globals : after.globals = before.globals) :
    KeepsFunctions before after := by
  refine ⟨fun decl => signatures ▸ id, fun linked decl signature found => ?_⟩
  rw [signatures] at found
  rw [globals]
  exact linked found

theorem KeepsFunctions.trans {first second third : Checker} (early : KeepsFunctions first second)
    (late : KeepsFunctions second third) : KeepsFunctions first third :=
  ⟨fun decl found => late.declared decl (early.declared decl found),
    fun linked => late.linked (early.linked linked)⟩

/-- Something is said about the check, and nothing else changes. -/
inductive Remark (before : Checker) : Checker → Prop
  | report (diagnostic : Diagnostic) :
      Remark before { before with log := before.log.add diagnostic }
  | trace (trace : List String) : Remark before { before with trace }

/-- One change of the state of a check. Declarations change only while they are collected. -/
inductive Change (policy : Policy) (declaring : Bool) (before : Checker) : Checker → Prop
  | remark {after : Checker} (remark : Remark before after) :
      Change policy declaring before after
  | current (current : Option Span) : Change policy declaring before { before with current }
  | supply (supply : Supply) (grows : before.supply.next ≤ supply.next) :
      Change policy declaring before { before with supply }
  | locals (locals : Locals)
      (fit : ∀ info ∈ locals.values,
        (∃ old ∈ before.locals.values, old.ty = info.ty) ∨ policy.FitsIn before info.ty) :
      Change policy declaring before { before with locals }
  | params (params : Table Int Ty)
      (fit : ∀ ty ∈ params.values, ty ∈ before.subst.params.values ∨ policy.FitsIn before ty) :
      Change policy declaring before { before with subst := { before.subst with params } }
  | unify {expected found : Ty} (fitsExpected : policy.FitsIn before expected)
      (fitsFound : policy.FitsIn before found) :
      Change policy declaring before
        { before with subst := (before.subst.unify expected found).1 }
  | declare {after : Checker} (collecting : declaring = true)
      (rest : after = { before with
        registry := after.registry, names := after.names, spans := after.spans,
        structs := after.structs, enums := after.enums, aliases := after.aliases,
        globals := after.globals, signatures := after.signatures })
      (types : ∀ ty ∈ after.declaredTypes, ty ∈ before.declaredTypes ∨ policy.FitsIn before ty)
      (targets : ∀ info ∈ after.aliases.values,
        (∃ old ∈ before.aliases.values, old.target = info.target) ∨
          policy.Writes 0 info.target)
      (functions : KeepsFunctions before after) :
      Change policy declaring before after

/-- Any number of changes. -/
abbrev Changes (policy : Policy) (declaring : Bool) : Checker → Checker → Prop :=
  Relation.ReflTransGen (Change policy declaring)

variable {before after : Checker}

theorem Changes.trans {middle : Checker} (early : Changes policy declaring before middle)
    (late : Changes policy declaring middle after) : Changes policy declaring before after :=
  Relation.ReflTransGen.trans early late

section Change

variable (change : Change policy declaring before after)
include change

theorem Change.next_le : before.supply.next ≤ after.supply.next := by
  cases change with
  | remark remark => cases remark <;> exact le_rfl
  | supply _ grows => exact grows
  | declare _ rest => rw [rest]
  | _ => exact le_rfl

variable (obeys : before.Obeys policy)
include obeys

theorem Change.steps :
    ∃ params, Subst.Steps (policy.Fits before.supply.next) { before.subst with params }
      after.subst := by
  cases change with
  | remark remark => cases remark <;> exact ⟨_, .refl⟩
  | unify fitsExpected fitsFound =>
    exact ⟨_, obeys.closed.unify_steps Policy.hereditary_fits obeys.acyclic fitsExpected fitsFound⟩
  | declare _ rest => exact ⟨before.subst.params, by rw [rest]⟩
  | _ => exact ⟨_, .refl⟩

theorem Change.extends : before.subst.Extends after.subst := by
  obtain ⟨params, steps⟩ := change.steps obeys
  exact steps.extends

theorem Change.lookup {id : VarId} (bound : after.subst.lookup id = some ty) :
    before.subst.lookup id = some ty ∨
      policy.FitsIn before (.var id) ∧ policy.FitsIn before ty := by
  obtain ⟨params, steps⟩ := change.steps obeys
  exact steps.lookup bound

theorem Change.held :
    (∀ ty ∈ after.subst.params.values, policy.FitsIn after ty) ∧
    (∀ info ∈ after.locals.values, policy.FitsIn after info.ty) ∧
    (∀ ty ∈ after.declaredTypes, policy.FitsIn after ty) ∧
    ∀ info ∈ after.aliases.values, policy.Writes 0 info.target := by
  have grows := change.next_le
  cases change with
  | remark remark =>
    cases remark <;> exact ⟨obeys.params, obeys.locals, obeys.declared, obeys.aliases⟩
  | current _ => exact ⟨obeys.params, obeys.locals, obeys.declared, obeys.aliases⟩
  | supply supply _ =>
    refine ⟨fun ty member => ?_, fun info member => ?_, fun ty member => ?_, obeys.aliases⟩
    · exact (obeys.params ty member).raise grows
    · exact (obeys.locals info member).raise grows
    · exact (obeys.declared ty member).raise grows
  | locals locals fit =>
    refine ⟨obeys.params, fun info member => ?_, obeys.declared, obeys.aliases⟩
    rcases fit info member with ⟨old, oldMember, same⟩ | fits
    · exact same ▸ obeys.locals old oldMember
    · exact fits
  | params params fit =>
    refine ⟨fun ty member => ?_, obeys.locals, obeys.declared, obeys.aliases⟩
    exact (fit ty member).elim (obeys.params ty) id
  | unify fitsExpected fitsFound =>
    have same := (obeys.closed.unify_steps Policy.hereditary_fits obeys.acyclic fitsExpected
      fitsFound).params_eq
    refine ⟨?_, obeys.locals, obeys.declared, obeys.aliases⟩
    rw [same]
    exact obeys.params
  | declare _ rest types targets =>
    have sameSubst : after.subst = before.subst := by rw [rest]
    have sameLocals : after.locals = before.locals := by rw [rest]
    refine ⟨fun ty member => ?_, fun info member => ?_, fun ty member => ?_,
      fun info member => ?_⟩
    · exact (obeys.params ty (sameSubst ▸ member)).raise grows
    · exact (obeys.locals info (sameLocals ▸ member)).raise grows
    · exact ((types ty member).elim (obeys.declared ty) id).raise grows
    · rcases targets info member with ⟨old, oldMember, same⟩ | writes
      · exact same ▸ obeys.aliases old oldMember
      · exact writes

end Change

theorem Change.obeys (change : Change policy declaring before after) (obeys : before.Obeys policy) :
    after.Obeys policy := by
  have grows := change.next_le
  obtain ⟨_, steps⟩ := change.steps obeys
  obtain ⟨params, locals, declared, aliases⟩ := change.held obeys
  refine ⟨obeys.started.trans grows, steps.acyclic obeys.acyclic, ?_, params, locals, declared,
    aliases⟩
  intro id ty binding unexempt
  rcases change.lookup obeys binding with old | ⟨fitsVar, fits⟩
  · have ⟨fitsVar, fits⟩ := obeys.bound old unexempt
    exact ⟨fitsVar.raise grows, fits.raise grows⟩
  · exact ⟨fitsVar.raise grows, fits.raise grows⟩

section Changes

variable (changes : Changes policy declaring before after)
include changes

theorem Changes.next_le : before.supply.next ≤ after.supply.next := by
  induction changes with
  | refl => exact le_rfl
  | tail _ change ih => exact ih.trans change.next_le

theorem Changes.obeys (obeys : before.Obeys policy) : after.Obeys policy := by
  induction changes with
  | refl => exact obeys
  | tail _ change ih => exact change.obeys ih

theorem Changes.extends (obeys : before.Obeys policy) : before.subst.Extends after.subst := by
  induction changes with
  | refl => exact .refl _
  | tail changes change ih => exact ih.trans (change.extends (Changes.obeys changes obeys))

theorem Changes.fits (fits : policy.FitsIn before ty) : policy.FitsIn after ty :=
  fits.raise (changes.next_le)

theorem Changes.fitAll {types : List Ty} (fit : ∀ ty ∈ types, policy.FitsIn before ty) :
    ∀ ty ∈ types, policy.FitsIn after ty :=
  fun ty member => changes.fits (fit ty member)

theorem Changes.errorCount_le : before.log.errorCount ≤ after.log.errorCount := by
  induction changes with
  | refl => exact le_rfl
  | tail _ change ih =>
    refine ih.trans ?_
    cases change with
    | remark remark =>
      cases remark with
      | report diagnostic => exact Log.errorCount_le_add _ _
      | trace _ => exact le_rfl
    | declare _ rest => rw [rest]
    | _ => exact le_rfl

end Changes

theorem Changes.keepsFunctions (changes : Changes policy declaring before after) :
    KeepsFunctions before after := by
  induction changes with
  | refl => exact .of_same rfl rfl
  | tail _ change ih =>
    refine ih.trans ?_
    cases change with
    | remark remark => cases remark <;> exact .of_same rfl rfl
    | declare _ _ _ _ functions => exact functions
    | _ => exact .of_same rfl rfl

/-- All declarations are as they were. -/
structure SameDeclarations (before after : Checker) : Prop where
  structs : after.structs = before.structs
  enums : after.enums = before.enums
  globals : after.globals = before.globals
  signatures : after.signatures = before.signatures
  aliases : after.aliases = before.aliases
  registry : after.registry = before.registry

theorem Changes.sameDeclarations (changes : Changes policy false before after) :
    SameDeclarations before after := by
  induction changes with
  | refl => exact ⟨rfl, rfl, rfl, rfl, rfl, rfl⟩
  | tail _ change ih =>
    obtain ⟨structs, enums, globals, signatures, aliases, registry⟩ := ih
    cases change with
    | remark remark =>
      cases remark <;> exact ⟨structs, enums, globals, signatures, aliases, registry⟩
    | declare collecting => cases collecting
    | _ => exact ⟨structs, enums, globals, signatures, aliases, registry⟩

section Steps

variable {α β : Type} {step : CheckM α}

/-- A step that reads the state and may report or trace, but changes nothing else. -/
class Reads (step : CheckM α) : Prop where
  remarks : ∀ before, Relation.ReflTransGen Remark before (finish step before)

theorem changes_of_remarks (remarks : Relation.ReflTransGen Remark before after) :
    Changes policy declaring before after := by
  induction remarks with
  | refl => exact .refl
  | tail _ remark ih => exact ih.tail (.remark remark)

/-- A step only makes changes that a policy permits, and gives a good result if it gives one. -/
def Keeps (policy : Policy) (declaring : Bool) (step : CheckM α) (before : Checker)
    (good : α → Checker → Prop) : Prop :=
  before.Obeys policy →
    Changes policy declaring before (finish step before) ∧
      ∀ value after, step before = .ok value after → good value after

variable {good : α → Checker → Prop} {value : α}

theorem Keeps.changes (keeps : Keeps policy declaring step before good)
    (obeys : before.Obeys policy) (ran : step before = .ok value after) :
    Changes policy declaring before after :=
  finish_of_ok ran ▸ (keeps obeys).1

theorem Keeps.mono {good' : α → Checker → Prop} (keeps : Keeps policy declaring step before good)
    (weaker : ∀ value after, Changes policy declaring before after → good value after →
      good' value after) : Keeps policy declaring step before good' := by
  intro obeys
  refine ⟨(keeps obeys).1, fun value after ran => ?_⟩
  exact weaker value after (keeps.changes obeys ran) ((keeps obeys).2 value after ran)

theorem keeps_pure (holds : good value before) :
    Keeps policy declaring (pure value) before good := by
  intro _
  refine ⟨.refl, ?_⟩
  rintro _ _ ⟨⟩
  exact holds

theorem keeps_throw {fault : Fault} : Keeps policy declaring (throw fault) before good := by
  intro _
  refine ⟨.refl, ?_⟩
  rintro _ _ ⟨⟩

theorem keeps_bind {next : α → CheckM β} {good' : β → Checker → Prop}
    (first : Keeps policy declaring step before good)
    (second : ∀ value after, after.Obeys policy → Changes policy declaring before after →
      good value after → Keeps policy declaring (next value) after good') :
    Keeps policy declaring (step >>= next) before good' := by
  intro obeys
  have ⟨changes, result⟩ := first obeys
  rw [finish_bind]
  unfold finish at changes
  rcases ran : step before with ⟨value, middle⟩ | ⟨fault, middle⟩
  · rw [ran] at changes
    have obeysMiddle := changes.obeys obeys
    have ⟨more, last⟩ := second value middle obeysMiddle changes (result value middle ran)
      obeysMiddle
    refine ⟨changes.trans more, fun final after ranBoth => ?_⟩
    obtain ⟨_, _, ranFirst, ranSecond⟩ := bind_eq_ok.mp ranBoth
    cases ran.symm.trans ranFirst
    exact last final after ranSecond
  · rw [ran] at changes
    refine ⟨changes, fun final after ranBoth => ?_⟩
    obtain ⟨_, _, ranFirst, _⟩ := bind_eq_ok.mp ranBoth
    cases ran.symm.trans ranFirst

theorem keeps_get {next : Checker → CheckM α}
    (keeps : before.Obeys policy → Keeps policy declaring (next before) before good) :
    Keeps policy declaring (get >>= next) before good :=
  fun obeys => keeps obeys obeys

theorem keeps_modifyGet {change : Checker → α × Checker}
    (changes : before.Obeys policy → Changes policy declaring before (change before).2) :
    Keeps policy declaring (modifyGet change) before fun value after =>
      (value, after) = change before := by
  intro obeys
  refine ⟨changes obeys, ?_⟩
  rintro _ _ ⟨⟩
  rfl

theorem keeps_modify {change : Checker → Checker}
    (changes : before.Obeys policy → Changes policy declaring before (change before)) :
    Keeps policy declaring (modify change) before fun _ after => after = change before := by
  intro obeys
  refine ⟨changes obeys, ?_⟩
  rintro _ _ ⟨⟩
  rfl

theorem keeps_reads [reads : Reads step] :
    Keeps policy declaring step before fun _ after =>
      Relation.ReflTransGen Remark before after := by
  intro _
  have remarks := reads.remarks before
  exact ⟨changes_of_remarks remarks, fun value after ran => finish_of_ok ran ▸ remarks⟩

theorem keeps_forM {each : β → CheckM Unit} {list : List β}
    (keeps : ∀ value ∈ list, ∀ after, Changes policy declaring before after →
      Keeps policy declaring (each value) after fun _ _ => True) :
    Keeps policy declaring (list.forM each) before fun _ _ => True := by
  induction list generalizing before with
  | nil => exact keeps_pure trivial
  | cons value rest ih =>
    refine keeps_bind (keeps value List.mem_cons_self before .refl) ?_
    intro _ middle _ changes _
    refine ih fun other member after later => ?_
    exact keeps other (List.mem_cons_of_mem _ member) after (changes.trans later)

end Steps

instance : Steady (Relation.ReflTransGen Remark) where
  refl _ := .refl
  trans := .trans
  trace _ trace := .single (.trace trace)

instance : Reporting (Relation.ReflTransGen Remark) where
  report _ diagnostic := .single (.report diagnostic)

instance {α : Type} {step : CheckM α} [along : Along (Relation.ReflTransGen Remark) step] :
    Reads step :=
  ⟨along.ends⟩

end Checker

end TraitCheck
