import TraitCheck.Proofs.Check.Invariant

/-!
# The stages of a check

First the declarations are collected, then impls and functions are checked. The calls of the second
stage start with the declarations that the first one left, and only the check of all items makes
calls of both stages.
-/

namespace TraitCheck.Checker

/-- The stage to which a call belongs. Resolving and comparing types is part of collecting, wherever
it is done. -/
inductive Stage where
  | whole
  | collecting
  | checking

/-- The stage to which a procedure belongs. -/
def Task.stage : {α : Type} → Task α → Stage
  | _, .items _ => .whole
  | _, .collect _ | _, .declare _ | _, .aliasCycles _ | _, .members _ | _, .field _ _
  | _, .variant _ _ | _, .signature _ | _, .trait _ | _, .method _ | _, .assoc _ | _, .impl _
  | _, .binding _ | _, .resolve _ | _, .expect _ _ _ | _, .unify _ _ => .collecting
  | _, _ => .checking

namespace Walk

variable {α β : Type} {good : Call → Prop}

/-- All calls of a walk are good. -/
def CallsOnly (good : Call → Prop) (walk : Walk α) : Prop :=
  ∀ before, ∀ call ∈ walk.calls before, good call

theorem callsOnly_pure (value : α) : CallsOnly good (pure value : Walk α) := by
  rintro before call ⟨⟩

theorem callsOnly_step (plain : CheckM α) : CallsOnly good (step plain) := by
  rintro before call ⟨⟩

theorem callsOnly_call {task : Task α} (isGood : ∀ start, good ⟨task, start⟩) :
    CallsOnly good (call task) := by
  intro before call member
  cases List.mem_singleton.mp member
  exact isGood before

theorem CallsOnly.bind {walk : Walk α} {next : α → Walk β} (first : CallsOnly good walk)
    (second : ∀ value, CallsOnly good (next value)) : CallsOnly good (walk >>= next) := by
  intro before call member
  rw [calls_bind] at member
  split at member
  · rcases List.mem_append.mp member with early | late
    · exact first before call early
    · exact second _ _ call late
  · exact first before call member

theorem callsOnly_forM {each : β → Walk Unit} (inner : ∀ value, CallsOnly good (each value))
    (list : List β) : CallsOnly good (list.forM each) := by
  induction list with
  | nil => exact callsOnly_pure ()
  | cons value rest ih => exact (inner value).bind fun _ => ih

theorem callsOnly_mapM {each : β → Walk α} (inner : ∀ value, CallsOnly good (each value))
    (list : List β) : CallsOnly good (list.mapM each) := by
  induction list with
  | nil => exact callsOnly_pure []
  | cons value rest ih =>
    rw [List.mapM_cons]
    exact (inner value).bind fun _ => ih.bind fun _ => callsOnly_pure _

theorem callsOnly_compare {expected found : Ty} {handle : UnifyError → CheckM Unit}
    (isGood : ∀ start, good ⟨.unify expected found, start⟩) :
    CallsOnly good (compare expected found handle) := by
  refine (callsOnly_call isGood).bind fun failure => ?_
  cases failure with
  | none => exact callsOnly_pure ()
  | some error => exact callsOnly_step _

end Walk

open Walk in
theorem Task.callsOnly_collecting {α : Type} {task : Task α}
    (collecting : task.stage = .collecting) :
    CallsOnly (fun call => call.task.stage = .collecting) task.walk := by
  cases task with
  | collect all =>
    refine (callsOnly_forM (fun _ => callsOnly_call fun _ => rfl) _).bind fun _ => ?_
    refine (callsOnly_call fun _ => rfl).bind fun _ => ?_
    refine (callsOnly_forM (fun _ => callsOnly_call fun _ => rfl) _).bind fun _ => ?_
    refine (callsOnly_forM (fun _ => callsOnly_call fun _ => rfl) _).bind fun _ => ?_
    refine (callsOnly_forM (fun _ => callsOnly_call fun _ => rfl) _).bind fun _ => ?_
    exact callsOnly_forM (fun _ => callsOnly_call fun _ => rfl) _
  | members item =>
    cases item with
    | struct item | enum item => exact callsOnly_forM (fun _ => callsOnly_call fun _ => rfl) _
    | _ => exact callsOnly_pure ()
  | field item entry =>
    refine (callsOnly_step _).bind fun checker => ?_
    dsimp only
    split
    · exact callsOnly_step _
    · exact (callsOnly_call fun _ => rfl).bind fun _ => callsOnly_step _
  | variant item entry =>
    exact (callsOnly_mapM (fun _ => callsOnly_call fun _ => rfl) _).bind fun _ => callsOnly_step _
  | signature item =>
    refine (callsOnly_mapM (fun _ => callsOnly_call fun _ => rfl) _).bind fun _ => ?_
    exact (callsOnly_call fun _ => rfl).bind fun _ => callsOnly_step _
  | trait item =>
    refine (callsOnly_mapM (fun _ => callsOnly_call fun _ => rfl) _).bind fun _ => ?_
    refine (callsOnly_mapM (fun _ => callsOnly_call fun _ => rfl) _).bind fun _ => ?_
    exact callsOnly_step _
  | method decl =>
    refine (callsOnly_mapM (fun _ => callsOnly_call fun _ => rfl) _).bind fun _ => ?_
    exact (callsOnly_call fun _ => rfl).bind fun _ => callsOnly_pure _
  | assoc decl =>
    simp only [walk]
    split
    · exact (callsOnly_call fun _ => rfl).bind fun _ => callsOnly_pure _
    · exact callsOnly_pure _
  | impl item =>
    refine (callsOnly_call fun _ => rfl).bind fun _ => ?_
    refine (callsOnly_step _).bind fun _ => ?_
    refine (callsOnly_mapM (fun _ => callsOnly_call fun _ => rfl) _).bind fun _ => ?_
    exact callsOnly_step _
  | binding entry => exact (callsOnly_call fun _ => rfl).bind fun _ => callsOnly_pure _
  | expect expected found span => exact callsOnly_compare fun _ => rfl
  | declare item | aliasCycles aliases | resolve ty | unify expected found => exact callsOnly_step _
  | _ => cases collecting

/-- The state in which all declarations are collected. -/
def collected (settings : Settings) (items : List Item) : Checker :=
  finish (collect items) (initial settings)

theorem SameDeclarations.trans {first second third : Checker}
    (early : SameDeclarations first second)
    (late : SameDeclarations second third) : SameDeclarations first third where
  structs := late.structs.trans early.structs
  enums := late.enums.trans early.enums
  globals := late.globals.trans early.globals
  signatures := late.signatures.trans early.signatures
  aliases := late.aliases.trans early.aliases
  registry := late.registry.trans early.registry

/-- What is known of a call by its stage. -/
inductive Placed (settings : Settings) (items : List Item) : {α : Type} → Task α → Checker → Prop
  | whole : Placed settings items (.items items) (initial settings)
  | collecting {α : Type} {task : Task α} {start : Checker} (stage : task.stage = .collecting) :
      Placed settings items task start
  | checking {α : Type} {task : Task α} {start : Checker} (obeys : start.Obeys .any)
      (ready : Ready .any false task start)
      (same : SameDeclarations (collected settings items) start) :
      Placed settings items task start

theorem watches_checking (functions : List FunctionItem) (before : Checker) :
    Watches .any false
      (do
        Walk.call .impls
        functions.forM fun item => Walk.call (.function item))
      before fun _ _ => True := by
  refine (holds .impls).bind trivial fun _ _ _ _ => ?_
  exact watches_forM fun item _ _ _ => (holds (.function item)).call fun ty _ =>
    Policy.writes_any ty

theorem placed_of_whole {settings : Settings} {items : List Item} {call : Call}
    (called : call ∈ (Task.items items).walk.calls (initial settings)) :
    Placed settings items call.task call.start := by
  change call ∈ (Walk.call (.collect items) >>= _).calls _ at called
  rw [calls_bind] at called
  split at called
  · next middle ran =>
      rcases List.mem_append.mp called with early | late
      · cases List.mem_singleton.mp early
        exact .collecting rfl
      · have ended : collected settings items = middle := finish_of_ok ran
        have ready : Ready .any true (.collect items) (initial settings) :=
          ⟨rfl, fun _ _ ty _ => Policy.writes_any ty⟩
        have obeys : middle.Obeys .any := ended ▸ obeys_finish (obeys_initial rfl) ready
        have ⟨changes, ready⟩ := (watches_checking _ middle).ready obeys call late
        refine .checking (changes.obeys obeys) ready ?_
        exact ended ▸ changes.sameDeclarations
  · cases List.mem_singleton.mp called
    exact .collecting rfl

theorem placed_of_reached {settings : Settings} {items : List Item} {α : Type} {task : Task α}
    {start : Checker} (reached : Reached settings items task start) :
    Placed settings items task start := by
  induction reached with
  | start => exact .whole
  | call _ called ih =>
    cases ih with
    | whole => exact placed_of_whole called
    | collecting stage => exact .collecting (Task.callsOnly_collecting stage _ _ called)
    | checking obeys ready same =>
      have ⟨changes, readyCallee⟩ := (holds _ _ ready).ready obeys _ called
      exact .checking (changes.obeys obeys) readyCallee
        (same.trans (changes.sameDeclarations))

end TraitCheck.Checker
