import TraitCheck.Proofs.Unification.Growth

/-!
# Rebuilding types with a state

`Ty.rebuildWith` rebuilds the components of a type from left to right and then takes the image of
the type over them. What holds of the images holds of the whole: `Ty.rebuildWith_induction` speaks
of components only, whatever the former.
-/

namespace TraitCheck.Ty

def isRecord : Ty → Bool
  | .record _ => true
  | _ => false

variable {State : Type} {motive : Ty → State → Option Ty → State → Prop} {fields : Bool}
  {types types' rest : List Ty} {result : Option (List Ty)} {state middle after : State}

/-- Types are rebuilt from left to right, up to the first one without a result. Where they are the
fields of a record, none of them may be absent. -/
inductive Threads (motive : Ty → State → Option Ty → State → Prop) (fields : Bool) :
    List Ty → State → Option (List Ty) → State → Prop
  | nil {state : State} : Threads motive fields [] state (some []) state
  | cons {ty ty' : Ty} {rest : List Ty} {state middle after : State} {result : Option (List Ty)}
      (present : (fields && ty.isAbsent) = false) (head : motive ty state (some ty') middle)
      (tail : Threads motive fields rest middle result after) :
      Threads motive fields (ty :: rest) state (result.map (ty' :: ·)) after
  | stopped {ty : Ty} {rest : List Ty} {state middle : State}
      (present : (fields && ty.isAbsent) = false) (head : motive ty state none middle) :
      Threads motive fields (ty :: rest) state none middle
  | missing {rest : List Ty} {state : State} (record : fields = true) :
      Threads motive fields (absent :: rest) state none state

theorem Threads.append (first : Threads motive fields types state (some types') middle)
    (second : Threads motive fields rest middle result after) :
    Threads motive fields (types ++ rest) state (result.map (types' ++ ·)) after := by
  generalize reached : some types' = made at first
  induction first generalizing types' with
  | nil =>
    cases reached
    simpa using second
  | cons present head _ ih =>
    obtain ⟨tail', rfl, rfl⟩ := Option.map_eq_some_iff.mp reached.symm
    simpa [Function.comp_def] using Threads.cons present head (ih second rfl)
  | _ => cases reached

theorem Threads.append_stopped (first : Threads motive fields types state none middle) :
    Threads motive fields (types ++ rest) state none middle := by
  generalize reached : none = made at first
  induction first with
  | nil => cases reached
  | cons present head _ ih =>
    exact .cons present head (ih (Option.map_eq_none_iff.mp reached.symm).symm)
  | stopped present head => exact .stopped present head
  | missing record => exact .missing record

theorem Threads.length_eq (threads : Threads motive fields types state (some types') middle) :
    types.length = types'.length := by
  generalize reached : some types' = made at threads
  induction threads generalizing types' with
  | nil =>
    cases reached
    rfl
  | cons _ _ _ ih =>
    obtain ⟨tail', rfl, rfl⟩ := Option.map_eq_some_iff.mp reached.symm
    exact congrArg (· + 1) (ih rfl)
  | _ => cases reached

section Rebuild

variable {image : Ty → State → Option Ty × State}

theorem threads_rebuildListWith (rebuilt : rebuildListWith image types state = (result, after))
    (each : ∀ ty ∈ types, ∀ ⦃state made after⦄, ty.rebuildWith image state = (made, after) →
      motive ty state made after) : Threads motive false types state result after := by
  induction types generalizing state result after with
  | nil =>
    cases rebuilt
    exact .nil
  | cons ty rest ih =>
    rw [rebuildListWith] at rebuilt
    rcases first : ty.rebuildWith image state with ⟨_ | ty', middle⟩ <;> rw [first] at rebuilt
    · cases rebuilt
      exact .stopped rfl (each ty List.mem_cons_self first)
    · rcases further : rebuildListWith image rest middle with ⟨_ | rest', last⟩ <;>
        simp only [further] at rebuilt <;> cases rebuilt <;>
        exact .cons rfl (each ty List.mem_cons_self first)
          (ih further fun other member => each other (List.mem_cons_of_mem _ member))

theorem threads_rebuildRowWith {fields : Row} {result : Option Row}
    (rebuilt : rebuildRowWith image fields state = (result, after))
    (each : ∀ field ∈ fields, ∀ ⦃state made after⦄, field.2.rebuildWith image state =
      (made, after) → motive field.2 state made after) :
    Threads motive true (fields.map Prod.snd) state (result.map (·.map Prod.snd)) after ∧
      ∀ fields', result = some fields' → Row.labels fields = Row.labels fields' := by
  induction fields generalizing state result after with
  | nil =>
    cases rebuilt
    exact ⟨.nil, by rintro _ ⟨⟩; rfl⟩
  | cons field rest ih =>
    rcases field with ⟨label, ty⟩
    rw [rebuildRowWith] at rebuilt
    split at rebuilt
    · next missing =>
        cases rebuilt
        cases ty <;> cases missing
        exact ⟨.missing rfl, nofun⟩
    · next notAbsent =>
        have present : (true && ty.isAbsent) = false := by simpa using notAbsent
        rcases first : ty.rebuildWith image state with ⟨_ | ty', middle⟩ <;> rw [first] at rebuilt
        · cases rebuilt
          exact ⟨.stopped present (each (label, ty) List.mem_cons_self first), nofun⟩
        · have head := each (label, ty) List.mem_cons_self first
          rcases further : rebuildRowWith image rest middle with ⟨rest', last⟩
          obtain ⟨tail, labels⟩ :=
            ih further fun other member => each other (List.mem_cons_of_mem _ member)
          simp only [further] at rebuilt
          cases rest' <;> cases rebuilt <;> refine ⟨.cons present head tail, ?_⟩ <;> rintro _ ⟨⟩
          exact congrArg (label :: ·) (labels _ rfl)

/-- What holds of the image of each type over its rebuilt components, and of each type with a
component that stopped, holds of every rebuild. -/
theorem rebuildWith_induction
    (node : ∀ ⦃ty⦄ ty' ⦃state middle made after⦄, ty.sameFormer ty' = true →
      Threads motive ty.isRecord ty.parts state (some ty'.parts) middle →
        image ty' middle = (made, after) → motive ty state made after)
    (stopped : ∀ ⦃ty state middle⦄, Threads motive ty.isRecord ty.parts state none middle →
      motive ty state none middle)
    {ty : Ty} {made : Option Ty} (rebuilt : ty.rebuildWith image state = (made, after)) :
    motive ty state made after := by
  induction ty using Ty.induction generalizing state made after with
  | named decl args ih =>
    rw [rebuildWith] at rebuilt
    rcases further : rebuildListWith image args state with ⟨_ | args', middle⟩ <;>
      have inside := threads_rebuildListWith further fun arg member _ _ _ => ih arg member <;>
      rw [further] at rebuilt
    · cases rebuilt
      exact stopped inside
    · exact node (named decl args') (by simpa [sameFormer] using inside.length_eq) inside rebuilt
  | fn params result ihParams ihResult =>
    rw [rebuildWith] at rebuilt
    rcases further : rebuildListWith image params state with ⟨_ | params', middle⟩ <;>
      have inside :=
        threads_rebuildListWith further fun param member _ _ _ => ihParams param member <;>
      rw [further] at rebuilt
    · cases rebuilt
      exact stopped inside.append_stopped
    · rcases final : result.rebuildWith image middle with ⟨_ | result', last⟩ <;>
        simp only [final] at rebuilt
      · cases rebuilt
        exact stopped (inside.append (.stopped rfl (ihResult final)))
      · refine node (fn params' result') ?_
          (inside.append (.cons rfl (ihResult final) .nil)) rebuilt
        simpa [sameFormer] using inside.length_eq
  | tuple elems ih =>
    rw [rebuildWith] at rebuilt
    rcases further : rebuildListWith image elems state with ⟨_ | elems', middle⟩ <;>
      have inside := threads_rebuildListWith further fun elem member _ _ _ => ih elem member <;>
      rw [further] at rebuilt
    · cases rebuilt
      exact stopped inside
    · exact node (tuple elems') (by simpa [sameFormer] using inside.length_eq) inside rebuilt
  | record fields ih =>
    rw [rebuildWith] at rebuilt
    rcases further : rebuildRowWith image fields state with ⟨_ | fields', middle⟩ <;>
      obtain ⟨inside, labels⟩ := threads_rebuildRowWith further fun field member _ _ _ =>
        ih field member <;>
      rw [further] at rebuilt
    · cases rebuilt
      exact stopped inside
    · exact node (record fields') (by simpa [sameFormer] using labels fields' rfl) inside rebuilt
  | scheme names body ih =>
    rw [rebuildWith] at rebuilt
    rcases further : body.rebuildWith image state with ⟨_ | body', middle⟩ <;>
      rw [further] at rebuilt
    · cases rebuilt
      exact stopped (.stopped rfl (ih further))
    · exact node (scheme names body') (by simp [sameFormer]) (.cons rfl (ih further) .nil) rebuilt
  | _ => exact node _ (sameFormer_refl _) .nil rebuilt

end Rebuild

end TraitCheck.Ty
